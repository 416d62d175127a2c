/-
# `LinuxDrivers.Usb.BlockSession` — the loop of the request thread

`Tx_thread::entry` serves packet after packet, for ever.  `sessionStep` is this loop
around `jobStep`, with a log of what the client can see of it: the packets taken from
the sink and those acknowledged.  The client has a slot for each packet it submits and
gets it back with the acknowledgement, so a packet that is taken and never acknowledged
costs it the slot.

**Proved here.**

    the first n packets are each acknowledged exactly once, and before the next one is
      taken, iff all n can be served                       (`acknowledged_once_iff`)

The thread loses packets in two ways.  A packet out of range or with an unsupported
operation is skipped; a READ from a device that is gone, or of a block past its end, is
tried for ever, and the thread takes no packet after it.
-/
import LinuxDrivers.Usb.Request

namespace LinuxDrivers.Usb

open LinuxDrivers.Lib

/-! ## The code -/

/-- What the client sees: `get_packet` and `acknowledge_packet`, with the number of the
packet and its flag. -/
inductive Event where
  | get (packet : Nat)
  | acknowledge (packet : Nat) (succeeded : Bool)
  deriving DecidableEq, Repr

/-- The thread at packet number `packet`: before `get_packet`, or inside the loop's body.
The log has the last event first. -/
structure Session where
  packet : Nat
  job : Option Job
  log : List Event

def Session.start : Session := ⟨0, none, []⟩

/-- `requests k` is the `k`-th packet of the client, with what the thread finds while it
serves it. -/
def sessionStep (requests : Nat → Request) (s : Session) : Session :=
  match s.job with
  | none => { s with job := some .start, log := .get s.packet :: s.log }
  | some job =>
      match job.pc with
      | .ack b =>
          { s with
            job := some (jobStep (requests s.packet) job)
            log := .acknowledge s.packet b :: s.log }
      | .acked _ | .dropped => { s with packet := s.packet + 1, job := none }
      | _ => { s with job := some (jobStep (requests s.packet) job) }

/-! ## Exactly-once acknowledgement -/

/-- The log of `n` packets each acknowledged once, before the next one is taken. -/
def OnceEach : Nat → List Event → Prop
  | 0, [] => True
  | n + 1, .acknowledge k _ :: .get k' :: log => k = n ∧ k' = n ∧ OnceEach n log
  | _, _ => False

/-- The thread comes back to `get_packet` after the first `n` packets, and has
acknowledged each of them exactly once and before it took the next one. -/
def AcknowledgedOnce (requests : Nat → Request) (n : Nat) : Prop :=
  ∃ log, Leads (sessionStep requests) .start ⟨n, none, log⟩ ∧ OnceEach n log

theorem OnceEach.mem {n : Nat} {log : List Event} (h : OnceEach n log) :
    ∀ k < n, ∃ b, Event.acknowledge k b ∈ log := by
  intro k hk
  induction n, log using OnceEach.induct with
  | case1 => exact absurd hk (Nat.not_lt_zero _)
  | case2 n k₁ b k₂ log ih =>
      obtain ⟨rfl, -, hlog⟩ := h
      rcases Nat.lt_or_eq_of_le (Nat.le_of_lt_succ hk) with hlt | rfl
      · obtain ⟨b', hmem⟩ := ih hlog hlt
        exact ⟨b', List.mem_cons_of_mem _ (List.mem_cons_of_mem _ hmem)⟩
      · exact ⟨b, List.mem_cons_self⟩
  | case3 n log _ _ => simp_all only [OnceEach]

section
variable {requests : Nat → Request} {k : Nat}

/-- The loop's body follows the packet's own steps to its acknowledgement. -/
theorem body_leads {b : Bool} {calls : List IoCall} : ∀ (n : Nat) (job : Job) (log : List Event),
    (∀ b', job.pc ≠ .acked b') → (jobStep (requests k))^[n] job = ⟨.acked b, calls⟩ →
      Leads (sessionStep requests) ⟨k, some job, log⟩ ⟨k + 1, none, .acknowledge k b :: log⟩ := by
  intro n
  induction n with
  | zero =>
      rintro job log hne rfl
      exact absurd rfl (hne b)
  | succ n ih =>
      intro job log hne hsteps
      rw [Function.iterate_succ_apply] at hsteps
      obtain ⟨pc, made⟩ := job
      cases pc with
      | ack b' =>
          -- from here the packet rests, so its flag is the one acknowledged
          have hrest : jobStep (requests k) ⟨.acked b', made⟩ = ⟨.acked b', made⟩ := rfl
          have heq : (⟨.acked b', made⟩ : Job) = ⟨.acked b, calls⟩ := by
            rw [← hsteps]
            exact (Function.iterate_fixed hrest n).symm
          cases heq
          exact ⟨2, rfl⟩
      | acked b' => exact absurd rfl (hne b')
      | dropped =>
          have hrest : jobStep (requests k) ⟨.dropped, made⟩ = ⟨.dropped, made⟩ := rfl
          rw [hrest, Function.iterate_fixed hrest] at hsteps
          cases hsteps
      | valid | check | dispatch | readBlock buf i j | writeBlock buf i =>
          refine Leads.head (ih _ log ?_ hsteps)
          intro b'
          simp only [jobStep]
          split <;> (try split) <;> simp

/-- A packet that can be served is taken, served and acknowledged. -/
theorem packet_leads (h : Acknowledged (requests k)) (log : List Event) :
    ∃ b, Leads (sessionStep requests) ⟨k, none, log⟩
      ⟨k + 1, none, .acknowledge k b :: .get k :: log⟩ := by
  obtain ⟨b, calls, n, hn⟩ := h
  exact ⟨b, Leads.head (body_leads n .start _ nofun hn)⟩

/-- What the thread does with a packet is what the packet's own steps do, and it
acknowledges no packet that they do not. -/
structure SessionInv (requests : Nat → Request) (s : Session) : Prop where
  job : ∀ job ∈ s.job, Leads (jobStep (requests s.packet)) .start job
  log : ∀ k b, Event.acknowledge k b ∈ s.log → Acknowledged (requests k)

theorem SessionInv.enter (requests : Nat → Request) : SessionInv requests .start where
  job := by
    intro job hjob
    cases hjob
  log := by
    intro k b hmem
    cases hmem

theorem SessionInv.step {s : Session} (h : SessionInv requests s) :
    SessionInv requests (sessionStep requests s) := by
  obtain ⟨packet, cur, log⟩ := s
  obtain ⟨hjob, hlog⟩ := h
  cases cur with
  | none =>
      refine ⟨?_, ?_⟩
      · rintro job ⟨⟩
        exact Leads.refl _
      · intro k b hmem
        rcases List.mem_cons.mp hmem with hget | hmem
        · cases hget
        · exact hlog k b hmem
  | some cur =>
      have hnext : Leads (jobStep (requests packet)) .start (jobStep (requests packet) cur) :=
        (hjob cur rfl).trans ⟨1, rfl⟩
      obtain ⟨pc, calls⟩ := cur
      cases pc with
      | ack b =>
          refine ⟨?_, ?_⟩
          · rintro job ⟨⟩
            exact hnext
          · intro k b' hmem
            rcases List.mem_cons.mp hmem with hack | hmem
            · cases hack
              exact ⟨b, calls, hnext⟩
            · exact hlog k b' hmem
      | acked b | dropped =>
          refine ⟨?_, hlog⟩
          intro job hnone
          cases hnone
      | valid | check | dispatch | readBlock buf i j | writeBlock buf i =>
          refine ⟨?_, hlog⟩
          rintro job ⟨⟩
          exact hnext

theorem AcknowledgedOnce.acknowledged {n : Nat} (h : AcknowledgedOnce requests n) :
    ∀ k < n, Acknowledged (requests k) := by
  intro k hk
  obtain ⟨log, hleads, honce⟩ := h
  have hinv := Leads.invariant (SessionInv.enter requests) (fun s hs => hs.step) hleads
  obtain ⟨b, hmem⟩ := honce.mem k hk
  exact hinv.log k b hmem

end

/-- **Exactly-once acknowledgement.**  The first `n` packets of a session are each
acknowledged exactly once, and before the next one is taken, if and only if each of them
can be served: it passes the range check and is a WRITE, or a READ whose blocks the host
takes in the end. -/
theorem acknowledged_once_iff (requests : Nat → Request) (n : Nat) :
    AcknowledgedOnce requests n ↔ ∀ k < n, (requests k).Servable := by
  constructor
  · intro h k hk
    exact (acknowledged_iff_servable _).mp (h.acknowledged k hk)
  · induction n with
    | zero =>
        intro _
        exact ⟨[], Leads.refl _, trivial⟩
    | succ n ih =>
        intro hserve
        obtain ⟨log, hleads, honce⟩ := ih (fun k hk => hserve k (Nat.lt_succ_of_lt hk))
        have hack := (acknowledged_iff_servable _).mpr (hserve n (Nat.lt_succ_self n))
        obtain ⟨b, hpacket⟩ := packet_leads hack log
        exact ⟨_, hleads.trans hpacket, rfl, rfl, honce⟩

/-- A packet that is valid and in range, with an operation the thread does not know. -/
def unsupported : Request := { busyWrite with packet := ⟨true, .other 2, 0, 1⟩ }

/-- A READ of the block after the last one. -/
def pastEnd : Request := { busyWrite with packet := ⟨true, .read, 10, 1⟩ }

/-- **Packets are lost.**  An unsupported operation, and a packet out of range: both are
valid, and neither is acknowledged. -/
theorem packets_lost :
    (unsupported.packet.valid = true ∧ ¬ AcknowledgedOnce (fun _ => unsupported) 1) ∧
      pastEnd.packet.valid = true ∧ ¬ AcknowledgedOnce (fun _ => pastEnd) 1 := by
  have hlost : ∀ r : Request, r.entry = .dropped → ¬ AcknowledgedOnce (fun _ => r) 1 := by
    intro r hentry honce
    exact not_acknowledged_of_dropped hentry (honce.acknowledged 0 Nat.one_pos)
  exact ⟨⟨rfl, hlost _ rfl⟩, rfl, hlost _ rfl⟩

end LinuxDrivers.Usb
