/-
# `LinuxDrivers.AudioOut.Flush` — flushing a session while it is played

Both threads of the audio-out driver take packets from the sessions' streams, and no
lock keeps them apart:

    flush       while (packet_avail())  acknowledge_packet(get_packet())
    playback    p[c] = get_packet()  for each channel;  play;
                if (p[c].valid())  acknowledge_packet(p[c])  for each channel

`get_packet` waits while there is no packet.  The answer of `packet_avail` is out of date
once the playback thread has taken the packet it was about.

The sessions come and go as in `LinuxDrivers.AudioOut.Session`: a `System` is a state of
the driver with the streams of the two channels, and what each thread has in its hands.
Acknowledgements are not bounded: a client that does not collect them is not modelled.

**Proved here.**

    flush never waits, and every packet is acknowledged once or still on its way to it, iff
      playback never takes the packet flush is about to take, if it is the last one, and
      never plays an invalid packet                       (`flush_never_waits_iff`)
    left alone, flush returns with every queued packet acknowledged
                                                          (`flush_returns`)
-/
import LinuxDrivers.AudioOut.Session
import Mathlib.Data.List.Range

namespace LinuxDrivers.AudioOut

open LinuxDrivers.Lib

/-! ## Packet streams -/

/-- A packet: its number in the stream, and `valid()`. -/
structure Packet where
  number : Nat
  valid : Bool
  deriving DecidableEq, Repr

/-- `channel()` of a session. -/
structure Channel where
  /-- how many packets the client has submitted -/
  submitted : Nat
  queue : List Packet
  /-- the packets acknowledged, the last one first -/
  acknowledged : List Nat
  deriving DecidableEq, Repr

namespace Channel

def empty : Channel := ⟨0, [], []⟩

def packetAvail (ch : Channel) : Bool := !ch.queue.isEmpty

/-- `none` while it waits -/
def getPacket (ch : Channel) : Option (Packet × Channel) :=
  match ch.queue with
  | [] => none
  | p :: queue => some (p, { ch with queue := queue })

def acknowledgePacket (ch : Channel) (p : Packet) : Channel :=
  { ch with acknowledged := p.number :: ch.acknowledged }

/-- The client submits a packet. -/
def submitPacket (ch : Channel) (valid : Bool) : Channel :=
  { ch with
    submitted := ch.submitted + 1
    queue := ch.queue ++ [⟨ch.submitted, valid⟩] }

end Channel

/-! ## The two threads and the streams -/

/-- Where the entrypoint thread is in `flush` of the session of channel `c`. -/
inductive Flushing where
  | idle
  | packetAvail (c : ChannelNumber)
  | getPacket (c : ChannelNumber)
  | acknowledge (c : ChannelNumber) (p : Packet)
  deriving DecidableEq, Repr

structure System where
  driver : State
  /-- the streams of the sessions -/
  channel : ChannelNumber → Channel
  flushing : Flushing
  /-- `p` of the playback thread -/
  packets : ChannelNumber → Option Packet

inductive SystemAction where
  /-- an action of the driver: sessions come and go, or playback goes on -/
  | driver (a : Action)
  | submit (c : ChannelNumber) (valid : Bool)
  | flush (c : ChannelNumber)
  /-- the thread in `flush` goes on -/
  | flushing
  deriving DecidableEq, Repr

/-- What the playback thread does with a stream. -/
inductive Access where
  | get (c : ChannelNumber)
  | acknowledge (c : ChannelNumber)
  deriving DecidableEq, Repr

def Player.access : Player → Option Access
  | .play _ _ .getLeft => some (.get .left)
  | .play _ _ .getRight => some (.get .right)
  | .play _ _ .ackLeft => some (.acknowledge .left)
  | .play _ _ .ackRight => some (.acknowledge .right)
  | _ => none

def stepFlush (s : System) : Option System :=
  match s.flushing with
  | .idle => none
  | .packetAvail c =>
      some { s with flushing := if (s.channel c).packetAvail then .getPacket c else .idle }
  | .getPacket c =>
      match (s.channel c).getPacket with
      | none => none
      | some (p, ch) =>
          some { s with channel := Function.update s.channel c ch
                        flushing := .acknowledge c p }
  | .acknowledge c p =>
      some { s with channel := Function.update s.channel c ((s.channel c).acknowledgePacket p)
                    flushing := .packetAvail c }

/-- `if (p.valid()) acknowledge_packet(p)` -/
def Channel.acknowledgeValid (ch : Channel) : Option Packet → Channel
  | some p => if p.valid then ch.acknowledgePacket p else ch
  | none => ch

/-- A step of the playback thread, with what it does to the streams. -/
def stepPlayback (s : System) : Option System :=
  match stepPlayer s.driver with
  | none => none
  | some d =>
      match s.driver.player.access with
      | none => some { s with driver := d }
      | some (.get c) =>
          match (s.channel c).getPacket with
          | none => none
          | some (p, ch) =>
              some { s with driver := d
                            channel := Function.update s.channel c ch
                            packets := Function.update s.packets c (some p) }
      | some (.acknowledge c) =>
          some { s with driver := d
                        channel := Function.update s.channel c
                          ((s.channel c).acknowledgeValid (s.packets c))
                        packets := Function.update s.packets c none }

/-- The streams after a step of the entrypoint thread: a session is constructed with a new
one. -/
def System.opened (s : System) : ChannelNumber → Channel :=
  match s.driver.entrypoint with
  | .construct o => Function.update s.channel o.channel .empty
  | _ => s.channel

section
variable (sessionSize : Word) (audioOutActive : Bool)

/-- The client uses a session it has; `flush`, like everything else the entrypoint thread does,
finds it idle. -/
def systemStep (s : System) : SystemAction → Option System
  | .driver .player => stepPlayback s
  | .driver a =>
      if s.flushing ≠ .idle then none
      else
        match step sessionSize audioOutActive s.driver a with
        | none => none
        | some d => some { s with driver := d, channel := s.opened }
  | .submit c valid =>
      if c ∈ s.driver.sessions.map (·.channel) then
        some { s with channel := Function.update s.channel c ((s.channel c).submitPacket valid) }
      else none
  | .flush c =>
      if s.flushing = .idle ∧ s.driver.entrypoint = .idle ∧
          c ∈ s.driver.sessions.map (·.channel) then
        some { s with flushing := .packetAvail c }
      else none
  | .flushing => stepFlush s

def System.initial : System := ⟨AudioOut.initial, fun _ => .empty, .idle, fun _ => none⟩

def system : Machine System SystemAction where
  init s := s = .initial
  step := systemStep sessionSize audioOutActive

end

/-! ## What is to hold -/

/-- Every packet of the stream is acknowledged, in one of the given hands or queued: exactly
one of these, and once. -/
def Channel.Accounted (ch : Channel) (hands : List Packet) : Prop :=
  (ch.acknowledged ++ (hands ++ ch.queue).map (·.number)).Perm (List.range ch.submitted)

/-- What the thread in `flush` has taken from the stream of `c`. -/
def Flushing.hand (f : Flushing) (c : ChannelNumber) : List Packet :=
  match f with
  | .acknowledge c' p => if c' = c then [p] else []
  | _ => []

/-- What the threads have taken from the stream of `c` and not acknowledged. -/
def System.hands (s : System) (c : ChannelNumber) : List Packet :=
  (s.packets c).toList ++ s.flushing.hand c

structure FlushSafe (s : System) : Prop where
  /-- the thread in `flush` does not wait -/
  runs : s.flushing ≠ .idle → (stepFlush s).isSome = true
  once : ∀ c, (s.channel c).Accounted (s.hands c)

/-- The condition, on the steps of the playback thread: it takes no last packet that `flush` is
about to take, and the packets it has played are valid. -/
def undisturbed (s : System) : SystemAction → Bool
  | .driver .player =>
      match s.driver.player.access with
      | none => true
      | some (.get c) => !(s.flushing == .getPacket c && (s.channel c).queue.length == 1)
      | some (.acknowledge c) => (s.packets c).all (·.valid)
  | _ => true

/-! ## Accounts -/

namespace Channel

variable {ch : Channel} {hands : List Packet} {p : Packet}

theorem accounted_empty : empty.Accounted [] := .refl _

theorem Accounted.congr {hands' : List Packet} (h : ch.Accounted hands)
    (hperm : hands.Perm hands') : ch.Accounted hands' :=
  (((hperm.symm.append_right _).map _).append_left _).trans h

/-- A packet is taken. -/
theorem accounted_get {queue : List Packet} (hq : ch.queue = p :: queue)
    (h : ch.Accounted hands) : Accounted { ch with queue := queue } (p :: hands) := by
  have hmove : (p :: hands ++ queue).Perm (hands ++ ch.queue) := by
    rw [hq]
    exact List.perm_middle.symm
  exact ((hmove.map _).append_left _).trans h

/-- A packet is acknowledged. -/
theorem accounted_acknowledge (h : ch.Accounted (p :: hands)) :
    (ch.acknowledgePacket p).Accounted hands :=
  List.perm_middle.symm.trans h

theorem accounted_submit (valid : Bool) (h : ch.Accounted hands) :
    (ch.submitPacket valid).Accounted hands := by
  show (ch.acknowledged ++ (hands ++ (ch.queue ++ [_])).map _).Perm (List.range (ch.submitted + 1))
  rw [List.range_succ, ← List.append_assoc, List.map_append, ← List.append_assoc]
  exact h.append_right _

/-- A packet that is dropped is missing. -/
theorem not_accounted_drop (h : ch.Accounted (p :: hands)) : ¬ ch.Accounted hands := by
  intro hdrop
  have hlen := h.length_eq.trans hdrop.length_eq.symm
  simp only [List.length_append, List.length_map, List.length_cons] at hlen
  omega

theorem getPacket_eq_some {q : Packet × Channel} :
    ch.getPacket = some q ↔
      ∃ queue, ch.queue = q.1 :: queue ∧ q.2 = { ch with queue := queue } := by
  obtain ⟨p, ch'⟩ := q
  unfold getPacket
  cases hq : ch.queue with
  | nil => simp
  | cons p' queue =>
      simp only [Option.some.injEq, Prod.mk.injEq, List.cons.injEq]
      constructor
      · rintro ⟨rfl, rfl⟩
        exact ⟨queue, ⟨rfl, rfl⟩, rfl⟩
      · rintro ⟨_, ⟨rfl, rfl⟩, rfl⟩
        exact ⟨rfl, rfl⟩

end Channel

/-! ## The playback thread -/

/-- Whether the playback thread has taken a packet of this channel and not come to its
acknowledgement. -/
def Player.holds : Player → ChannelNumber → Bool
  | .play _ _ .getRight, c => c == .left
  | .play _ _ .write, _ | .play _ _ .ackLeft, _ => true
  | .play _ _ .ackRight, c => c == .right
  | _, _ => false

theorem Player.held_of_holds {player : Player} {c : ChannelNumber} (h : player.holds c = true) :
    player.held = 2 := by
  cases player with
  | play left right stage => rfl
  | down i | loadLeft | loadRight left | up i => cases h

section
variable {d d' : State} {sessionSize : Word} {audioOutActive : Bool}

theorem stepPlayer_holds (hstep : stepPlayer d = some d') :
    d'.player.holds = match d.player.access with
      | none => d.player.holds
      | some (.get c) => Function.update d.player.holds c true
      | some (.acknowledge c) => Function.update d.player.holds c false := by
  funext c
  unfold stepPlayer at hstep
  cases hp : d.player with
  | down i =>
      cases hsema : d.channelSema with
      | zero =>
          rw [hp, hsema] at hstep
          cases hstep
      | succ n =>
          rw [hp, hsema] at hstep
          cases hstep
          cases i <;> rfl
  | play left right stage =>
      rw [hp] at hstep
      cases stage <;> cases hstep <;> cases c <;> rfl
  | loadLeft | loadRight _ =>
      rw [hp] at hstep
      cases hstep
      rfl
  | up i =>
      rw [hp] at hstep
      cases hstep
      cases i <;> rfl

/-- No packet is in the place where the next one is put. -/
theorem Player.holds_of_get {player : Player} {c : ChannelNumber}
    (h : player.access = some (.get c)) : player.holds c = false := by
  cases player with
  | play left right stage => cases stage <;> cases h <;> rfl
  | down i | loadLeft | loadRight left | up i => cases h

theorem Player.holds_of_acknowledge {player : Player} {c : ChannelNumber}
    (h : player.access = some (.acknowledge c)) : player.holds c = true := by
  cases player with
  | play left right stage => cases stage <;> cases h <;> rfl
  | down i | loadLeft | loadRight left | up i => cases h

/-- The entrypoint thread leaves the playback thread where it is. -/
theorem step_player {a : Action} (ha : a ≠ .player)
    (hstep : step sessionSize audioOutActive d a = some d') : d'.player = d.player := by
  cases a with
  | player => exact absurd rfl ha
  | request args memory =>
      simp only [step] at hstep
      split at hstep
      · cases hstep
      · split at hstep
        · split at hstep <;> cases hstep
          rfl
        · cases hstep
          rfl
  | close addr =>
      simp only [step] at hstep
      split at hstep
      · cases hstep
      · split at hstep <;> cases hstep
        rfl
  | entrypoint =>
      simp only [step, stepEntrypoint] at hstep
      split at hstep
      · cases hstep
      · cases hstep
        rfl
      · cases hstep
        rfl
      · split at hstep <;> cases hstep
        rfl
      · cases hstep
        rfl
      · cases hstep
        rfl

end

/-! ## The invariant -/

structure SystemInv (s : System) : Prop where
  driver : Inv s.driver
  busy : s.flushing ≠ .idle → s.driver.entrypoint = .idle
  held : ∀ c, (s.packets c).isSome = s.driver.player.holds c
  avail : ∀ c, s.flushing = .getPacket c → (s.channel c).queue ≠ []
  once : ∀ c, (s.channel c).Accounted (s.hands c)

theorem SystemInv.initial : SystemInv .initial where
  driver := Inv.initial
  busy := fun h => absurd rfl h
  held := fun _ => rfl
  avail := nofun
  once := fun _ => Channel.accounted_empty

section
variable {s s' : System}

/-- A thread that has found a packet, and is alone in taking it, goes on. -/
theorem stepFlush_isSome (hne : s.flushing ≠ .idle) :
    (stepFlush s).isSome = true ↔ ∀ c, s.flushing = .getPacket c → (s.channel c).queue ≠ [] := by
  unfold stepFlush
  cases hf : s.flushing with
  | idle => exact absurd hf hne
  | packetAvail c => exact iff_of_true rfl nofun
  | acknowledge c p => exact iff_of_true rfl nofun
  | getPacket c =>
      simp only [Flushing.getPacket.injEq, forall_eq']
      unfold Channel.getPacket
      cases (s.channel c).queue <;> simp

theorem SystemInv.safe (h : SystemInv s) : FlushSafe s :=
  ⟨fun hne => (stepFlush_isSome hne).mpr h.avail, h.once⟩

/-- A thread that does not wait finds the packet it is about to take. -/
theorem FlushSafe.avail (h : FlushSafe s) {c : ChannelNumber} (hget : s.flushing = .getPacket c) :
    (s.channel c).queue ≠ [] := by
  have hne : s.flushing ≠ .idle := by
    rw [hget]
    exact nofun
  exact (stepFlush_isSome hne).mp (h.runs hne) c hget

theorem SystemInv.flush_step (h : SystemInv s) (hstep : stepFlush s = some s') :
    SystemInv s' := by
  have hidle := h.busy
  have honce := h.once
  unfold stepFlush at hstep
  cases hf : s.flushing with
  | idle =>
      rw [hf] at hstep
      cases hstep
  | packetAvail c =>
      simp only [hf, System.hands, Flushing.hand] at hstep hidle honce
      cases hstep
      refine ⟨h.driver, fun _ => hidle nofun, h.held, ?_, ?_⟩
      · intro c' hget
        cases hq : (s.channel c).queue with
        | nil => simp [Channel.packetAvail, hq] at hget
        | cons p queue =>
            simp only [Channel.packetAvail, hq, List.isEmpty_cons, Bool.not_false, if_true,
              Flushing.getPacket.injEq] at hget
            subst hget
            rw [hq]
            exact List.cons_ne_nil _ _
      · intro c'
        simp only [System.hands]
        split <;> exact honce c'
  | getPacket c =>
      simp only [hf, System.hands, Flushing.hand] at hstep hidle honce
      cases hget : (s.channel c).getPacket with
      | none =>
          rw [hget] at hstep
          cases hstep
      | some q =>
          rw [hget] at hstep
          cases hstep
          obtain ⟨p, ch⟩ := q
          obtain ⟨queue, hqueue, rfl⟩ := Channel.getPacket_eq_some.mp hget
          refine ⟨h.driver, fun _ => hidle nofun, h.held, nofun, ?_⟩
          intro c'
          simp only [System.hands, Flushing.hand]
          by_cases hc : c' = c
          · subst hc
            rw [Function.update_self, if_pos rfl]
            refine (Channel.accounted_get hqueue (honce c')).congr ?_
            rw [List.append_nil]
            exact (List.perm_append_singleton p _).symm
          · rw [Function.update_of_ne hc, if_neg (Ne.symm hc)]
            exact honce c'
  | acknowledge c p =>
      simp only [hf, System.hands, Flushing.hand] at hstep hidle honce
      cases hstep
      refine ⟨h.driver, fun _ => hidle nofun, h.held, nofun, ?_⟩
      intro c'
      have honce' := honce c'
      simp only [System.hands, Flushing.hand]
      by_cases hc : c' = c
      · subst hc
        rw [if_pos rfl] at honce'
        rw [Function.update_self, List.append_nil]
        exact Channel.accounted_acknowledge (honce'.congr (List.perm_append_singleton p _))
      · rw [if_neg (Ne.symm hc)] at honce'
        rw [Function.update_of_ne hc]
        exact honce'

/-- What a step of the playback thread can do. -/
theorem stepPlayback_cases (hstep : stepPlayback s = some s') :
    ∃ d, stepPlayer s.driver = some d ∧
      match s.driver.player.access with
      | none => s' = { s with driver := d }
      | some (.get c) => ∃ p queue, (s.channel c).queue = p :: queue ∧
          s' = { s with
            driver := d
            channel := Function.update s.channel c { s.channel c with queue := queue }
            packets := Function.update s.packets c (some p) }
      | some (.acknowledge c) =>
          s' = { s with
            driver := d
            channel := Function.update s.channel c
              ((s.channel c).acknowledgeValid (s.packets c))
            packets := Function.update s.packets c none } := by
  unfold stepPlayback at hstep
  cases hd : stepPlayer s.driver with
  | none =>
      rw [hd] at hstep
      cases hstep
  | some d =>
      rw [hd] at hstep
      refine ⟨d, rfl, ?_⟩
      cases hacc : s.driver.player.access with
      | none =>
          rw [hacc] at hstep
          cases hstep
          rfl
      | some access =>
          rw [hacc] at hstep
          cases access with
          | acknowledge c =>
              cases hstep
              rfl
          | get c =>
              cases hget : (s.channel c).getPacket with
              | none =>
                  simp only [hget] at hstep
                  cases hstep
              | some q =>
                  simp only [hget] at hstep
                  cases hstep
                  obtain ⟨queue, hqueue, hch⟩ := Channel.getPacket_eq_some.mp hget
                  exact ⟨q.1, queue, hqueue, by rw [hch]⟩

/-- A step of the playback thread that concerns one channel. -/
theorem SystemInv.touch (h : SystemInv s) {d : State} (hd : stepPlayer s.driver = some d)
    {c : ChannelNumber} {ch : Channel} {p : Option Packet}
    (hholds : d.player.holds = Function.update s.driver.player.holds c p.isSome)
    (havail : s.flushing = .getPacket c → ch.queue ≠ [])
    (honce : ch.Accounted (p.toList ++ s.flushing.hand c)) :
    SystemInv { s with
      driver := d
      channel := Function.update s.channel c ch
      packets := Function.update s.packets c p } where
  driver := stepPlayer_inv h.driver hd
  busy := fun hne => (stepPlayer_frame hd).1.trans (h.busy hne)
  held := by
    intro c'
    show (Function.update s.packets c p c').isSome = d.player.holds c'
    rw [hholds]
    by_cases hc : c' = c
    · subst hc
      rw [Function.update_self, Function.update_self]
    · rw [Function.update_of_ne hc, Function.update_of_ne hc]
      exact h.held c'
  avail := (Function.forall_update_iff s.channel
    (fun c' (ch : Channel) => s.flushing = .getPacket c' → ch.queue ≠ [])).mpr
      ⟨havail, fun c' _ => h.avail c'⟩
  once := by
    intro c'
    show (Function.update s.channel c ch c').Accounted
      ((Function.update s.packets c p c').toList ++ s.flushing.hand c')
    by_cases hc : c' = c
    · subst hc
      rw [Function.update_self, Function.update_self]
      exact honce
    · rw [Function.update_of_ne hc, Function.update_of_ne hc]
      exact h.once c'

/-- In front of `get_packet` the playback thread has no packet of this channel. -/
theorem SystemInv.hands_of_get (h : SystemInv s) {c : ChannelNumber}
    (hacc : s.driver.player.access = some (.get c)) : s.hands c = s.flushing.hand c := by
  have hnone : s.packets c = none := by
    rw [← Option.not_isSome_iff_eq_none, h.held, Player.holds_of_get hacc]
    exact Bool.false_ne_true
  rw [System.hands, hnone]
  rfl

/-- In front of an acknowledgement it has one. -/
theorem SystemInv.packet_of_acknowledge (h : SystemInv s) {c : ChannelNumber}
    (hacc : s.driver.player.access = some (.acknowledge c)) :
    ∃ p, s.packets c = some p ∧ (s.channel c).Accounted (p :: s.flushing.hand c) := by
  have hsome : (s.packets c).isSome = true := by
    rw [h.held]
    exact Player.holds_of_acknowledge hacc
  obtain ⟨p, hp⟩ := Option.isSome_iff_exists.mp hsome
  have honce := h.once c
  rw [System.hands, hp] at honce
  exact ⟨p, hp, honce⟩

theorem SystemInv.playback (h : SystemInv s) (hok : undisturbed s (.driver .player) = true)
    (hstep : stepPlayback s = some s') : SystemInv s' := by
  obtain ⟨d, hd, hcase⟩ := stepPlayback_cases hstep
  have hholds := stepPlayer_holds hd
  simp only [undisturbed] at hok
  cases hacc : s.driver.player.access with
  | none =>
      rw [hacc] at hcase hholds
      subst hcase
      exact ⟨stepPlayer_inv h.driver hd, fun hne => (stepPlayer_frame hd).1.trans (h.busy hne),
        fun c => (h.held c).trans (congrFun hholds c).symm, h.avail, h.once⟩
  | some access =>
      rw [hacc] at hcase hholds hok
      cases access with
      | get c =>
          obtain ⟨p, queue, hqueue, rfl⟩ := hcase
          have honce := h.once c
          rw [h.hands_of_get hacc] at honce
          refine h.touch hd hholds ?_ (Channel.accounted_get hqueue honce)
          -- it was not the last packet
          rintro hget rfl
          simp [hget, hqueue] at hok
      | acknowledge c =>
          subst hcase
          obtain ⟨p, hp, honce⟩ := h.packet_of_acknowledge hacc
          have hvalid : p.valid = true := by simpa [hp] using hok
          rw [hp, Channel.acknowledgeValid, if_pos hvalid]
          exact h.touch hd hholds (h.avail c) (Channel.accounted_acknowledge honce)

/-- A step of the playback thread that fails the condition. -/
theorem SystemInv.disturbed (h : SystemInv s) (hbad : undisturbed s (.driver .player) = false)
    (hstep : stepPlayback s = some s') : ¬ FlushSafe s' := by
  obtain ⟨d, hd, hcase⟩ := stepPlayback_cases hstep
  simp only [undisturbed] at hbad
  cases hacc : s.driver.player.access with
  | none =>
      rw [hacc] at hbad
      cases hbad
  | some access =>
      rw [hacc] at hcase hbad
      cases access with
      | get c =>
          obtain ⟨p, queue, hqueue, rfl⟩ := hcase
          obtain ⟨hget, hlast⟩ : s.flushing = .getPacket c ∧ queue = [] := by
            simpa [hqueue] using hbad
          intro hsafe
          have hsome : (Function.update s.channel c _ c).queue ≠ [] := hsafe.avail hget
          rw [Function.update_self] at hsome
          exact hsome hlast
      | acknowledge c =>
          subst hcase
          obtain ⟨p, hp, honce⟩ := h.packet_of_acknowledge hacc
          have hvalid : ¬ p.valid = true := by simpa [hp] using hbad
          intro hsafe
          have hdrop := hsafe.once c
          simp only [System.hands, Function.update_self, hp, Channel.acknowledgeValid,
            if_neg hvalid] at hdrop
          exact Channel.not_accounted_drop honce hdrop

variable {sessionSize : Word} {audioOutActive : Bool}

theorem systemStep_driver {a : Action} (ha : a ≠ .player)
    (hstep : systemStep sessionSize audioOutActive s (.driver a) = some s') :
    s.flushing = .idle ∧ ∃ d, step sessionSize audioOutActive s.driver a = some d ∧
      s' = { s with driver := d, channel := s.opened } := by
  cases a with
  | player => exact absurd rfl ha
  | request args memory | close addr | entrypoint =>
      simp only [systemStep] at hstep
      split at hstep
      · cases hstep
      · rename_i hidle
        split at hstep
        · cases hstep
        · rename_i d hd
          cases hstep
          exact ⟨not_not.mp hidle, d, hd, rfl⟩

/-- A session is constructed while the playback thread has no packet. -/
theorem SystemInv.opened (h : SystemInv s) (hidle : s.flushing = .idle) (c : ChannelNumber) :
    (s.opened c).Accounted (s.hands c) := by
  unfold System.opened
  cases he : s.driver.entrypoint with
  | construct o =>
      show (Function.update s.channel o.channel .empty c).Accounted (s.hands c)
      by_cases hc : c = o.channel
      · subst hc
        have hnone : s.packets o.channel = none := by
          rw [← Option.not_isSome_iff_eq_none, h.held]
          intro hholds
          have hlive := h.driver.both_live (Player.held_of_holds hholds)
          rw [he] at hlive
          exact absurd hlive (Nat.not_succ_le_zero 0)
        rw [Function.update_self, System.hands, hnone, hidle]
        exact Channel.accounted_empty
      · rw [Function.update_of_ne hc]
        exact h.once c
  | idle | signal o | destroy o | clear o | free o => exact h.once c

/-- The entrypoint thread creates and closes sessions outside of `flush`. -/
theorem SystemInv.entrypoint (h : SystemInv s) (hidle : s.flushing = .idle) {a : Action}
    (ha : a ≠ .player) {d : State} (hd : step sessionSize audioOutActive s.driver a = some d) :
    SystemInv { s with driver := d, channel := s.opened } where
  driver := step_inv h.driver hd
  busy := fun hne => absurd hidle hne
  held := by
    intro c
    show (s.packets c).isSome = d.player.holds c
    rw [step_player ha hd]
    exact h.held c
  avail := by
    intro c hget
    have hget' : s.flushing = .getPacket c := hget
    rw [hidle] at hget'
    cases hget'
  once := h.opened hidle

/-- The client submits a packet. -/
theorem SystemInv.submit (h : SystemInv s) (c : ChannelNumber) (valid : Bool) :
    SystemInv { s with
      channel := Function.update s.channel c ((s.channel c).submitPacket valid) } where
  driver := h.driver
  busy := h.busy
  held := h.held
  avail := by
    refine (Function.forall_update_iff s.channel
      (fun c' (ch : Channel) => s.flushing = .getPacket c' → ch.queue ≠ [])).mpr ⟨?_, ?_⟩
    · intro _
      exact List.append_ne_nil_of_right_ne_nil _ (List.cons_ne_nil _ _)
    · intro c' _
      exact h.avail c'
  once := by
    refine (Function.forall_update_iff s.channel
      (fun c' (ch : Channel) => ch.Accounted (s.hands c'))).mpr ⟨?_, ?_⟩
    · exact Channel.accounted_submit valid (h.once c)
    · intro c' _
      exact h.once c'

/-- `flush` is entered. -/
theorem SystemInv.flush (h : SystemInv s) (hidle : s.flushing = .idle)
    (he : s.driver.entrypoint = .idle) (c : ChannelNumber) :
    SystemInv { s with flushing := .packetAvail c } where
  driver := h.driver
  busy := fun _ => he
  held := h.held
  avail := nofun
  once := by
    intro c'
    have honce := h.once c'
    rw [System.hands, hidle] at honce
    exact honce

theorem SystemInv.step (h : SystemInv s) {a : SystemAction} (hok : undisturbed s a = true)
    (hstep : systemStep sessionSize audioOutActive s a = some s') : SystemInv s' := by
  cases a with
  | driver a =>
      by_cases ha : a = .player
      · subst ha
        exact h.playback hok hstep
      · obtain ⟨hidle, d, hd, rfl⟩ := systemStep_driver ha hstep
        exact h.entrypoint hidle ha hd
  | submit c valid =>
      simp only [systemStep] at hstep
      split at hstep
      · cases hstep
        exact h.submit c valid
      · cases hstep
  | flush c =>
      simp only [systemStep] at hstep
      split at hstep
      · rename_i hfree
        cases hstep
        exact h.flush hfree.1 hfree.2.1 c
      · cases hstep
  | flushing => exact h.flush_step hstep

/-- A step leaves everything in order exactly if it meets the condition. -/
theorem SystemInv.step_safe (h : SystemInv s) {a : SystemAction}
    (hstep : systemStep sessionSize audioOutActive s a = some s') :
    FlushSafe s' ↔ undisturbed s a = true := by
  constructor
  · intro hsafe
    by_contra hbad
    have hfalse : undisturbed s a = false := Bool.eq_false_iff.mpr hbad
    cases a with
    | driver a =>
        cases a with
        | player => exact h.disturbed hfalse hstep hsafe
        | request args memory | close addr | entrypoint => cases hfalse
    | submit c valid | flush c | flushing => cases hfalse
  · intro hok
    exact (h.step hok hstep).safe

end

/-! ## Flushing -/

/-- **When flushing is safe.**  Let the threads and the clients keep to any discipline.  In all
runs the thread in `flush` never waits for a packet, and every packet submitted to a session is
acknowledged exactly once or still queued or in the hands of a thread, if and only if in all runs
the playback thread does not take the last packet of a channel that `flush` has found and not yet
taken, and every packet it has played is valid. -/
theorem flush_never_waits_iff (sessionSize : Word) (audioOutActive : Bool)
    (kept : System → SystemAction → Prop) :
    (∀ s, (system sessionSize audioOutActive).Reach kept s → FlushSafe s) ↔
      ∀ s a s', (system sessionSize audioOutActive).Reach kept s → kept s a →
        systemStep sessionSize audioOutActive s a = some s' → undisturbed s a = true := by
  refine Machine.reach_iff (I := SystemInv) ?_ ?_ ?_ kept
  · rintro s rfl
    exact ⟨SystemInv.initial, SystemInv.initial.safe⟩
  · intro s a s' hs hstep
    exact hs.step_safe hstep
  · intro s a s' hs hstep hok
    exact hs.step hok hstep

/-- Left alone, `flush` returns, and has acknowledged all packets that were queued. -/
theorem flush_returns (sessionSize : Word) (audioOutActive : Bool) (c : ChannelNumber) :
    ∀ (queue : List Packet) (s : System), s.flushing = .packetAvail c →
      (s.channel c).queue = queue →
        ∃ n t, (system sessionSize audioOutActive).run s (List.replicate n .flushing) = some t ∧
          t.flushing = .idle ∧ (t.channel c).queue = [] ∧
          (t.channel c).acknowledged =
            (queue.map (·.number)).reverse ++ (s.channel c).acknowledged := by
  intro queue
  induction queue with
  | nil =>
      intro s hf hqueue
      refine ⟨1, { s with flushing := .idle }, ?_, rfl, hqueue, rfl⟩
      have hstep : stepFlush s = some { s with flushing := .idle } := by
        simp [stepFlush, hf, Channel.packetAvail, hqueue]
      exact Machine.run_cons hstep []
  | cons p queue ih =>
      intro s hf hqueue
      -- one round of the loop
      have havail : stepFlush s = some { s with flushing := .getPacket c } := by
        simp [stepFlush, hf, Channel.packetAvail, hqueue]
      have hget : stepFlush { s with flushing := .getPacket c } = some { s with
          channel := Function.update s.channel c { s.channel c with queue := queue }
          flushing := .acknowledge c p } := by
        simp [stepFlush, Channel.getPacket, hqueue]
      obtain ⟨n, t, hrun, hidle, hempty, hack⟩ := ih { s with
        channel := Function.update (Function.update s.channel c { s.channel c with queue := queue })
          c (Channel.acknowledgePacket (Function.update s.channel c
            { s.channel c with queue := queue } c) p)
        flushing := .packetAvail c } rfl (by simp [Channel.acknowledgePacket])
      refine ⟨n + 3, t, ?_, hidle, hempty, ?_⟩
      · rw [List.replicate_succ, Machine.run_cons havail, List.replicate_succ,
          Machine.run_cons hget, List.replicate_succ, Machine.run_cons rfl]
        exact hrun
      · rw [hack]
        simp [Channel.acknowledgePacket]

/-- **Flush waits for a packet that was taken.**  Both sessions are open and the left one has one
packet.  `flush` of the left session finds it, the playback thread takes it, and `flush` waits in
`get_packet`. -/
theorem flush_waits : ∃ s, (system 0x1000 true).Reachable s ∧ s.flushing = .getPacket .left ∧
    (s.channel .left).queue = [] ∧ stepFlush s = none ∧ ¬ FlushSafe s := by
  have hrun : ((system 0x1000 true).run .initial
      [.driver (.request ⟨some 0x4000, some 0x2000, none⟩ (some 1)), .driver .entrypoint,
        .driver .entrypoint, .driver (.request ⟨some 0x4000, some 0x2000, some "right"⟩ (some 2)),
        .driver .entrypoint, .driver .entrypoint, .driver .player, .driver .player, .driver .player,
        .driver .player, .submit .left true, .flush .left, .flushing, .driver .player]).map
        (fun s => (s.flushing, (s.channel .left).queue)) = some (.getPacket .left, []) := by
    decide
  obtain ⟨s, hs, hat⟩ := Option.map_eq_some_iff.mp hrun
  obtain ⟨hget, hqueue⟩ := Prod.mk.inj hat
  refine ⟨s, Machine.Reachable.run (.init rfl) _ hs, hget, hqueue, ?_, ?_⟩
  · simp only [stepFlush, hget, Channel.getPacket, hqueue]
  · intro hsafe
    exact hsafe.avail hget hqueue

end LinuxDrivers.AudioOut
