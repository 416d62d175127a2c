/-
# `LinuxDrivers.Net.Qdisc` — the packets that wait for a network device

`pfifo_fast` (`net/sched/sch_generic.c`) keeps the packets of a device in three queues, chosen by
the priority of the packet:

    enqueue   to the end of its queue, if there are fewer than `tx_queue_len` in it
    dequeue   the first packet of the first queue that has one
    requeue   back to the front of its queue

A packet may be more than one frame: `dev_gso_segment` cuts it when the device is about to get it.
If the device takes some of the frames only, what is left goes to `gso_skb`, which is served before
the queues.

`Backlog` has all of this, and the history of the frames of each queue: those that were accepted,
and those that are done with and how.  `Backlog.Ok` ties them together.

**Proved here.**  Every operation keeps the order: the frames accepted for a queue are those that
are done with, then those of the packet that somebody has in hand, those of `gso_skb`, and those in
the queue; and a queue never has more than one packet beyond its length.
-/
import Mathlib.Logic.Function.Basic
import Mathlib.Data.Fin.Basic
import Mathlib.Algebra.BigOperators.Fin

namespace LinuxDrivers.Net.Sched

/-! ## Packets -/

/-- `next` are the frames of a packet that has been cut, as far as they have not been sent. -/
structure Skb where
  priority : Nat
  frame : Nat
  next : List Nat
  deriving DecidableEq, Repr

/-- What of the device does not change: `NETIF_F_LLTX`, `tx_queue_len`, `netif_needs_gso`, and
`skb_gso_segment`, which fails or gives the frames of a packet. -/
structure NetDevice where
  lltx : Bool
  txQueueLen : Nat
  needsGso : Nat → Bool
  gsoSegment : Nat → Option (List Nat)

def prio2band : List (Fin 3) := [1, 2, 2, 2, 1, 2, 0, 0, 1, 1, 1, 1, 1, 1, 1, 1]

def tcPrioMax : Nat := 15

/-- `prio2list` -/
def Skb.band (skb : Skb) : Fin 3 := prio2band.getD (skb.priority &&& tcPrioMax) 0

/-- The frames of a packet that the device has not got. -/
def contents (dev : NetDevice) (skb : Skb) : List Nat :=
  match skb.next with
  | [] =>
      if dev.needsGso skb.frame then
        match dev.gsoSegment skb.frame with
        | some (f :: fs) => f :: fs
        | _ => [skb.frame]
      else [skb.frame]
  | f :: fs => f :: fs

/-! ## The three queues -/

structure Qdisc where
  list : Fin 3 → List Skb
  qlen : Int

/-- `none` is `qdisc_drop`. -/
def pfifoFastEnqueue (dev : NetDevice) (skb : Skb) (q : Qdisc) : Option Qdisc :=
  if (q.list skb.band).length < dev.txQueueLen then
    some ⟨Function.update q.list skb.band (q.list skb.band ++ [skb]), q.qlen + 1⟩
  else none

/-- The loop of `pfifo_fast_dequeue`, over the queues that are left. -/
def dequeueFrom (q : Qdisc) : List (Fin 3) → Option (Skb × Qdisc)
  | [] => none
  | b :: bs =>
      match q.list b with
      | [] => dequeueFrom q bs
      | skb :: rest => some (skb, ⟨Function.update q.list b rest, q.qlen - 1⟩)

def pfifoFastDequeue (q : Qdisc) : Option (Skb × Qdisc) := dequeueFrom q [0, 1, 2]

def pfifoFastRequeue (skb : Skb) (q : Qdisc) : Qdisc :=
  ⟨Function.update q.list skb.band (skb :: q.list skb.band), q.qlen + 1⟩

/-! ## The backlog and its history -/

/-- How a frame is done with: the driver has it, it could not be cut, or it was dropped for what
`qdisc_restart` takes for a dead loop. -/
inductive Fate where
  | sent
  | uncut
  | deadLoop
  deriving DecidableEq, Repr

structure Backlog where
  q : Qdisc
  gsoSkb : Option Skb
  accepted : Fin 3 → List Nat
  log : Fin 3 → List (Nat × Fate)

namespace Backlog

def empty : Backlog := ⟨⟨fun _ => [], 0⟩, none, fun _ => [], fun _ => []⟩

/-- `q->enqueue` -/
def enqueue (dev : NetDevice) (skb : Skb) (d : Backlog) : Backlog :=
  match pfifoFastEnqueue dev skb d.q with
  | none => d
  | some q =>
      { d with
        q := q
        accepted :=
          Function.update d.accepted skb.band (d.accepted skb.band ++ contents dev skb) }

/-- The packet that `qdisc_restart` goes on with. -/
def take (d : Backlog) : Option (Skb × Backlog) :=
  match d.gsoSkb with
  | some skb => some (skb, { d with gsoSkb := none })
  | none =>
      match pfifoFastDequeue d.q with
      | some (skb, q) => some (skb, { d with q := q })
      | none => none

/-- Frames of a packet are done with. -/
def finish (skb : Skb) (fs : List Nat) (fate : Fate) (d : Backlog) : Backlog :=
  { d with log := Function.update d.log skb.band (d.log skb.band ++ fs.map (·, fate)) }

/-- What `qdisc_restart` does with a packet that the driver has not taken. -/
def requeue (skb : Skb) (d : Backlog) : Backlog :=
  if skb.next ≠ [] then { d with gsoSkb := some skb }
  else { d with q := pfifoFastRequeue skb d.q }

/-- Nothing waits. -/
def Idle (d : Backlog) : Prop := d.gsoSkb = none ∧ ∀ b, d.q.list b = []

end Backlog

/-! ## The order of the frames -/

/-- The frames that the packets have for a queue. -/
def pend (dev : NetDevice) (b : Fin 3) (skbs : List Skb) : List Nat :=
  (skbs.filter (fun skb => skb.band = b)).flatMap (contents dev)

def held (b : Fin 3) (skbs : List Skb) : Nat := (skbs.filter (fun skb => skb.band = b)).length

/-- `hands` has the packets that are taken out and not done with. -/
structure Backlog.Ok (dev : NetDevice) (d : Backlog) (hands : List Skb) : Prop where
  order : ∀ b, d.accepted b = (d.log b).map Prod.fst ++ pend dev b hands ++
    pend dev b d.gsoSkb.toList ++ (d.q.list b).flatMap (contents dev)
  sorted : ∀ b, ∀ skb ∈ d.q.list b, skb.band = b
  one : hands.length + d.gsoSkb.toList.length ≤ 1
  qlen : d.q.qlen = ∑ b, ((d.q.list b).length : Int)
  room : ∀ b, (d.q.list b).length + held b hands + held b d.gsoSkb.toList ≤ dev.txQueueLen + 1

section
variable {dev : NetDevice} {b : Fin 3} {skb : Skb} {skbs : List Skb}

theorem pend_nil : pend dev b [] = [] := rfl

theorem pend_one : pend dev b [skb] = if skb.band = b then contents dev skb else [] := by
  unfold pend
  by_cases hb : skb.band = b
  · rw [List.filter_cons_of_pos (by simpa using hb), if_pos hb]
    simp
  · rw [List.filter_cons_of_neg (by simpa using hb), if_neg hb]
    rfl

theorem held_nil : held b [] = 0 := rfl

theorem held_one : held b [skb] = if skb.band = b then 1 else 0 := by
  unfold held
  by_cases hb : skb.band = b
  · rw [List.filter_cons_of_pos (by simpa using hb), if_pos hb]
    rfl
  · rw [List.filter_cons_of_neg (by simpa using hb), if_neg hb]
    rfl

theorem held_le : held b skbs ≤ skbs.length := List.length_filter_le _ _

/-- The number of packets after one queue has changed. -/
theorem sum_update (list : Fin 3 → List Skb) (c : Fin 3) (new : List Skb) :
    ∑ b, ((Function.update list c new b).length : Int) =
      ∑ b, ((list b).length : Int) - (list c).length + new.length := by
  have hcases : c = 0 ∨ c = 1 ∨ c = 2 := by omega
  simp only [Fin.sum_univ_three, Function.update_apply]
  rcases hcases with rfl | rfl | rfl <;>
    simp only [Fin.isValue, Fin.reduceEq, if_true, if_false] <;> omega

end

namespace Backlog

variable {dev : NetDevice} {d d' : Backlog} {hands : List Skb} {skb : Skb}

theorem empty_ok : empty.Ok dev [] where
  order := fun _ => rfl
  sorted := by
    intro b skb hskb
    cases hskb
  one := Nat.zero_le 1
  qlen := by simp [empty]
  room := fun _ => Nat.zero_le _

theorem enqueue_ok (h : d.Ok dev hands) (skb : Skb) : (d.enqueue dev skb).Ok dev hands := by
  unfold enqueue pfifoFastEnqueue
  split
  · exact h
  · rename_i q hq
    split at hq
    · rename_i hroom
      cases hq
      refine ⟨?_, ?_, h.one, ?_, ?_⟩
      · intro b
        by_cases hb : b = skb.band
        · subst hb
          simp only [Function.update_self]
          rw [h.order, List.flatMap_append, List.flatMap_singleton, List.append_assoc]
        · simp only [Function.update_of_ne hb]
          exact h.order b
      · intro b x hx
        by_cases hb : b = skb.band
        · subst hb
          simp only [Function.update_self] at hx
          rcases List.mem_append.mp hx with hold | hnew
          · exact h.sorted _ x hold
          · rw [List.mem_singleton.mp hnew]
        · simp only [Function.update_of_ne hb] at hx
          exact h.sorted b x hx
      · show d.q.qlen + 1 = _
        rw [sum_update, h.qlen, List.length_append]
        simp only [List.length_singleton]
        omega
      · intro b
        have hone := h.one
        have hhands : held b hands ≤ hands.length := held_le
        have hgso : held b d.gsoSkb.toList ≤ d.gsoSkb.toList.length := held_le
        by_cases hb : b = skb.band
        · subst hb
          simp only [Function.update_self, List.length_append, List.length_singleton]
          omega
        · simp only [Function.update_of_ne hb]
          exact h.room b
    · cases hq

/-- A packet is the first one of its queue. -/
theorem dequeueFrom_some {q q' : Qdisc} {bs : List (Fin 3)}
    (h : dequeueFrom q bs = some (skb, q')) :
    ∃ b rest, q.list b = skb :: rest ∧ q' = ⟨Function.update q.list b rest, q.qlen - 1⟩ := by
  induction bs with
  | nil => cases h
  | cons b bs ih =>
      unfold dequeueFrom at h
      split at h
      · exact ih h
      · rename_i x rest hlist
        cases h
        exact ⟨b, rest, hlist, rfl⟩

theorem dequeueFrom_none {q : Qdisc} {bs : List (Fin 3)} (h : dequeueFrom q bs = none) :
    ∀ b ∈ bs, q.list b = [] := by
  induction bs with
  | nil =>
      intro b hb
      cases hb
  | cons c bs ih =>
      unfold dequeueFrom at h
      split at h
      · rename_i hempty
        intro b hb
        rcases List.mem_cons.mp hb with rfl | hb
        · exact hempty
        · exact ih h b hb
      · cases h

theorem take_none (h : d.take = none) : d.Idle := by
  unfold take at h
  split at h
  · cases h
  · rename_i hgso
    split at h
    · cases h
    · rename_i hq
      refine ⟨hgso, fun b => dequeueFrom_none hq b ?_⟩
      have hcases : b = 0 ∨ b = 1 ∨ b = 2 := by omega
      rcases hcases with rfl | rfl | rfl <;> decide

theorem take_ok (h : d.Ok dev []) (ht : d.take = some (skb, d')) : d'.Ok dev [skb] := by
  unfold take at ht
  split at ht
  · rename_i x hgso
    cases ht
    have horder := h.order
    have hroom := h.room
    rw [hgso] at horder hroom
    refine ⟨?_, h.sorted, Nat.le_refl 1, h.qlen, ?_⟩
    · intro b
      rw [horder b]
      simp only [Option.toList_some, Option.toList_none, pend_nil, List.append_nil]
    · intro b
      have := hroom b
      simp only [Option.toList_some, Option.toList_none, held_nil] at this ⊢
      omega
  · rename_i hgso
    split at ht
    · rename_i x q hq
      cases ht
      obtain ⟨c, rest, hlist, rfl⟩ := dequeueFrom_some hq
      have hband : skb.band = c := h.sorted c skb (by rw [hlist]; exact List.mem_cons_self)
      have horder := h.order
      have hroom := h.room
      rw [hgso] at horder hroom
      refine ⟨?_, ?_, ?_, ?_, ?_⟩
      · intro b
        show d.accepted b = _ ++ pend dev b d.gsoSkb.toList ++ _
        rw [horder b, hgso, pend_one, hband]
        by_cases hb : b = c
        · subst hb
          simp only [Option.toList_none, pend_nil, Function.update_self, hlist, if_true,
            List.flatMap_cons, List.append_nil, List.append_assoc]
        · simp only [Option.toList_none, pend_nil, Function.update_of_ne hb, if_neg (Ne.symm hb),
            List.append_nil]
      · intro b x hx
        by_cases hb : b = c
        · subst hb
          simp only [Function.update_self] at hx
          exact h.sorted b x (by rw [hlist]; exact List.mem_cons_of_mem _ hx)
        · simp only [Function.update_of_ne hb] at hx
          exact h.sorted b x hx
      · show 1 + d.gsoSkb.toList.length ≤ 1
        rw [hgso]
        exact Nat.le_refl 1
      · show d.q.qlen - 1 = _
        rw [sum_update, h.qlen, hlist, List.length_cons]
        omega
      · intro b
        have hb' := hroom b
        show _ + held b [skb] + held b d.gsoSkb.toList ≤ _
        rw [hgso, held_one, hband]
        simp only [Option.toList_none, held_nil] at hb' ⊢
        by_cases hb : b = c
        · subst hb
          rw [hlist, List.length_cons] at hb'
          simp only [Function.update_self, if_true]
          omega
        · simp only [Function.update_of_ne hb, if_neg (Ne.symm hb)]
          omega
    · cases ht

theorem Ok.gsoSkb_none (h : d.Ok dev [skb]) : d.gsoSkb = none := by
  have hle := h.one
  cases hg : d.gsoSkb with
  | none => rfl
  | some x =>
      rw [hg] at hle
      simp at hle

/-- Some frames of the packet in hand are done with, and `left` is what is in hand then. -/
theorem finish_ok (h : d.Ok dev [skb]) {fs : List Nat} {left : List Skb} (fate : Fate)
    (hone : left.length ≤ 1) (hband : ∀ x ∈ left, x.band = skb.band)
    (hfs : contents dev skb = fs ++ left.flatMap (contents dev)) :
    (d.finish skb fs fate).Ok dev left := by
  have hgso := h.gsoSkb_none
  have hpend : ∀ b, pend dev b left = if skb.band = b then left.flatMap (contents dev) else [] := by
    intro b
    unfold pend
    split
    · rename_i hb
      rw [List.filter_eq_self.mpr]
      intro x hx
      simp [hband x hx, hb]
    · rename_i hb
      rw [List.filter_eq_nil_iff.mpr]
      · rfl
      · intro x hx
        simp [hband x hx, hb]
  have hheld : ∀ b, held b left ≤ held b [skb] := by
    intro b
    rw [held_one]
    split
    · exact Nat.le_trans held_le hone
    · rename_i hb
      unfold held
      rw [List.filter_eq_nil_iff.mpr]
      · exact Nat.le_refl 0
      · intro x hx
        simp [hband x hx, hb]
  refine ⟨?_, h.sorted, ?_, h.qlen, ?_⟩
  · intro b
    have horder := h.order b
    rw [pend_one] at horder
    show d.accepted b = _
    rw [horder, hpend]
    by_cases hb : b = skb.band
    · subst hb
      simp only [finish, Function.update_self, if_true, hfs, List.map_append, List.map_map,
        List.append_assoc]
      simp [Function.comp_def]
    · simp only [finish, Function.update_of_ne hb, if_neg (Ne.symm hb)]
  · show left.length + d.gsoSkb.toList.length ≤ 1
    rw [hgso]
    exact hone
  · intro b
    have hroom := h.room b
    have hle := hheld b
    show _ + held b left + held b d.gsoSkb.toList ≤ _
    show (d.q.list b).length + held b left + held b d.gsoSkb.toList ≤ _
    omega

/-- The packet in hand has been cut. -/
theorem Ok.cut (h : d.Ok dev [skb]) {skb' : Skb}
    (hcontents : contents dev skb' = contents dev skb) (hband : skb'.band = skb.band) :
    d.Ok dev [skb'] := by
  refine ⟨?_, h.sorted, h.one, h.qlen, ?_⟩
  · intro b
    rw [h.order, pend_one, pend_one, hcontents, hband]
  · intro b
    rw [held_one, hband, ← held_one]
    exact h.room b

theorem requeue_ok (h : d.Ok dev [skb]) : (d.requeue skb).Ok dev [] := by
  have hgso := h.gsoSkb_none
  have horder := h.order
  have hroom := h.room
  rw [hgso] at horder hroom
  unfold requeue
  split
  · refine ⟨?_, h.sorted, Nat.le_refl 1, h.qlen, ?_⟩
    · intro b
      rw [horder b]
      simp only [Option.toList_some, Option.toList_none, pend_nil, List.append_nil]
    · intro b
      have := hroom b
      simp only [Option.toList_some, Option.toList_none, held_nil] at this ⊢
      omega
  · refine ⟨?_, ?_, ?_, ?_, ?_⟩
    · intro b
      have hb' := horder b
      rw [pend_one] at hb'
      show d.accepted b = _ ++ pend dev b d.gsoSkb.toList ++ _
      rw [hb', hgso]
      by_cases hb : b = skb.band
      · subst hb
        simp only [Option.toList_none, pend_nil, pfifoFastRequeue, Function.update_self, if_true,
          List.flatMap_cons, List.append_nil, List.append_assoc]
      · simp only [Option.toList_none, pend_nil, pfifoFastRequeue, Function.update_of_ne hb,
          if_neg (Ne.symm hb), List.append_nil]
    · intro b x hx
      by_cases hb : b = skb.band
      · subst hb
        simp only [pfifoFastRequeue, Function.update_self] at hx
        rcases List.mem_cons.mp hx with rfl | hx
        · rfl
        · exact h.sorted _ x hx
      · simp only [pfifoFastRequeue, Function.update_of_ne hb] at hx
        exact h.sorted b x hx
    · show 0 + d.gsoSkb.toList.length ≤ 1
      rw [hgso]
      exact Nat.zero_le 1
    · show d.q.qlen + 1 = _
      rw [pfifoFastRequeue, sum_update, h.qlen, List.length_cons]
      omega
    · intro b
      have hb' := hroom b
      rw [held_one] at hb'
      show _ + held b [] + held b d.gsoSkb.toList ≤ _
      rw [hgso]
      simp only [Option.toList_none, held_nil, pfifoFastRequeue] at hb' ⊢
      by_cases hb : b = skb.band
      · subst hb
        simp only [Function.update_self, List.length_cons, if_true] at hb' ⊢
        omega
      · simp only [Function.update_of_ne hb, if_neg (Ne.symm hb)] at hb' ⊢
        omega

/-! ## What is not touched -/

theorem enqueue_log (d : Backlog) (skb : Skb) : (d.enqueue dev skb).log = d.log := by
  unfold enqueue
  split <;> rfl

theorem take_log (h : d.take = some (skb, d')) : d'.log = d.log := by
  unfold take at h
  split at h
  · cases h
    rfl
  · split at h <;> cases h
    rfl

theorem requeue_log (d : Backlog) (skb : Skb) : (d.requeue skb).log = d.log := by
  unfold requeue
  split <;> rfl

/-- The first packet is the next one. -/
theorem take_first (hroom : 0 < dev.txQueueLen) (skb : Skb) :
    ∃ d, (empty.enqueue dev skb).take = some (skb, d) ∧ ∀ b, d.log b = [] := by
  have henqueue : pfifoFastEnqueue dev skb empty.q =
      some ⟨Function.update (fun _ => []) skb.band [skb], 1⟩ := by
    exact if_pos hroom
  have hq : (empty.enqueue dev skb).q = ⟨Function.update (fun _ => []) skb.band [skb], 1⟩ := by
    simp only [enqueue, henqueue]
  have hgso : (empty.enqueue dev skb).gsoSkb = none := by
    simp only [enqueue, henqueue]
    rfl
  cases htake : (empty.enqueue dev skb).take with
  | none =>
      have hempty := (take_none htake).2 skb.band
      rw [hq] at hempty
      simp at hempty
  | some x =>
      obtain ⟨y, d⟩ := x
      refine ⟨d, ?_, ?_⟩
      · have hdequeue := htake
        unfold take at hdequeue
        rw [hgso] at hdequeue
        simp only at hdequeue
        split at hdequeue
        · rename_i z q hz
          cases hdequeue
          obtain ⟨b, rest, hlist, -⟩ := dequeueFrom_some hz
          rw [hq] at hlist
          by_cases hb : b = skb.band
          · subst hb
            simp only [Function.update_self] at hlist
            rw [← (List.cons.inj hlist).1]
          · simp only [Function.update_of_ne hb] at hlist
            cases hlist
        · cases hdequeue
      · intro b
        rw [take_log htake, enqueue_log]
        rfl

end Backlog

end LinuxDrivers.Net.Sched
