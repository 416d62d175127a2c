/-
# `LinuxDrivers.Kernel.Timer` — Linux timers as DDE kit timers

A `timer_list` holds a handle of a DDE kit timer, or none.  `add_timer` makes a
new DDE kit timer and stores its handle; `del_timer` asks whether the timer is
pending, deletes it and forgets the handle, in that order:

    if (timer->dde_kit_timer) {
        pending = dde_kit_timer_pending(timer->dde_kit_timer) ? 1 : 0;
        dde_kit_timer_del(timer->dde_kit_timer);
        timer->dde_kit_timer = 0;
    }
    return pending;

Every arming of a timer is one DDE kit timer, and a DDE kit timer is settled at
most once: it fires or it is deleted.  This module has the kit's side; the calls,
and the delayed work on top of them, are in `DelayedWork`.
-/
import LinuxDrivers.Basic
import LinuxDrivers.Lib.Interleave

namespace LinuxDrivers.Kernel.Timer

open LinuxDrivers.Lib

/-! ## DDE kit timers -/

/-- Whose timer it is: a driver's own, or that of a `delayed_work`. -/
inductive TimerId where
  | plain (n : Nat)
  | dwork (w : Nat)
  deriving DecidableEq, Repr

inductive Status where
  | pending
  /-- expired; its function is run by the timer thread -/
  | fired
  | deleted
  deriving DecidableEq, Repr

structure KitTimer where
  owner : TimerId
  expires : Word
  status : Status
  deriving DecidableEq, Repr

/-- All DDE kit timers ever made; a handle is a place in this list. -/
abbrev Kit := List KitTimer

/-- A pending timer is settled; one that is settled, or none, stays as it is. -/
def settle (kit : Kit) (h : Nat) (st : Status) : Kit :=
  match kit[h]? with
  | some ⟨owner, expires, .pending⟩ => kit.set h ⟨owner, expires, st⟩
  | _ => kit

/-- `dde_kit_timer_add`: the new timer's handle is the length of the old list. -/
def ddeKitTimerAdd (kit : Kit) (owner : TimerId) (expires : Word) : Kit :=
  kit ++ [⟨owner, expires, .pending⟩]

def ddeKitTimerPending (kit : Kit) (h : Nat) : Bool :=
  kit[h]?.any (·.status == .pending)

/-- `dde_kit_timer_del`, without effect on a timer that has fired. -/
def ddeKitTimerDel (kit : Kit) (h : Nat) : Kit := settle kit h .deleted

/-- The timer expires; only a pending one does. -/
def ddeKitTimerExpire (kit : Kit) (h : Nat) : Option (TimerId × Kit) :=
  match kit[h]? with
  | some ⟨owner, _, .pending⟩ => some (owner, settle kit h .fired)
  | _ => none

/-! ## Settled once, settled for good -/

/-- The timer `h` has been settled this way. -/
def Settled (kit : Kit) (h : Nat) (st : Status) : Prop := kit[h]?.map (·.status) = some st

theorem settle_cases (kit : Kit) (h : Nat) (st : Status) :
    settle kit h st = kit ∨ ∃ owner expires, kit[h]? = some ⟨owner, expires, .pending⟩ ∧
      settle kit h st = kit.set h ⟨owner, expires, st⟩ := by
  unfold settle
  split
  · rename_i owner expires hk
    exact .inr ⟨owner, expires, hk, rfl⟩
  · exact .inl rfl

theorem settle_eq {kit : Kit} {h : Nat} {owner : TimerId} {expires : Word} (st : Status)
    (hk : kit[h]? = some ⟨owner, expires, .pending⟩) :
    settle kit h st = kit.set h ⟨owner, expires, st⟩ := by
  simp only [settle, hk]

theorem ddeKitTimerPending_iff {kit : Kit} {h : Nat} : ddeKitTimerPending kit h = true ↔
    ∃ owner expires, kit[h]? = some ⟨owner, expires, .pending⟩ := by
  constructor
  · intro hp
    rw [ddeKitTimerPending, Option.any_eq_true] at hp
    obtain ⟨⟨owner, expires, status⟩, hk, hs⟩ := hp
    obtain rfl : status = .pending := by simpa using hs
    exact ⟨owner, expires, hk⟩
  · rintro ⟨owner, expires, hk⟩
    rw [ddeKitTimerPending, hk]
    rfl

theorem ddeKitTimerExpire_some {kit kit' : Kit} {h : Nat} {owner : TimerId}
    (he : ddeKitTimerExpire kit h = some (owner, kit')) :
    (∃ expires, kit[h]? = some ⟨owner, expires, .pending⟩) ∧ kit' = settle kit h .fired := by
  unfold ddeKitTimerExpire at he
  split at he
  · rename_i owner' expires hk
    cases he
    exact ⟨⟨expires, hk⟩, rfl⟩
  · cases he

theorem settle_pending {kit : Kit} {h : Nat} (st : Status)
    (hp : ddeKitTimerPending kit h = true) : Settled (settle kit h st) h st := by
  obtain ⟨owner, expires, hk⟩ := ddeKitTimerPending_iff.mp hp
  rw [settle_eq st hk, Settled, List.getElem?_set_self (List.getElem?_eq_some_iff.mp hk).1]
  rfl

/-- What is settled is not settled again. -/
theorem Settled.settle {kit : Kit} {h : Nat} {st : Status} (hs : Settled kit h st)
    (hst : st ≠ .pending) (h' : Nat) (st' : Status) : Settled (settle kit h' st') h st := by
  rcases settle_cases kit h' st' with heq | ⟨owner, expires, hk, heq⟩
  · rw [heq]
    exact hs
  · rw [heq]
    have hne : h' ≠ h := by
      intro heq
      subst heq
      rw [Settled, hk] at hs
      exact hst (Option.some.inj hs).symm
    rw [Settled, List.getElem?_set_ne hne]
    exact hs

theorem Settled.add {kit : Kit} {h : Nat} {st : Status} (hs : Settled kit h st) (owner : TimerId)
    (expires : Word) : Settled (ddeKitTimerAdd kit owner expires) h st := by
  have hlt : h < kit.length := by
    rw [Settled, Option.map_eq_some_iff] at hs
    obtain ⟨k, hk, _⟩ := hs
    exact (List.getElem?_eq_some_iff.mp hk).1
  rw [Settled, ddeKitTimerAdd, List.getElem?_append_left hlt]
  exact hs

/-! ## Owners -/

/-- The timer `h` is a timer of `id`. -/
def Owned (kit : Kit) (h : Nat) (id : TimerId) : Prop := kit[h]?.map (·.owner) = some id

theorem owned_add (kit : Kit) (id : TimerId) (expires : Word) :
    Owned (ddeKitTimerAdd kit id expires) kit.length id := by
  simp [Owned, ddeKitTimerAdd]

theorem Owned.add {kit : Kit} {h : Nat} {id : TimerId} (ho : Owned kit h id) (owner : TimerId)
    (expires : Word) : Owned (ddeKitTimerAdd kit owner expires) h id := by
  have hlt : h < kit.length := by
    rw [Owned, Option.map_eq_some_iff] at ho
    obtain ⟨k, hk, _⟩ := ho
    exact (List.getElem?_eq_some_iff.mp hk).1
  rw [Owned, ddeKitTimerAdd, List.getElem?_append_left hlt]
  exact ho

theorem Owned.settle {kit : Kit} {h : Nat} {id : TimerId} (ho : Owned kit h id) (h' : Nat)
    (st : Status) : Owned (settle kit h' st) h id := by
  rcases settle_cases kit h' st with heq | ⟨owner, expires, hk, heq⟩
  · rw [heq]
    exact ho
  · rw [heq]
    by_cases hh : h' = h
    · subst hh
      have hlt := (List.getElem?_eq_some_iff.mp hk).1
      rw [Owned, hk] at ho
      simpa [Owned, hlt] using ho
    · rw [Owned, List.getElem?_set_ne hh]
      exact ho

/-! ## Counting the pending timers of a delayed work -/

/-- A pending timer of the delayed work `w` weighs one. -/
def armed (w : Nat) (k : KitTimer) : Nat :=
  if k.owner = .dwork w ∧ k.status = .pending then 1 else 0

/-- How many pending timers the delayed work has. -/
def armedTotal (w : Nat) (kit : Kit) : Nat := total (armed w) kit

theorem armedTotal_add (w : Nat) (kit : Kit) (owner : TimerId) (expires : Word) :
    armedTotal w (ddeKitTimerAdd kit owner expires) =
      armedTotal w kit + if owner = .dwork w then 1 else 0 := by
  simp [armedTotal, ddeKitTimerAdd, total, armed]

/-- Settling a timer takes one away if it was pending and owned by `w`. -/
theorem armedTotal_settle {w : Nat} {kit : Kit} {h : Nat} {owner : TimerId} {expires : Word}
    {st : Status} (hst : st ≠ .pending) (hk : kit[h]? = some ⟨owner, expires, .pending⟩) :
    armedTotal w (settle kit h st) + (if owner = .dwork w then 1 else 0) = armedTotal w kit := by
  obtain ⟨r, hr, hset⟩ := total_set (armed w) hk
  rw [settle_eq st hk, armedTotal, armedTotal, hr, hset]
  simp [armed, hst]

theorem armedTotal_settle_le (w : Nat) (kit : Kit) (h : Nat) {st : Status} (hst : st ≠ .pending) :
    armedTotal w (settle kit h st) ≤ armedTotal w kit := by
  rcases settle_cases kit h st with heq | ⟨owner, expires, hk, _⟩
  · rw [heq]
  · have := armedTotal_settle (w := w) hst hk
    omega

end LinuxDrivers.Kernel.Timer
