/-
# `LinuxDrivers.Kernel.TimerField` — the handle in a `timer_list`

A `timer_list` has a field for the handle of its DDE kit timer, and every function of
`timer.c` but `add_timer` reads it:

    add_timer       field = dde_kit_timer_add(..)
    del_timer       if (field) { ask kit, delete at kit;  field = 0 }
    __mod_timer     del_timer, set expires, add_timer
    timer_pending   field && ask kit

`DEFINE_TIMER` starts the field with 0.  `init_timer`, and with it `setup_timer`, leaves
it as it finds it, although it is what a driver calls on memory that was never written.

Here the calls on one structure come one after the other, between whatever else happens
at the kit: timers expire, and other structures arm and delete theirs.  (Two calls at
once, or a call and an expiry, are the subject of `DelayedWork`.)

**Proved here.**

    the bookkeeping of a history of calls is right iff each call that reads the field
      finds 0, the structure's own handle, or that of a settled timer
                                                  (`timer_bookkeeping_iff`)
    with a field that starts as 0 it is always right  (`timer_bookkeeping_of_null`)
-/
import LinuxDrivers.Basic
import LinuxDrivers.Lib.History
import LinuxDrivers.Lib.Keyed

namespace LinuxDrivers.Kernel.TimerField

open LinuxDrivers.Lib

/-! ## The DDE kit -/

/-- A timer the kit has handed out a handle for; `own` if it was made for the structure
this module is about. -/
structure KitTimer where
  handle : Word
  own : Bool
  pending : Bool
  deriving DecidableEq, Repr

/-- All timers ever made. -/
abbrev Kit := List KitTimer

/-- `dde_kit_timer_add`, which returns the handle `h`. -/
def ddeKitTimerAdd (kit : Kit) (own : Bool) (h : Word) : Kit := ⟨h, own, true⟩ :: kit

/-- `dde_kit_timer_pending`; `none` if the kit never returned this handle. -/
def ddeKitTimerPending (kit : Kit) (h : Word) : Option Bool :=
  (kit.find? (·.handle == h)).map (·.pending)

/-- The timer stops to be pending. -/
def settle (kit : Kit) (h : Word) : Kit :=
  kit.map (fun k => if k.handle = h then { k with pending := false } else k)

/-- `dde_kit_timer_del` -/
def ddeKitTimerDel (kit : Kit) (h : Word) : Option Kit :=
  if kit.any (·.handle == h) then some (settle kit h) else none

/-! ## `timer.c` -/

structure TimerList where
  expires : Word
  function : Word
  data : Word
  ddeKitTimer : Word
  deriving DecidableEq, Repr

def initTimer (timer : TimerList) : TimerList := timer

def setupTimer (timer : TimerList) (function data : Word) : TimerList :=
  initTimer { timer with function := function, data := data }

structure State where
  timer : TimerList
  kit : Kit
  deriving DecidableEq, Repr

/-- `add_timer`; `h` is the handle the kit returns. -/
def addTimer (s : State) (h : Word) : State :=
  { timer := { s.timer with ddeKitTimer := h }
    kit := ddeKitTimerAdd s.kit true h }

/-- `del_timer`; `none` if it gives the kit a handle that is not the kit's. -/
def delTimer (s : State) : Option (Int × State) :=
  if s.timer.ddeKitTimer ≠ 0 then do
    let pending ← ddeKitTimerPending s.kit s.timer.ddeKitTimer
    let kit ← ddeKitTimerDel s.kit s.timer.ddeKitTimer
    return (if pending then 1 else 0, { timer := { s.timer with ddeKitTimer := 0 }, kit := kit })
  else some (0, s)

/-- `__mod_timer` -/
def modTimer (s : State) (expires h : Word) : Option (Int × State) := do
  let (r, s) ← delTimer s
  return (if r > 0 then 1 else 0,
    addTimer { s with timer := { s.timer with expires := expires } } h)

def timerPending (s : State) : Option Int :=
  if s.timer.ddeKitTimer ≠ 0 then
    (ddeKitTimerPending s.kit s.timer.ddeKitTimer).map (fun b => if b then 1 else 0)
  else some 0

/-! ## Histories -/

/-- What happens to the structure and at the kit. -/
inductive Op where
  | add (h : Word)
  | mod (expires h : Word)
  | del
  | pending
  /-- some timer expires -/
  | expire (h : Word)
  /-- another structure arms a timer -/
  | otherAdd (h : Word)
  /-- another structure deletes one of its timers -/
  | otherDel (h : Word)
  deriving DecidableEq, Repr

/-- The answer of the call, if it has one, and the state after it; `none` if the kit was
given a foreign handle. -/
def exec (s : State) : Op → Option (Option Int × State)
  | .add h => some (none, addTimer s h)
  | .mod expires h => (modTimer s expires h).map (fun x => (some x.1, x.2))
  | .del => (delTimer s).map (fun x => (some x.1, x.2))
  | .pending => (timerPending s).map (fun r => (some r, s))
  | .expire h => some (none, { s with kit := settle s.kit h })
  | .otherAdd h => some (none, { s with kit := ddeKitTimerAdd s.kit false h })
  | .otherDel h => some (none, { s with kit := settle s.kit h })

def step (s : State) (op : Op) : State :=
  match exec s op with
  | some (_, s') => s'
  | none => s

/-- A timer of the structure is pending. -/
def armed (s : State) : Bool := s.kit.any (fun k => k.own && k.pending)

/-- A handle the kit may return. -/
def fresh (s : State) (h : Word) : Bool := h != 0 && s.kit.all (·.handle != h)

/-- What the callers and the kit keep to: `add_timer` only when not pending, new timers
have new handles, pending timers expire, and structures delete their own timers. -/
def legal (s : State) : Op → Bool
  | .add h => !armed s && fresh s h
  | .mod _ h => fresh s h
  | .del | .pending => true
  | .expire h => s.kit.any (fun k => k.handle == h && k.pending)
  | .otherAdd h => fresh s h
  | .otherDel h => s.kit.any (fun k => k.handle == h && !k.own)

/-- The calls that read the field. -/
def Op.reads : Op → Bool
  | .mod _ _ | .del | .pending => true
  | _ => false

/-- The answer a call owes its caller. -/
def due (s : State) (op : Op) : Option Int :=
  if op.reads then some (if armed s then 1 else 0) else none

/-- The bookkeeping of one call: the kit is given its own handles only, the answer is
whether a timer was pending, at most one is pending afterwards, and none after
`del_timer`. -/
def Right (s : State) (op : Op) : Prop :=
  ∃ r s', exec s op = some (r, s') ∧ r = due s op ∧
    (s'.kit.filter (fun k => k.own && k.pending)).length ≤ 1 ∧ (op = .del → armed s' = false)

/-- The condition: a call that reads the field finds 0, the handle of a timer of the
structure, or that of a timer that is not pending. -/
def fieldUsable (s : State) (op : Op) : Bool :=
  !op.reads || s.timer.ddeKitTimer == 0 ||
    s.kit.any (fun k => k.handle == s.timer.ddeKitTimer && (k.own || !k.pending))

/-! ## The kit -/

section
variable {kit : Kit} {h : Word}

/-- An entry is updated by its handle. -/
theorem settle_eq_updateKey (kit : Kit) (h : Word) :
    settle kit h = updateKey KitTimer.handle h ({ · with pending := false }) kit := rfl

theorem settle_handles (kit : Kit) (h : Word) :
    (settle kit h).map (·.handle) = kit.map (·.handle) := by
  rw [settle_eq_updateKey, map_updateKey]
  intro k
  rfl

theorem mem_settle {k : KitTimer} (hk : k ∈ settle kit h) :
    ∃ k₀ ∈ kit, k.handle = k₀.handle ∧ k.own = k₀.own ∧
      (k.pending = true → k₀.pending = true ∧ k₀.handle ≠ h) := by
  rw [settle_eq_updateKey] at hk
  rcases mem_updateKey hk with ⟨k₀, hmem, -, rfl⟩ | ⟨hmem, hne⟩
  · exact ⟨k₀, hmem, rfl, rfl, nofun⟩
  · exact ⟨k, hmem, rfl, rfl, fun hp => ⟨hp, hne⟩⟩

/-- What the kit answers about one of its timers. -/
theorem ddeKitTimerPending_eq (hnodup : (kit.map (·.handle)).Nodup) {k : KitTimer} (hk : k ∈ kit) :
    ddeKitTimerPending kit k.handle = some k.pending := by
  rw [ddeKitTimerPending, find?_of_mem hnodup hk, Option.map_some]

theorem ddeKitTimerDel_eq {k : KitTimer} (hk : k ∈ kit) :
    ddeKitTimerDel kit k.handle = some (settle kit k.handle) := by
  rw [ddeKitTimerDel, if_pos]
  rw [List.any_eq_true]
  exact ⟨k, hk, by simp⟩

/-- A handle that is not the kit's. -/
theorem ddeKitTimerPending_none (hforeign : ∀ k ∈ kit, k.handle ≠ h) :
    ddeKitTimerPending kit h = none := by
  have hnone : kit.find? (·.handle == h) = none := find?_key_none.mpr hforeign
  rw [ddeKitTimerPending, hnone, Option.map_none]

end

/-! ## The invariant -/

/-- Handles are not null and tell timers apart, and a pending timer of the structure is
the one in its field. -/
structure Kept (s : State) : Prop where
  nodup : (s.kit.map (·.handle)).Nodup
  nonnull : ∀ k ∈ s.kit, k.handle ≠ 0
  field : ∀ k ∈ s.kit, k.own = true → k.pending = true → k.handle = s.timer.ddeKitTimer

theorem armed_iff {s : State} : armed s = true ↔ ∃ k ∈ s.kit, k.own = true ∧ k.pending = true := by
  simp [armed]

theorem fresh_iff {s : State} {h : Word} :
    fresh s h = true ↔ h ≠ 0 ∧ ∀ k ∈ s.kit, k.handle ≠ h := by
  simp [fresh]

section
variable {s : State} {h : Word}

theorem Kept.atMostOne (hs : Kept s) :
    (s.kit.filter (fun k => k.own && k.pending)).length ≤ 1 := by
  have hnodup : ((s.kit.filter (fun k => k.own && k.pending)).map (·.handle)).Nodup :=
    hs.nodup.sublist (List.filter_sublist.map _)
  have hall : ∀ a ∈ (s.kit.filter (fun k => k.own && k.pending)).map (·.handle),
      a = s.timer.ddeKitTimer := by
    intro a ha
    obtain ⟨k, hk, rfl⟩ := List.mem_map.mp ha
    obtain ⟨hmem, hp⟩ := List.mem_filter.mp hk
    rw [Bool.and_eq_true] at hp
    exact hs.field k hmem hp.1 hp.2
  rw [List.eq_replicate_of_mem hall, List.nodup_replicate, List.length_map] at hnodup
  exact hnodup

/-- A timer of the structure may only be pending if the field has its handle. -/
theorem Kept.armed_eq (hs : Kept s) {k : KitTimer} (hk : k ∈ s.kit)
    (hfield : k.handle = s.timer.ddeKitTimer) : armed s = (k.own && k.pending) := by
  rw [Bool.eq_iff_iff, armed_iff, Bool.and_eq_true]
  constructor
  · rintro ⟨k', hk', hown, hp⟩
    have hhandle : k'.handle = k.handle := (hs.field k' hk' hown hp).trans hfield.symm
    have heq : k' = k := List.inj_on_of_nodup_map hs.nodup hk' hk hhandle
    exact heq ▸ ⟨hown, hp⟩
  · intro hp
    exact ⟨k, hk, hp⟩

theorem Kept.armed_foreign (hs : Kept s) (hforeign : ∀ k ∈ s.kit, k.handle ≠ s.timer.ddeKitTimer) :
    armed s = false := by
  rw [Bool.eq_false_iff]
  intro ha
  obtain ⟨k, hk, hown, hp⟩ := armed_iff.mp ha
  exact hforeign k hk (hs.field k hk hown hp)

theorem Kept.settle (hs : Kept s) (h : Word) : Kept { s with kit := settle s.kit h } := by
  refine ⟨?_, ?_, ?_⟩
  · show ((TimerField.settle s.kit h).map _).Nodup
    rw [settle_handles]
    exact hs.nodup
  · intro k hk
    obtain ⟨k₀, hk₀, hhandle, -, -⟩ := mem_settle hk
    rw [hhandle]
    exact hs.nonnull k₀ hk₀
  · intro k hk hown hp
    obtain ⟨k₀, hk₀, hhandle, hown₀, hp₀⟩ := mem_settle hk
    rw [hhandle]
    exact hs.field k₀ hk₀ (hown₀ ▸ hown) (hp₀ hp).1

theorem Kept.add (hs : Kept s) (own : Bool) (hfresh : fresh s h = true)
    (hother : own = true → armed s = false) :
    Kept { timer := if own then { s.timer with ddeKitTimer := h } else s.timer
           kit := ddeKitTimerAdd s.kit own h } := by
  obtain ⟨hnull, hnew⟩ := fresh_iff.mp hfresh
  refine ⟨?_, ?_, ?_⟩
  · refine List.nodup_cons.mpr ⟨?_, hs.nodup⟩
    intro hmem
    obtain ⟨k, hk, heq⟩ := List.mem_map.mp hmem
    exact hnew k hk heq
  · intro k hk
    rcases List.mem_cons.mp hk with rfl | hk
    · exact hnull
    · exact hs.nonnull k hk
  · intro k hk hown hp
    rcases List.mem_cons.mp hk with rfl | hmem
    · obtain rfl : own = true := hown
      rfl
    · cases own with
      | false => exact hs.field k hmem hown hp
      | true =>
          have harmed : armed s = true := armed_iff.mpr ⟨k, hmem, hown, hp⟩
          rw [hother rfl] at harmed
          cases harmed

/-! ## The calls -/

theorem fieldUsable_iff {op : Op} (hop : op.reads = true) :
    fieldUsable s op = true ↔ s.timer.ddeKitTimer = 0 ∨
      ∃ k ∈ s.kit, k.handle = s.timer.ddeKitTimer ∧ (k.own = true ∨ k.pending = false) := by
  rw [fieldUsable, hop, Bool.or_eq_true, Bool.or_eq_true, beq_iff_eq, List.any_eq_true]
  simp only [Bool.not_true, Bool.false_eq_true, false_or, Bool.and_eq_true, beq_iff_eq,
    Bool.or_eq_true, Bool.not_eq_true']

/-- The field as a call that reads it may find it: nothing there, a timer, or neither. -/
theorem field_cases (s : State) : s.timer.ddeKitTimer = 0 ∨
    (∃ k ∈ s.kit, k.handle = s.timer.ddeKitTimer) ∨
      s.timer.ddeKitTimer ≠ 0 ∧ ∀ k ∈ s.kit, k.handle ≠ s.timer.ddeKitTimer := by
  by_cases hnull : s.timer.ddeKitTimer = 0
  · exact .inl hnull
  · by_cases hk : ∃ k ∈ s.kit, k.handle = s.timer.ddeKitTimer
    · exact .inr (.inl hk)
    · refine .inr (.inr ⟨hnull, ?_⟩)
      intro k hmem heq
      exact hk ⟨k, hmem, heq⟩

/-- `del_timer` asks and deletes the timer in the field, whoever it belongs to. -/
theorem delTimer_eq (hs : Kept s) {k : KitTimer} (hk : k ∈ s.kit)
    (hfield : k.handle = s.timer.ddeKitTimer) :
    delTimer s = some (if k.pending then 1 else 0,
      { timer := { s.timer with ddeKitTimer := 0 }, kit := settle s.kit k.handle }) := by
  have hnull : s.timer.ddeKitTimer ≠ 0 := hfield ▸ hs.nonnull k hk
  rw [delTimer, if_pos hnull, ← hfield, ddeKitTimerPending_eq hs.nodup hk, ddeKitTimerDel_eq hk]
  rfl

/-- `timer_pending` answers what `del_timer` would. -/
theorem timerPending_eq (s : State) : timerPending s = (delTimer s).map (·.1) := by
  unfold timerPending delTimer
  by_cases hnull : s.timer.ddeKitTimer = 0
  · rw [if_neg (not_not.mpr hnull), if_neg (not_not.mpr hnull)]
    rfl
  · rw [if_pos hnull, if_pos hnull]
    cases hp : ddeKitTimerPending s.kit s.timer.ddeKitTimer with
    | none => rfl
    | some pending =>
        obtain ⟨k, hfind, -⟩ := Option.map_eq_some_iff.mp hp
        have hk : k.handle = s.timer.ddeKitTimer := by simpa using List.find?_some hfind
        have hdel := ddeKitTimerDel_eq (List.mem_of_find?_eq_some hfind)
        rw [hk] at hdel
        rw [hdel]
        rfl

/-- With a usable field `del_timer` does what it is for. -/
theorem delTimer_usable (hs : Kept s) (hu : fieldUsable s .del = true) :
    ∃ s', delTimer s = some (if armed s then 1 else 0, s') ∧ Kept s' ∧ armed s' = false ∧
      ∀ h, fresh s' h = fresh s h := by
  rcases (fieldUsable_iff rfl).mp hu with hnull | ⟨k, hk, hfield, hown⟩
  · have harmed : armed s = false :=
      hs.armed_foreign (fun k hk heq => hs.nonnull k hk (heq.trans hnull))
    refine ⟨s, ?_, hs, harmed, fun _ => rfl⟩
    rw [delTimer, if_neg (not_not.mpr hnull), harmed]
    rfl
  · have hanswer : k.pending = armed s := by
      rw [hs.armed_eq hk hfield]
      rcases hown with hown | hp
      · rw [hown, Bool.true_and]
      · rw [hp, Bool.and_false]
    have hgone : ∀ k' ∈ settle s.kit k.handle, k'.own = true → k'.pending = true → False := by
      intro k' hk' hown' hp'
      obtain ⟨k₀, hk₀, hhandle, hown₀, hp₀⟩ := mem_settle hk'
      exact (hp₀ hp').2 ((hs.field k₀ hk₀ (hown₀ ▸ hown') (hp₀ hp').1).trans hfield.symm)
    have hkept := hs.settle k.handle
    refine ⟨_, by rw [delTimer_eq hs hk hfield, hanswer], ?_, ?_, ?_⟩
    · refine ⟨hkept.nodup, hkept.nonnull, ?_⟩
      intro k' hk' hown' hp'
      exact (hgone k' hk' hown' hp').elim
    · rw [Bool.eq_false_iff]
      intro ha
      obtain ⟨k', hk', hown', hp'⟩ := armed_iff.mp ha
      exact hgone k' hk' hown' hp'
    · intro h
      rw [Bool.eq_iff_iff, fresh_iff, fresh_iff]
      refine and_congr_right (fun _ => ?_)
      have hhandles : ∀ kit : Kit, (∀ k ∈ kit, k.handle ≠ h) ↔ h ∉ kit.map (·.handle) := by
        intro kit
        simp [List.mem_map]
      rw [hhandles, hhandles, settle_handles]

/-- Without one it gives the kit a foreign handle, or answers for another structure. -/
theorem delTimer_unusable (hs : Kept s) (hu : ¬ fieldUsable s .del = true) {r : Int} {s' : State}
    (hdel : delTimer s = some (r, s')) : r = 1 ∧ armed s = false := by
  rw [fieldUsable_iff rfl, not_or] at hu
  rcases field_cases s with hnull | ⟨k, hk, hfield⟩ | ⟨hnull, hforeign⟩
  · exact absurd hnull hu.1
  · have hother : k.own = false ∧ k.pending = true := by
      have hne : ¬ (k.own = true ∨ k.pending = false) := fun h => hu.2 ⟨k, hk, hfield, h⟩
      simpa [not_or] using hne
    rw [delTimer_eq hs hk hfield, hother.2] at hdel
    cases hdel
    refine ⟨rfl, ?_⟩
    rw [hs.armed_eq hk hfield, hother.1, Bool.false_and]
  · rw [delTimer, if_pos hnull, ddeKitTimerPending_none hforeign] at hdel
    cases hdel

/-- Under the condition a call does what it owes. -/
theorem exec_usable {op : Op} (hs : Kept s) (hl : legal s op = true)
    (hu : fieldUsable s op = true) :
    ∃ s', exec s op = some (due s op, s') ∧ Kept s' ∧ (op = .del → armed s' = false) := by
  cases op with
  | add h =>
      obtain ⟨hidle, hfresh⟩ := Bool.and_eq_true_iff.mp hl
      exact ⟨_, rfl, hs.add true hfresh (fun _ => by simpa using hidle), nofun⟩
  | mod expires h =>
      obtain ⟨s', hdel, hkept, hidle, hfresh⟩ := delTimer_usable hs hu
      have hmod : Kept { s' with timer := { s'.timer with expires := expires } } :=
        ⟨hkept.nodup, hkept.nonnull, hkept.field⟩
      refine ⟨_, ?_, hmod.add true ((hfresh h).trans hl) (fun _ => hidle), nofun⟩
      show (modTimer s expires h).map _ = _
      rw [modTimer, hdel, due]
      cases armed s <;> rfl
  | del =>
      obtain ⟨s', hdel, hkept, hidle, -⟩ := delTimer_usable hs hu
      refine ⟨s', ?_, hkept, fun _ => hidle⟩
      show (delTimer s).map _ = _
      rw [hdel]
      rfl
  | pending =>
      obtain ⟨s', hdel, -⟩ := delTimer_usable hs hu
      refine ⟨s, ?_, hs, nofun⟩
      show (timerPending s).map _ = _
      rw [timerPending_eq, hdel]
      rfl
  | expire h => exact ⟨_, rfl, hs.settle h, nofun⟩
  | otherAdd h => exact ⟨_, rfl, hs.add false hl nofun, nofun⟩
  | otherDel h => exact ⟨_, rfl, hs.settle h, nofun⟩

/-- Without it a call that answers at all answers wrongly. -/
theorem exec_unusable {op : Op} (hs : Kept s) (hu : ¬ fieldUsable s op = true) {r : Option Int}
    {s' : State} (he : exec s op = some (r, s')) : r ≠ due s op := by
  cases op with
  | mod expires h =>
      obtain ⟨⟨r₁, s₁⟩, hmod, heq⟩ := Option.map_eq_some_iff.mp he
      obtain ⟨⟨r₀, s₀⟩, hdel, hadd⟩ := Option.bind_eq_some_iff.mp hmod
      obtain ⟨rfl, hidle⟩ := delTimer_unusable hs hu hdel
      cases hadd
      cases heq
      simp [due, hidle]
  | del =>
      obtain ⟨⟨r₀, s₀⟩, hdel, heq⟩ := Option.map_eq_some_iff.mp he
      obtain ⟨rfl, hidle⟩ := delTimer_unusable hs hu hdel
      cases heq
      simp [due, hidle]
  | pending =>
      obtain ⟨r₁, hpend, heq⟩ := Option.map_eq_some_iff.mp he
      rw [timerPending_eq] at hpend
      obtain ⟨⟨r₀, s₀⟩, hdel, rfl⟩ := Option.map_eq_some_iff.mp hpend
      obtain ⟨rfl, hidle⟩ := delTimer_unusable hs hu hdel
      cases heq
      simp [due, hidle]
  | add h | expire h | otherAdd h | otherDel h => exact absurd rfl hu

theorem right_iff {op : Op} (hs : Kept s) (hl : legal s op = true) :
    Right s op ↔ fieldUsable s op = true := by
  constructor
  · rintro ⟨r, s', he, hr, -⟩
    by_contra hu
    exact exec_unusable hs hu he hr
  · intro hu
    obtain ⟨s', he, hkept, hidle⟩ := exec_usable hs hl hu
    exact ⟨_, s', he, rfl, hkept.atMostOne, hidle⟩

theorem step_kept {op : Op} (hs : Kept s) (hl : legal s op = true)
    (hu : fieldUsable s op = true) : Kept (step s op) := by
  obtain ⟨s', he, hkept, -⟩ := exec_usable hs hl hu
  rw [step, he]
  exact hkept

end

/-! ## The bookkeeping of a history -/

/-- How a driver prepares the structure. -/
inductive Setup where
  | init
  | setup (function data : Word)
  deriving DecidableEq, Repr

def Setup.run : Setup → TimerList → TimerList
  | .init, timer => initTimer timer
  | .setup function data, timer => setupTimer timer function data

/-- The timers of other structures. -/
structure Foreign (kit : Kit) : Prop where
  nodup : (kit.map (·.handle)).Nodup
  nonnull : ∀ k ∈ kit, k.handle ≠ 0
  other : ∀ k ∈ kit, k.own = false

theorem Foreign.kept {kit : Kit} (hkit : Foreign kit) (timer : TimerList) : Kept ⟨timer, kit⟩ where
  nodup := hkit.nodup
  nonnull := hkit.nonnull
  field := by
    intro k hk hown
    rw [hkit.other k hk] at hown
    cases hown

/-- **When the bookkeeping is right.**  Whatever was in the memory of the structure, and
whatever timers the kit has for others: along a history of calls and expiries, the kit is
given its own handles only, every answer is right, at most one timer is pending and none
after `del_timer`, if and only if each call that reads the field finds it usable. -/
theorem timer_bookkeeping_iff (memory : TimerList) (how : Setup) (kit : Kit) (hkit : Foreign kit)
    (ops : List Op) (hlegal : Along step (legal · ·) ⟨how.run memory, kit⟩ ops) :
    Along step Right ⟨how.run memory, kit⟩ ops ↔
      Along step (fieldUsable · ·) ⟨how.run memory, kit⟩ ops := by
  refine Along.iff_of_invariant (I := Kept) ?_ ?_ ops _ (hkit.kept _) hlegal
  · intro s op hs hl
    exact right_iff hs hl
  · intro s op hs hl hu
    exact step_kept hs hl hu

/-- A driver that arms its timer before it does anything else with it has a right
history, although the field starts as garbage. -/
theorem timer_bookkeeping_armed_first :
    Along step Right ⟨Setup.init.run ⟨0, 0, 0, 0xdeadbeef⟩, [⟨0x80, false, true⟩]⟩
      [.add 0x100, .expire 0x80, .pending, .mod 5 0x180, .expire 0x180, .del] :=
  (timer_bookkeeping_iff ⟨0, 0, 0, 0xdeadbeef⟩ .init [⟨0x80, false, true⟩]
    ⟨by decide, by decide, by decide⟩ _ (by decide)).mpr (by decide)

/-- **A handle nobody made.**  `del_timer` on a structure that `init_timer` has prepared
hands the garbage in the field to the kit. -/
theorem del_timer_uninitialised :
    Along step (legal · ·) ⟨initTimer ⟨0, 0, 0, 0xdeadbeef⟩, []⟩ [.del] ∧
      ¬ Along step Right ⟨initTimer ⟨0, 0, 0, 0xdeadbeef⟩, []⟩ [.del] := by
  refine ⟨by decide, ?_⟩
  rintro ⟨⟨r, s', he, -⟩, -⟩
  have hnone : exec ⟨initTimer ⟨0, 0, 0, 0xdeadbeef⟩, []⟩ .del = none := by decide
  rw [hnone] at he
  cases he

/-! ## Structures whose field starts as 0 -/

/-- The field is empty or has a handle of the structure's own. -/
def OwnField (s : State) : Prop :=
  s.timer.ddeKitTimer = 0 ∨ ∃ k ∈ s.kit, k.handle = s.timer.ddeKitTimer ∧ k.own = true

section
variable {s : State} {op : Op}

theorem OwnField.usable (h : OwnField s) : fieldUsable s op = true := by
  cases hop : op.reads with
  | false => rw [fieldUsable, hop]; rfl
  | true =>
      rw [fieldUsable_iff hop]
      rcases h with hnull | ⟨k, hk, hfield, hown⟩
      · exact .inl hnull
      · exact .inr ⟨k, hk, hfield, .inl hown⟩

theorem OwnField.settle (h : OwnField s) (a : Word) :
    OwnField { s with kit := settle s.kit a } := by
  rcases h with hnull | ⟨k, hk, hfield, hown⟩
  · exact .inl hnull
  · refine .inr ⟨_, List.mem_map_of_mem hk, ?_⟩
    split <;> exact ⟨hfield, hown⟩

theorem delTimer_field {r : Int} {s' : State} (hdel : delTimer s = some (r, s')) :
    s'.timer.ddeKitTimer = 0 := by
  unfold delTimer at hdel
  split at hdel
  · obtain ⟨b, -, hrest⟩ := Option.bind_eq_some_iff.mp hdel
    obtain ⟨kit, -, hpure⟩ := Option.bind_eq_some_iff.mp hrest
    cases hpure
    rfl
  · rename_i hnull
    cases hdel
    exact not_not.mp hnull

theorem OwnField.exec {r : Option Int} {s' : State} (h : OwnField s)
    (he : exec s op = some (r, s')) : OwnField s' := by
  cases op with
  | add a =>
      cases he
      exact .inr ⟨_, List.mem_cons_self, rfl, rfl⟩
  | mod expires a =>
      obtain ⟨⟨r₁, s₁⟩, hmod, heq⟩ := Option.map_eq_some_iff.mp he
      obtain ⟨⟨r₀, s₀⟩, -, hadd⟩ := Option.bind_eq_some_iff.mp hmod
      cases hadd
      cases heq
      exact .inr ⟨_, List.mem_cons_self, rfl, rfl⟩
  | del =>
      obtain ⟨⟨r₀, s₀⟩, hdel, heq⟩ := Option.map_eq_some_iff.mp he
      cases heq
      exact .inl (delTimer_field hdel)
  | pending =>
      obtain ⟨r₁, -, heq⟩ := Option.map_eq_some_iff.mp he
      cases heq
      exact h
  | expire a | otherDel a =>
      cases he
      exact h.settle a
  | otherAdd a =>
      cases he
      rcases h with hnull | ⟨k, hk, hfield⟩
      · exact .inl hnull
      · exact .inr ⟨k, List.mem_cons_of_mem _ hk, hfield⟩

end

/-- A timer that was defined with `DEFINE_TIMER`, or lies in zeroed memory, is always
kept right. -/
theorem timer_bookkeeping_of_null (timer : TimerList) (hnull : timer.ddeKitTimer = 0) (kit : Kit)
    (hkit : Foreign kit) (ops : List Op) (hlegal : Along step (legal · ·) ⟨timer, kit⟩ ops) :
    Along step Right ⟨timer, kit⟩ ops := by
  refine Along.of_invariant (I := fun s => Kept s ∧ OwnField s) ?_ ?_ ops _
    ⟨hkit.kept timer, .inl hnull⟩ hlegal
  · rintro s op ⟨hs, hown⟩ hl
    exact (right_iff hs hl).mpr hown.usable
  · rintro s op ⟨hs, hown⟩ hl
    refine ⟨step_kept hs hl hown.usable, ?_⟩
    obtain ⟨s', he, -⟩ := exec_usable hs hl hown.usable
    rw [step, he]
    exact hown.exec he

end LinuxDrivers.Kernel.TimerField
