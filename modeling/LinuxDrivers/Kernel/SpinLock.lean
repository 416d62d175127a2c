/-
# `LinuxDrivers.Kernel.SpinLock` — spin locks with lazy initialisation

`spinlock.h` maps every Linux spin lock to a DDE kit spin lock.  A statically
initialised lock (`DEFINE_SPINLOCK` and relatives) cannot call
`dde_kit_spin_lock_init` at compile time, so it starts with `need_init` set and
every operation begins with `COND_INIT_LOCK`:

    if ((l)->need_init) spin_lock_init(l);

    spin_lock_init(l):  dde_kit_spin_lock_init(&(l)->dde_kit_spin_lock);
                        (l)->need_init = 0;

The test, the initialisation, the store and the DDE kit operation are four
separate accesses.  A thread that has seen `need_init` set can be overtaken by
another one that initialises *and takes* the lock; its own initialisation then
opens the lock under the holder.

**Proved here.**

    a run in which two threads hold a `DEFINE_SPINLOCK` lock            (`staticLock_two_holders`)
    no re-initialisation under a holder ⟹ at most one holder, always    (`staticLock_exclusive`)
    a re-initialisation under a holder can always be made to break it   (`reset_under_holder_breaks`)
-/
import LinuxDrivers.Lib.Interleave

namespace LinuxDrivers.Kernel.SpinLock

open LinuxDrivers.Lib

/-! ## The lock and its sequential operations -/

/-- `spinlock_t`.  The DDE kit lock is represented by whether it is taken. -/
structure SpinlockT where
  ddeKitSpinLock : Bool
  needInit : Bool
  deriving DecidableEq, Repr

/-- `SPIN_LOCK_UNLOCKED`, which `__SPIN_LOCK_UNLOCKED(name)` expands to. -/
def spinLockUnlocked : SpinlockT := ⟨false, true⟩

/-- `RW_LOCK_UNLOCKED`; an `rwlock_t` is a `spinlock_t`. -/
def rwLockUnlocked : SpinlockT := ⟨false, true⟩

def defineSpinlock : SpinlockT := spinLockUnlocked

def defineRwlock : SpinlockT := rwLockUnlocked

/-- `dde_kit_spin_lock_init`: the lock becomes free, whatever it was. -/
def ddeKitSpinLockInit (l : SpinlockT) : SpinlockT := { l with ddeKitSpinLock := false }

/-- `dde_kit_spin_lock_lock`; `none` while the lock is taken. -/
def ddeKitSpinLockLock (l : SpinlockT) : Option SpinlockT :=
  if l.ddeKitSpinLock then none else some { l with ddeKitSpinLock := true }

/-- `dde_kit_spin_lock_try_lock`, which answers 0 when it took the lock. -/
def ddeKitSpinLockTryLock (l : SpinlockT) : Int × SpinlockT :=
  if l.ddeKitSpinLock then (1, l) else (0, { l with ddeKitSpinLock := true })

def ddeKitSpinLockUnlock (l : SpinlockT) : SpinlockT := { l with ddeKitSpinLock := false }

def spinLockInit (l : SpinlockT) : SpinlockT :=
  { ddeKitSpinLockInit l with needInit := false }

def condInitLock (l : SpinlockT) : SpinlockT := if l.needInit then spinLockInit l else l

def spinLock (l : SpinlockT) : Option SpinlockT := ddeKitSpinLockLock (condInitLock l)

def spinTrylock (l : SpinlockT) : Bool × SpinlockT :=
  let r := ddeKitSpinLockTryLock (condInitLock l)
  (r.1 == 0, r.2)

def spinUnlock (l : SpinlockT) : SpinlockT := ddeKitSpinLockUnlock (condInitLock l)

/-! ## The same operations, one access at a time -/

/-- The three calls a thread makes. -/
inductive Op where
  | lock
  | trylock
  | unlock
  deriving DecidableEq, Repr

/-- Where a thread stands: outside the three calls, or inside one of them. -/
inductive Point where
  | out
  /-- about to test `need_init` -/
  | test (op : Op)
  /-- saw `need_init` set; about to call `dde_kit_spin_lock_init` -/
  | reset (op : Op)
  /-- about to store `need_init = 0` -/
  | clear (op : Op)
  /-- about to call the DDE kit operation -/
  | kit (op : Op)
  deriving DecidableEq, Repr

/-- A thread; `held` from a successful `spin_lock` or `spin_trylock` until the
DDE kit unlock of its `spin_unlock`. -/
structure Thread where
  held : Bool
  point : Point
  deriving DecidableEq, Repr

/-- One access of one thread.  The choice `a` says which call a thread outside
makes next; only a holder unlocks. -/
def step (l : SpinlockT) (t : Thread) (a : Op) : Option (SpinlockT × Thread) :=
  match t.point with
  | .out =>
      match a with
      | .unlock => if t.held then some (l, { t with point := .test .unlock }) else none
      | op => some (l, { t with point := .test op })
  | .test op =>
      if l.needInit then some (l, { t with point := .reset op })
      else some (l, { t with point := .kit op })
  | .reset op => some (ddeKitSpinLockInit l, { t with point := .clear op })
  | .clear op => some ({ l with needInit := false }, { t with point := .kit op })
  | .kit .lock =>
      match ddeKitSpinLockLock l with
      | none => none
      | some l' => some (l', ⟨true, .out⟩)
  | .kit .trylock =>
      -- a failing attempt leaves the thread as it was
      let r := ddeKitSpinLockTryLock l
      some (r.2, ⟨r.1 == 0 || t.held, .out⟩)
  | .kit .unlock => some (ddeKitSpinLockUnlock l, ⟨false, .out⟩)

/-- A statically initialised lock and threads that have not used it yet. -/
def prog : Prog SpinlockT Thread Op where
  init l := l = defineSpinlock ∨ l = spinLockUnlocked ∨ l = defineRwlock
  start t := t = ⟨false, .out⟩
  step _ := step

def machine : Machine (Conf SpinlockT Thread) (Nat × Op) := prog.machine

/-- At most one thread is between a successful lock and its unlock. -/
def MutualExclusion (c : Conf SpinlockT Thread) : Prop :=
  ∀ (i j : Nat) (t u : Thread), c.pool[i]? = some t → c.pool[j]? = some u →
    t.held = true → u.held = true → i = j

/-- The condition: `COND_INIT_LOCK` re-initialises the lock only while nobody
holds it. -/
def noResetUnderHolder (c : Conf SpinlockT Thread) (ia : Nat × Op) : Bool :=
  match c.pool[ia.1]? with
  | some ⟨_, .reset _⟩ => c.pool.all (fun u => !u.held)
  | _ => true

/-! ## The DDE kit lock is taken exactly when somebody holds it -/

/-- The call a thread is inside. -/
def Point.op : Point → Option Op
  | .out => none
  | .test op | .reset op | .clear op | .kit op => some op

/-- Only holders are inside `spin_unlock`. -/
theorem step_unlock_held {l l' : SpinlockT} {t t' : Thread} {a : Op}
    (ht : t.point.op = some .unlock → t.held = true) (hs : step l t a = some (l', t')) :
    t'.point.op = some .unlock → t'.held = true := by
  obtain ⟨held, point⟩ := t
  cases point with
  | out =>
      cases a <;> simp only [step] at hs
      · cases hs; simp [Point.op]
      · cases hs; simp [Point.op]
      · split at hs
        · rename_i hh
          cases hs
          exact fun _ => hh
        · cases hs
  | test op =>
      simp only [step] at hs
      split at hs <;> cases hs <;> exact ht
  | reset op => cases hs; exact ht
  | clear op => cases hs; exact ht
  | kit op =>
      -- every DDE kit operation ends its call
      cases op <;> simp only [step] at hs
      · split at hs
        · cases hs
        · cases hs; simp [Point.op]
      · cases hs; simp [Point.op]
      · cases hs; simp [Point.op]

/-- A holder weighs one. -/
def holder (t : Thread) : Nat := t.held.toNat

theorem holder_pos {t : Thread} : 0 < holder t ↔ t.held = true := by
  cases h : t.held <;> simp [holder, h]

/-- One access keeps the lock in step with the number of holders, `r` being the
holders among the other threads. -/
theorem step_balance {l l' : SpinlockT} {t t' : Thread} {a : Op} {r : Nat}
    (hunlock : t.point.op = some .unlock → t.held = true)
    (hreset : ∀ op, t.point = .reset op → r + holder t = 0)
    (hs : step l t a = some (l', t'))
    (hb : l.ddeKitSpinLock.toNat = r + holder t) :
    l'.ddeKitSpinLock.toNat = r + holder t' := by
  obtain ⟨held, point⟩ := t
  cases point with
  | out =>
      cases a <;> simp only [step] at hs
      · cases hs; exact hb
      · cases hs; exact hb
      · split at hs
        · cases hs; exact hb
        · cases hs
  | test op =>
      simp only [step] at hs
      split at hs <;> cases hs <;> exact hb
  | reset op =>
      cases hs
      exact (hreset op rfl).symm
  | clear op => cases hs; exact hb
  | kit op =>
      -- a free lock has no holder at all, so a new holder is the only one
      have hle : l.ddeKitSpinLock.toNat ≤ 1 := Bool.toNat_le _
      cases op with
      | lock =>
          cases hl : l.ddeKitSpinLock <;>
            simp only [step, ddeKitSpinLockLock, hl, if_true, Bool.false_eq_true, if_false,
              Option.some.injEq, Prod.mk.injEq, reduceCtorEq] at hs
          obtain ⟨rfl, rfl⟩ := hs
          simp only [hl, Bool.toNat_false] at hb
          simp only [holder, Bool.toNat_true]
          omega
      | trylock =>
          cases hl : l.ddeKitSpinLock <;>
            simp only [step, ddeKitSpinLockTryLock, hl, if_true, Bool.false_eq_true, if_false,
              Option.some.injEq, Prod.mk.injEq] at hs
          · obtain ⟨rfl, rfl⟩ := hs
            simp only [hl, Bool.toNat_false] at hb
            simp only [holder, beq_self_eq_true, Bool.true_or, Bool.toNat_true]
            omega
          · obtain ⟨rfl, rfl⟩ := hs
            simpa [holder] using hb
      | unlock =>
          have hheld : held = true := hunlock rfl
          subst hheld
          cases hs
          simp only [holder, Bool.toNat_true] at hb
          simp only [ddeKitSpinLockUnlock, holder, Bool.toNat_false]
          omega

section
variable {c : Conf SpinlockT Thread}

/-- As long as nobody is re-initialised under, the lock counts its holders. -/
theorem holders_eq_taken (h : machine.Reach (noResetUnderHolder · ·) c) :
    c.shared.ddeKitSpinLock.toNat = total holder c.pool := by
  refine Prog.balance (P := prog) holder (fun l n => l.ddeKitSpinLock.toNat = n) ?_ ?_ h
  · rintro c ⟨hl, hpool⟩
    have hfree : c.shared.ddeKitSpinLock = false := by
      rcases hl with hl | hl | hl <;> rw [hl] <;> rfl
    have hzero : total holder c.pool = 0 :=
      total_eq_zero (fun t ht => by rw [hpool t ht]; rfl)
    simp only [hfree, hzero, Bool.toNat_false]
  · intro c i a t l' t' r hreach hok ht hr hs hb
    have hunlock := Prog.each (P := prog) (fun t => t.point.op = some .unlock → t.held = true)
      (fun t ht => by rw [show t = ⟨false, .out⟩ from ht]; simp [Point.op])
      (fun _ _ _ _ _ _ hk hs => step_unlock_held hk hs) hreach ht
    refine step_balance hunlock (fun op hop => ?_) hs hb
    obtain ⟨held, point⟩ := t
    subst hop
    simp only [noResetUnderHolder, ht, List.all_eq_true, Bool.not_eq_true'] at hok
    rw [← hr]
    exact total_eq_zero (fun u hu => by simp [holder, hok u hu])

/-- **Mutual exclusion, conditionally.**  In every run in which no lock is
re-initialised under its holder, at most one thread is between a successful
lock and its unlock. -/
theorem staticLock_exclusive (h : machine.Reach (noResetUnderHolder · ·) c) : MutualExclusion c := by
  intro i j t u hi hj ht hu
  have hle : total holder c.pool ≤ 1 := by
    rw [← holders_eq_taken h]
    exact Bool.toNat_le _
  exact unique_of_total_le_one hle hi hj (holder_pos.mpr ht) (holder_pos.mpr hu)

/-- Such a run: both threads use the lock for the first time, one after the
other, and the second one finds it taken. -/
theorem staticLock_exclusive_pair :
    MutualExclusion ⟨⟨true, false⟩, [⟨true, .out⟩, ⟨false, .kit .lock⟩]⟩ := by
  have hinit : machine.Reach (noResetUnderHolder · ·)
      ⟨defineSpinlock, [⟨false, .out⟩, ⟨false, .out⟩]⟩ :=
    .init ⟨.inl rfl, by simp [prog]⟩
  exact staticLock_exclusive (hinit.runOk [(0, .lock), (0, .lock), (0, .lock), (0, .lock),
    (0, .lock), (1, .lock), (1, .lock)] (by decide))

/-- **Two holders.**  Both threads see `need_init` set; the first one initialises
and takes the lock, then the second one initialises it again and takes it too. -/
theorem staticLock_two_holders :
    ∃ c, machine.run ⟨defineSpinlock, [⟨false, .out⟩, ⟨false, .out⟩]⟩
        [(0, .lock), (0, .lock), (1, .lock), (1, .lock),
         (0, .lock), (0, .lock), (0, .lock),
         (1, .lock), (1, .lock), (1, .lock)] = some c ∧ ¬ MutualExclusion c := by
  refine ⟨⟨⟨true, false⟩, [⟨true, .out⟩, ⟨true, .out⟩]⟩, rfl, fun h => ?_⟩
  have := h 0 1 _ _ rfl rfl rfl rfl
  omega

/-- The condition leaves out nothing harmless: once a thread is about to
re-initialise the lock under another thread's feet, its own three next accesses
give the lock a second holder. -/
theorem reset_under_holder_breaks {i j : Nat} {u : Thread} (hij : i ≠ j)
    (hi : c.pool[i]? = some ⟨false, .reset .lock⟩) (hj : c.pool[j]? = some u)
    (hu : u.held = true) :
    ∃ c', machine.run c [(i, .lock), (i, .lock), (i, .lock)] = some c' ∧
      ¬ MutualExclusion c' := by
  have hself : ∀ p : Thread, (c.pool.set i p)[i]? = some p := fun p => by
    rw [List.getElem?_set_self (List.getElem?_eq_some_iff.mp hi).1]
  refine ⟨⟨⟨true, false⟩, c.pool.set i ⟨true, .out⟩⟩, ?_, fun h => ?_⟩
  · rw [machine, Prog.machine_run_cons hi rfl, Prog.machine_run_cons (hself _) rfl,
      Prog.machine_run_cons (by rw [List.set_set]; exact hself _) rfl, List.set_set, List.set_set]
    rfl
  · exact hij (h i j ⟨true, .out⟩ u (hself _) (by rw [List.getElem?_set_ne hij]; exact hj) rfl hu)

end

end LinuxDrivers.Kernel.SpinLock
