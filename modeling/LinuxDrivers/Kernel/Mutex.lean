/-
# `LinuxDrivers.Kernel.Mutex` — the mutexes of Linux on the sleep of the DDE

A mutex is a count, 1 if it is free, and a list of waiters with a spin lock:

    mutex_lock:    count--, and if it is negative:
                     lock;  add the waiter at the end
                     until the count, exchanged for -1, was 1:
                       state = UNINTERRUPTIBLE;  unlock;  schedule();  lock
                     remove the waiter;  count = 0 if nobody is left;  unlock
    mutex_unlock:  count++, and if it is not positive:
                     lock;  count = 1;  wake the first waiter;  unlock

`mutex_lock_interruptible` gives up when a signal is pending, `mutex_trylock` exchanges 1 for 0.

The count is changed without the lock by everybody who locks and unlocks, so a thread may take the
mutex while its first waiter is on its way to it, and a waiter may find that a decrement of the
fast path has made a 0 of the 1 it was woken for.  What keeps the waiters from being forgotten is
that a waiter leaves -1 behind.  A wake-up is a token in the semaphore of the task, which may also
be an old one, or one sent for another reason.

`mutex_init` initialises the spin lock, `DEFINE_MUTEX` leaves that to its first use, and then two
threads can be between `spin_lock` and `spin_unlock`.  `step` is the code on an initialised lock,
`locking` on any.

**Proved here.**

    the count is 1 and nobody owns the mutex, or it is not positive and one thread does
                                                                (`owned`)
    the list has the waiters, each once                         (`listed`)
    the first waiter sleeps only if the next release will find it, or there is a token for it
    or there will be                                            (`first_covered`)
    the count stays above minus the number of threads           (`count_ge`)
    while the lock is not re-initialised under a holder: two threads never own the mutex, and
    while a thread hangs the mutex is owned, or the first waiter is awake or being woken
                                                                (`mutex_excludes_and_wakes`)
-/
import LinuxDrivers.Kernel.LazyLock
import LinuxDrivers.Kernel.Sched

namespace LinuxDrivers.Kernel.Mutex

open LinuxDrivers.Lib LinuxDrivers.Kernel.Sched

/-! ## The code, one access at a time -/

/-- Where a thread stands; `st` is the state in which it waits. -/
inductive Pc where
  | idle
  /-- `__mutex_lock_common` -/
  | lockLock (st : TaskState)
  | addTail (st : TaskState)
  | xchg (st : TaskState)
  | signal (st : TaskState)
  | setState (st : TaskState)
  | unlock (st : TaskState)
  /-- in `schedule()`: about to read `current->state` -/
  | switch (st : TaskState)
  /-- in `schedule()`: in `dde_kit_sem_down` -/
  | sleep (st : TaskState)
  | relock (st : TaskState)
  | remove
  | setZero
  | gotUnlock
  /-- the way out with `-EINTR` -/
  | intrRemove
  | intrUnlock
  /-- between `mutex_lock` and `mutex_unlock` -/
  | owner
  /-- `__mutex_unlock_common_slowpath` -/
  | unlockLock
  | setOne
  | wakeFirst
  | wakeStore (p : Nat)
  | wakeUp (p : Nat)
  | unlockUnlock
  /-- `try_to_wake_up(p)` on behalf of somebody else -/
  | otherStore (p : Nat)
  | otherUp (p : Nat)
  | panicked
  deriving DecidableEq, Repr

structure Shared where
  count : Int
  /-- `wait_lock` is taken -/
  lock : Bool
  /-- `wait_list`; a waiter is the index of its thread -/
  waitList : List Nat
  tasks : Tasks
  /-- `TIF_SIGPENDING` -/
  sigPending : Nat → Bool

/-- What a thread does next when it is not in the code of the mutex. -/
inductive Choice where
  | mutexLock
  | mutexLockInterruptible
  | mutexTrylock
  | mutexUnlock
  /-- a signal is sent to task `p` -/
  | signal (p : Nat)
  /-- task `p` is woken for another reason -/
  | wakeUpProcess (p : Nat)
  deriving DecidableEq, Repr

/-- The fast path of the two lock functions: `decl`, `jns`. -/
def fastpathLock (g : Shared) (st : TaskState) : Shared × Pc :=
  ({ g with count := g.count - 1 }, if 0 ≤ g.count - 1 then .owner else .lockLock st)

/-- One access of thread `i`. -/
def step (i : Nat) (g : Shared) (pc : Pc) (a : Choice) : Option (Shared × Pc) :=
  match pc with
  | .idle =>
      match a with
      | .mutexLock => some (fastpathLock g .uninterruptible)
      | .mutexLockInterruptible => some (fastpathLock g .interruptible)
      | .mutexTrylock =>
          -- `cmpxchg`
          if g.count = 1 then some ({ g with count := 0 }, .owner) else some (g, .idle)
      | .mutexUnlock => none
      | .signal p => some ({ g with sigPending := Function.update g.sigPending p true }, .idle)
      | .wakeUpProcess p => some (g, .otherStore p)
  | .lockLock st => if g.lock then none else some ({ g with lock := true }, .addTail st)
  | .addTail st => some ({ g with waitList := g.waitList ++ [i] }, .xchg st)
  | .xchg st => some ({ g with count := -1 }, if g.count = 1 then .remove else .signal st)
  | .signal st =>
      some (g, if st = .interruptible ∧ g.sigPending i = true then .intrRemove else .setState st)
  | .setState st => some ({ g with tasks := setTaskState g.tasks i st }, .unlock st)
  | .unlock st => some ({ g with lock := false }, .switch st)
  | .switch st =>
      match schedule (g.tasks i).state with
      | .yield => some (g, .relock st)
      | .down => some (g, .sleep st)
      | .panic => some (g, .panicked)
  | .sleep st =>
      match semDown g.tasks i with
      | none => none
      | some ts => some ({ g with tasks := ts }, .relock st)
  | .relock st => if g.lock then none else some ({ g with lock := true }, .xchg st)
  | .remove => some ({ g with waitList := g.waitList.erase i }, .setZero)
  | .setZero => some (if g.waitList = [] then { g with count := 0 } else g, .gotUnlock)
  | .gotUnlock => some ({ g with lock := false }, .owner)
  | .intrRemove => some ({ g with waitList := g.waitList.erase i }, .intrUnlock)
  | .intrUnlock => some ({ g with lock := false }, .idle)
  | .owner =>
      match a with
      | .mutexUnlock =>
          -- `incl`, `jg`
          some ({ g with count := g.count + 1 }, if 0 < g.count + 1 then .idle else .unlockLock)
      | _ => none
  | .unlockLock => if g.lock then none else some ({ g with lock := true }, .setOne)
  | .setOne => some ({ g with count := 1 }, .wakeFirst)
  | .wakeFirst =>
      match g.waitList with
      | [] => some (g, .unlockUnlock)
      | p :: _ => some (g, .wakeStore p)
  | .wakeStore p => some ({ g with tasks := setTaskState g.tasks p .running }, .wakeUp p)
  | .wakeUp p => some ({ g with tasks := semUp g.tasks p }, .unlockUnlock)
  | .unlockUnlock => some ({ g with lock := false }, .idle)
  | .otherStore p => some ({ g with tasks := setTaskState g.tasks p .running }, .otherUp p)
  | .otherUp p => some ({ g with tasks := semUp g.tasks p }, .idle)
  | .panicked => none

/-- Any number of threads, after `mutex_init`; the tasks are in any states and their semaphores
have any number of tokens. -/
def prog : Prog Shared Pc Choice where
  init g := g.count = 1 ∧ g.lock = false ∧ g.waitList = []
  start pc := pc = .idle
  step := step

def initialised : Machine (Conf Shared Pc) (Nat × Choice) := prog.machine

/-! ## The places of a thread -/

/-- A thread that has the mutex weighs one. -/
def owns : Pc → Nat
  | .remove | .setZero | .gotUnlock | .owner | .unlockLock | .setOne => 1
  | _ => 0

/-- One that is going to release it by the slow path. -/
def releasing : Pc → Nat
  | .unlockLock | .setOne => 1
  | _ => 0

/-- A thread between `spin_lock` and `spin_unlock`. -/
def inside : Pc → Nat
  | .addTail _ | .xchg _ | .signal _ | .setState _ | .unlock _ | .remove | .setZero | .gotUnlock
  | .intrRemove | .intrUnlock | .setOne | .wakeFirst | .wakeStore _ | .wakeUp _
  | .unlockUnlock => 1
  | _ => 0

/-- From the moment the waiter is on the list until it is removed. -/
def Pc.queued : Pc → Bool
  | .xchg _ | .signal _ | .setState _ | .unlock _ | .switch _ | .sleep _ | .relock _ | .remove
  | .intrRemove | .panicked => true
  | _ => false

/-- A waiter that has left -1 behind and still has the spin lock. -/
def Pc.marked : Pc → Bool
  | .signal _ | .setState _ | .unlock _ | .remove | .intrRemove => true
  | _ => false

/-- A thread whose decrement of the fast path is still in the count. -/
def decremented : Pc → Nat
  | .lockLock _ | .addTail _ | .xchg _ => 1
  | _ => 0

/-- On the way to `dde_kit_sem_down`, or in it. -/
def Pc.asleep : Pc → Bool
  | .switch _ | .sleep _ => true
  | _ => false

/-! ## What a step can do -/

section
variable {i j : Nat} {g g' : Shared} {pc pc' : Pc} {a : Choice}

/-- What a step does to the count and to the spin lock, and who owns the mutex then. -/
inductive Effect (g : Shared) : Pc → Shared → Pc → Prop
  /-- nothing -/
  | none {pc pc' : Pc} {g' : Shared} (hcount : g'.count = g.count) (hlock : g'.lock = g.lock)
      (howns : owns pc' = owns pc) (hrel : releasing pc' = releasing pc)
      (hinside : inside pc' = inside pc) (hdec : decremented pc ≤ decremented pc') :
      Effect g pc g' pc'
  /-- `spin_lock` -/
  | acquire {pc pc' : Pc} (hfree : g.lock = false) (howns : owns pc' = owns pc)
      (hrel : releasing pc' = releasing pc) (hpc : inside pc = 0) (hpc' : inside pc' = 1)
      (hdec : decremented pc ≤ decremented pc') : Effect g pc { g with lock := true } pc'
  /-- `spin_unlock` -/
  | release {pc pc' : Pc} (howns : owns pc' = owns pc) (hrel : releasing pc' = releasing pc)
      (hpc : inside pc = 1) (hpc' : inside pc' = 0) (hdec : decremented pc ≤ decremented pc') :
      Effect g pc { g with lock := false } pc'
  /-- the fast path of a lock -/
  | fast (h : 0 ≤ g.count - 1) : Effect g .idle { g with count := g.count - 1 } .owner
  | slow (st : TaskState) (h : ¬ 0 ≤ g.count - 1) :
      Effect g .idle { g with count := g.count - 1 } (.lockLock st)
  | trylock (h : g.count = 1) : Effect g .idle { g with count := 0 } .owner
  | got (st : TaskState) (h : g.count = 1) : Effect g (.xchg st) { g with count := -1 } .remove
  | lost (st : TaskState) (h : g.count ≠ 1) :
      Effect g (.xchg st) { g with count := -1 } (.signal st)
  /-- nobody is left on the list -/
  | last (h : g.waitList = []) : Effect g .setZero { g with count := 0 } .gotUnlock
  /-- the fast path of an unlock -/
  | up (h : 0 < g.count + 1) : Effect g .owner { g with count := g.count + 1 } .idle
  | upSlow (h : ¬ 0 < g.count + 1) : Effect g .owner { g with count := g.count + 1 } .unlockLock
  | one : Effect g .setOne { g with count := 1 } .wakeFirst

theorem fastpathLock_effect (st : TaskState) :
    Effect g .idle (fastpathLock g st).1 (fastpathLock g st).2 := by
  rw [fastpathLock]
  split
  · rename_i hnonneg
    exact .fast hnonneg
  · rename_i hneg
    exact .slow st hneg

theorem step_effect (hs : step j g pc a = some (g', pc')) : Effect g pc g' pc' := by
  cases pc with
  | idle =>
      cases a with
      | mutexLock | mutexLockInterruptible =>
          cases hs
          exact fastpathLock_effect _
      | mutexTrylock =>
          simp only [step] at hs
          split at hs <;> cases hs
          · rename_i hone
            exact .trylock hone
          · exact .none rfl rfl rfl rfl rfl (Nat.le_refl _)
      | mutexUnlock => cases hs
      | signal p | wakeUpProcess p =>
          cases hs
          exact .none rfl rfl rfl rfl rfl (Nat.le_refl _)
  | lockLock st | relock st | unlockLock =>
      simp only [step] at hs
      split at hs <;> cases hs
      rename_i hfree
      exact .acquire (Bool.eq_false_iff.mpr hfree) rfl rfl rfl rfl (by simp [decremented])
  | unlock st | gotUnlock | intrUnlock | unlockUnlock =>
      cases hs
      exact .release rfl rfl rfl rfl (Nat.le_refl _)
  | xchg st =>
      cases hs
      split
      · rename_i hone
        exact .got st hone
      · rename_i hnot
        exact .lost st hnot
  | signal st =>
      cases hs
      split <;> exact .none rfl rfl rfl rfl rfl (Nat.le_refl _)
  | setZero =>
      cases hs
      split
      · rename_i hempty
        exact .last hempty
      · exact .none rfl rfl rfl rfl rfl (Nat.le_refl _)
  | owner =>
      cases a with
      | mutexUnlock =>
          cases hs
          split
          · rename_i hpos
            exact .up hpos
          · rename_i hnot
            exact .upSlow hnot
      | _ => cases hs
  | setOne =>
      cases hs
      exact .one
  | wakeFirst =>
      simp only [step] at hs
      split at hs <;> cases hs <;> exact .none rfl rfl rfl rfl rfl (Nat.le_refl _)
  | _ =>
      simp only [step] at hs
      (try split at hs) <;> cases hs <;> exact .none rfl rfl rfl rfl rfl (Nat.le_refl _)

/-- The list changes by its threads' own waiters. -/
theorem step_waitList (hs : step j g pc a = some (g', pc')) :
    (g'.waitList = g.waitList ∧ pc'.queued = pc.queued) ∨
      (∃ st, pc = .addTail st ∧ pc' = .xchg st ∧ g'.waitList = g.waitList ++ [j]) ∨
      ((pc = .remove ∧ pc' = .setZero ∨ pc = .intrRemove ∧ pc' = .intrUnlock) ∧
        g'.waitList = g.waitList.erase j) := by
  cases pc with
  | addTail st =>
      cases hs
      exact .inr (.inl ⟨st, rfl, rfl, rfl⟩)
  | remove =>
      cases hs
      exact .inr (.inr ⟨.inl ⟨rfl, rfl⟩, rfl⟩)
  | intrRemove =>
      cases hs
      exact .inr (.inr ⟨.inr ⟨rfl, rfl⟩, rfl⟩)
  | idle =>
      cases a with
      | mutexLock | mutexLockInterruptible =>
          cases hs
          refine .inl ⟨rfl, ?_⟩
          split <;> rfl
      | mutexTrylock =>
          simp only [step] at hs
          split at hs <;> cases hs <;> exact .inl ⟨rfl, rfl⟩
      | mutexUnlock => cases hs
      | signal p | wakeUpProcess p =>
          cases hs
          exact .inl ⟨rfl, rfl⟩
  | xchg st | signal st =>
      cases hs
      refine .inl ⟨rfl, ?_⟩
      split <;> rfl
  | setZero =>
      cases hs
      refine .inl ⟨?_, rfl⟩
      split <;> rfl
  | owner =>
      cases a with
      | mutexUnlock =>
          cases hs
          refine .inl ⟨rfl, ?_⟩
          split <;> rfl
      | _ => cases hs
  | wakeFirst =>
      simp only [step] at hs
      split at hs <;> cases hs <;> exact .inl ⟨rfl, rfl⟩
  | _ =>
      simp only [step] at hs
      (try split at hs) <;> cases hs <;> exact .inl ⟨rfl, rfl⟩

/-- The task of a thread that does not move changes by wake-ups. -/
theorem step_state (hij : i ≠ j) (hs : step j g pc a = some (g', pc')) :
    (g'.tasks i).state = (g.tasks i).state ∨ (g'.tasks i).state = .running := by
  have hstore : ∀ (p : Nat) (ts : Tasks), ts = setTaskState g.tasks p .running →
      (ts i).state = (g.tasks i).state ∨ (ts i).state = .running := by
    rintro p ts rfl
    by_cases hp : i = p
    · subst hp
      exact .inr (by simp)
    · exact .inl (by rw [setTaskState_ne _ _ _ _ hp])
  have hup : ∀ p : Nat, (semUp g.tasks p i).state = (g.tasks i).state := by
    intro p
    by_cases hp : i = p
    · subst hp
      simp
    · rw [semUp_ne _ _ _ hp]
  cases pc with
  | wakeStore p | otherStore p =>
      cases hs
      exact hstore p _ rfl
  | wakeUp p | otherUp p =>
      cases hs
      exact .inl (hup p)
  | setState st =>
      cases hs
      exact .inl (congrArg _ (setTaskState_ne _ _ _ _ hij))
  | sleep st =>
      simp only [step] at hs
      split at hs
      · cases hs
      · rename_i ts hd
        cases hs
        exact .inl (congrArg _ ((semDown_some hd).2.2 i hij))
  | idle =>
      cases a with
      | mutexTrylock =>
          simp only [step] at hs
          split at hs <;> cases hs <;> exact .inl rfl
      | mutexUnlock => cases hs
      | mutexLock | mutexLockInterruptible | signal p | wakeUpProcess p =>
          cases hs
          exact .inl rfl
  | setZero =>
      cases hs
      split <;> exact .inl rfl
  | owner => cases a <;> cases hs; exact .inl rfl
  | _ =>
      simp only [step] at hs
      (try split at hs) <;> cases hs <;> exact .inl rfl

end

section
variable {c : Conf Shared Pc} {i : Nat} {g g' : Shared} {pc pc' : Pc} {a : Choice} {n m r : Nat}

theorem total_start {M : Type} [AddCommMonoid M] (w : Pc → M) (hw : w .idle = 0)
    (hc : initialised.init c) : total w c.pool = 0 := by
  apply total_eq_zero
  intro pc hpc
  rw [hc.2 pc hpc]
  exact hw

/-! ## The owner -/

/-- The count tells whether the mutex is owned, `n` counting the owners. -/
def Owned (g : Shared) (n : Nat) : Prop := n = 0 ∧ g.count = 1 ∨ n = 1 ∧ g.count ≤ 0

theorem step_owned (hs : Effect g pc g' pc') (h : Owned g (r + owns pc)) :
    Owned g' (r + owns pc') := by
  simp only [Owned] at h ⊢
  cases hs with
  | none hcount _ howns => rwa [hcount, howns]
  | acquire _ howns | release howns => rwa [howns]
  | fast h' | slow st h' | trylock h' | got st h' | lost st h' | up h' | upSlow h' =>
      simp only [owns] at h ⊢
      omega
  | last =>
      simp only [owns] at h ⊢
      omega
  | one =>
      simp only [owns] at h
      exact .inl ⟨by show r + 0 = 0; omega, rfl⟩

theorem owned (h : initialised.Reachable c) : Owned c.shared (total owns c.pool) := by
  refine Prog.balance (P := prog) owns Owned ?_ ?_ h
  · intro c hc
    rw [total_start owns rfl hc]
    exact .inl ⟨rfl, hc.1.1⟩
  · intro c i a pc g pc' r _ _ _ _ hs hI
    exact step_owned (step_effect hs) hI

/-! ## The spin lock -/

theorem total_inside (h : initialised.Reachable c) : total inside c.pool = c.shared.lock.toNat := by
  refine Prog.balance (P := prog) inside (fun g n => n = g.lock.toNat) ?_ ?_ h
  · intro c hc
    rw [total_start inside rfl hc, hc.1.2.1]
    rfl
  · intro c i a pc g pc' r _ _ _ _ hs hI
    have hle : c.shared.lock.toNat ≤ 1 := Bool.toNat_le _
    cases step_effect hs with
    | none _ hlock _ _ hinside => rwa [hinside, hlock]
    | acquire hfree _ _ hpc hpc' =>
        rw [hpc, hfree] at hI
        rw [hpc']
        simpa using hI
    | release _ _ hpc hpc' =>
        rw [hpc] at hI
        rw [hpc']
        show r + 0 = 0
        omega
    | _ => exact hI

/-- Two threads in the critical section are one. -/
theorem inside_unique (h : initialised.Reachable c) {i j : Nat} {p q : Pc} (hij : i ≠ j)
    (hp : c.pool[i]? = some p) (hq : c.pool[j]? = some q) (hpin : inside p = 1) : inside q = 0 := by
  have htwo := add_le_total inside hij hp hq
  have hone := total_inside h
  have hle : c.shared.lock.toNat ≤ 1 := Bool.toNat_le _
  omega

/-! ## The list -/

/-- The list has the waiters, each once. -/
theorem listed (h : initialised.Reachable c) :
    c.shared.waitList.Nodup ∧
      ∀ (i : Nat) (pc : Pc), c.pool[i]? = some pc → (i ∈ c.shared.waitList ↔ pc.queued = true) := by
  refine Prog.rely (P := prog) (fun g => g.waitList.Nodup)
    (fun i g pc => i ∈ g.waitList ↔ pc.queued = true) ?_ ?_ h
  · intro c hc
    rw [hc.1.2.2]
    refine ⟨List.nodup_nil, ?_⟩
    intro i pc hp
    rw [hc.2 pc (List.mem_of_getElem? hp)]
    simp [Pc.queued]
  · intro c i a pc g pc' _ _ _ hs hnodup hown
    rcases step_waitList hs with ⟨hlist, hq⟩ | ⟨st, rfl, rfl, hlist⟩ | ⟨hpc, hlist⟩
    · rw [hlist, hq]
      exact ⟨hnodup, hown, fun j q _ _ hj => hj⟩
    · have hfresh : i ∉ c.shared.waitList := by simp [hown, Pc.queued]
      rw [hlist]
      refine ⟨hnodup.append (List.nodup_singleton i) (by simpa using hfresh), ?_, ?_⟩
      · simp [Pc.queued]
      · intro j q hji _ hj
        simp [hji, hj]
    · have hgone : i ∉ c.shared.waitList.erase i := hnodup.not_mem_erase
      have hout : pc'.queued = false := by
        rcases hpc with ⟨-, rfl⟩ | ⟨-, rfl⟩ <;> rfl
      rw [hlist]
      refine ⟨hnodup.erase i, ?_, ?_⟩
      · simp [hgone, hout]
      · intro j q hji _ hj
        rw [List.mem_erase_of_ne hji]
        exact hj

/-- The waiters are threads. -/
theorem listed_lt (h : initialised.Reachable c) : ∀ i ∈ c.shared.waitList, i < c.pool.length := by
  induction h with
  | init hc =>
      rw [hc.1.2.2]
      exact fun _ hmem => absurd hmem List.not_mem_nil
  | @step c c' ia _ _ hst ih =>
      obtain ⟨pc, g, pc', hp, hs, rfl⟩ := Prog.machine_step hst
      intro i hi
      rw [List.length_set]
      rcases step_waitList hs with ⟨hlist, -⟩ | ⟨st, -, -, hlist⟩ | ⟨-, hlist⟩
      · exact ih i (hlist ▸ hi)
      · rcases List.mem_append.mp (hlist ▸ hi) with hold | hnew
        · exact ih i hold
        · rw [List.mem_singleton.mp hnew]
          exact (List.getElem?_eq_some_iff.mp hp).1
      · exact ih i (List.mem_of_mem_erase (hlist ▸ hi))

/-! ## No thread panics -/

/-- What is known of the states, `s` being that of the thread's own task. -/
def Pc.Sane (s : TaskState) : Pc → Prop
  | .lockLock st | .addTail st | .xchg st | .signal st | .setState st | .sleep st
  | .relock st => st.sleeps = true
  | .unlock st | .switch st => st.sleeps = true ∧ (s = .running ∨ s.sleeps = true)
  | .panicked => False
  | _ => True

theorem Pc.Sane.wake {s : TaskState} (h : pc.Sane s) : pc.Sane .running := by
  cases pc with
  | unlock st | switch st => exact ⟨h.1, .inl rfl⟩
  | _ => exact h

theorem step_sane (hs : step i g pc a = some (g', pc')) (h : pc.Sane (g.tasks i).state) :
    pc'.Sane (g'.tasks i).state := by
  cases pc with
  | idle =>
      cases a with
      | mutexLock | mutexLockInterruptible =>
          cases hs
          split
          · trivial
          · rfl
      | mutexTrylock =>
          simp only [step] at hs
          split at hs <;> cases hs <;> trivial
      | mutexUnlock => cases hs
      | signal p | wakeUpProcess p =>
          cases hs
          trivial
  | lockLock st | relock st =>
      simp only [step] at hs
      split at hs <;> cases hs
      exact h
  | addTail st =>
      cases hs
      exact h
  | xchg st | signal st =>
      cases hs
      split
      · trivial
      · exact h
  | setState st =>
      cases hs
      refine ⟨h, .inr ?_⟩
      show (setTaskState g.tasks i st i).state.sleeps = true
      rw [setTaskState_same]
      exact h
  | unlock st =>
      cases hs
      exact h
  | switch st =>
      obtain ⟨hst, hrun | hsleep⟩ := h
      · simp only [step, hrun, schedule] at hs
        cases hs
        exact hst
      · have hdown : schedule (g.tasks i).state = .down := by
          cases hstate : (g.tasks i).state <;> first | rfl | (rw [hstate] at hsleep; cases hsleep)
        simp only [step, hdown] at hs
        cases hs
        exact hst
  | sleep st =>
      simp only [step] at hs
      split at hs <;> cases hs
      exact h
  | owner =>
      cases a with
      | mutexUnlock =>
          cases hs
          split <;> trivial
      | _ => cases hs
  | wakeFirst =>
      simp only [step] at hs
      split at hs <;> cases hs <;> trivial
  | panicked => cases hs
  | _ =>
      simp only [step] at hs
      (try split at hs) <;> cases hs <;> trivial

theorem sane (h : initialised.Reachable c) :
    ∀ (i : Nat) (pc : Pc), c.pool[i]? = some pc → pc.Sane (c.shared.tasks i).state := by
  refine Prog.thread (P := prog) (fun i g pc => pc.Sane (g.tasks i).state) ?_ ?_ ?_ h
  · intro c i pc hc hp
    rw [hc.2 pc (List.mem_of_getElem? hp)]
    trivial
  · intro c i a pc g pc' _ _ _ hs hR
    exact step_sane hs hR
  · intro c i j a pc q g q' _ _ hij _ _ hs hR
    rcases step_state hij hs with hsame | hrun
    · rwa [hsame]
    · rw [hrun]
      exact hR.wake

/-! ## A waiter leaves a mark -/

/-- The next release takes the slow path, or a release is on it already. -/
def Marked (g : Shared) (n : Nat) : Prop := g.count < 0 ∨ 0 < n

/-- As long as the waiter has the spin lock, nobody takes the mark away. -/
theorem step_marked (hs : Effect g pc g' pc') (hout : inside pc = 0)
    (h : Marked g (r + releasing pc)) : Marked g' (r + releasing pc') := by
  simp only [Marked] at h ⊢
  cases hs with
  | none hcount _ _ hrel => rwa [hcount, hrel]
  | acquire _ _ hrel | release _ hrel => rwa [hrel]
  | fast h' | slow st h' | trylock h' | up h' | upSlow h' =>
      simp only [releasing] at h ⊢
      omega
  | got | lost | last | one => cases hout

theorem inside_of_marked (h : pc.marked = true) : inside pc = 1 := by
  cases pc <;> first | rfl | cases h

theorem step_to_marked (hs : step i g pc a = some (g', pc')) (hm : pc'.marked = true) :
    g'.count = -1 ∨ g'.count = g.count ∧ releasing pc' = releasing pc ∧ pc.marked = true := by
  cases pc with
  | xchg st =>
      cases hs
      exact .inl rfl
  | signal st =>
      cases hs
      refine .inr ⟨rfl, ?_, rfl⟩
      split <;> rfl
  | setState st =>
      cases hs
      exact .inr ⟨rfl, rfl, rfl⟩
  | idle =>
      cases a with
      | mutexLock | mutexLockInterruptible =>
          cases hs
          split at hm <;> cases hm
      | mutexTrylock =>
          simp only [step] at hs
          split at hs <;> cases hs <;> cases hm
      | mutexUnlock => cases hs
      | signal p | wakeUpProcess p =>
          cases hs
          cases hm
  | owner =>
      cases a with
      | mutexUnlock =>
          cases hs
          split at hm <;> cases hm
      | _ => cases hs
  | wakeFirst =>
      simp only [step] at hs
      split at hs <;> cases hs <;> cases hm
  | _ =>
      simp only [step] at hs
      (try split at hs) <;> cases hs <;> cases hm

theorem marked (h : initialised.Reachable c) (i : Nat) :
    ∀ pc : Pc, c.pool[i]? = some pc → pc.marked = true →
      Marked c.shared (total releasing c.pool) := by
  refine Prog.watch (P := prog) i releasing (fun g pc n => pc.marked = true → Marked g n) ?_ ?_ ?_ h
  · intro c pc hc hp hm
    rw [hc.2 pc (List.mem_of_getElem? hp)] at hm
    cases hm
  · intro c a pc g pc' r _ _ _ hs hS hm
    rcases step_to_marked hs hm with hcount | ⟨hcount, hrel, hbefore⟩
    · exact .inl (by omega)
    · rw [Marked, hcount, hrel]
      exact hS hbefore
  · intro c j a pc q g q' r hreach _ hij hp hq hs hS hm
    exact step_marked (step_effect hs)
      (inside_unique hreach hij hp hq (inside_of_marked hm)) (hS hm)

/-! ## The first waiter is not forgotten -/

/-- A thread that will raise the semaphore of `i`, the first waiter, weighs one. -/
def willWake (i : Nat) : Pc → Nat
  | .wakeFirst => 1
  | .wakeStore p | .wakeUp p => if p = i then 1 else 0
  | _ => 0

/-- Those on whom the sleep of the first waiter depends. -/
def minding (i : Nat) (pc : Pc) : Nat := releasing pc + willWake i pc

/-- The sleep of thread `i` is covered, `n` threads minding it. -/
def Covered (i : Nat) (g : Shared) (n : Nat) : Prop :=
  g.count < 0 ∨ 0 < (g.tasks i).sleepLock ∨ 0 < n

theorem Covered.frame (h : Covered i g n) (hc : g'.count = g.count)
    (ht : (g'.tasks i).sleepLock = (g.tasks i).sleepLock) (hm : m = n) : Covered i g' m := by
  subst hm
  rw [Covered, hc, ht]
  exact h

theorem Covered.of_marked (h : Marked c.shared (total releasing c.pool)) :
    Covered i c.shared (total (minding i) c.pool) := by
  have hle := total_le_total (fun pc => Nat.le_add_right (releasing pc) (willWake i pc)) c.pool
  rcases h with hneg | hpos
  · exact .inl hneg
  · exact .inr (.inr (Nat.lt_of_lt_of_le hpos hle))

/-- Raising a semaphore takes no token from anybody. -/
theorem Covered.semUp {i p : Nat} (h : Covered i g n) (hm : i ≠ p → m = n) :
    Covered i { g with tasks := Sched.semUp g.tasks p } m := by
  by_cases hp : i = p
  · subst hp
    exact .inr (.inl (by simp))
  · exact h.frame rfl (congrArg _ (semUp_ne _ _ _ hp)) (hm hp)

/-- A step of another thread keeps the sleep of the first waiter covered. -/
theorem step_covered {i j : Nat} (hij : i ≠ j) (hfirst : g.waitList.head? = some i)
    (hs : step j g pc a = some (g', pc')) (h : Covered i g (r + minding i pc)) :
    Covered i g' (r + minding i pc') := by
  cases pc with
  | idle =>
      cases a with
      | mutexLock | mutexLockInterruptible =>
          cases hs
          rcases h with hneg | hrest
          · exact .inl (Int.lt_trans (Int.sub_one_lt_of_le (Int.le_refl _)) hneg)
          · split <;> exact .inr hrest
      | mutexTrylock =>
          simp only [step] at hs
          split at hs <;> cases hs
          · rcases h with hneg | hrest
            · omega
            · exact .inr hrest
          · exact h
      | mutexUnlock => cases hs
      | signal p | wakeUpProcess p =>
          cases hs
          exact h.frame rfl rfl rfl
  | xchg st =>
      cases hs
      exact .inl (Int.negSucc_lt_zero 0)
  | signal st =>
      cases hs
      refine h.frame rfl rfl ?_
      split <;> rfl
  | setState st | otherStore p =>
      cases hs
      exact h.frame rfl (setTaskState_sleepLock _ _ _ _) rfl
  | sleep st =>
      simp only [step] at hs
      split at hs
      · cases hs
      · rename_i ts hd
        cases hs
        exact h.frame rfl (congrArg _ ((semDown_some hd).2.2 i hij)) rfl
  | setZero =>
      cases hs
      have hne : g.waitList ≠ [] := by
        intro hempty
        rw [hempty] at hfirst
        cases hfirst
      rw [if_neg hne]
      exact h.frame rfl rfl rfl
  | owner =>
      cases a with
      | mutexUnlock =>
          cases hs
          by_cases hpos : 0 < g.count + 1
          · rw [if_pos hpos]
            rcases h with hneg | hrest
            · omega
            · exact .inr hrest
          · -- the slow path
            rw [if_neg hpos]
            exact .inr (.inr (Nat.succ_pos _))
      | _ => cases hs
  | setOne =>
      cases hs
      exact .inr (.inr (Nat.succ_pos _))
  | wakeFirst =>
      simp only [step] at hs
      split at hs
      · rename_i hempty
        rw [hempty] at hfirst
        cases hfirst
      · rename_i p rest hlist
        cases hs
        rw [hlist] at hfirst
        cases hfirst
        exact h.frame rfl rfl (by simp [minding, willWake, releasing])
  | wakeStore p =>
      cases hs
      exact h.frame rfl (setTaskState_sleepLock _ _ _ _) rfl
  | wakeUp p =>
      cases hs
      exact h.semUp (fun hp => by simp [minding, willWake, releasing, Ne.symm hp])
  | otherUp p =>
      cases hs
      exact h.semUp (fun _ => rfl)
  | _ =>
      simp only [step] at hs
      (try split at hs) <;> cases hs <;> exact h.frame rfl rfl rfl

/-- A thread goes to sleep after it has left its mark, or goes on sleeping. -/
theorem step_to_asleep (hs : step i g pc a = some (g', pc')) (ha : pc'.asleep = true) :
    g'.count = g.count ∧ g'.tasks = g.tasks ∧ g'.waitList = g.waitList ∧
      minding i pc' = minding i pc ∧ (pc.marked = true ∨ pc.asleep = true) := by
  cases pc with
  | unlock st =>
      cases hs
      exact ⟨rfl, rfl, rfl, rfl, .inl rfl⟩
  | switch st =>
      simp only [step] at hs
      split at hs <;> cases hs
      · cases ha
      · exact ⟨rfl, rfl, rfl, rfl, .inr rfl⟩
      · cases ha
  | idle =>
      cases a with
      | mutexLock | mutexLockInterruptible =>
          cases hs
          split at ha <;> cases ha
      | mutexTrylock =>
          simp only [step] at hs
          split at hs <;> cases hs <;> cases ha
      | mutexUnlock => cases hs
      | signal p | wakeUpProcess p =>
          cases hs
          cases ha
  | xchg st | signal st =>
      cases hs
      split at ha <;> cases ha
  | owner =>
      cases a with
      | mutexUnlock =>
          cases hs
          split at ha <;> cases ha
      | _ => cases hs
  | wakeFirst =>
      simp only [step] at hs
      split at hs <;> cases hs <;> cases ha
  | _ =>
      simp only [step] at hs
      (try split at hs) <;> cases hs <;> cases ha

/-- Whoever is removed in front of the first waiter has left its mark. -/
theorem head_of_step {i j : Nat} (hij : i ≠ j) (hs : step j g pc a = some (g', pc'))
    (hfirst : g'.waitList.head? = some i) :
    g.waitList.head? = some i ∨
      pc.marked = true ∧ g'.count = g.count ∧ g'.tasks = g.tasks ∧
        minding i pc' = minding i pc := by
  rcases step_waitList hs with ⟨hlist, -⟩ | ⟨st, -, -, hlist⟩ | ⟨hpc, -⟩
  · exact .inl (hlist ▸ hfirst)
  · rw [hlist] at hfirst
    cases hold : g.waitList with
    | nil =>
        rw [hold] at hfirst
        exact absurd (Option.some.inj hfirst).symm hij
    | cons p rest =>
        rw [hold] at hfirst
        exact .inl hfirst
  · rcases hpc with ⟨rfl, rfl⟩ | ⟨rfl, rfl⟩ <;> cases hs <;> exact .inr ⟨rfl, rfl, rfl, rfl⟩

theorem first_covered (h : initialised.Reachable c) (i : Nat) :
    ∀ pc : Pc, c.pool[i]? = some pc → pc.asleep = true → c.shared.waitList.head? = some i →
      Covered i c.shared (total (minding i) c.pool) := by
  refine Prog.observe (P := prog) i (minding i)
    (fun g pc n => pc.asleep = true → g.waitList.head? = some i → Covered i g n) ?_ ?_ ?_ h
  · intro c pc hc hp ha
    rw [hc.2 pc (List.mem_of_getElem? hp)] at ha
    cases ha
  · intro c a pc g pc' r hreach _ hp hr hs hS ha hfirst
    obtain ⟨hcount, htasks, hlist, hmind, hbefore⟩ := step_to_asleep hs ha
    rw [hmind]
    rcases hbefore with hmark | hasleep
    · have hcov := Covered.of_marked (i := i) (marked hreach i pc hp hmark)
      rw [hr] at hcov
      exact hcov.frame hcount (by rw [htasks]) rfl
    · exact (hS hasleep (hlist ▸ hfirst)).frame hcount (by rw [htasks]) rfl
  · intro c j a pc q g q' r hreach _ hij _ hq hr hs hS ha hfirst
    rcases head_of_step hij hs hfirst with hbefore | ⟨hmark, hcount, htasks, hmind⟩
    · exact step_covered hij hbefore hs (hS ha hbefore)
    · have hcov := Covered.of_marked (i := i) (marked hreach j q hq hmark)
      rw [hr] at hcov
      rw [hmind]
      exact hcov.frame hcount (by rw [htasks]) rfl

/-! ## The mutex -/

/-- Thread `i` hangs in `dde_kit_sem_down` with its semaphore at zero. -/
def Hangs (c : Conf Shared Pc) (i : Nat) : Prop :=
  ∃ st, c.pool[i]? = some (.sleep st) ∧ (c.shared.tasks i).sleepLock = 0

/-- Some thread has the mutex. -/
def IsOwned (c : Conf Shared Pc) : Prop :=
  ∃ (j : Nat) (pc : Pc), c.pool[j]? = some pc ∧ 0 < owns pc

/-- Some thread is about to raise the semaphore of `i`. -/
def IsWoken (c : Conf Shared Pc) (i : Nat) : Prop :=
  ∃ (j : Nat) (pc : Pc), c.pool[j]? = some pc ∧ 0 < willWake i pc

theorem isOwned_of_count (h : initialised.Reachable c) (hcount : c.shared.count ≠ 1) :
    IsOwned c := by
  rcases owned h with ⟨-, hone⟩ | ⟨hpos, -⟩
  · exact absurd hone hcount
  · exact exists_of_total_pos (by omega)

/-- The first waiter, if it hangs, is minded. -/
theorem first_minded (h : initialised.Reachable c) {f : Nat}
    (hfirst : c.shared.waitList.head? = some f) (hangs : Hangs c f) :
    IsOwned c ∨ IsWoken c f := by
  obtain ⟨st, hp, hzero⟩ := hangs
  rcases first_covered h f _ hp rfl hfirst with hneg | htoken | hmind
  · exact .inl (isOwned_of_count h (by omega))
  · omega
  · obtain ⟨j, pc, hj, hpos⟩ := exists_of_total_pos hmind
    by_cases hrel : 0 < releasing pc
    · refine .inl ⟨j, pc, hj, ?_⟩
      cases pc <;> first | exact Nat.one_pos | cases hrel
    · refine .inr ⟨j, pc, hj, ?_⟩
      simp only [minding] at hpos
      omega

/-- The count is above minus the number of threads. -/
theorem count_ge (h : initialised.Reachable c) : -1 - (c.pool.length : Int) ≤ c.shared.count := by
  have hsum : -1 ≤ c.shared.count + total decremented c.pool := by
    refine Prog.balance (P := prog) decremented (fun g n => -1 ≤ g.count + n) ?_ ?_ h
    · intro c hc
      rw [hc.1.1]
      omega
    · intro c i a pc g pc' r _ _ _ _ hs hI
      cases step_effect hs with
      | none hcount _ _ _ _ hdec =>
          rw [hcount]
          omega
      | acquire _ _ _ _ _ hdec | release _ _ _ _ hdec =>
          simp only
          omega
      | fast | slow | trylock | got | lost | last | up | upSlow | one =>
          simp only [decremented] at hI ⊢
          omega
  have hle : total decremented c.pool ≤ total (fun _ => 1) c.pool := by
    apply total_le_total
    intro pc
    cases pc <;> simp [decremented]
  have hlen : total (fun _ => 1) c.pool = c.pool.length := by simp [total]
  omega

/-- What a mutex is for, and what its waiters can rely on. -/
structure Works (c : Conf Shared Pc) : Prop where
  excludes : ∀ (i j : Nat) (p q : Pc), c.pool[i]? = some p → c.pool[j]? = some q →
    0 < owns p → 0 < owns q → i = j
  calm : .panicked ∉ c.pool
  count : -1 - (c.pool.length : Int) ≤ c.shared.count ∧ c.shared.count ≤ 1
  wakes : ∀ i, Hangs c i → IsOwned c ∨
    ∃ f pc, c.shared.waitList.head? = some f ∧ c.pool[f]? = some pc ∧ pc.queued = true ∧
      (¬ Hangs c f ∨ IsWoken c f)

theorem works (h : initialised.Reachable c) : Works c where
  excludes := by
    intro i j p q hp hq howns howns'
    have hle : total owns c.pool ≤ 1 := by
      rcases owned h with ⟨hn, -⟩ | ⟨hn, -⟩ <;> omega
    exact unique_of_total_le_one hle hp hq howns howns'
  calm := by
    intro hpanic
    obtain ⟨i, hi⟩ := List.getElem?_of_mem hpanic
    exact sane h i _ hi
  count := by
    refine ⟨count_ge h, ?_⟩
    rcases owned h with ⟨-, hone⟩ | ⟨-, hle⟩ <;> omega
  wakes := by
    rintro i ⟨st, hp, -⟩
    have hmem : i ∈ c.shared.waitList := ((listed h).2 i _ hp).mpr rfl
    obtain ⟨f, rest, hlist⟩ := List.exists_cons_of_ne_nil (List.ne_nil_of_mem hmem)
    have hf : f ∈ c.shared.waitList := by
      rw [hlist]
      exact List.mem_cons_self
    have hhead : c.shared.waitList.head? = some f := by
      rw [hlist]
      rfl
    obtain ⟨pc, hpc⟩ : ∃ pc, c.pool[f]? = some pc :=
      ⟨_, List.getElem?_eq_getElem (listed_lt h f hf)⟩
    have hqueued := ((listed h).2 f pc hpc).mp hf
    by_cases hangs : Hangs c f
    · rcases first_minded h hhead hangs with howned | hwoken
      · exact .inl howned
      · exact .inr ⟨f, pc, hhead, hpc, hqueued, .inr hwoken⟩
    · exact .inr ⟨f, pc, hhead, hpc, hqueued, .inl hangs⟩

end

/-! ## On any lock -/

/-- The code on a lock that is initialised when it is used, or has been before. -/
def locking : LazyLock.Locking Shared Pc Choice where
  prog := prog
  taken := Shared.lock
  setTaken g b := { g with lock := b }
  calls
    | .lockLock _ | .unlock _ | .relock _ | .gotUnlock | .intrUnlock | .unlockLock
    | .unlockUnlock => true
    | _ => false
  holds := inside
  setTaken_self _ := rfl
  total_holds _ := total_inside

def machine : Machine (Conf (LazyLock.Lazy Shared) (LazyLock.Thread Pc)) (Nat × Choice) :=
  locking.machine

/-- **Mutexes exclude and wake.**  Whatever the interleaving of locks, interruptible locks,
trylocks and unlocks, whatever signals are pending, whoever else wakes the tasks and whatever
tokens were left in their semaphores, as long as the spin lock is not re-initialised under a
holder: no two threads have the mutex, no thread panics, the count does not wrap unless there are
2^31 threads, and when a thread hangs in `dde_kit_sem_down` with its semaphore at zero, then some
thread has the mutex, or the first waiter of the list does not hang, or it is about to be woken. -/
theorem mutex_excludes_and_wakes {c : Conf (LazyLock.Lazy Shared) (LazyLock.Thread Pc)}
    (h : machine.Reach (locking.keeps fun _ _ => True) c) : Works (LazyLock.base c) :=
  works (LazyLock.Locking.reach_base h)

/-- After `mutex_init` the lock is initialised and every run meets the condition: thread 0 has the
mutex, and threads 1 and 2 hang. -/
theorem mutex_excludes_and_wakes_contended :
    ∃ c : Conf (LazyLock.Lazy Shared) (LazyLock.Thread Pc),
      locking.initialised.machine.Reachable c ∧
      c.pool.map (·.pc) = [.owner, .sleep .uninterruptible, .sleep .interruptible] ∧
      Hangs (LazyLock.base c) 2 ∧ IsOwned (LazyLock.base c) ∧ Works (LazyLock.base c) := by
  have hinit : locking.initialised.machine.Reachable
      ⟨⟨⟨1, false, [], fun _ => ⟨.running, 0⟩, fun _ => false⟩, false⟩,
        List.replicate 3 ⟨.idle, .test⟩⟩ :=
    .init ⟨⟨⟨rfl, rfl, rfl⟩, rfl⟩,
      by simp [LazyLock.Locking.initialised, LazyLock.Locking.lazy, locking, prog]⟩
  have hrun : (locking.initialised.machine.run
      ⟨⟨⟨1, false, [], fun _ => ⟨.running, 0⟩, fun _ => false⟩, false⟩,
        List.replicate 3 ⟨.idle, .test⟩⟩
      ((0, .mutexLock) :: (List.replicate 10 (1, .mutexLock) ++
        List.replicate 10 (2, .mutexLockInterruptible)))).map
      (fun c => (c.pool.map (·.pc), c.shared.base.tasks 2)) =
      some ([.owner, .sleep .uninterruptible, .sleep .interruptible], ⟨.interruptible, 0⟩) := by
    decide
  obtain ⟨c, hc, hat⟩ := Option.map_eq_some_iff.mp hrun
  obtain ⟨hpool, htask⟩ := Prod.mk.inj hat
  have hreach := hinit.run _ hc
  have hbase : (LazyLock.base c).pool = _ := hpool
  refine ⟨c, hreach, hpool, ⟨.interruptible, by rw [hbase]; rfl, ?_⟩,
    ⟨0, .owner, by rw [hbase]; rfl, Nat.one_pos⟩,
    mutex_excludes_and_wakes (LazyLock.Locking.reach_initialised hreach)⟩
  show (c.shared.base.tasks 2).sleepLock = 0
  rw [htask]

end LinuxDrivers.Kernel.Mutex
