/-
# `LinuxDrivers.Kernel.Semaphore` — the semaphores of Linux on the sleep of the DDE

`down` decrements `count`, and `up` increments it; what they do beyond that instruction is in
`semaphore-sleepers.c`, for threads that found the count negative:

    __down:   state = UNINTERRUPTIBLE;  lock;  queue the entry;  sleepers++
              until count += sleepers - 1 is not negative, with sleepers = 1 otherwise:
                unlock;  schedule();  lock;  state = UNINTERRUPTIBLE
              sleepers = 0;  take the entry off;  wake the queue;  unlock;  state = RUNNING
    __up:     wake the queue

The decrements of all threads that sleep are folded into one: `sleepers` is 1 if the count still
has a decrement of theirs and 0 if it has none.  `down_interruptible` gives up when a signal is
pending, `down_trylock` when it would have to sleep, and both take their decrement and that of the
sleepers back.

The entries are exclusive, one to be woken at a time, but `try_to_wake_up` answers 0 and so all
are woken.  A wake-up is a token in the semaphore of the task, which may also be an old one.

`count` is written without the lock and `sleepers` only with it; so an access to `sleepers` is
taken together with the access to `count` it stands next to.

`count` is an `atomic_t`, so it wraps.  And the lock is in `sem->wait`: `sema_init` initialises it,
`DECLARE_MUTEX` leaves that to its first use, and then two threads can be between `spin_lock` and
`spin_unlock`.  The argument is made for a count that is an integer and a lock that is initialised,
`unbounded`; `locking` is the code.

**Proved here.**

    `count` is what is left of the permits, less the decrements that were not taken back
                                                                  (`account`)
    a thread that sleeps does so with the count negative, or there is a token for it or
    there will be                                                 (`asleep_covered`)
    while `count` does not wrap and the lock is not re-initialised under a holder: there are
    never more acquisitions than permits, and no thread hangs while a permit is left and the
    others are at rest                                            (`semaphore_counts_and_wakes`)
-/
import LinuxDrivers.Kernel.LazyLock
import LinuxDrivers.Kernel.Sched

namespace LinuxDrivers.Kernel.Semaphore

open LinuxDrivers.Lib LinuxDrivers.Kernel.Sched

/-! ## The code, one access at a time -/

/-- `down` or `down_interruptible` -/
inductive Down where
  | plain
  | interruptible
  deriving DecidableEq, Repr

/-- The state it sleeps in. -/
def Down.state : Down → TaskState
  | .plain => .uninterruptible
  | .interruptible => .interruptible

/-- Who holds the lock at the end: a `__down` that has the semaphore or was interrupted,
`__down_trylock`, or `__up`. -/
inductive Caller where
  | down (ok : Bool)
  | trylock
  | up
  deriving DecidableEq, Repr

/-- Where a thread stands. -/
inductive Pc where
  | idle
  /-- `__down`, `__down_interruptible` -/
  | downState (k : Down)
  | downLock (k : Down)
  | downAdd (k : Down)
  | downInc (k : Down)
  /-- the loop -/
  | loopSignal (k : Down)
  | loopTest (k : Down)
  | loopUnlock (k : Down)
  /-- in `schedule()`: about to read `current->state` -/
  | switch (k : Down)
  /-- in `schedule()`: in `dde_kit_sem_down` -/
  | sleep (k : Down)
  | loopLock (k : Down)
  | loopState (k : Down)
  | downRemove (ok : Bool)
  | downRunning (ok : Bool)
  /-- `__down_trylock` -/
  | tryLock
  | tryAdd
  /-- `__up` -/
  | upLock
  /-- `__wake_up_common` -/
  | wakeNext (rest : List Nat) (k : Caller)
  | wakeStore (p : Nat) (rest : List Nat) (k : Caller)
  | wakeUp (p : Nat) (rest : List Nat) (k : Caller)
  | unlock (k : Caller)
  /-- `try_to_wake_up(p)` on behalf of somebody else -/
  | otherStore (p : Nat)
  | otherUp (p : Nat)
  | panicked
  deriving DecidableEq, Repr

structure Shared where
  count : Int
  sleepers : Nat
  /-- `sem->wait.lock` is taken -/
  lock : Bool
  /-- `sem->wait.task_list`; the entry of a thread is its index -/
  taskList : List Nat
  tasks : Tasks
  /-- `TIF_SIGPENDING` -/
  sigPending : Nat → Bool
  /-- how often the semaphore was acquired and released -/
  acquired : Nat
  released : Nat

/-- What an idle thread does next. -/
inductive Choice where
  | down (k : Down)
  | downTrylock
  | up
  /-- a signal is sent to task `p` -/
  | signal (p : Nat)
  /-- task `p` is woken for another reason -/
  | wakeUpProcess (p : Nat)
  deriving DecidableEq, Repr

/-- Where the thread goes after the lock. -/
def Caller.next : Caller → Pc
  | .down ok => .downRunning ok
  | .trylock | .up => .idle

/-- What is stored of a sum: an `atomic_t` has 32 bits. -/
def wrap (n : Int) : Int := intOfWord (wordOfInt n)

/-- One access of thread `i`; `store` is what becomes of a sum in `count`. -/
def step (store : Int → Int) (i : Nat) (g : Shared) (pc : Pc) (a : Choice) :
    Option (Shared × Pc) :=
  match pc with
  | .idle =>
      match a with
      | .down k =>
          -- `decl`, `jns`
          if 0 ≤ store (g.count - 1) then
            some ({ g with count := store (g.count - 1), acquired := g.acquired + 1 }, .idle)
          else some ({ g with count := store (g.count - 1) }, .downState k)
      | .downTrylock =>
          if 0 ≤ store (g.count - 1) then
            some ({ g with count := store (g.count - 1), acquired := g.acquired + 1 }, .idle)
          else some ({ g with count := store (g.count - 1) }, .tryLock)
      | .up =>
          -- `incl`, `jg`: the flags are those of the sum before it is stored
          some ({ g with count := store (g.count + 1), released := g.released + 1 },
            if 0 < g.count + 1 then .idle else .upLock)
      | .signal p => some ({ g with sigPending := Function.update g.sigPending p true }, .idle)
      | .wakeUpProcess p => some (g, .otherStore p)
  | .downState k => some ({ g with tasks := setTaskState g.tasks i k.state }, .downLock k)
  | .downLock k => if g.lock then none else some ({ g with lock := true }, .downAdd k)
  | .downAdd k => some ({ g with taskList := g.taskList ++ [i] }, .downInc k)
  | .downInc k => some ({ g with sleepers := g.sleepers + 1 }, .loopSignal k)
  | .loopSignal .plain => some (g, .loopTest .plain)
  | .loopSignal .interruptible =>
      if g.sigPending i then
        some ({ g with count := store (g.count + g.sleepers), sleepers := 0 }, .downRemove false)
      else some (g, .loopTest .interruptible)
  | .loopTest k =>
      if 0 ≤ store (g.count + (g.sleepers - 1)) then
        some ({ g with count := store (g.count + (g.sleepers - 1)), sleepers := 0
                       acquired := g.acquired + 1 }, .downRemove true)
      else
        some ({ g with count := store (g.count + (g.sleepers - 1)), sleepers := 1 }, .loopUnlock k)
  | .loopUnlock k => some ({ g with lock := false }, .switch k)
  | .switch k =>
      match schedule (g.tasks i).state with
      | .yield => some (g, .loopLock k)
      | .down => some (g, .sleep k)
      | .panic => some (g, .panicked)
  | .sleep k =>
      match semDown g.tasks i with
      | none => none
      | some ts => some ({ g with tasks := ts }, .loopLock k)
  | .loopLock k => if g.lock then none else some ({ g with lock := true }, .loopState k)
  | .loopState k => some ({ g with tasks := setTaskState g.tasks i k.state }, .loopSignal k)
  | .downRemove ok =>
      some ({ g with taskList := g.taskList.erase i },
        .wakeNext (g.taskList.erase i) (.down ok))
  | .downRunning _ => some ({ g with tasks := setTaskState g.tasks i .running }, .idle)
  | .tryLock => if g.lock then none else some ({ g with lock := true }, .tryAdd)
  | .tryAdd =>
      some ({ g with count := store (g.count + (g.sleepers + 1)), sleepers := 0 },
        if 0 ≤ store (g.count + (g.sleepers + 1)) then .wakeNext g.taskList .trylock
        else .unlock .trylock)
  | .upLock =>
      if g.lock then none else some ({ g with lock := true }, .wakeNext g.taskList .up)
  | .wakeNext [] k => some (g, .unlock k)
  | .wakeNext (p :: rest) k => some (g, .wakeStore p rest k)
  | .wakeStore p rest k =>
      some ({ g with tasks := setTaskState g.tasks p .running }, .wakeUp p rest k)
  | .wakeUp p rest k =>
      -- the entry is exclusive and `nr_exclusive` is 1
      some ({ g with tasks := semUp g.tasks p },
        if tryToWakeUpResult ≠ 0 then .unlock k else .wakeNext rest k)
  | .unlock k => some ({ g with lock := false }, k.next)
  | .otherStore p => some ({ g with tasks := setTaskState g.tasks p .running }, .otherUp p)
  | .otherUp p => some ({ g with tasks := semUp g.tasks p }, .idle)
  | .panicked => none

/-- Any number of threads, after `sema_init(sem, val)`; the tasks are in any states and their
semaphores have any number of tokens. -/
def progWith (store : Int → Int) (val : Nat) : Prog Shared Pc Choice where
  init g := g.count = val ∧ g.sleepers = 0 ∧ g.lock = false ∧ g.taskList = [] ∧
    g.acquired = 0 ∧ g.released = 0 ∧ store val = val
  start pc := pc = .idle
  step := step store

/-- The code. -/
def prog (val : Nat) : Prog Shared Pc Choice := progWith wrap val

/-- The code with a count that does not wrap. -/
def unbounded (val : Nat) : Machine (Conf Shared Pc) (Nat × Choice) := (progWith id val).machine

/-- The sum that a step stores. -/
def sum (g : Shared) : Pc → Choice → Int
  | .idle, .down _ | .idle, .downTrylock => g.count - 1
  | .idle, .up => g.count + 1
  | .loopSignal _, _ => g.count + g.sleepers
  | .loopTest _, _ => g.count + (g.sleepers - 1)
  | .tryAdd, _ => g.count + (g.sleepers + 1)
  | _, _ => g.count

/-- The condition: the sum fits into `count`. -/
def fits (c : Conf Shared Pc) (ia : Nat × Choice) : Bool :=
  match c.pool[ia.1]? with
  | some pc => wrap (sum c.shared pc ia.2) == sum c.shared pc ia.2
  | none => true

/-! ## What a step can do -/

section
variable {i j : Nat} {g g' : Shared} {pc pc' : Pc} {a : Choice}

/-- A decrement of the thread is in `count` and not yet in `sleepers`. -/
def pending : Pc → Nat
  | .downState _ | .downLock _ | .downAdd _ | .downInc _ | .tryLock | .tryAdd => 1
  | _ => 0

/-- The thread has added to `sleepers` and not yet settled it. -/
def joining : Pc → Nat
  | .loopSignal _ | .loopTest _ => 1
  | _ => 0

/-- The accesses to the counters. -/
inductive Counts (g : Shared) : Pc → Shared → Pc → Prop
  /-- none -/
  | none {pc pc' : Pc} {g' : Shared} (hcount : g'.count = g.count)
      (hsleepers : g'.sleepers = g.sleepers) (hacq : g'.acquired = g.acquired)
      (hrel : g'.released = g.released) (hpending : pending pc' = pending pc)
      (hjoining : joining pc ≤ joining pc') : Counts g pc g' pc'
  /-- the decrement of a `down` that has the semaphore -/
  | fast (h : 0 ≤ g.count - 1) :
      Counts g .idle { g with count := g.count - 1, acquired := g.acquired + 1 } .idle
  /-- the decrement of one that has not -/
  | slow {pc' : Pc} (h : ¬ 0 ≤ g.count - 1) (hpending : pending pc' = 1) :
      Counts g .idle { g with count := g.count - 1 } pc'
  | up {pc' : Pc} (hpending : pending pc' = 0) :
      Counts g .idle { g with count := g.count + 1, released := g.released + 1 } pc'
  | inc (k : Down) :
      Counts g (.downInc k) { g with sleepers := g.sleepers + 1 } (.loopSignal k)
  | interrupted :
      Counts g (.loopSignal .interruptible)
        { g with count := g.count + g.sleepers, sleepers := 0 } (.downRemove false)
  | got (k : Down) (h : 0 ≤ g.count + (g.sleepers - 1)) :
      Counts g (.loopTest k) { g with count := g.count + (g.sleepers - 1), sleepers := 0
                                      acquired := g.acquired + 1 } (.downRemove true)
  | lost (k : Down) (h : ¬ 0 ≤ g.count + (g.sleepers - 1)) :
      Counts g (.loopTest k) { g with count := g.count + (g.sleepers - 1), sleepers := 1 }
        (.loopUnlock k)
  | takeBack {pc' : Pc} (hpending : pending pc' = 0) :
      Counts g .tryAdd { g with count := g.count + (g.sleepers + 1), sleepers := 0 } pc'

theorem step_counts (hs : step id j g pc a = some (g', pc')) : Counts g pc g' pc' := by
  cases pc with
  | idle =>
      cases a with
      | down k =>
          simp only [step] at hs
          split at hs <;> cases hs
          · rename_i hnonneg
            exact .fast hnonneg
          · rename_i hneg
            exact .slow hneg rfl
      | downTrylock =>
          simp only [step] at hs
          split at hs <;> cases hs
          · rename_i hnonneg
            exact .fast hnonneg
          · rename_i hneg
            exact .slow hneg rfl
      | up =>
          cases hs
          refine .up ?_
          split <;> rfl
      | signal p | wakeUpProcess p =>
          cases hs
          exact .none rfl rfl rfl rfl rfl (Nat.le_refl _)
  | downInc k =>
      cases hs
      exact .inc k
  | loopSignal k =>
      cases k with
      | plain =>
          cases hs
          exact .none rfl rfl rfl rfl rfl (Nat.le_refl _)
      | interruptible =>
          simp only [step] at hs
          split at hs <;> cases hs
          · exact .interrupted
          · exact .none rfl rfl rfl rfl rfl (Nat.le_refl _)
  | loopTest k =>
      simp only [step] at hs
      split at hs <;> cases hs
      · rename_i hnonneg
        exact .got k hnonneg
      · rename_i hneg
        exact .lost k hneg
  | tryAdd =>
      cases hs
      refine .takeBack ?_
      split <;> rfl
  | wakeNext rest k =>
      cases rest <;> cases hs <;> exact .none rfl rfl rfl rfl rfl (Nat.le_refl _)
  | unlock k =>
      cases k <;> cases hs <;> exact .none rfl rfl rfl rfl rfl (Nat.le_refl _)
  | _ =>
      simp only [step] at hs
      (try split at hs) <;> cases hs <;>
        exact .none rfl rfl rfl rfl rfl (by simp [joining])

/-- The queue changes by its threads' own entries. -/
theorem step_taskList (hs : step id j g pc a = some (g', pc')) :
    g'.taskList = g.taskList ∨ (∃ k, pc = .downAdd k ∧ g'.taskList = g.taskList ++ [j]) ∨
      ((∃ ok, pc = .downRemove ok) ∧ g'.taskList = g.taskList.erase j) := by
  cases pc with
  | downAdd k =>
      cases hs
      exact .inr (.inl ⟨k, rfl, rfl⟩)
  | downRemove ok =>
      cases hs
      exact .inr (.inr ⟨⟨ok, rfl⟩, rfl⟩)
  | idle =>
      cases a <;> simp only [step] at hs <;> (try split at hs) <;> cases hs <;> exact .inl rfl
  | loopSignal k =>
      cases k <;> simp only [step] at hs <;> (try split at hs) <;> cases hs <;> exact .inl rfl
  | wakeNext rest k => cases rest <;> cases hs <;> exact .inl rfl
  | _ =>
      simp only [step] at hs
      (try split at hs) <;> cases hs <;> exact .inl rfl

end

/-! ## The account -/

section
variable {val : Nat} {c : Conf Shared Pc} {i : Nat} {g g' : Shared} {pc pc' : Pc} {a : Choice}
  {n m r : Nat}

/-- What is left of the permits is what the count says and the decrements that are in it; `n` of
them are not yet in `sleepers`. -/
structure Account (val : Nat) (g : Shared) (n : Nat) : Prop where
  left : (val : Int) + g.released - g.acquired = g.count + g.sleepers + n
  bound : g.acquired ≤ val + g.released

theorem step_account (hs : Counts g pc g' pc') (h : Account val g (r + pending pc)) :
    Account val g' (r + pending pc') := by
  obtain ⟨hleft, hbound⟩ := h
  cases hs with
  | none hcount hsleepers hacq hrel hpending =>
      rw [hpending]
      exact ⟨by rw [hcount, hsleepers, hacq, hrel]; exact hleft, by rw [hacq, hrel]; exact hbound⟩
  | fast hnonneg =>
      simp only [pending] at hleft ⊢
      exact ⟨by push_cast; omega, by simp only; omega⟩
  | slow _ hpending =>
      rw [hpending]
      simp only [pending] at hleft
      exact ⟨by push_cast; omega, hbound⟩
  | up hpending =>
      rw [hpending]
      simp only [pending] at hleft
      exact ⟨by push_cast; omega, by simp only; omega⟩
  | inc k =>
      simp only [pending] at hleft ⊢
      exact ⟨by push_cast; omega, hbound⟩
  | interrupted =>
      simp only [pending] at hleft ⊢
      exact ⟨by push_cast; omega, hbound⟩
  | got k hnonneg =>
      simp only [pending] at hleft ⊢
      exact ⟨by push_cast; omega, by simp only; omega⟩
  | lost k =>
      simp only [pending] at hleft ⊢
      exact ⟨by push_cast; omega, hbound⟩
  | takeBack hpending =>
      rw [hpending]
      simp only [pending] at hleft
      exact ⟨by push_cast; omega, hbound⟩

theorem total_start {M : Type} [AddCommMonoid M] (w : Pc → M) (hw : w .idle = 0)
    (hc : (unbounded val).init c) : total w c.pool = 0 := by
  apply total_eq_zero
  intro pc hpc
  rw [hc.2 pc hpc]
  exact hw

theorem account (h : (unbounded val).Reachable c) :
    Account val c.shared (total pending c.pool) := by
  refine Prog.balance (P := progWith id val) pending (Account val) ?_ ?_ h
  · intro c hc
    rw [total_start pending rfl hc]
    obtain ⟨⟨hcount, hsleepers, -, -, hacq, hrel, -⟩, -⟩ := hc
    exact ⟨by rw [hcount, hsleepers, hacq, hrel]; simp, by omega⟩
  · intro c i a pc g pc' r _ _ _ _ hs hI
    exact step_account (step_counts hs) hI

/-- Between two threads that settle it, `sleepers` is 0 or 1. -/
theorem sleepers_le (h : (unbounded val).Reachable c) :
    c.shared.sleepers ≤ 1 + total joining c.pool := by
  refine Prog.balance (P := progWith id val) joining (fun g n => g.sleepers ≤ 1 + n) ?_ ?_ h
  · intro c hc
    rw [hc.1.2.1]
    exact Nat.zero_le _
  · intro c i a pc g pc' r _ _ _ _ hs hI
    cases step_counts hs with
    | none _ hsleepers _ _ _ hjoining => omega
    | fast | slow | up | inc =>
        simp only [joining] at hI ⊢
        omega
    | interrupted | got | takeBack => exact Nat.zero_le _
    | lost k => exact Nat.le_add_right _ _

/-! ## A thread that sleeps is on the queue -/

/-- From the moment the entry is queued until it is taken off. -/
def Pc.queued : Pc → Bool
  | .downInc _ | .loopSignal _ | .loopTest _ | .loopUnlock _ | .switch _ | .sleep _
  | .loopLock _ | .loopState _ | .downRemove _ => true
  | _ => false

theorem step_to_queued (hs : step id i g pc a = some (g', pc')) (hq : pc'.queued = true) :
    (∃ k, pc = .downAdd k) ∨ pc.queued = true ∧ ∀ ok, pc ≠ .downRemove ok := by
  cases pc with
  | downAdd k => exact .inl ⟨k, rfl⟩
  | downInc k | loopSignal k | loopTest k | loopUnlock k | switch k | sleep k | loopLock k
  | loopState k => exact .inr ⟨rfl, nofun⟩
  | idle =>
      cases a with
      | up =>
          cases hs
          split at hq <;> cases hq
      | _ => simp only [step] at hs; (try split at hs) <;> cases hs <;> cases hq
  | tryAdd =>
      cases hs
      split at hq <;> cases hq
  | wakeNext rest k => cases rest <;> cases hs <;> cases hq
  | unlock k => cases k <;> cases hs <;> cases hq
  | _ =>
      simp only [step] at hs
      (try split at hs) <;> cases hs <;> cases hq

theorem queued_mem (h : (unbounded val).Reachable c) :
    ∀ (i : Nat) (pc : Pc), c.pool[i]? = some pc → pc.queued = true → i ∈ c.shared.taskList := by
  refine Prog.thread (P := progWith id val) (fun i g pc => pc.queued = true → i ∈ g.taskList)
    ?_ ?_ ?_ h
  · intro c i pc hc hp hq
    rw [hc.2 pc (List.mem_of_getElem? hp)] at hq
    cases hq
  · intro c i a pc g pc' _ _ _ hs hR hq
    rcases step_to_queued hs hq with ⟨k, rfl⟩ | ⟨hold, hremove⟩
    · cases hs
      exact List.mem_append_right _ (List.mem_singleton.mpr rfl)
    · rcases step_taskList hs with hsame | ⟨k, rfl, -⟩ | ⟨⟨ok, rfl⟩, -⟩
      · rw [hsame]
        exact hR hold
      · cases hold
      · exact absurd rfl (hremove ok)
  · intro c i j a pc q g q' _ _ hij _ _ hs hR hq
    rcases step_taskList hs with hsame | ⟨k, -, hadd⟩ | ⟨-, hdel⟩
    · rw [hsame]
      exact hR hq
    · rw [hadd]
      exact List.mem_append_left _ (hR hq)
    · rw [hdel]
      exact (List.mem_erase_of_ne hij).mpr (hR hq)

/-! ## No thread sleeps through a release -/

/-- A thread that will raise the semaphore of `i`, which is on the queue, weighs one. -/
def willWake (i : Nat) : Pc → Nat
  | .upLock | .downRemove _ => 1
  | .wakeNext rest _ => if i ∈ rest then 1 else 0
  | .wakeStore p rest _ | .wakeUp p rest _ => if i ∈ p :: rest then 1 else 0
  | _ => 0

/-- The sleep of thread `i` is covered, `n` threads being on their way to it. -/
def Covered (i : Nat) (g : Shared) (n : Nat) : Prop :=
  g.count < 0 ∨ 0 < (g.tasks i).sleepLock ∨ 0 < n

theorem Covered.frame (h : Covered i g n) (hc : g'.count = g.count)
    (ht : (g'.tasks i).sleepLock = (g.tasks i).sleepLock) (hm : m = n) : Covered i g' m := by
  subst hm
  rw [Covered, hc, ht]
  exact h

/-- Whoever changes the count leaves it negative, or wakes the queue. -/
theorem Covered.settled {n : Nat} (h : g.count < 0 ∨ 0 < n) : Covered i g n := by
  rcases h with hneg | hpos
  · exact .inl hneg
  · exact .inr (.inr hpos)

/-- Raising a semaphore takes no token from anybody. -/
theorem Covered.semUp {i p : Nat} (h : Covered i g n) (hm : i ≠ p → m = n) :
    Covered i { g with tasks := Sched.semUp g.tasks p } m := by
  by_cases hp : i = p
  · subst hp
    exact .inr (.inl (by simp))
  · exact h.frame rfl (congrArg _ (semUp_ne _ _ _ hp)) (hm hp)

/-- A decrement keeps a negative count negative. -/
theorem Covered.dec {n : Nat} (h : Covered i g n) (hc : g'.count = g.count - 1)
    (ht : g'.tasks = g.tasks) : Covered i g' n := by
  rcases h with hneg | hrest
  · exact .inl (by omega)
  · rw [Covered, ht]
    exact .inr hrest

/-- A step of another thread keeps the sleep of a queued thread covered. -/
theorem step_covered {i j : Nat} (hij : i ≠ j) (hmem : i ∈ g.taskList)
    (hs : step id j g pc a = some (g', pc')) (h : Covered i g (r + willWake i pc)) :
    Covered i g' (r + willWake i pc') := by
  cases pc with
  | idle =>
      cases a with
      | down k =>
          simp only [step] at hs
          split at hs <;> cases hs <;> exact h.dec rfl rfl
      | downTrylock =>
          simp only [step] at hs
          split at hs <;> cases hs <;> exact h.dec rfl rfl
      | up =>
          -- from a negative count the release goes on to wake the queue
          cases hs
          by_cases hpos : 0 < g.count + 1
          · rw [if_pos hpos]
            rcases h with hneg | hrest
            · omega
            · exact .inr hrest
          · rw [if_neg hpos]
            exact .settled (.inr (Nat.succ_pos _))
      | signal p | wakeUpProcess p =>
          cases hs
          exact h.frame rfl rfl rfl
  | downState k | loopState k | downRunning ok | otherStore p =>
      cases hs
      exact h.frame rfl (setTaskState_sleepLock _ _ _ _) rfl
  | loopSignal k =>
      cases k with
      | plain =>
          cases hs
          exact h.frame rfl rfl rfl
      | interruptible =>
          simp only [step] at hs
          split at hs <;> cases hs
          · exact .settled (.inr (Nat.succ_pos _))
          · exact h.frame rfl rfl rfl
  | loopTest k =>
      simp only [step] at hs
      split at hs <;> cases hs
      · exact .settled (.inr (Nat.succ_pos _))
      · rename_i hneg
        exact .settled (.inl (Int.not_le.mp hneg))
  | downRemove ok =>
      cases hs
      refine .settled (.inr ?_)
      simp only [willWake, if_pos ((List.mem_erase_of_ne hij).mpr hmem)]
      omega
  | tryAdd =>
      cases hs
      by_cases hnonneg : 0 ≤ g.count + (g.sleepers + 1)
      · rw [if_pos (show 0 ≤ id (g.count + (g.sleepers + 1)) from hnonneg)]
        refine .settled (.inr ?_)
        simp only [willWake, if_pos hmem]
        omega
      · exact .settled (.inl (Int.not_le.mp hnonneg))
  | upLock =>
      simp only [step] at hs
      split at hs <;> cases hs
      refine h.frame rfl rfl ?_
      simp only [willWake, if_pos hmem]
  | wakeNext rest k =>
      cases rest <;> cases hs
      · exact h.frame rfl rfl (by simp [willWake])
      · exact h.frame rfl rfl rfl
  | wakeStore p rest k =>
      cases hs
      exact h.frame rfl (setTaskState_sleepLock _ _ _ _) rfl
  | wakeUp p rest k =>
      cases hs
      exact h.semUp (fun hp => by simp [willWake, hp, tryToWakeUpResult])
  | otherUp p =>
      cases hs
      exact h.semUp (fun _ => rfl)
  | sleep k =>
      simp only [step] at hs
      split at hs
      · cases hs
      · rename_i ts hd
        cases hs
        exact h.frame rfl (congrArg _ ((semDown_some hd).2.2 i hij)) rfl
  | unlock k => cases k <;> cases hs <;> exact h.frame rfl rfl rfl
  | _ =>
      simp only [step] at hs
      (try split at hs) <;> cases hs <;> exact h.frame rfl rfl rfl

/-- A thread that was left without the semaphore, and is on its way to `dde_kit_sem_down` or in
it. -/
def Pc.asleep : Pc → Bool
  | .loopUnlock _ | .switch _ | .sleep _ => true
  | _ => false

theorem Pc.queued_of_asleep (h : pc.asleep = true) : pc.queued = true := by
  cases pc <;> first | rfl | cases h

/-- A thread falls asleep by leaving the count negative, or goes on sleeping. -/
theorem step_to_asleep (hs : step id i g pc a = some (g', pc')) (ha : pc'.asleep = true) :
    g'.count < 0 ∨
      g'.count = g.count ∧ g'.tasks = g.tasks ∧ willWake i pc' = willWake i pc ∧
        pc.asleep = true := by
  cases pc with
  | loopTest k =>
      simp only [step] at hs
      split at hs <;> cases hs
      · cases ha
      · rename_i hneg
        exact .inl (Int.not_le.mp hneg)
  | loopUnlock k =>
      cases hs
      exact .inr ⟨rfl, rfl, rfl, rfl⟩
  | switch k =>
      simp only [step] at hs
      split at hs <;> cases hs
      · cases ha
      · exact .inr ⟨rfl, rfl, rfl, rfl⟩
      · cases ha
  | idle =>
      cases a with
      | up =>
          cases hs
          split at ha <;> cases ha
      | _ => simp only [step] at hs; (try split at hs) <;> cases hs <;> cases ha
  | loopSignal k =>
      cases k <;> simp only [step] at hs <;> (try split at hs) <;> cases hs <;> cases ha
  | tryAdd =>
      cases hs
      split at ha <;> cases ha
  | wakeNext rest k => cases rest <;> cases hs <;> cases ha
  | unlock k => cases k <;> cases hs <;> cases ha
  | _ =>
      simp only [step] at hs
      (try split at hs) <;> cases hs <;> cases ha

theorem asleep_covered (h : (unbounded val).Reachable c) (i : Nat) :
    ∀ pc : Pc, c.pool[i]? = some pc → pc.asleep = true →
      Covered i c.shared (total (willWake i) c.pool) := by
  refine Prog.watch (P := progWith id val) i (willWake i)
    (fun g pc n => pc.asleep = true → Covered i g n) ?_ ?_ ?_ h
  · intro c pc hc hp ha
    rw [hc.2 pc (List.mem_of_getElem? hp)] at ha
    cases ha
  · intro c a pc g pc' r _ _ _ hs hS ha
    rcases step_to_asleep hs ha with hneg | ⟨hcount, htasks, hw, hbefore⟩
    · exact .inl hneg
    · exact (hS hbefore).frame hcount (by rw [htasks]) (by rw [hw])
  · intro c j a pc q g q' r hreach _ hij hp _ hs hS ha
    exact step_covered hij (queued_mem hreach i pc hp (Pc.queued_of_asleep ha)) hs (hS ha)

/-! ## The semaphore -/

/-- A thread that is not in the code of the semaphore, or sleeps there. -/
def Pc.resting : Pc → Bool
  | .idle | .switch _ | .sleep _ | .otherStore _ | .otherUp _ | .panicked => true
  | _ => false

theorem weights_of_resting (i : Nat) {pc : Pc} (h : pc.resting = true) :
    pending pc = 0 ∧ joining pc = 0 ∧ willWake i pc = 0 := by
  cases pc <;> first | exact ⟨rfl, rfl, rfl⟩ | cases h

/-- Thread `i` hangs in `dde_kit_sem_down` with its semaphore at zero. -/
def Hangs (c : Conf Shared Pc) (i : Nat) : Prop :=
  ∃ k, c.pool[i]? = some (.sleep k) ∧ (c.shared.tasks i).sleepLock = 0

theorem no_permit_left (h : (unbounded val).Reachable c) {i : Nat} (hangs : Hangs c i)
    (hrest : ∀ pc ∈ c.pool, pc.resting = true) :
    c.shared.acquired = val + c.shared.released := by
  obtain ⟨k, hp, htoken⟩ := hangs
  have hpending : total pending c.pool = 0 :=
    total_eq_zero (fun pc hpc => (weights_of_resting i (hrest pc hpc)).1)
  have hjoining : total joining c.pool = 0 :=
    total_eq_zero (fun pc hpc => (weights_of_resting i (hrest pc hpc)).2.1)
  have hwake : total (willWake i) c.pool = 0 :=
    total_eq_zero (fun pc hpc => (weights_of_resting i (hrest pc hpc)).2.2)
  obtain ⟨hleft, hbound⟩ := account h
  have hsleepers := sleepers_le h
  rcases asleep_covered h i _ hp rfl with hneg | hlock | hwaker
  · omega
  · omega
  · omega

end

/-! ## The code -/

section
variable {val : Nat} {store : Int → Int} {i : Nat} {g g' : Shared} {pc pc' : Pc} {a : Choice}

/-- A step whose sum fits is the same with a count that does not wrap. -/
theorem step_of_fits (h : store (sum g pc a) = sum g pc a) :
    step store i g pc a = step id i g pc a := by
  cases pc with
  | idle => cases a <;> simp only [sum] at h <;> simp only [step, h, id]
  | loopSignal k => cases k <;> simp only [sum] at h <;> simp only [step, h, id]
  | loopTest k | tryAdd =>
      simp only [sum] at h
      simp only [step, h, id]
  | wakeNext rest k => cases rest <;> rfl
  | _ => rfl

/-- A thread between `spin_lock` and `spin_unlock` weighs one. -/
def inside : Pc → Nat
  | .downAdd _ | .downInc _ | .loopSignal _ | .loopTest _ | .loopUnlock _ | .loopState _
  | .downRemove _ | .tryAdd | .wakeNext _ _ | .wakeStore _ _ _ | .wakeUp _ _ _ | .unlock _ => 1
  | _ => 0

theorem step_toggles (hs : step store i g pc a = some (g', pc')) :
    Prog.Toggles g.lock (inside pc) g'.lock (inside pc') := by
  cases pc with
  | downLock k | loopLock k | tryLock | upLock =>
      simp only [step] at hs
      split at hs <;> cases hs
      rename_i hfree
      rw [Bool.eq_false_iff.mpr hfree]
      exact .take
  | loopUnlock k =>
      cases hs
      exact .give _
  | unlock k =>
      cases k <;> cases hs <;> exact .give _
  | idle =>
      cases a with
      | up =>
          cases hs
          split <;> exact .same _ _
      | _ => simp only [step] at hs; (try split at hs) <;> cases hs <;> exact .same _ _
  | loopSignal k =>
      cases k <;> simp only [step] at hs <;> (try split at hs) <;> cases hs <;> exact .same _ _
  | tryAdd =>
      cases hs
      split <;> exact .same _ _
  | wakeNext rest k => cases rest <;> cases hs <;> exact .same _ _
  | _ =>
      simp only [step] at hs
      (try split at hs) <;> cases hs <;> exact .same _ _

theorem total_inside {c : Conf Shared Pc} (h : (prog val).machine.Reachable c) :
    total inside c.pool = c.shared.lock.toNat := by
  have hflag := Prog.flag (P := prog val) inside Shared.lock ?_
    (fun _ _ _ _ _ _ hs => step_toggles hs) h
  · rw [hflag]
    cases c.shared.lock <;> rfl
  · intro c hc
    refine ⟨hc.1.2.2.1, total_eq_zero ?_⟩
    intro pc hpc
    rw [hc.2 pc hpc]
    rfl

/-- The code on a lock that is initialised when it is used, or has been before. -/
def locking (val : Nat) : LazyLock.Locking Shared Pc Choice where
  prog := prog val
  taken := Shared.lock
  setTaken g b := { g with lock := b }
  calls
    | .downLock _ | .loopUnlock _ | .loopLock _ | .tryLock | .upLock | .unlock _ => true
    | _ => false
  holds := inside
  setTaken_self _ := rfl
  total_holds _ := total_inside

def machine (val : Nat) : Machine (Conf (LazyLock.Lazy Shared) (LazyLock.Thread Pc))
    (Nat × Choice) :=
  (locking val).machine

/-- As long as no sum wraps, the code does what it does with a count that does not wrap. -/
theorem reach_unbounded {c : Conf Shared Pc} (h : (prog val).machine.Reach (fits · ·) c) :
    (unbounded val).Reachable c := by
  have hsim : ∃ d, (unbounded val).Reachable d ∧ c = d := by
    refine Machine.Reach.simulates (fun c d => c = d) ?_ ?_ h
    · rintro c ⟨⟨hcount, hsleepers, hlock, hlist, hacq, hrel, -⟩, hpool⟩
      exact ⟨c, ⟨⟨hcount, hsleepers, hlock, hlist, hacq, hrel, rfl⟩, hpool⟩, rfl⟩
    · rintro c ia c' d _ hok hst _ rfl
      right
      obtain ⟨pc, g, pc', hp, hs, rfl⟩ := Prog.machine_step hst
      simp only [fits, hp, beq_iff_eq] at hok
      have hstep : step id ia.1 c.shared pc ia.2 = some (g, pc') := by
        rw [← step_of_fits hok]
        exact hs
      refine ⟨ia, ⟨g, c.pool.set ia.1 pc'⟩, trivial, ?_, rfl⟩
      simp only [unbounded, Prog.machine, progWith, hp, hstep]
  obtain ⟨d, hd, rfl⟩ := hsim
  exact hd

/-- **Semaphores count and wake.**  Whatever the interleaving of `down`, `down_interruptible`,
`down_trylock` and `up`, whatever signals are pending, whoever else wakes the tasks and whatever
tokens were left in their semaphores, as long as `count` does not wrap and the lock is not
re-initialised under a holder: the semaphore is never acquired more often than its initial value
and the releases allow, and if a thread hangs in `dde_kit_sem_down` with its semaphore at zero
while no other thread is on its way through the code, every permit is taken. -/
theorem semaphore_counts_and_wakes (val : Nat)
    {c : Conf (LazyLock.Lazy Shared) (LazyLock.Thread Pc)}
    (h : (machine val).Reach ((locking val).keeps (fits · ·)) c) :
    c.shared.base.acquired ≤ val + c.shared.base.released ∧
      ∀ i, Hangs (LazyLock.base c) i → (∀ t ∈ c.pool, t.pc.resting = true) →
        c.shared.base.acquired = val + c.shared.base.released := by
  have hunbounded := reach_unbounded (LazyLock.Locking.reach_base h)
  refine ⟨(account hunbounded).bound, ?_⟩
  intro i hangs hrest
  refine no_permit_left hunbounded hangs ?_
  intro pc hpc
  obtain ⟨t, ht, rfl⟩ := List.mem_map.mp hpc
  exact hrest t ht

/-- A semaphore of `DECLARE_MUTEX`: thread 0 has its one permit, and thread 1 hangs. -/
theorem semaphore_counts_and_wakes_contended :
    ∃ c : Conf (LazyLock.Lazy Shared) (LazyLock.Thread Pc),
      (machine 1).Reach ((locking 1).keeps (fits · ·)) c ∧ Hangs (LazyLock.base c) 1 ∧
      (∀ t ∈ c.pool, t.pc.resting = true) ∧ c.shared.base.acquired = 1 ∧
      c.shared.base.acquired = 1 + c.shared.base.released := by
  have hinit : (machine 1).Reach ((locking 1).keeps (fits · ·))
      ⟨⟨⟨1, 0, false, [], fun _ => ⟨.running, 0⟩, fun _ => false, 0, 0⟩, true⟩,
        [⟨.idle, .test⟩, ⟨.idle, .test⟩]⟩ :=
    .init ⟨⟨rfl, rfl, rfl, rfl, rfl, rfl, rfl⟩,
      by simp [LazyLock.Locking.lazy, locking, prog, progWith]⟩
  have hrun : ((machine 1).runOk ((locking 1).keeps (fits · ·))
      ⟨⟨⟨1, 0, false, [], fun _ => ⟨.running, 0⟩, fun _ => false, 0, 0⟩, true⟩,
        [⟨.idle, .test⟩, ⟨.idle, .test⟩]⟩
      ((0, .down .plain) :: List.replicate 13 (1, .down .plain))).map
      (fun c => (c.pool, c.shared.base.tasks 1, c.shared.base.acquired)) =
      some ([⟨.idle, .test⟩, ⟨.sleep .plain, .test⟩], ⟨.uninterruptible, 0⟩, 1) := by
    decide
  obtain ⟨c, hc, hat⟩ := Option.map_eq_some_iff.mp hrun
  simp only [Prod.mk.injEq] at hat
  obtain ⟨hpool, htask, hacq⟩ := hat
  have hreach := hinit.runOk _ hc
  have hangs : Hangs (LazyLock.base c) 1 := by
    refine ⟨.plain, ?_, ?_⟩
    · simp only [LazyLock.base, hpool]
      rfl
    · show (c.shared.base.tasks 1).sleepLock = 0
      rw [htask]
  have hrest : ∀ t ∈ c.pool, t.pc.resting = true := by
    rw [hpool]
    decide
  exact ⟨c, hreach, hangs, hrest, hacq, (semaphore_counts_and_wakes 1 hreach).2 1 hangs hrest⟩

end

end LinuxDrivers.Kernel.Semaphore
