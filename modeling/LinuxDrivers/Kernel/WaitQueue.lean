/-
# `LinuxDrivers.Kernel.WaitQueue` — why `wait_event` and `__wake_up` lose no wake-up

A sleeper runs the pattern of `wait_event`:

    prepare_to_wait:  lock; queue the entry unless it is queued; state = st; unlock
    test the condition; if it holds, leave the loop
    schedule()
    repeat
    finish_wait:      state = RUNNING; if queued: lock; take the entry off; unlock

and a waker makes the condition true and calls `__wake_up`, which walks the queue
under its lock and calls `try_to_wake_up` for every entry.  `try_to_wake_up`
answers 0, so `autoremove_wake_function` never takes an entry off the queue and
the walk never stops early.

The task state is written by sleeper and waker without a common lock, and the
sleep semaphores may hold any number of old tokens.  Neither matters.  What
carries the proof is that a sleeper that has found the condition false is on the
queue and stays there until its own `finish_wait`; so the waker that makes the
condition true later on will raise the sleeper's semaphore, and the sleeper takes
at most one token between its test and the place where it could hang.

Here the queue is a list of threads, an operation on it is one step, and its lock excludes.
`Kernel.WaitEvent` has the code, with links and a lock that may need initialisation, and shows
when it does what is done here.

**Proved here.**

    a sleeper past its test stays on the queue                           (`queued_mem`)
    no wake-up is lost, in any interleaving, with any tokens             (`not_lost`)
-/
import LinuxDrivers.Kernel.Sched

namespace LinuxDrivers.Kernel.WaitQueue

open LinuxDrivers.Lib LinuxDrivers.Kernel.Sched

/-! ## Sleepers and wakers, one access at a time -/

/-- Where a thread stands.  A sleeper remembers the state it sleeps in, a waker
the part of the queue it has not visited. -/
inductive Pc where
  /-- `wait_event`: about to test the condition for the first time -/
  | waitEvent (st : TaskState)
  /-- `prepare_to_wait` -/
  | prepareLock (st : TaskState)
  | prepareAdd (st : TaskState)
  | prepareState (st : TaskState)
  | prepareUnlock (st : TaskState)
  /-- about to test the condition in the loop -/
  | test (st : TaskState)
  /-- in `schedule()`: about to read `current->state` -/
  | switch (st : TaskState)
  /-- in `schedule()`: in `dde_kit_sem_down` -/
  | down (st : TaskState)
  /-- `finish_wait` -/
  | finishState (st : TaskState)
  | finishCheck (st : TaskState)
  | finishLock (st : TaskState)
  | finishDel (st : TaskState)
  | finishUnlock (st : TaskState)
  /-- `wait_event` has returned -/
  | awake (st : TaskState)
  | panicked
  /-- about to make the condition true -/
  | setCondition
  /-- `__wake_up` -/
  | wakeLock
  | wakeNext (rest : List Nat)
  | wakeStore (p : Nat) (rest : List Nat)
  | wakeUp (p : Nat) (rest : List Nat)
  | wakeUnlock
  /-- the waker has finished -/
  | finished
  deriving DecidableEq, Repr

structure Shared where
  condition : Bool
  /-- `q->lock` is taken -/
  lock : Bool
  /-- `q->task_list`; the entry of a sleeper is its thread's index -/
  taskList : List Nat
  tasks : Tasks

/-- `autoremove_wake_function` after its call of `default_wake_function`, which
has answered `ret`. -/
def autoremoveWakeFunction (ret : Int) (p : Nat) (queue : List Nat) : List Nat :=
  if ret ≠ 0 then queue.erase p else queue

/-- One access of thread `i`. -/
def step (i : Nat) (g : Shared) (pc : Pc) (_ : Unit) : Option (Shared × Pc) :=
  match pc with
  | .waitEvent st => some (g, if g.condition then .awake st else .prepareLock st)
  | .prepareLock st => if g.lock then none else some ({ g with lock := true }, .prepareAdd st)
  | .prepareAdd st =>
      some ({ g with taskList := if i ∈ g.taskList then g.taskList else i :: g.taskList },
        .prepareState st)
  | .prepareState st => some ({ g with tasks := setTaskState g.tasks i st }, .prepareUnlock st)
  | .prepareUnlock st => some ({ g with lock := false }, .test st)
  | .test st => some (g, if g.condition then .finishState st else .switch st)
  | .switch st =>
      match schedule (g.tasks i).state with
      | .yield => some (g, .prepareLock st)
      | .down => some (g, .down st)
      | .panic => some (g, .panicked)
  | .down st =>
      match semDown g.tasks i with
      | none => none
      | some ts => some ({ g with tasks := ts }, .prepareLock st)
  | .finishState st => some ({ g with tasks := setTaskState g.tasks i .running }, .finishCheck st)
  | .finishCheck st => some (g, if i ∈ g.taskList then .finishLock st else .awake st)
  | .finishLock st => if g.lock then none else some ({ g with lock := true }, .finishDel st)
  | .finishDel st => some ({ g with taskList := g.taskList.erase i }, .finishUnlock st)
  | .finishUnlock st => some ({ g with lock := false }, .awake st)
  | .awake st => some (g, .waitEvent st)
  | .panicked => none
  | .setCondition => some ({ g with condition := true }, .wakeLock)
  | .wakeLock => if g.lock then none else some ({ g with lock := true }, .wakeNext g.taskList)
  | .wakeNext [] => some (g, .wakeUnlock)
  | .wakeNext (p :: rest) => some (g, .wakeStore p rest)
  | .wakeStore p rest => some ({ g with tasks := setTaskState g.tasks p .running }, .wakeUp p rest)
  | .wakeUp p rest =>
      -- the entries are not exclusive, so the walk goes on whatever the answer is
      some ({ g with tasks := semUp g.tasks p
                     taskList := autoremoveWakeFunction tryToWakeUpResult p g.taskList },
        .wakeNext rest)
  | .wakeUnlock => some ({ g with lock := false }, .finished)
  | .finished => some (g, .setCondition)

/-- Sleepers in either sleeping state and wakers, on an empty queue with any
tokens left in the semaphores; both may come back for more. -/
def prog : Prog Shared Pc Unit where
  init g := g.lock = false ∧ g.taskList = [] ∧ ∀ i, (g.tasks i).state = .running
  start pc := pc = .waitEvent .interruptible ∨ pc = .waitEvent .uninterruptible ∨ pc = .setCondition
  step := step

def machine : Machine (Conf Shared Pc) (Nat × Unit) := prog.machine

/-- A waker that has not finished. -/
def Pc.waking : Pc → Bool
  | .setCondition | .wakeLock | .wakeNext _ | .wakeStore _ _ | .wakeUp _ _ | .wakeUnlock => true
  | _ => false

/-- The condition is true, every waker has finished, and thread `i` hangs in
`dde_kit_sem_down` with its semaphore at zero. -/
def LostWakeup (c : Conf Shared Pc) (i : Nat) : Prop :=
  c.shared.condition = true ∧ (∀ pc ∈ c.pool, pc.waking = false) ∧
    ∃ st, c.pool[i]? = some (.down st) ∧ (c.shared.tasks i).sleepLock = 0

/-! ## The lock of the queue -/

/-- A thread that holds `q->lock` weighs one. -/
def holder : Pc → Nat
  | .prepareAdd _ | .prepareState _ | .prepareUnlock _ | .finishDel _ | .finishUnlock _
  | .wakeNext _ | .wakeStore _ _ | .wakeUp _ _ | .wakeUnlock => 1
  | _ => 0

/-- The lock is taken if and only if exactly one thread holds it. -/
theorem total_holder {c : Conf Shared Pc} (h : machine.Reachable c) :
    total holder c.pool = c.shared.lock.toNat := by
  refine Prog.balance (P := prog) holder (fun g n => n = g.lock.toNat) ?_ ?_ h
  · intro c hc
    have hzero : total holder c.pool = 0 := by
      apply total_eq_zero
      intro pc hpc
      rcases hc.2 pc hpc with rfl | rfl | rfl <;> rfl
    rw [hzero, hc.1.1]
    rfl
  · intro c i a pc g pc' r _ _ _ _ hs hb
    generalize c.shared = g₀ at hs hb
    cases pc with
    | prepareLock st | finishLock st | wakeLock =>
        simp only [prog, step] at hs
        split at hs
        · cases hs
        · rename_i hfree
          cases hs
          rw [Bool.not_eq_true] at hfree
          rw [hfree] at hb
          simpa [holder] using hb
    | prepareUnlock st | finishUnlock st | wakeUnlock =>
        cases hs
        have hle : g₀.lock.toNat ≤ 1 := Bool.toNat_le _
        show r + 0 = 0
        change r + 1 = _ at hb
        omega
    | wakeNext rest => cases rest <;> cases hs <;> exact hb
    | _ =>
        simp only [prog, step] at hs
        (try split at hs) <;> cases hs <;> exact hb

/-! ## A sleeper that has found the condition false is on the queue -/

/-- From the moment the entry is queued until `finish_wait` takes it off. -/
def Pc.queued : Pc → Bool
  | .prepareState _ | .prepareUnlock _ | .test _ | .switch _ | .down _ | .finishState _ => true
  | _ => false

/-- The only steps that change the queue: `prepare_to_wait` puts an entry on it,
`finish_wait` takes one off.  A wake-up does not, `try_to_wake_up` answering 0. -/
theorem step_taskList {j : Nat} {g g' : Shared} {pc pc' : Pc}
    (hs : step j g pc () = some (g', pc')) :
    g'.taskList = g.taskList ∨ (∃ st, pc = .prepareAdd st ∧ g'.taskList = j :: g.taskList) ∨
      ∃ st, pc = .finishDel st ∧ g'.taskList = g.taskList.erase j := by
  cases pc with
  | prepareAdd st =>
      cases hs
      by_cases hj : j ∈ g.taskList
      · exact .inl (if_pos hj)
      · exact .inr (.inl ⟨st, rfl, if_neg hj⟩)
  | finishDel st =>
      cases hs
      exact .inr (.inr ⟨st, rfl, rfl⟩)
  | wakeNext rest => cases rest <;> cases hs <;> exact .inl rfl
  | _ =>
      simp only [step] at hs
      (try split at hs) <;> cases hs <;> exact .inl rfl

/-- A thread comes to have an entry on the queue only by `prepare_to_wait`. -/
theorem step_to_queued {i : Nat} {g g' : Shared} {pc pc' : Pc}
    (hs : step i g pc () = some (g', pc')) (hq : pc'.queued = true) :
    (∃ st, pc = .prepareAdd st) ∨ pc.queued = true := by
  cases pc with
  | prepareAdd st => exact .inl ⟨st, rfl⟩
  | prepareState st | prepareUnlock st | test st | switch st | down st | finishState st =>
      exact .inr rfl
  | wakeNext rest => cases rest <;> cases hs <;> cases hq
  | _ =>
      simp only [step] at hs
      (try split at hs) <;> cases hs <;> cases hq

section
variable {c : Conf Shared Pc}

theorem queued_mem (h : machine.Reachable c) :
    ∀ (i : Nat) (pc : Pc), c.pool[i]? = some pc → pc.queued = true → i ∈ c.shared.taskList := by
  refine Prog.thread (P := prog) (fun i g pc => pc.queued = true → i ∈ g.taskList) ?_ ?_ ?_ h
  · intro c i pc hc hp hq
    rcases hc.2 pc (List.mem_of_getElem? hp) with rfl | rfl | rfl <;> cases hq
  · intro c i a pc g pc' _ _ _ hs hR hq
    rcases step_to_queued hs hq with ⟨st, rfl⟩ | hold
    · cases hs
      show i ∈ if i ∈ c.shared.taskList then c.shared.taskList else i :: c.shared.taskList
      split
      · assumption
      · exact List.mem_cons_self
    · rcases step_taskList hs with hsame | ⟨st, rfl, _⟩ | ⟨st, rfl, _⟩
      · rw [hsame]
        exact hR hold
      · cases hold
      · cases hold
  · intro c i j a pc pc₁ g pc₁' _ _ hij _ _ hs hR hq
    rcases step_taskList hs with hsame | ⟨st, _, hadd⟩ | ⟨st, _, hdel⟩
    · rw [hsame]
      exact hR hq
    · rw [hadd]
      exact List.mem_cons_of_mem _ (hR hq)
    · rw [hdel]
      exact (List.mem_erase_of_ne hij).mpr (hR hq)

/-! ## No wake-up is lost -/

/-- A waker that will raise the semaphore of `i`, if `i` stays on the queue,
weighs one. -/
def willWake (i : Nat) : Pc → Nat
  | .wakeLock => 1
  | .wakeNext rest => if i ∈ rest then 1 else 0
  | .wakeStore p rest | .wakeUp p rest => if i ∈ p :: rest then 1 else 0
  | _ => 0

/-- The sleep of thread `i` is covered, `n` wakers being on their way to it: once the
condition is true, there is a token for it or there will be. -/
def Covered (i : Nat) (g : Shared) (n : Nat) : Prop :=
  g.condition = true → 0 < (g.tasks i).sleepLock ∨ 0 < n

theorem Covered.frame {i : Nat} {g g' : Shared} {n m : Nat} (h : Covered i g n)
    (hc : g'.condition = g.condition) (ht : (g'.tasks i).sleepLock = (g.tasks i).sleepLock)
    (hm : m = n) : Covered i g' m := by
  subst hm
  intro hcond
  rw [ht]
  exact h (hc ▸ hcond)

/-- A step of another thread keeps the sleep of a queued thread covered. -/
theorem step_covered {i j : Nat} {g g' : Shared} {pc pc' : Pc} {r : Nat} (hij : i ≠ j)
    (hmem : i ∈ g.taskList) (hs : step j g pc () = some (g', pc'))
    (h : Covered i g (r + willWake i pc)) : Covered i g' (r + willWake i pc') := by
  cases pc with
  | setCondition =>
      cases hs
      intro _
      exact .inr (Nat.lt_of_lt_of_le Nat.one_pos (Nat.le_add_left 1 r))
  | wakeLock =>
      -- the walk starts from a queue that has `i` on it
      simp only [step] at hs
      split at hs <;> cases hs
      exact h.frame rfl rfl (by simp [willWake, hmem])
  | wakeNext rest =>
      cases rest <;> cases hs
      · exact h.frame rfl rfl (by simp [willWake])
      · exact h.frame rfl rfl rfl
  | wakeStore p rest =>
      cases hs
      exact h.frame rfl (setTaskState_sleepLock _ _ _ _) rfl
  | wakeUp p rest =>
      cases hs
      by_cases hp : i = p
      · -- the waker pays its token
        subst hp
        intro _
        exact .inl (by simp)
      · exact h.frame rfl (congrArg _ (semUp_ne _ _ _ hp)) (by simp [willWake, hp])
  | down st =>
      simp only [step] at hs
      split at hs
      · cases hs
      · rename_i ts hd
        cases hs
        exact h.frame rfl (congrArg _ ((semDown_some hd).2.2 i hij)) rfl
  | prepareState st | finishState st =>
      cases hs
      exact h.frame rfl (setTaskState_sleepLock _ _ _ _) rfl
  | _ =>
      simp only [step] at hs
      (try split at hs) <;> cases hs <;> exact h.frame rfl rfl rfl

/-- A thread that has found the condition false and is on its way to
`dde_kit_sem_down`, or in it. -/
def Pc.asleep : Pc → Bool
  | .switch _ | .down _ => true
  | _ => false

theorem Pc.queued_of_asleep {pc : Pc} (h : pc.asleep = true) : pc.queued = true := by
  cases pc <;> first | rfl | cases h

/-- A thread falls asleep only with the condition false, or goes on sleeping. -/
theorem step_to_asleep {i : Nat} {g g' : Shared} {pc pc' : Pc}
    (hs : step i g pc () = some (g', pc')) (ha : pc'.asleep = true) :
    g' = g ∧ willWake i pc' = willWake i pc ∧ (g.condition = false ∨ pc.asleep = true) := by
  cases pc with
  | test st =>
      cases hs
      by_cases hc : g.condition = true
      · rw [if_pos hc] at ha
        cases ha
      · exact ⟨rfl, by rw [if_neg hc]; rfl, .inl (by simpa using hc)⟩
  | switch st =>
      simp only [step] at hs
      split at hs <;> cases hs
      · cases ha
      · exact ⟨rfl, rfl, .inr rfl⟩
      · cases ha
  | wakeNext rest => cases rest <;> cases hs <;> cases ha
  | _ =>
      simp only [step] at hs
      (try split at hs) <;> cases hs <;> cases ha

theorem asleep_covered (h : machine.Reachable c) (i : Nat) :
    ∀ pc : Pc, c.pool[i]? = some pc → pc.asleep = true →
      Covered i c.shared (total (willWake i) c.pool) := by
  refine Prog.watch (P := prog) i (willWake i)
    (fun g pc n => pc.asleep = true → Covered i g n) ?_ ?_ ?_ h
  · intro c pc hc hp ha
    rcases hc.2 pc (List.mem_of_getElem? hp) with rfl | rfl | rfl <;> cases ha
  · intro c a pc g pc' r _ _ _ hs hS ha
    obtain ⟨rfl, hw, hfalse | hbefore⟩ := step_to_asleep hs ha
    · intro hcond
      rw [hfalse] at hcond
      cases hcond
    · exact (hS hbefore).frame rfl rfl (by rw [hw])
  · intro c j a pc q g q' r hreach _ hij hp _ hs hS ha
    exact step_covered hij (queued_mem hreach i pc hp (Pc.queued_of_asleep ha)) hs (hS ha)

/-- A waker that has finished wakes nobody any more. -/
theorem willWake_of_not_waking {i : Nat} {pc : Pc} (h : pc.waking = false) : willWake i pc = 0 := by
  cases pc <;> first | rfl | cases h

/-- Whatever the interleaving of sleepers and wakers, and whatever tokens were left in the
semaphores: once the condition is true and every waker has finished, no sleeper hangs in
`dde_kit_sem_down` with its semaphore at zero. -/
theorem not_lost (h : machine.Reachable c) (i : Nat) : ¬ LostWakeup c i := by
  rintro ⟨hcond, hdone, st, hp, hzero⟩
  have hnone : total (willWake i) c.pool = 0 :=
    total_eq_zero (fun pc hpc => willWake_of_not_waking (hdone pc hpc))
  rcases asleep_covered h i _ hp rfl hcond with htoken | hwaker
  · omega
  · omega

end

end LinuxDrivers.Kernel.WaitQueue
