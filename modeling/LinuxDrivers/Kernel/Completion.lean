/-
# `LinuxDrivers.Kernel.Completion` — completions count, and wake their waiters

`complete` and `wait_for_completion` of `kernel/sched.c`, on the sleep primitives of the
DDE:

    complete:             lock; done++; wake the queue; unlock
    wait_for_completion:  lock
                          if done is zero:  queue the entry, and
                            state = UNINTERRUPTIBLE; unlock; schedule(); lock
                            until done is not zero;  take the entry off
                          done--; unlock

`wait_for_completion_timeout` sleeps in `schedule_timeout`, with a timer that wakes it,
and gives up, without `done--`, when it comes back with no time left.  It returns the time that
is left, so 0 is meant to say that it has given up.  But a wait with the timeout 0 that does not
have to sleep does `done--` and returns 0 as well.

The waiters queue up as exclusive, one to be woken per `complete`, but `try_to_wake_up`
answers 0 and so all are woken.  They race for the count, and those that find it at zero
again sleep once more, with whatever tokens are left in their semaphores.

The lock is in `x->wait`.  `init_completion` initialises it, `DECLARE_COMPLETION` leaves that to
its first use, and then two threads can get into the critical section.  `step` is the code on an
initialised lock, `locking` on any.

**Proved here.**

    no waiter sleeps through a completion                             (`not_stuck`)
    while the lock is not re-initialised under a holder, no wait with the timeout 0 finds
    a completion, and fewer than 2^32 are left: `done` is the number of completions minus
    that of successful waits                       (`completion_counts_and_wakes`)
    a wait with the timeout 0 loses a completion   (`timeout_zero_loses`)
-/
import LinuxDrivers.Kernel.LazyLock
import LinuxDrivers.Kernel.Sched

namespace LinuxDrivers.Kernel.Completion

open LinuxDrivers.Lib LinuxDrivers.Kernel.Sched

/-! ## The code, one access at a time -/

/-- Which function waits.  With a timeout: the argument, and the variable `timeout`; inside
`schedule_timeout` it is `expire`. -/
inductive Wait where
  | plain
  | timed (arg timeout : Word)
  deriving DecidableEq, Repr

/-- What the caller takes the return value to say: that the wait was successful. -/
def Wait.success : Wait → Bool
  | .plain => true
  | .timed _ timeout => timeout != 0

/-- Where a thread stands. -/
inductive Pc where
  | idle
  /-- `complete` -/
  | completeLock
  | completeInc
  | wakeNext (rest : List Nat)
  | wakeStore (p : Nat) (rest : List Nat)
  | wakeUp (p : Nat) (rest : List Nat)
  | completeUnlock
  /-- `wait_for_completion`, `wait_for_completion_timeout` -/
  | waitLock (w : Wait)
  | waitTest (w : Wait)
  | waitAdd (w : Wait)
  | waitState (w : Wait)
  | waitUnlock (w : Wait)
  /-- `schedule_timeout` -/
  | readJiffies (arg timeout : Word)
  | addTimer (arg expire : Word)
  /-- in `schedule()`: about to read `current->state` -/
  | switch (w : Wait)
  /-- in `schedule()`: in `dde_kit_sem_down` -/
  | down (w : Wait)
  | delTimer (arg expire : Word)
  | remaining (arg expire : Word)
  /-- back from `schedule()` -/
  | againLock (w : Wait)
  | againTest (w : Wait)
  | giveUp (w : Wait)
  | remove (w : Wait)
  /-- about to do `x->done--` -/
  | dec (w : Wait)
  | outUnlock (success : Bool) (w : Wait)
  | returned (success : Bool) (w : Wait)
  | panicked
  /-- `process_timeout` for task `p` -/
  | expireStore (p : Nat)
  | expireUp (p : Nat)
  deriving DecidableEq, Repr

structure Shared where
  done : Word
  /-- `x->wait.lock` is taken -/
  lock : Bool
  /-- `x->wait.task_list`; the entry of a waiter is its thread's index -/
  taskList : List Nat
  tasks : Tasks
  jiffies : Word
  /-- the timer on the stack of `schedule_timeout` is pending -/
  timers : Nat → Bool
  /-- how often `x->done++` was executed, and how often `x->done--` by a wait that returns as
  successful -/
  completed : Nat
  succeeded : Nat

/-- What an idle thread does next. -/
inductive Choice where
  | complete
  | waitForCompletion
  | waitForCompletionTimeout (timeout : Word)
  /-- as the timer thread: the timer of task `p` expires -/
  | expire (p : Nat)
  | tick
  deriving DecidableEq, Repr

/-- The time left, as `schedule_timeout` computes it. -/
def timeLeft (expire jiffies : Word) : Word :=
  if intOfWord (expire - jiffies) < 0 then 0 else expire - jiffies

/-- Where a waiter goes from `schedule()`. -/
def Wait.back : Wait → Pc
  | .plain => .againLock .plain
  | .timed arg expire => .delTimer arg expire

/-- One access of thread `i`. -/
def step (i : Nat) (g : Shared) (pc : Pc) (a : Choice) : Option (Shared × Pc) :=
  match pc with
  | .idle =>
      match a with
      | .complete => some (g, .completeLock)
      | .waitForCompletion => some (g, .waitLock .plain)
      | .waitForCompletionTimeout timeout => some (g, .waitLock (.timed timeout timeout))
      | .expire p =>
          if g.timers p then
            some ({ g with timers := Function.update g.timers p false }, .expireStore p)
          else none
      | .tick => some ({ g with jiffies := g.jiffies + 1 }, .idle)
  | .completeLock => if g.lock then none else some ({ g with lock := true }, .completeInc)
  | .completeInc =>
      some ({ g with done := g.done + 1, completed := g.completed + 1 }, .wakeNext g.taskList)
  | .wakeNext [] => some (g, .completeUnlock)
  | .wakeNext (p :: rest) => some (g, .wakeStore p rest)
  | .wakeStore p rest => some ({ g with tasks := setTaskState g.tasks p .running }, .wakeUp p rest)
  | .wakeUp p rest =>
      -- the entry is exclusive and `nr_exclusive` is 1
      some ({ g with tasks := semUp g.tasks p },
        if tryToWakeUpResult ≠ 0 then .completeUnlock else .wakeNext rest)
  | .completeUnlock => some ({ g with lock := false }, .idle)
  | .waitLock w => if g.lock then none else some ({ g with lock := true }, .waitTest w)
  | .waitTest w => some (g, if g.done = 0 then .waitAdd w else .dec w)
  | .waitAdd w => some ({ g with taskList := g.taskList ++ [i] }, .waitState w)
  | .waitState w =>
      some ({ g with tasks := setTaskState g.tasks i .uninterruptible }, .waitUnlock w)
  | .waitUnlock .plain => some ({ g with lock := false }, .switch .plain)
  | .waitUnlock (.timed arg timeout) => some ({ g with lock := false }, .readJiffies arg timeout)
  | .readJiffies arg timeout => some (g, .addTimer arg (timeout + g.jiffies))
  | .addTimer arg expire =>
      some ({ g with timers := Function.update g.timers i true }, .switch (.timed arg expire))
  | .switch w =>
      match schedule (g.tasks i).state with
      | .yield => some (g, w.back)
      | .down => some (g, .down w)
      | .panic => some (g, .panicked)
  | .down w =>
      match semDown g.tasks i with
      | none => none
      | some ts => some ({ g with tasks := ts }, w.back)
  | .delTimer arg expire =>
      some ({ g with timers := Function.update g.timers i false }, .remaining arg expire)
  | .remaining arg expire => some (g, .againLock (.timed arg (timeLeft expire g.jiffies)))
  | .againLock w => if g.lock then none else some ({ g with lock := true }, .againTest w)
  | .againTest .plain => some (g, if g.done = 0 then .waitState .plain else .remove .plain)
  | .againTest (.timed arg timeout) =>
      some (g, if timeout = 0 then .giveUp (.timed arg timeout)
        else if g.done = 0 then .waitState (.timed arg timeout) else .remove (.timed arg timeout))
  | .giveUp w => some ({ g with taskList := g.taskList.erase i }, .outUnlock false w)
  | .remove w => some ({ g with taskList := g.taskList.erase i }, .dec w)
  | .dec w =>
      some ({ g with done := g.done - 1, succeeded := g.succeeded + w.success.toNat },
        .outUnlock true w)
  | .outUnlock success w => some ({ g with lock := false }, .returned success w)
  | .returned _ _ => some (g, .idle)
  | .panicked => none
  | .expireStore p => some ({ g with tasks := setTaskState g.tasks p .running }, .expireUp p)
  | .expireUp p => some ({ g with tasks := semUp g.tasks p }, .idle)

/-- Any number of threads, after `init_completion`; the tasks are in any states and their
semaphores have any number of tokens. -/
def prog : Prog Shared Pc Choice where
  init g := g.done = 0 ∧ g.lock = false ∧ g.taskList = [] ∧ g.completed = 0 ∧ g.succeeded = 0
  start pc := pc = .idle
  step := step

def initialised : Machine (Conf Shared Pc) (Nat × Choice) := prog.machine

/-- A thread between `spin_lock` and `spin_unlock` weighs one. -/
def inside : Pc → Nat
  | .completeInc | .wakeNext _ | .wakeStore _ _ | .wakeUp _ _ | .completeUnlock
  | .waitTest _ | .waitAdd _ | .waitState _ | .waitUnlock _
  | .againTest _ | .giveUp _ | .remove _ | .dec _ | .outUnlock _ _ => 1
  | _ => 0

/-- `done` is positive, nobody is in the critical section, and thread `i` hangs in
`dde_kit_sem_down` with its semaphore at zero. -/
def Stuck (c : Conf Shared Pc) (i : Nat) : Prop :=
  c.shared.done ≠ 0 ∧ (∀ pc ∈ c.pool, inside pc = 0) ∧
    ∃ w, c.pool[i]? = some (.down w) ∧ (c.shared.tasks i).sleepLock = 0

/-- `done` is the number of completions minus that of successful waits. -/
def Counted (g : Shared) : Prop := g.done.toNat + g.succeeded = g.completed

instance (g : Shared) : Decidable (Counted g) := inferInstanceAs (Decidable (_ = _))

/-- The condition on the calls: `x->done++` does not wrap, and a wait with the timeout 0 finds no
completion. -/
def countable (c : Conf Shared Pc) (ia : Nat × Choice) : Bool :=
  match c.pool[ia.1]? with
  | some .completeInc => c.shared.done.toNat + 1 < 2 ^ 32
  | some (.waitTest w) => w.success || c.shared.done == 0
  | _ => true

/-! ## What a step can do -/

section
variable {i j : Nat} {g g' : Shared} {pc pc' : Pc} {a : Choice}

/-- The count changes by `x->done++` and `x->done--` only. -/
theorem step_done (hs : step j g pc a = some (g', pc')) :
    (g'.done = g.done ∧ g'.completed = g.completed ∧ g'.succeeded = g.succeeded) ∨
      (pc = .completeInc ∧ pc' = .wakeNext g.taskList ∧
        g' = { g with done := g.done + 1, completed := g.completed + 1 }) ∨
      ∃ w, pc = .dec w ∧ pc' = .outUnlock true w ∧
        g' = { g with done := g.done - 1, succeeded := g.succeeded + w.success.toNat } := by
  cases pc with
  | completeInc =>
      cases hs
      exact .inr (.inl ⟨rfl, rfl, rfl⟩)
  | dec w =>
      cases hs
      exact .inr (.inr ⟨w, rfl, rfl, rfl⟩)
  | idle =>
      cases a with
      | expire p =>
          simp only [step] at hs
          split at hs <;> cases hs
          exact .inl ⟨rfl, rfl, rfl⟩
      | _ => cases hs; exact .inl ⟨rfl, rfl, rfl⟩
  | wakeNext rest => cases rest <;> cases hs <;> exact .inl ⟨rfl, rfl, rfl⟩
  | waitUnlock w | againTest w => cases w <;> cases hs <;> exact .inl ⟨rfl, rfl, rfl⟩
  | _ =>
      simp only [step] at hs
      (try split at hs) <;> cases hs <;> exact .inl ⟨rfl, rfl, rfl⟩

/-- The queue changes by its threads' own entries. -/
theorem step_taskList (hs : step j g pc a = some (g', pc')) :
    g'.taskList = g.taskList ∨ (∃ w, pc = .waitAdd w ∧ g'.taskList = g.taskList ++ [j]) ∨
      ((∃ w, pc = .giveUp w ∨ pc = .remove w) ∧ g'.taskList = g.taskList.erase j) := by
  cases pc with
  | waitAdd w =>
      cases hs
      exact .inr (.inl ⟨w, rfl, rfl⟩)
  | giveUp w =>
      cases hs
      exact .inr (.inr ⟨⟨w, .inl rfl⟩, rfl⟩)
  | remove w =>
      cases hs
      exact .inr (.inr ⟨⟨w, .inr rfl⟩, rfl⟩)
  | idle =>
      cases a with
      | expire p =>
          simp only [step] at hs
          split at hs <;> cases hs
          exact .inl rfl
      | _ => cases hs; exact .inl rfl
  | wakeNext rest => cases rest <;> cases hs <;> exact .inl rfl
  | waitUnlock w | againTest w => cases w <;> cases hs <;> exact .inl rfl
  | _ =>
      simp only [step] at hs
      (try split at hs) <;> cases hs <;> exact .inl rfl

end

/-! ## The lock -/

/-- The lock is taken if and only if exactly one thread is in the critical section. -/
theorem total_inside {c : Conf Shared Pc} (h : initialised.Reachable c) :
    total inside c.pool = c.shared.lock.toNat := by
  refine Prog.balance (P := prog) inside (fun g n => n = g.lock.toNat) ?_ ?_ h
  · intro c hc
    have hzero : total inside c.pool = 0 := by
      apply total_eq_zero
      intro pc hpc
      rw [hc.2 pc hpc]
      rfl
    rw [hzero, hc.1.2.1]
    rfl
  · intro c i a pc g pc' r _ _ _ _ hs hb
    generalize c.shared = g₀ at hs hb
    cases pc with
    | completeLock | waitLock w | againLock w =>
        simp only [prog, step] at hs
        split at hs
        · cases hs
        · rename_i hfree
          cases hs
          rw [Bool.not_eq_true] at hfree
          rw [hfree] at hb
          simpa [inside] using hb
    | completeUnlock | outUnlock success w =>
        cases hs
        have hle : g₀.lock.toNat ≤ 1 := Bool.toNat_le _
        show r + 0 = 0
        change r + 1 = _ at hb
        omega
    | waitUnlock w =>
        have hle : g₀.lock.toNat ≤ 1 := Bool.toNat_le _
        change r + 1 = _ at hb
        cases w <;> cases hs <;> show r + 0 = 0 <;> omega
    | idle =>
        cases a with
        | expire p =>
            simp only [prog, step] at hs
            split at hs <;> cases hs
            exact hb
        | _ => cases hs; exact hb
    | wakeNext rest => cases rest <;> cases hs <;> exact hb
    | switch w | down w =>
        simp only [prog, step] at hs
        split at hs <;> cases hs <;> cases w <;> exact hb
    | againTest w =>
        cases w with
        | plain =>
            cases hs
            split <;> exact hb
        | timed arg timeout =>
            cases hs
            split
            · exact hb
            · split <;> exact hb
    | waitTest w =>
        cases hs
        split <;> exact hb
    | _ =>
        simp only [prog, step] at hs
        (try split at hs) <;> cases hs <;> exact hb

section
variable {c : Conf Shared Pc} {i : Nat} {g g' : Shared} {pc pc' : Pc} {a : Choice} {n m r : Nat}

/-- Two threads in the critical section are one. -/
theorem inside_unique (h : initialised.Reachable c) {i j : Nat} {p q : Pc} (hij : i ≠ j)
    (hp : c.pool[i]? = some p) (hq : c.pool[j]? = some q) (hpin : inside p = 1) : inside q = 0 := by
  have htwo := add_le_total inside hij hp hq
  have hone := total_inside h
  have hle : c.shared.lock.toNat ≤ 1 := Bool.toNat_le _
  omega

/-! ## What a waiter has found out about `done` still holds -/

/-- A waiter in the critical section that has found `done` zero. -/
def Pc.foundZero : Pc → Bool
  | .waitAdd _ | .waitState _ | .waitUnlock _ => true
  | _ => false

/-- One that has found it positive. -/
def Pc.foundPositive : Pc → Bool
  | .remove _ | .dec _ => true
  | _ => false

def Found (g : Shared) (pc : Pc) : Prop :=
  (pc.foundZero = true → g.done = 0) ∧ (pc.foundPositive = true → g.done ≠ 0)

/-- The test of `done`. -/
theorem found_test {z p : Pc} (hz : z.foundPositive = false) (hp : p.foundZero = false) :
    Found g (if g.done = 0 then z else p) := by
  by_cases hdone : g.done = 0
  · rw [if_pos hdone]
    exact ⟨fun _ => hdone, fun hpos => absurd hpos (by simp [hz])⟩
  · rw [if_neg hdone]
    exact ⟨fun hzero => absurd hzero (by simp [hp]), fun _ => hdone⟩

theorem step_found (hs : step i g pc a = some (g', pc')) (h : Found g pc) : Found g' pc' := by
  cases pc with
  | idle =>
      cases a with
      | expire p =>
          simp only [step] at hs
          split at hs <;> cases hs
          exact ⟨nofun, nofun⟩
      | _ => cases hs; exact ⟨nofun, nofun⟩
  | wakeNext rest => cases rest <;> cases hs <;> exact ⟨nofun, nofun⟩
  | waitTest w =>
      cases hs
      exact found_test rfl rfl
  | againTest w =>
      cases w with
      | plain =>
          cases hs
          exact found_test rfl rfl
      | timed arg timeout =>
          cases hs
          split
          · exact ⟨nofun, nofun⟩
          · exact found_test rfl rfl
  | waitAdd w | waitState w | remove w =>
      cases hs
      exact h
  | waitUnlock w => cases w <;> cases hs <;> exact ⟨nofun, nofun⟩
  | switch w | down w =>
      simp only [step] at hs
      split at hs <;> cases hs <;> cases w <;> exact ⟨nofun, nofun⟩
  | _ =>
      simp only [step] at hs
      (try split at hs) <;> cases hs <;> exact ⟨nofun, nofun⟩

theorem inside_of_found (h : pc.foundZero = true ∨ pc.foundPositive = true) : inside pc = 1 := by
  cases pc <;> first | rfl | (rcases h with h | h <;> cases h)

theorem found (h : initialised.Reachable c) :
    ∀ (i : Nat) (pc : Pc), c.pool[i]? = some pc → Found c.shared pc := by
  refine Prog.thread (P := prog) (fun _ g pc => Found g pc) ?_ ?_ ?_ h
  · intro c i pc hc hp
    rw [hc.2 pc (List.mem_of_getElem? hp)]
    exact ⟨nofun, nofun⟩
  · intro c i a pc g pc' _ _ _ hs hR
    exact step_found hs hR
  · intro c i j a p q g q' hreach _ hij hp hq hs hR
    -- nobody else is in the critical section to change `done`
    rcases step_done hs with ⟨hdone, -, -⟩ | ⟨rfl, -, -⟩ | ⟨w, rfl, -, -⟩
    · exact ⟨fun hz => hdone ▸ hR.1 hz, fun hpos => hdone ▸ hR.2 hpos⟩
    · refine ⟨fun hz => ?_, fun hpos => ?_⟩
      · exact absurd (inside_unique hreach hij hp hq (inside_of_found (.inl hz))) (by decide)
      · exact absurd (inside_unique hreach hij hp hq (inside_of_found (.inr hpos))) (by decide)
    · refine ⟨fun hz => ?_, fun hpos => ?_⟩
      · exact absurd (inside_unique hreach hij hp hq (inside_of_found (.inl hz))) Nat.one_ne_zero
      · exact absurd (inside_unique hreach hij hp hq (inside_of_found (.inr hpos))) Nat.one_ne_zero

/-! ## A waiter that sleeps is on the queue -/

/-- From the moment the entry is queued until it is taken off. -/
def Pc.queued : Pc → Bool
  | .waitState _ | .waitUnlock _ | .readJiffies _ _ | .addTimer _ _ | .switch _ | .down _
  | .delTimer _ _ | .remaining _ _ | .againLock _ | .againTest _ | .giveUp _ | .remove _ => true
  | _ => false

theorem step_to_queued (hs : step i g pc a = some (g', pc')) (hq : pc'.queued = true) :
    (∃ w, pc = .waitAdd w) ∨
      pc.queued = true ∧ (∀ w, pc ≠ .giveUp w) ∧ (∀ w, pc ≠ .remove w) := by
  cases pc with
  | waitAdd w => exact .inl ⟨w, rfl⟩
  | giveUp w | remove w =>
      cases hs
      cases hq
  | waitState w | waitUnlock w | readJiffies arg timeout | addTimer arg expire | switch w | down w
  | delTimer arg expire | remaining arg expire | againLock w | againTest w =>
      exact .inr ⟨rfl, nofun, nofun⟩
  | idle =>
      cases a with
      | expire p =>
          simp only [step] at hs
          split at hs <;> cases hs
          cases hq
      | _ => cases hs; cases hq
  | wakeNext rest => cases rest <;> cases hs <;> cases hq
  | waitTest w =>
      cases hs
      split at hq <;> cases hq
  | _ =>
      simp only [step] at hs
      (try split at hs) <;> cases hs <;> cases hq

theorem queued_mem (h : initialised.Reachable c) :
    ∀ (i : Nat) (pc : Pc), c.pool[i]? = some pc → pc.queued = true → i ∈ c.shared.taskList := by
  refine Prog.thread (P := prog) (fun i g pc => pc.queued = true → i ∈ g.taskList) ?_ ?_ ?_ h
  · intro c i pc hc hp hq
    rw [hc.2 pc (List.mem_of_getElem? hp)] at hq
    cases hq
  · intro c i a pc g pc' _ _ _ hs hR hq
    rcases step_to_queued hs hq with ⟨w, rfl⟩ | ⟨hold, hgive, hremove⟩
    · cases hs
      exact List.mem_append_right _ (List.mem_singleton.mpr rfl)
    · rcases step_taskList hs with hsame | ⟨w, rfl, -⟩ | ⟨⟨w, rfl | rfl⟩, -⟩
      · rw [hsame]
        exact hR hold
      · cases hold
      · exact absurd rfl (hgive w)
      · exact absurd rfl (hremove w)
  · intro c i j a pc q g q' _ _ hij _ _ hs hR hq
    rcases step_taskList hs with hsame | ⟨w, -, hadd⟩ | ⟨-, hdel⟩
    · rw [hsame]
      exact hR hq
    · rw [hadd]
      exact List.mem_append_left _ (hR hq)
    · rw [hdel]
      exact (List.mem_erase_of_ne hij).mpr (hR hq)

/-! ## No waiter sleeps through a completion -/

/-- A thread in `complete` that will raise the semaphore of `i` weighs one. -/
def willWake (i : Nat) : Pc → Nat
  | .wakeNext rest => if i ∈ rest then 1 else 0
  | .wakeStore p rest | .wakeUp p rest => if i ∈ p :: rest then 1 else 0
  | _ => 0

/-- The sleep of thread `i` is covered, `n` completions being on their way to it: if `done` is
positive, there is a token for it or there will be. -/
def Covered (i : Nat) (g : Shared) (n : Nat) : Prop :=
  g.done ≠ 0 → 0 < (g.tasks i).sleepLock ∨ 0 < n

theorem Covered.frame (h : Covered i g n) (hd : g'.done = g.done)
    (ht : (g'.tasks i).sleepLock = (g.tasks i).sleepLock) (hm : m = n) : Covered i g' m := by
  subst hm
  intro hdone
  rw [ht]
  exact h (hd ▸ hdone)

theorem Covered.token {n : Nat} (h : 0 < (g.tasks i).sleepLock) : Covered i g n :=
  fun _ => .inl h

/-- Raising a semaphore takes no token from anybody. -/
theorem Covered.semUp {i p : Nat} (h : Covered i g n) (hm : i ≠ p → m = n) :
    Covered i { g with tasks := Sched.semUp g.tasks p } m := by
  by_cases hp : i = p
  · subst hp
    exact .token (by simp)
  · exact h.frame rfl (congrArg _ (semUp_ne _ _ _ hp)) (hm hp)

/-- A step of another thread keeps the sleep of a queued thread covered. -/
theorem step_covered {i j : Nat} (hij : i ≠ j) (hmem : i ∈ g.taskList) (hfound : Found g pc)
    (hs : step j g pc a = some (g', pc')) (h : Covered i g (r + willWake i pc)) :
    Covered i g' (r + willWake i pc') := by
  cases pc with
  | completeInc =>
      -- the walk starts from a queue that has `i` on it
      cases hs
      intro _
      refine .inr ?_
      simp only [willWake, if_pos hmem]
      omega
  | wakeNext rest =>
      cases rest <;> cases hs
      · exact h.frame rfl rfl (by simp [willWake])
      · exact h.frame rfl rfl rfl
  | wakeStore p rest =>
      cases hs
      exact h.frame rfl (setTaskState_sleepLock _ _ _ _) rfl
  | wakeUp p rest =>
      cases hs
      exact h.semUp (fun hp => by simp [willWake, hp, tryToWakeUpResult])
  | expireStore p =>
      cases hs
      exact h.frame rfl (setTaskState_sleepLock _ _ _ _) rfl
  | expireUp p =>
      cases hs
      exact h.semUp (fun _ => rfl)
  | dec w =>
      cases hs
      intro _
      exact h (hfound.2 rfl)
  | down w =>
      simp only [step] at hs
      split at hs
      · cases hs
      · rename_i ts hd
        cases hs
        exact h.frame rfl (congrArg _ ((semDown_some hd).2.2 i hij)) (by cases w <;> rfl)
  | waitState w =>
      cases hs
      exact h.frame rfl (setTaskState_sleepLock _ _ _ _) rfl
  | idle =>
      cases a with
      | expire p =>
          simp only [step] at hs
          split at hs <;> cases hs
          exact h.frame rfl rfl rfl
      | _ => cases hs; exact h.frame rfl rfl rfl
  | switch w =>
      simp only [step] at hs
      split at hs <;> cases hs <;> exact h.frame rfl rfl (by cases w <;> rfl)
  | waitTest w =>
      cases hs
      split <;> exact h.frame rfl rfl rfl
  | waitUnlock w => cases w <;> cases hs <;> exact h.frame rfl rfl rfl
  | againTest w =>
      cases w with
      | plain =>
          cases hs
          split <;> exact h.frame rfl rfl rfl
      | timed arg timeout =>
          cases hs
          split
          · exact h.frame rfl rfl rfl
          · split <;> exact h.frame rfl rfl rfl
  | _ =>
      simp only [step] at hs
      (try split at hs) <;> cases hs <;> exact h.frame rfl rfl rfl

/-- A waiter that has found `done` zero, left the critical section, and is on its way to
`dde_kit_sem_down` or in it. -/
def Pc.asleep : Pc → Bool
  | .readJiffies _ _ | .addTimer _ _ | .switch _ | .down _ => true
  | _ => false

theorem Pc.queued_of_asleep (h : pc.asleep = true) : pc.queued = true := by
  cases pc <;> first | rfl | cases h

/-- A thread falls asleep by leaving the critical section with `done` zero, or goes on
sleeping. -/
theorem step_to_asleep (hs : step i g pc a = some (g', pc')) (ha : pc'.asleep = true) :
    g'.done = g.done ∧ g'.tasks = g.tasks ∧ willWake i pc' = willWake i pc ∧
      (pc.foundZero = true ∨ pc.asleep = true) := by
  cases pc with
  | waitUnlock w => cases w <;> cases hs <;> exact ⟨rfl, rfl, rfl, .inl rfl⟩
  | readJiffies arg timeout | addTimer arg expire =>
      cases hs
      exact ⟨rfl, rfl, rfl, .inr rfl⟩
  | switch w =>
      simp only [step] at hs
      split at hs <;> cases hs
      · cases w <;> cases ha
      · exact ⟨rfl, rfl, rfl, .inr rfl⟩
      · cases ha
  | down w =>
      simp only [step] at hs
      split at hs <;> cases hs
      cases w <;> cases ha
  | idle =>
      cases a with
      | expire p =>
          simp only [step] at hs
          split at hs <;> cases hs
          cases ha
      | _ => cases hs; cases ha
  | wakeNext rest => cases rest <;> cases hs <;> cases ha
  | wakeUp p rest => cases hs; cases ha
  | waitTest w =>
      cases hs
      split at ha <;> cases ha
  | againTest w =>
      cases w with
      | plain =>
          cases hs
          split at ha <;> cases ha
      | timed arg timeout =>
          cases hs
          split at ha
          · cases ha
          · split at ha <;> cases ha
  | _ =>
      simp only [step] at hs
      (try split at hs) <;> cases hs <;> cases ha

theorem asleep_covered (h : initialised.Reachable c) (i : Nat) :
    ∀ pc : Pc, c.pool[i]? = some pc → pc.asleep = true →
      Covered i c.shared (total (willWake i) c.pool) := by
  refine Prog.watch (P := prog) i (willWake i)
    (fun g pc n => pc.asleep = true → Covered i g n) ?_ ?_ ?_ h
  · intro c pc hc hp ha
    rw [hc.2 pc (List.mem_of_getElem? hp)] at ha
    cases ha
  · intro c a pc g pc' r hreach _ hp hs hS ha
    obtain ⟨hdone, htasks, hw, hzero | hbefore⟩ := step_to_asleep hs ha
    · intro hpos
      exact absurd ((found hreach i pc hp).1 hzero) (hdone ▸ hpos)
    · exact (hS hbefore).frame hdone (by rw [htasks]) (by rw [hw])
  · intro c j a pc q g q' r hreach _ hij hp hq hs hS ha
    exact step_covered hij (queued_mem hreach i pc hp (Pc.queued_of_asleep ha))
      (found hreach j q hq) hs (hS ha)

/-- Outside the critical section nobody is on the way to a waiter. -/
theorem willWake_of_outside (h : inside pc = 0) : willWake i pc = 0 := by
  cases pc <;> first | rfl | cases h

theorem not_stuck (h : initialised.Reachable c) (i : Nat) : ¬ Stuck c i := by
  rintro ⟨hdone, houtside, w, hp, hzero⟩
  have hnone : total (willWake i) c.pool = 0 :=
    total_eq_zero (fun pc hpc => willWake_of_outside (houtside pc hpc))
  rcases asleep_covered h i _ hp rfl hdone with htoken | hwaker
  · omega
  · omega

/-! ## What a wait returns -/

/-- The thread is in a wait that has done `x->done--`, or is about to; or it has given up. -/
def Pc.outcome : Pc → Option (Bool × Wait)
  | .remove w | .dec w => some (true, w)
  | .giveUp w => some (false, w)
  | .outUnlock success w | .returned success w => some (success, w)
  | _ => none

/-- A wait tells by its return value whether it was successful. -/
def Pc.Tells (pc : Pc) : Prop := ∀ success w, pc.outcome = some (success, w) → w.success = success

theorem tells_of_none (h : pc.outcome = none) : pc.Tells := by
  intro success w hout
  rw [h] at hout
  cases hout

theorem step_tells (h : pc.Tells) (htest : ∀ w, pc = .waitTest w → g.done ≠ 0 → w.success = true)
    (hs : step i g pc a = some (g', pc')) : pc'.Tells := by
  cases pc with
  | waitTest w =>
      cases hs
      split
      · exact tells_of_none rfl
      · rename_i hdone
        intro success w' hout
        cases hout
        exact htest w rfl hdone
  | againTest w =>
      cases w with
      | plain =>
          cases hs
          split
          · exact tells_of_none rfl
          · intro success w' hout
            cases hout
            rfl
      | timed arg timeout =>
          cases hs
          split
          · rename_i hzero
            intro success w' hout
            cases hout
            rw [Wait.success, hzero]
            rfl
          · rename_i hleft
            split
            · exact tells_of_none rfl
            · intro success w' hout
              cases hout
              exact bne_iff_ne.mpr hleft
  | remove w | dec w | giveUp w | outUnlock success w =>
      cases hs
      exact h
  | idle =>
      cases a with
      | expire p =>
          simp only [step] at hs
          split at hs <;> cases hs
          exact tells_of_none rfl
      | _ => cases hs; exact tells_of_none rfl
  | wakeNext rest => cases rest <;> cases hs <;> exact tells_of_none rfl
  | waitUnlock w => cases w <;> cases hs <;> exact tells_of_none rfl
  | switch w | down w =>
      simp only [step] at hs
      split at hs <;> cases hs <;> cases w <;> exact tells_of_none rfl
  | _ =>
      simp only [step] at hs
      (try split at hs) <;> cases hs <;> exact tells_of_none rfl

theorem tells (h : initialised.Reach (countable · ·) c) :
    ∀ (i : Nat) (pc : Pc), c.pool[i]? = some pc → pc.Tells := by
  refine Prog.thread (P := prog) (fun _ _ pc => pc.Tells) ?_ ?_ ?_ h
  · intro c i pc hc hp
    rw [hc.2 pc (List.mem_of_getElem? hp)]
    exact tells_of_none rfl
  · intro c i a pc g pc' _ hok hp hs hR
    refine step_tells hR ?_ hs
    rintro w rfl hdone
    simp only [countable, hp, Bool.or_eq_true, beq_iff_eq] at hok
    exact hok.resolve_right hdone
  · intro c i j a pc q g q' _ _ _ _ _ _ hR
    exact hR

/-! ## The count -/

theorem counted (h : initialised.Reach (countable · ·) c) : Counted c.shared := by
  refine Prog.always (P := prog) Counted ?_ ?_ h
  · rintro c ⟨⟨hdone, -, -, hcomp, hsucc⟩, -⟩
    rw [Counted, hdone, hcomp, hsucc]
    rfl
  · intro c i a pc g pc' hreach hok hp hs hI
    rcases step_done hs with ⟨hdone, hcomp, hsucc⟩ | ⟨rfl, -, rfl⟩ | ⟨w, rfl, -, rfl⟩
    · rw [Counted, hdone, hcomp, hsucc]
      exact hI
    · simp only [countable, hp, decide_eq_true_eq] at hok
      have hinc : (c.shared.done + 1).toNat = c.shared.done.toNat + 1 := by
        rw [BitVec.toNat_add]
        exact Nat.mod_eq_of_lt hok
      simp only [Counted, hinc] at hI ⊢
      omega
    · -- the waiter has found `done` positive, and says so
      have hpos : c.shared.done ≠ 0 := (found hreach.reachable i _ hp).2 rfl
      have hne : c.shared.done.toNat ≠ 0 := fun hz => hpos (BitVec.eq_of_toNat_eq hz)
      have htells : w.success = true := tells hreach i _ hp true w rfl
      have hdec : (c.shared.done - 1).toNat = c.shared.done.toNat - 1 := by
        rw [BitVec.toNat_sub]
        have hlt := c.shared.done.isLt
        show (2 ^ 32 - 1 + c.shared.done.toNat) % 2 ^ 32 = _
        omega
      simp only [Counted, hdec, htells, Bool.toNat_true] at hI ⊢
      omega

end

/-! ## On any lock -/

/-- The code on a lock that is initialised when it is used, or has been before. -/
def locking : LazyLock.Locking Shared Pc Choice where
  prog := prog
  taken := Shared.lock
  setTaken g b := { g with lock := b }
  calls
    | .completeLock | .completeUnlock | .waitLock _ | .waitUnlock _ | .againLock _
    | .outUnlock _ _ => true
    | _ => false
  holds := inside
  setTaken_self _ := rfl
  total_holds _ := total_inside

def machine : Machine (Conf (LazyLock.Lazy Shared) (LazyLock.Thread Pc)) (Nat × Choice) :=
  locking.machine

/-- **Completions count and wake.**  Whatever the interleaving of completions, waits, timeouts
and expiring timers, and whatever tokens were left in the semaphores: as long as the lock is not
re-initialised under a holder, `x->done++` does not wrap and no wait with the timeout 0 finds a
completion, `done` is the number of completions minus the number of waits that return as
successful, and while it is positive and nobody is in the critical section no waiter hangs in
`dde_kit_sem_down` with its semaphore at zero. -/
theorem completion_counts_and_wakes {c : Conf (LazyLock.Lazy Shared) (LazyLock.Thread Pc)}
    (h : machine.Reach (locking.keeps (countable · ·)) c) :
    Counted c.shared.base ∧ (∀ i, ¬ Stuck (LazyLock.base c) i) ∧
      ∀ (i : Nat) success w, (LazyLock.base c).pool[i]? = some (.returned success w) →
        w.success = success := by
  have hbase := LazyLock.Locking.reach_base h
  exact ⟨counted hbase, not_stuck hbase.reachable,
    fun i success w hp => tells hbase i _ hp success w rfl⟩

/-- A completion, by `DECLARE_COMPLETION` or by `init_completion`. -/
def completion (needInit : Bool) : LazyLock.Lazy Shared :=
  ⟨⟨0, false, [], fun _ => ⟨.running, 0⟩, 0, fun _ => false, 0, 0⟩, needInit⟩

/-- A thread that has not called anything yet. -/
def fresh : LazyLock.Thread Pc := ⟨.idle, .test⟩

/-- A completion declared by `DECLARE_COMPLETION`: thread 0 falls asleep, is completed by thread 1,
and returns; thread 2 waits for a second completion. -/
theorem completion_counts_and_wakes_once :
    ∃ c, machine.Reach (locking.keeps (countable · ·)) c ∧
      c.pool.map (·.pc) = [.returned true .plain, .idle, .down (.timed 10 10)] ∧
      c.shared.base.completed = 1 ∧ Counted c.shared.base ∧
      (∀ i, ¬ Stuck (LazyLock.base c) i) ∧
      ∀ (i : Nat) success w, (LazyLock.base c).pool[i]? = some (.returned success w) →
        w.success = success := by
  have hinit : machine.Reach (locking.keeps (countable · ·))
      ⟨completion true, [fresh, fresh, fresh]⟩ :=
    .init ⟨⟨rfl, rfl, rfl, rfl, rfl⟩, by simp [LazyLock.Locking.lazy, locking, prog, fresh]⟩
  have hrun : (machine.runOk (locking.keeps (countable · ·))
      ⟨completion true, [fresh, fresh, fresh]⟩
      (List.flatten [List.replicate 11 (0, .waitForCompletion), List.replicate 10 (1, .complete),
        List.replicate 8 (0, .tick),
        List.replicate 11 (2, .waitForCompletionTimeout 10)])).map
      (fun c => (c.pool.map (·.pc), c.shared.base.completed)) =
      some ([.returned true .plain, .idle, .down (.timed 10 10)], 1) := by
    decide
  obtain ⟨c, hc, hat⟩ := Option.map_eq_some_iff.mp hrun
  obtain ⟨hpool, hcomp⟩ := Prod.mk.inj hat
  have hreach := hinit.runOk _ hc
  exact ⟨c, hreach, hpool, hcomp, completion_counts_and_wakes hreach⟩

/-- **A completion is lost.**  Thread 0 completes; thread 1 waits with the timeout 0, finds the
completion, takes it, and returns 0, as if it had given up: one completion, no successful wait, and
`done` is zero. -/
theorem timeout_zero_loses :
    ∃ c, machine.Reachable c ∧
      c.pool.map (·.pc) = [.idle, .returned true (.timed 0 0)] ∧
      c.shared.base.completed = 1 ∧ c.shared.base.succeeded = 0 ∧ c.shared.base.done = 0 ∧
      ¬ Counted c.shared.base := by
  have hinit : machine.Reachable ⟨completion false, [fresh, fresh]⟩ :=
    .init ⟨⟨rfl, rfl, rfl, rfl, rfl⟩, by simp [LazyLock.Locking.lazy, locking, prog, fresh]⟩
  have hrun : (machine.run ⟨completion false, [fresh, fresh]⟩
      (List.replicate 7 (0, .complete) ++ List.replicate 7 (1, .waitForCompletionTimeout 0))).map
      (fun c => (c.pool.map (·.pc), c.shared.base.completed, c.shared.base.succeeded,
        c.shared.base.done)) =
      some ([.idle, .returned true (.timed 0 0)], 1, 0, 0) := by
    decide
  obtain ⟨c, hc, hat⟩ := Option.map_eq_some_iff.mp hrun
  simp only [Prod.mk.injEq] at hat
  obtain ⟨hpool, hcomp, hsucc, hdone⟩ := hat
  refine ⟨c, hinit.run _ hc, hpool, hcomp, hsucc, hdone, ?_⟩
  rw [Counted, hcomp, hsucc, hdone]
  decide

/-! ## For code that uses completions

What one access does, whatever the rest of the program is. -/

/-- The tasks that a thread is going to wake. -/
def Pc.entries : Pc → List Nat
  | .wakeNext rest => rest
  | .wakeStore p rest | .wakeUp p rest => p :: rest
  | .expireStore p | .expireUp p => [p]
  | _ => []

/-- In `complete`. -/
def Pc.completing : Pc → Bool
  | .completeLock | .completeInc | .wakeNext _ | .wakeStore _ _ | .wakeUp _ _
  | .completeUnlock => true
  | _ => false

/-- In `wait_for_completion`, or just back from it. -/
def Pc.waiting : Pc → Bool
  | .waitLock .plain | .waitTest .plain | .waitAdd .plain | .waitState .plain
  | .waitUnlock .plain | .switch .plain | .down .plain | .againLock .plain | .againTest .plain
  | .remove .plain | .dec .plain | .outUnlock true .plain | .returned true .plain
  | .panicked => true
  | _ => false

/-- A wait that has found `done` positive. -/
def Pc.past : Pc → Bool
  | .remove _ | .dec _ | .outUnlock true _ | .returned true _ => true
  | _ => false

section
variable {i p : Nat} {g g' : Shared} {pc pc' : Pc}

theorem step_completing (hs : step i g pc .tick = some (g', pc')) (h : pc.completing = true) :
    pc'.completing = true ∨ pc' = .idle := by
  cases pc with
  | completeUnlock =>
      cases hs
      exact .inr rfl
  | wakeNext rest => cases rest <;> cases hs <;> exact .inl rfl
  | completeLock =>
      simp only [step] at hs
      split at hs <;> cases hs
      exact .inl rfl
  | completeInc | wakeStore q rest | wakeUp q rest =>
      cases hs
      exact .inl rfl
  | _ => cases h

theorem step_waiting (hs : step i g pc .tick = some (g', pc')) (h : pc.waiting = true)
    (hret : pc ≠ .returned true .plain) : pc'.waiting = true := by
  cases pc with
  | waitLock w | againLock w =>
      cases w <;> cases h
      simp only [step] at hs
      split at hs <;> cases hs
      rfl
  | waitTest w | againTest w =>
      cases w <;> cases h
      cases hs
      split <;> rfl
  | switch w | down w =>
      cases w <;> cases h
      simp only [step] at hs
      split at hs <;> cases hs <;> rfl
  | waitAdd w | waitState w | waitUnlock w | remove w | dec w =>
      cases w <;> cases h
      cases hs
      rfl
  | outUnlock success w =>
      cases w <;> cases success <;> cases h
      cases hs
      rfl
  | returned success w =>
      cases w <;> cases success <;> cases h
      exact absurd rfl hret
  | panicked => cases hs
  | _ => cases h

/-- A wait goes past the test only with `done` positive. -/
theorem step_past (hs : step i g pc .tick = some (g', pc')) (h : pc'.past = true) :
    pc.past = true ∨ g.done ≠ 0 := by
  cases pc with
  | waitTest w =>
      cases hs
      split at h
      · cases h
      · rename_i hdone
        exact .inr hdone
  | againTest w =>
      cases w with
      | plain =>
          cases hs
          split at h
          · cases h
          · rename_i hdone
            exact .inr hdone
      | timed arg timeout =>
          cases hs
          split at h
          · cases h
          · split at h
            · cases h
            · rename_i hdone
              exact .inr hdone
  | remove w | dec w => exact .inl rfl
  | outUnlock success w =>
      cases hs
      cases success with
      | true => exact .inl rfl
      | false => cases h
  | wakeNext rest => cases rest <;> cases hs <;> cases h
  | waitUnlock w => cases w <;> cases hs <;> cases h
  | switch w | down w =>
      simp only [step] at hs
      split at hs <;> cases hs <;> cases w <;> cases h
  | _ =>
      simp only [step] at hs
      (try split at hs) <;> cases hs <;> cases h

/-- A thread is going to wake those that were on the queue when it incremented `done`. -/
theorem step_entries (hs : step i g pc .tick = some (g', pc')) (h : p ∈ pc'.entries) :
    p ∈ pc.entries ∨ p ∈ g.taskList := by
  cases pc with
  | completeInc =>
      cases hs
      exact .inr h
  | wakeNext rest =>
      cases rest <;> cases hs
      · cases h
      · exact .inl h
  | wakeStore q rest =>
      cases hs
      exact .inl h
  | wakeUp q rest =>
      cases hs
      exact .inl (List.mem_cons_of_mem _ h)
  | expireStore q =>
      cases hs
      exact .inl h
  | waitTest w =>
      cases hs
      split at h <;> cases h
  | againTest w =>
      cases w <;> cases hs <;> (repeat' split at h) <;> cases h
  | waitUnlock w => cases w <;> cases hs <;> cases h
  | switch w | down w =>
      simp only [step] at hs
      split at hs <;> cases hs <;> cases w <;> cases h
  | _ =>
      simp only [step] at hs
      (try split at hs) <;> cases hs <;> cases h

/-- It changes the tasks it wakes and, in a wait, its own. -/
theorem step_task (hs : step i g pc .tick = some (g', pc')) (hown : p ≠ i ∨ pc.completing = true)
    (h : p ∉ pc.entries) : g'.tasks p = g.tasks p := by
  cases pc with
  | wakeStore q rest =>
      cases hs
      exact setTaskState_ne _ _ _ _ (List.ne_of_not_mem_cons h)
  | wakeUp q rest =>
      cases hs
      exact semUp_ne _ _ _ (List.ne_of_not_mem_cons h)
  | expireStore q =>
      cases hs
      exact setTaskState_ne _ _ _ _ (List.ne_of_not_mem_cons h)
  | expireUp q =>
      cases hs
      exact semUp_ne _ _ _ (List.ne_of_not_mem_cons h)
  | waitState w =>
      cases hs
      exact setTaskState_ne _ _ _ _ (hown.resolve_right nofun)
  | down w =>
      simp only [step] at hs
      split at hs
      · cases hs
      · rename_i ts hd
        cases hs
        exact (semDown_some hd).2.2 p (hown.resolve_right nofun)
  | wakeNext rest => cases rest <;> cases hs <;> rfl
  | waitUnlock w | againTest w => cases w <;> cases hs <;> rfl
  | _ =>
      simp only [step] at hs
      (try split at hs) <;> cases hs <;> rfl

end

end LinuxDrivers.Kernel.Completion
