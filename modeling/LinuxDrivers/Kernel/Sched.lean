/-
# `LinuxDrivers.Kernel.Sched` — sleeping and waking on the DDE kit

`sched.c` keeps Linux' two-part protocol for sleeping, a task state and a call of
`schedule()`, but sleeps on a counting semaphore, one per task:

    schedule():          state RUNNING                  yield
                         INTERRUPTIBLE, UNINTERRUPTIBLE  down(sleep_lock)
                         any other                      panic
    try_to_wake_up(p):   p->state = RUNNING;  up(p's sleep_lock);  return 0

A wake-up sent to a task that is not asleep leaves its token in the semaphore,
and the next sleep takes it.  So `schedule()` can return although nobody has
woken the task since it set its state, and then with the state still set.

`prog` has any number of tasks that set their state, sleep with and without a
timeout and wake one another, one access at a time.  Besides the state of the
code it carries a history per task: whether the task's own last store of its state
was a sleeping one, and whether a wake-up was issued since.

**Proved here.**

    a run in which `schedule()` returns without any wake-up              (`schedule_stale_token`)
    tasks go to sleep only with an empty semaphore and no wake-up of
    theirs half done  ⟹  `schedule()` never returns spuriously          (`schedule_returns_woken`)
-/
import LinuxDrivers.Basic
import LinuxDrivers.Lib.Interleave

namespace LinuxDrivers.Kernel.Sched

open LinuxDrivers.Lib

/-! ## Tasks -/

/-- The `TASK_*` values of `sched.h`. -/
inductive TaskState where
  | running
  | interruptible
  | uninterruptible
  | stopped
  | traced
  | nonInteractive
  | dead
  deriving DecidableEq, Repr

/-- The states in which `schedule()` goes to sleep. -/
def TaskState.sleeps : TaskState → Bool
  | .interruptible | .uninterruptible => true
  | _ => false

/-- What the scheduler keeps per task: the state and the value of the sleep
semaphore. -/
structure TaskStruct where
  state : TaskState
  sleepLock : Nat
  deriving DecidableEq, Repr

/-- The tasks by the index of their thread. -/
abbrev Tasks := Nat → TaskStruct

def setTaskState (ts : Tasks) (p : Nat) (st : TaskState) : Tasks :=
  Function.update ts p { ts p with state := st }

/-- `dde_kit_sem_up(SLEEP_LOCK(t))` -/
def semUp (ts : Tasks) (p : Nat) : Tasks :=
  Function.update ts p { ts p with sleepLock := (ts p).sleepLock + 1 }

/-- `dde_kit_sem_down(SLEEP_LOCK(t))`; `none` while the semaphore is at zero. -/
def semDown (ts : Tasks) (p : Nat) : Option Tasks :=
  match (ts p).sleepLock with
  | 0 => none
  | n + 1 => some (Function.update ts p { ts p with sleepLock := n })

/-- What `schedule()` does, by the state it reads. -/
inductive Switch where
  | yield
  | down
  | panic
  deriving DecidableEq, Repr

def schedule : TaskState → Switch
  | .running => .yield
  | .interruptible | .uninterruptible => .down
  | _ => .panic

/-- `try_to_wake_up` always answers 0, "not woken"; its `state` and `sync`
arguments are not used. -/
def tryToWakeUpResult : Int := 0

section
variable (ts : Tasks) (p q : Nat)

@[simp] theorem setTaskState_same (st : TaskState) :
    setTaskState ts p st p = { ts p with state := st } := by
  simp [setTaskState]

theorem setTaskState_ne (st : TaskState) (h : q ≠ p) : setTaskState ts p st q = ts q := by
  simp [setTaskState, h]

@[simp] theorem semUp_same : semUp ts p p = { ts p with sleepLock := (ts p).sleepLock + 1 } := by
  simp [semUp]

theorem semUp_ne (h : q ≠ p) : semUp ts p q = ts q := by
  simp [semUp, h]

end

/-- Storing a state leaves the semaphores alone. -/
theorem setTaskState_sleepLock (ts : Tasks) (p q : Nat) (st : TaskState) :
    (setTaskState ts p st q).sleepLock = (ts q).sleepLock := by
  by_cases hq : q = p
  · subst hq
    simp
  · rw [setTaskState_ne _ _ _ _ hq]

/-- Unpacking a successful down. -/
theorem semDown_some {ts ts' : Tasks} {p : Nat} (h : semDown ts p = some ts') :
    (ts p).sleepLock = (ts' p).sleepLock + 1 ∧ (ts' p).state = (ts p).state ∧
      ∀ q, q ≠ p → ts' q = ts q := by
  simp only [semDown] at h
  split at h
  · cases h
  · rename_i n hn
    cases h
    refine ⟨by simp [hn], by simp, fun q hq => by simp [hq]⟩

/-! ## Tasks that sleep and wake one another -/

/-- Who called `schedule()`: the task's own code, or `schedule_timeout`, which
keeps the value of `jiffies` at which to stop. -/
inductive Cont where
  | plain
  | timeout (expire : Word)
  deriving DecidableEq, Repr

/-- Where a thread stands. -/
inductive Pc where
  | run
  /-- `schedule_timeout`: about to `add_timer` -/
  | addTimer (expire : Word)
  /-- in `schedule()`: about to read `current->state` -/
  | switch (k : Cont)
  /-- in `schedule()`: in `dde_kit_sem_down` -/
  | down (k : Cont)
  /-- `schedule()` has returned -/
  | returned (k : Cont)
  /-- `schedule_timeout`: about to `del_timer` -/
  | delTimer (expire : Word)
  /-- `schedule_timeout` has returned this many jiffies -/
  | remaining (timeout : Int)
  /-- in `try_to_wake_up(p)`: about to store `TASK_RUNNING` -/
  | wakeStore (p : Nat)
  /-- in `try_to_wake_up(p)`: about to raise the semaphore -/
  | wakeUp (p : Nat)
  | panicked
  deriving DecidableEq, Repr

/-- The history of one task. -/
structure Hist where
  /-- the task's own last store of its state was a sleeping one -/
  setAsleep : Bool
  /-- a wake-up has stored `TASK_RUNNING` since then -/
  woken : Bool
  deriving DecidableEq, Repr

structure Shared where
  tasks : Tasks
  jiffies : Word
  /-- the pending `schedule_timeout` timer of each task, with its expiry -/
  timers : Nat → Option Word
  hist : Nat → Hist

/-- What a thread's own code does next. -/
inductive Choice where
  | setCurrentState (st : TaskState)
  | schedule
  | scheduleTimeout (timeout : Word)
  | wakeUpProcess (p : Nat)
  /-- the timer thread runs `process_timeout` for the timer of task `p` -/
  | expire (p : Nat)
  /-- the clock advances -/
  | tick
  deriving DecidableEq, Repr

/-- One access of thread `i`, which runs task `i`. -/
def step (i : Nat) (g : Shared) (pc : Pc) (a : Choice) : Option (Shared × Pc) :=
  match pc with
  | .run =>
      match a with
      | .setCurrentState st =>
          some ({ g with tasks := setTaskState g.tasks i st
                         hist := Function.update g.hist i ⟨st.sleeps, false⟩ }, .run)
      | .schedule => some (g, .switch .plain)
      | .scheduleTimeout timeout => some (g, .addTimer (timeout + g.jiffies))
      | .wakeUpProcess p => some (g, .wakeStore p)
      | .expire p =>
          match g.timers p with
          | none => none
          | some _ => some ({ g with timers := Function.update g.timers p none }, .wakeStore p)
      | .tick => some ({ g with jiffies := g.jiffies + 1 }, .run)
  | .addTimer expire =>
      some ({ g with timers := Function.update g.timers i (some expire) }, .switch (.timeout expire))
  | .switch k =>
      match Sched.schedule (g.tasks i).state with
      | .yield => some (g, .returned k)
      | .down => some (g, .down k)
      | .panic => some (g, .panicked)
  | .down k =>
      match semDown g.tasks i with
      | none => none
      | some ts => some ({ g with tasks := ts }, .returned k)
  | .returned .plain => some (g, .run)
  | .returned (.timeout expire) => some (g, .delTimer expire)
  | .delTimer expire =>
      -- `schedule_timeout` drops the answer of `del_timer`
      let left := intOfWord (expire - g.jiffies)
      some ({ g with timers := Function.update g.timers i none },
        .remaining (if left < 0 then 0 else left))
  | .remaining _ => some (g, .run)
  | .wakeStore p =>
      some ({ g with tasks := setTaskState g.tasks p .running
                     hist := Function.update g.hist p { g.hist p with woken := true } }, .wakeUp p)
  | .wakeUp p => some ({ g with tasks := semUp g.tasks p }, .run)
  | .panicked => none

/-- Tasks start running, with any tokens in their semaphores. -/
def prog : Prog Shared Pc Choice where
  init g := ∀ i, (g.tasks i).state = .running ∧ g.timers i = none ∧ g.hist i = ⟨false, false⟩
  start pc := pc = .run
  step := step

def machine : Machine (Conf Shared Pc) (Nat × Choice) := prog.machine

/-- Whenever `schedule()` has returned to a task that had put itself to sleep, a
wake-up of the task was issued since then and the task is `TASK_RUNNING`. -/
def NoSpuriousReturn (c : Conf Shared Pc) : Prop :=
  ∀ (i : Nat) (k : Cont), c.pool[i]? = some (.returned k) →
    (c.shared.hist i).setAsleep = true →
    (c.shared.hist i).woken = true ∧ (c.shared.tasks i).state = .running

/-- The condition: a task sets a sleeping state only with an empty sleep
semaphore and while no wake-up of it is between its two accesses. -/
def cleanSleep (c : Conf Shared Pc) (ia : Nat × Choice) : Bool :=
  match c.pool[ia.1]?, ia.2 with
  | some .run, .setCurrentState st =>
      !st.sleeps ||
        ((c.shared.tasks ia.1).sleepLock == 0 && c.pool.all (· != .wakeUp ia.1))
  | _, _ => true

/-! ## The invariant -/

/-- How the history of task `q` shows in its state, `n` threads being about to
raise its semaphore: not woken, it is still asleep and nothing can let it go;
woken, it is running. -/
structure Accounted (q : Nat) (g : Shared) (n : Nat) : Prop where
  asleep : (g.hist q).setAsleep = true → (g.hist q).woken = false →
    (g.tasks q).state.sleeps = true ∧ (g.tasks q).sleepLock = 0 ∧ n = 0
  woken : (g.hist q).setAsleep = true → (g.hist q).woken = true → (g.tasks q).state = .running

/-- A thread about to raise the semaphore of `q` weighs one. -/
def waker (q : Nat) (pc : Pc) : Nat := if pc = .wakeUp q then 1 else 0

@[simp] theorem waker_wakeUp (q p : Nat) : waker q (.wakeUp p) = if p = q then 1 else 0 := by
  simp [waker]

/-- Steps that leave the task's record and the wakers alone. -/
theorem Accounted.frame {q : Nat} {g g' : Shared} {n m : Nat} (h : Accounted q g n)
    (hh : g'.hist q = g.hist q) (ht : g'.tasks q = g.tasks q) (hm : m = n) :
    Accounted q g' m := by
  subst hm
  exact ⟨by rw [hh, ht]; exact h.asleep, by rw [hh, ht]; exact h.woken⟩

/-- A task that sets its state with an empty semaphore and no wake-up half done
starts a new account. -/
theorem Accounted.setState {q : Nat} {g : Shared} {n : Nat} (st : TaskState)
    (hclean : st.sleeps = true → (g.tasks q).sleepLock = 0 ∧ n = 0) :
    Accounted q { g with tasks := setTaskState g.tasks q st
                         hist := Function.update g.hist q ⟨st.sleeps, false⟩ } n := by
  constructor
  · intro hset _
    simp only [Function.update_self] at hset
    obtain ⟨hsem, hn⟩ := hclean hset
    exact ⟨by simpa using hset, by simpa using hsem, hn⟩
  · intro _ hw
    simp at hw

/-- A wake-up settles the account of the task it wakes. -/
theorem Accounted.wake {q : Nat} {g : Shared} (n : Nat) :
    Accounted q { g with tasks := setTaskState g.tasks q .running
                         hist := Function.update g.hist q { g.hist q with woken := true } } n := by
  constructor
  · intro _ hw
    simp at hw
  · intro _ _
    simp

/-- Raising the semaphore is paid for by the waker that does it: the task has
been woken. -/
theorem Accounted.up {q : Nat} {g : Shared} {r : Nat} (h : Accounted q g (r + 1)) :
    Accounted q { g with tasks := semUp g.tasks q } r := by
  constructor
  · intro hs hw
    have := (h.asleep hs hw).2.2
    omega
  · intro hs hw
    simpa using h.woken hs hw

/-- Taking a token needs one, so the task has been woken. -/
theorem Accounted.down {q : Nat} {g : Shared} {n : Nat} {ts : Tasks} (h : Accounted q g n)
    (hd : semDown g.tasks q = some ts) : Accounted q { g with tasks := ts } n := by
  obtain ⟨hlock, hstate, _⟩ := semDown_some hd
  constructor
  · intro hs hw
    have := (h.asleep hs hw).2.1
    omega
  · intro hs hw
    exact hstate.trans (h.woken hs hw)

/-- One access of any thread keeps the account of every task. -/
theorem step_accounted {q i : Nat} {g g' : Shared} {pc pc' : Pc} {a : Choice} {r : Nat}
    (hclean : ∀ st, pc = .run → a = .setCurrentState st → i = q → st.sleeps = true →
      (g.tasks q).sleepLock = 0 ∧ r = 0)
    (hs : step i g pc a = some (g', pc')) (h : Accounted q g (r + waker q pc)) :
    Accounted q g' (r + waker q pc') := by
  cases pc with
  | run =>
      cases a with
      | setCurrentState st =>
          cases hs
          by_cases hq : i = q
          · subst hq
            exact .setState st (fun hsl => hclean st rfl rfl rfl hsl)
          · exact h.frame (by simp [Ne.symm hq]) (setTaskState_ne _ _ _ _ (Ne.symm hq)) rfl
      | schedule => cases hs; exact h.frame rfl rfl rfl
      | scheduleTimeout timeout => cases hs; exact h.frame rfl rfl rfl
      | wakeUpProcess p => cases hs; exact h.frame rfl rfl rfl
      | expire p =>
          simp only [step] at hs
          split at hs
          · cases hs
          · cases hs; exact h.frame rfl rfl rfl
      | tick => cases hs; exact h.frame rfl rfl rfl
  | addTimer expire => cases hs; exact h.frame rfl rfl rfl
  | switch k =>
      simp only [step] at hs
      split at hs <;> cases hs <;> exact h.frame rfl rfl rfl
  | down k =>
      simp only [step] at hs
      split at hs
      · cases hs
      · rename_i ts hd
        cases hs
        by_cases hq : i = q
        · subst hq
          exact h.down hd
        · exact h.frame rfl ((semDown_some hd).2.2 q (Ne.symm hq)) rfl
  | returned k =>
      cases k <;> cases hs <;> exact h.frame rfl rfl rfl
  | delTimer expire => cases hs; exact h.frame rfl rfl rfl
  | remaining timeout => cases hs; exact h.frame rfl rfl rfl
  | wakeStore p =>
      cases hs
      by_cases hq : p = q
      · subst hq
        exact .wake _
      · exact h.frame (by simp [Ne.symm hq]) (setTaskState_ne _ _ _ _ (Ne.symm hq))
          (by simp [waker, hq])
  | wakeUp p =>
      cases hs
      by_cases hq : p = q
      · subst hq
        rw [waker_wakeUp, if_pos rfl] at h
        exact h.up
      · exact h.frame rfl (semUp_ne _ _ _ (Ne.symm hq)) (by simp [waker, hq])
  | panicked => cases hs

theorem schedule_eq_yield {st : TaskState} : schedule st = .yield ↔ st = .running := by
  cases st <;> simp [schedule]

/-- The two ways out of `schedule()`. -/
theorem step_to_returned {i : Nat} {g g' : Shared} {pc : Pc} {a : Choice} {k : Cont}
    (hs : step i g pc a = some (g', .returned k)) :
    (pc = .switch k ∧ g' = g ∧ (g.tasks i).state = .running) ∨
      (pc = .down k ∧ g'.hist = g.hist ∧ 0 < (g.tasks i).sleepLock) := by
  cases pc with
  | run =>
      cases a <;> simp only [step, Option.some.injEq, Prod.mk.injEq, reduceCtorEq, and_false] at hs
      split at hs <;> cases hs
  | switch k' =>
      simp only [step] at hs
      split at hs <;> cases hs
      rename_i hy
      exact Or.inl ⟨rfl, rfl, schedule_eq_yield.mp hy⟩
  | down k' =>
      simp only [step] at hs
      split at hs
      · cases hs
      · rename_i ts hd
        cases hs
        have := (semDown_some hd).1
        exact Or.inr ⟨rfl, rfl, by omega⟩
  | returned k' => cases k' <;> cases hs
  | addTimer expire => cases hs
  | delTimer expire => cases hs
  | remaining timeout => cases hs
  | wakeStore p => cases hs
  | wakeUp p => cases hs
  | panicked => cases hs

/-- Other threads can wake a task; they never put it to sleep. -/
theorem step_hist_ne {i j : Nat} {g g' : Shared} {pc pc' : Pc} {a : Choice} (hij : i ≠ j)
    (hs : step j g pc a = some (g', pc')) :
    (g'.hist i).setAsleep = (g.hist i).setAsleep ∧
      ((g.hist i).woken = true → (g'.hist i).woken = true) := by
  cases pc with
  | run =>
      cases a with
      | setCurrentState st => cases hs; simp [hij]
      | expire p =>
          simp only [step] at hs
          split at hs
          · cases hs
          · cases hs; exact ⟨rfl, id⟩
      | schedule => cases hs; exact ⟨rfl, id⟩
      | scheduleTimeout timeout => cases hs; exact ⟨rfl, id⟩
      | wakeUpProcess p => cases hs; exact ⟨rfl, id⟩
      | tick => cases hs; exact ⟨rfl, id⟩
  | switch k =>
      simp only [step] at hs
      split at hs <;> cases hs <;> exact ⟨rfl, id⟩
  | down k =>
      simp only [step] at hs
      split at hs
      · cases hs
      · cases hs; exact ⟨rfl, id⟩
  | returned k => cases k <;> cases hs <;> exact ⟨rfl, id⟩
  | wakeStore p =>
      cases hs
      by_cases hp : i = p
      · subst hp
        simp
      · simp [hp]
  | addTimer expire => cases hs; exact ⟨rfl, id⟩
  | delTimer expire => cases hs; exact ⟨rfl, id⟩
  | remaining timeout => cases hs; exact ⟨rfl, id⟩
  | wakeUp p => cases hs; exact ⟨rfl, id⟩
  | panicked => cases hs

section
variable {c : Conf Shared Pc}

/-- In every run of clean sleeps, every task is accounted for. -/
theorem accounted (h : machine.Reach (cleanSleep · ·) c) (q : Nat) :
    Accounted q c.shared (total (waker q) c.pool) := by
  refine Prog.balance (P := prog) (waker q) (Accounted q) ?_ ?_ h
  · intro c hc
    have hh := (hc.1 q).2.2
    exact ⟨fun hs => by simp [hh] at hs, fun hs => by simp [hh] at hs⟩
  · intro c i a pc g pc' r _ hok hp hr hs hb
    refine step_accounted ?_ hs hb
    intro st hpc ha hi hsl
    subst hpc ha hi
    simp only [cleanSleep, hp, hsl, Bool.not_true, Bool.false_or, Bool.and_eq_true, beq_iff_eq,
      List.all_eq_true, bne_iff_ne, ne_eq] at hok
    refine ⟨hok.1, ?_⟩
    have hzero : total (waker i) c.pool = 0 :=
      total_eq_zero (fun p hp => by simp [waker, hok.2 p hp])
    omega

/-- **No spurious return, conditionally.**  In every run in which tasks go to
sleep only with an empty semaphore and no wake-up of theirs half done,
`schedule()` returns to a task that put itself to sleep only after a wake-up
issued since, and with the task running. -/
theorem schedule_returns_woken (h : machine.Reach (cleanSleep · ·) c) : NoSpuriousReturn c := by
  have hret : ∀ (i : Nat) (pc : Pc), c.pool[i]? = some pc →
      ∀ k, pc = .returned k → (c.shared.hist i).setAsleep = true →
        (c.shared.hist i).woken = true := by
    refine Prog.thread (P := prog) (fun i g pc => ∀ k, pc = .returned k →
      (g.hist i).setAsleep = true → (g.hist i).woken = true) ?_ ?_ ?_ h
    · intro c i pc hc hp k hk _
      have := hc.2 pc (List.mem_of_getElem? hp)
      rw [hk] at this
      cases this
    · intro c i a pc g pc' hreach _ _ hs _ k hk hset
      subst hk
      have hacc := accounted hreach i
      rcases step_to_returned hs with ⟨_, rfl, hrun⟩ | ⟨_, hhist, hpos⟩
      · by_contra hw
        have := (hacc.asleep hset (by simpa using hw)).1
        rw [hrun] at this
        cases this
      · rw [hhist] at hset ⊢
        by_contra hw
        have := (hacc.asleep hset (by simpa using hw)).2.1
        omega
    · intro c i j a pc q g q' _ _ hij _ _ hs hR k hk hset
      obtain ⟨hsame, hmono⟩ := step_hist_ne hij hs
      exact hmono (hR k hk (hsame ▸ hset))
  intro i k hp hset
  have hw := hret i _ hp k rfl hset
  exact ⟨hw, (accounted h i).woken hset hw⟩

/-- Such a run: task 0 goes to sleep, task 1 wakes it, `schedule()` returns. -/
theorem schedule_returns_woken_once :
    ∃ g, NoSpuriousReturn ⟨g, [.returned .plain, .run]⟩ ∧ (g.hist 0).setAsleep = true := by
  have hinit : machine.Reach (cleanSleep · ·)
      ⟨⟨fun _ => ⟨.running, 0⟩, 0, fun _ => none, fun _ => ⟨false, false⟩⟩, [.run, .run]⟩ :=
    .init ⟨fun _ => ⟨rfl, rfl, rfl⟩, by simp [prog]⟩
  exact ⟨_, schedule_returns_woken (hinit.runOk [(0, .setCurrentState .interruptible),
    (0, .schedule), (0, .tick), (1, .wakeUpProcess 0), (1, .tick), (1, .tick), (0, .tick)] rfl), rfl⟩

/-- **A stale token.**  Task 1 wakes task 0 while that one is running.  Task 0
later goes to sleep and `schedule()` returns at once, without any wake-up since
the state was set and with the state still `TASK_INTERRUPTIBLE`. -/
theorem schedule_stale_token :
    ∃ c, machine.run
        ⟨⟨fun _ => ⟨.running, 0⟩, 0, fun _ => none, fun _ => ⟨false, false⟩⟩, [.run, .run]⟩
        [(1, .wakeUpProcess 0), (1, .tick), (1, .tick), (0, .setCurrentState .interruptible),
         (0, .schedule), (0, .tick), (0, .tick)] = some c ∧
      c.pool[0]? = some (.returned .plain) ∧ (c.shared.hist 0).woken = false ∧
      (c.shared.tasks 0).state = .interruptible ∧ ¬ NoSpuriousReturn c := by
  refine ⟨_, rfl, rfl, rfl, rfl, fun h => ?_⟩
  have := h 0 .plain rfl rfl
  exact absurd this.1 (by decide)

end

end LinuxDrivers.Kernel.Sched
