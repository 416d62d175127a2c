/-
# `LinuxDrivers.Kernel.Kthread` — making, waking, stopping and ending kernel threads

`kernel/kthread.c` on the threads of the DDE kit (`arch/dde_kit/process.c`).  Three parties
take part in a `kthread_create`:

    creator     fill in `create`;  no helper queue: keventd_create_kthread itself
                otherwise: queue_work(create);  wait for create->done
                return create->result
    runner      pid = kernel_thread(kthread, create);  wait for create->started
                create->result = find_task_by_pid(pid);  complete create->done
    new thread  own task, attach_pid;  state = INTERRUPTIBLE;  complete create->started
                schedule();  should stop? : threadfn(data);  ...  detach_pid;  exit

The new thread is known to the runner by its thread id only, which is looked up in a list
that the new thread has entered itself in.  Thread ids are reused, and a thread that ends
without `do_exit` leaves its entry behind.

Completions are those of `Completion`, one access at a time; the helper work queue is what
`Worker` proves of it, a list that every queued item is taken off once.

Beside the state of the code there is a history: which thread was made for which call
(`made`, `parent`), which tasks were handed out (`known`), woken and entered, and which calls
have returned (`finished`).

**Proved here.**

    a wait stays a wait and a completion a completion      (`shaped`)
    each call has one creator, one runner and one thread   (`account`)
-/
import LinuxDrivers.Kernel.Completion

namespace LinuxDrivers.Kernel.Kthread

open LinuxDrivers.Lib LinuxDrivers.Kernel.Sched

/-! ## The state -/

/-- `create->started` and `create->done` of each call of `kthread_create`, and
`kthread_stop_info.done` -/
inductive Comp where
  | started (cr : Nat)
  | done (cr : Nat)
  | stop
  deriving DecidableEq, Repr

/-- `struct completion`, with the counts of `Completion`. -/
structure CompletionT where
  done : Word
  lock : Bool
  taskList : List Nat
  completed : Nat
  succeeded : Nat
  deriving DecidableEq, Repr

def initCompletion : CompletionT := ⟨0, false, [], 0, 0⟩

/-- `create->result` -/
inductive Result where
  | errPtr (err : Int)
  | null
  | task (p : Nat)
  deriving DecidableEq, Repr

/-- A thread is known by its index, and so is its task, which is allocated once per thread and
never freed.  Each call of `kthread_create` has a number, for the `create` on its stack. -/
structure Shared where
  tasks : Tasks
  comp : Comp → CompletionT
  /-- the ids of the threads, and the threads that have not ended -/
  pid : Nat → Int
  live : List Nat
  /-- `_pid_task_list` -/
  pidTaskList : List (Int × Nat)
  /-- `helper_wq` is set -/
  helper : Bool
  worklist : List Nat
  result : Nat → Result
  /-- `kthread_stop_lock`, `kthread_stop_info.k` and `.err` -/
  stopLock : Bool
  stopK : Option Nat
  stopErr : Int
  /-- the number of calls of `kthread_create` so far -/
  next : Nat
  born : Nat → Bool
  /-- the call that a thread was made for; none for a thread that was adopted -/
  parent : Nat → Option Nat
  made : Nat → Option Nat
  known : Nat → Bool
  woken : Nat → Bool
  entered : Nat → Bool
  finished : Nat → Bool

namespace Shared

/-- One completion, as `Completion` sees it. -/
def view (g : Shared) (x : Comp) : Completion.Shared where
  done := (g.comp x).done
  lock := (g.comp x).lock
  taskList := (g.comp x).taskList
  tasks := g.tasks
  jiffies := 0
  timers := fun _ => false
  completed := (g.comp x).completed
  succeeded := (g.comp x).succeeded

def put (g : Shared) (x : Comp) (s : Completion.Shared) : Shared :=
  { g with
    comp := Function.update g.comp x ⟨s.done, s.lock, s.taskList, s.completed, s.succeeded⟩
    tasks := s.tasks }

/-- What the DDE kit promises of a new id. -/
def idFree (g : Shared) (id : Int) : Prop := 0 ≤ id ∧ ∀ t ∈ g.live, g.pid t ≠ id

instance (g : Shared) (id : Int) : Decidable (g.idFree id) :=
  inferInstanceAs (Decidable (_ ∧ _))

/-- There is a new thread. -/
def bear (g : Shared) (t : Nat) (id : Int) (parent : Option Nat) : Shared :=
  { g with
    born := Function.update g.born t true
    pid := Function.update g.pid t id
    parent := Function.update g.parent t parent
    live := t :: g.live }

def setTask (g : Shared) (p : Nat) (task : TaskStruct) : Shared :=
  { g with tasks := Function.update g.tasks p task }

/-- The first half of `wake_up_process`. -/
def wakeStore (g : Shared) (p : Nat) : Shared :=
  { g with
    tasks := setTaskState g.tasks p .running
    woken := Function.update g.woken p true }

/-- `find_task_by_pid` -/
def findTaskByPid (g : Shared) (nr : Int) : Option Nat :=
  (g.pidTaskList.find? (fun pt => pt.1 == nr)).map Prod.snd

def attachPid (g : Shared) (task : Nat) (nr : Int) : Shared :=
  { g with pidTaskList := (nr, task) :: g.pidTaskList }

def detachPid (g : Shared) (task : Nat) : Shared :=
  { g with pidTaskList := g.pidTaskList.eraseP (fun pt => pt.2 == task) }

end Shared

/-! ## The code -/

/-- The calls of `complete` and `wait_for_completion`.  `direct` says that the creator is its
own runner. -/
inductive Site where
  /-- the new thread: `complete(&create->started)` -/
  | started (cr : Nat)
  /-- the runner: `wait_for_completion(&create->started)` -/
  | waitStarted (cr : Nat) (direct : Bool) (pid : Int)
  /-- the runner: `complete(&create->done)` -/
  | done (cr : Nat) (direct : Bool)
  /-- the creator: `wait_for_completion(&create->done)` -/
  | waitDone (cr : Nat)
  /-- `complete(&kthread_stop_info.done)` and the wait for it -/
  | stopDone
  | waitStop
  deriving DecidableEq, Repr

def Site.comp : Site → Comp
  | .started cr | .waitStarted cr _ _ => .started cr
  | .done cr _ | .waitDone cr => .done cr
  | .stopDone | .waitStop => .stop

def Site.completes : Site → Bool
  | .started _ | .done _ _ | .stopDone => true
  | _ => false

/-- Where a thread stands, named after the access it makes next. -/
inductive Pc where
  | unborn
  /-- `dde_linux26_process_add_worker`, of a thread that was made for a call or adopted -/
  | initTask (cr : Option Nat)
  | attachPid (cr : Option Nat)
  /-- `kthread` -/
  | setState (cr : Nat)
  | switch (cr : Nat)
  | down (cr : Nat)
  | testStop (cr : Nat)
  | testStopped (ret : Int)
  | storeErr (ret : Int)
  /-- in the thread function, or the code of an adopted thread -/
  | run
  /-- `do_exit` -/
  | detachPid
  | exit
  | dead
  /-- `kthread_create` -/
  | testHelper (cr : Nat)
  | queueWork (cr : Nat)
  | readResult (cr : Nat)
  | returned (cr : Nat) (r : Result)
  /-- `keventd_create_kthread` -/
  | kernelThread (cr : Nat) (direct : Bool)
  | getId (cr : Nat) (direct : Bool) (t : Nat)
  | findTask (cr : Nat) (direct : Bool) (pid : Int)
  | storeResult (cr : Nat) (direct : Bool) (r : Result)
  /-- in `complete` or `wait_for_completion` -/
  | sync (s : Site) (pc : Completion.Pc)
  /-- `wake_up_process`, called as such or by `kthread_stop` -/
  | wakeStore (p : Nat) (stop : Bool)
  | wakeUp (p : Nat) (stop : Bool)
  /-- `kthread_stop` -/
  | stopLock (p : Nat)
  | stopInit (p : Nat)
  | stopStore (p : Nat)
  | stopReset
  | stopRead
  | stopUnlock (ret : Int)
  | stopReturned (ret : Int)
  /-- stopped in the `BUG_ON` of `kthread_bind`, for the thread just created -/
  | bug (cr : Nat)
  | panicked
  deriving DecidableEq, Repr

/-- What code outside these files does next. -/
inductive Choice where
  | go
  /-- a thread of the application becomes one of ours -/
  | adopt (id : Int)
  /-- `dde_kit_thread_create` answers with the thread `t` and this id -/
  | spawn (t : Nat) (id : Int)
  | kthreadCreate
  /-- as a worker of the helper queue -/
  | runWork
  | helperInit
  | kthreadBind
  | wakeUpProcess (p : Nat)
  | kthreadStop (p : Nat)
  /-- sets its own state, and sleeps: any state and any number of tokens are left -/
  | sleep (task : TaskStruct)
  /-- the thread function returns -/
  | ret (r : Int)
  | doExit
  /-- an adopted thread ends without `do_exit` -/
  | leave
  deriving DecidableEq, Repr

/-- Where a thread goes on after `complete` or `wait_for_completion`. -/
def Site.back : Site → Pc
  | .started cr => .switch cr
  | .waitStarted cr direct pid => .findTask cr direct pid
  | .done cr direct => if direct then .readResult cr else .run
  | .waitDone cr => .readResult cr
  | .stopDone => .detachPid
  | .waitStop => .stopReset

/-- `complete` or `wait_for_completion` has returned. -/
def finished : Completion.Pc → Bool
  | .idle | .returned _ _ => true
  | _ => false

def eintr : Int := 4

/-- `BUG_ON(k->state != TASK_INTERRUPTIBLE)` of `kthread_bind`; there is no state to read in
what is not a task. -/
def kthreadBindBug (g : Shared) : Result → Bool
  | .task p => (g.tasks p).state != .interruptible
  | _ => true

/-- What a thread does in its own code.  A task can be woken or stopped by who knows it. -/
def runStep (i : Nat) (g : Shared) (a : Choice) : Option (Shared × Pc) :=
  match a with
  | .kthreadCreate =>
      some ({ g with
        next := g.next + 1
        comp := Function.update (Function.update g.comp (.started g.next) initCompletion)
          (.done g.next) initCompletion }, .testHelper g.next)
  | .runWork =>
      match g.worklist with
      | [] => none
      | cr :: rest => some ({ g with worklist := rest }, .kernelThread cr false)
  | .helperInit => some ({ g with helper := true }, .run)
  | .wakeUpProcess p => if g.known p then some (g, .wakeStore p false) else none
  | .kthreadStop p => if g.known p then some (g, .stopLock p) else none
  | .sleep task => some (g.setTask i task, .run)
  | .ret r => if (g.parent i).isSome then some (g, .testStopped r) else none
  | .doExit => some (g, .detachPid)
  | .leave => if (g.parent i).isSome then none else some (g, .exit)
  | _ => none

/-- One access of thread `i`.  A traversal or a change of `_pid_task_list` is made under its
lock, and is one access. -/
def step (i : Nat) (g : Shared) (pc : Pc) (a : Choice) : Option (Shared × Pc) :=
  match pc with
  | .unborn =>
      match g.parent i, a with
      | some cr, _ => some (g, .initTask (some cr))
      | none, .adopt id =>
          if g.born i = false ∧ g.idFree id then some (g.bear i id none, .initTask none) else none
      | none, _ => none
  | .initTask cr => some (g.setTask i ⟨.running, 0⟩, .attachPid cr)
  | .attachPid (some cr) => some (g.attachPid i (g.pid i), .setState cr)
  | .attachPid none =>
      some ({ g.attachPid i (g.pid i) with known := Function.update g.known i true }, .run)
  | .setState cr =>
      some ({ g with tasks := setTaskState g.tasks i .interruptible },
        .sync (.started cr) .completeLock)
  | .switch cr =>
      match schedule (g.tasks i).state with
      | .yield => some (g, .testStop cr)
      | .down => some (g, .down cr)
      | .panic => some (g, .panicked)
  | .down cr =>
      match semDown g.tasks i with
      | none => none
      | some ts => some ({ g with tasks := ts }, .testStop cr)
  | .testStop _ =>
      if g.stopK = some i then some (g, .testStopped (-eintr))
      else some ({ g with entered := Function.update g.entered i true }, .run)
  | .testStopped ret => some (g, if g.stopK = some i then .storeErr ret else .detachPid)
  | .storeErr ret => some ({ g with stopErr := ret }, .sync .stopDone .completeLock)
  | .run => runStep i g a
  | .detachPid => some (g.detachPid i, .exit)
  | .exit => some ({ g with live := g.live.erase i }, .dead)
  | .dead => none
  | .testHelper cr => some (g, if g.helper then .queueWork cr else .kernelThread cr true)
  | .queueWork cr =>
      some ({ g with worklist := g.worklist ++ [cr] }, .sync (.waitDone cr) (.waitLock .plain))
  | .readResult cr => some (g, .returned cr (g.result cr))
  | .returned cr r =>
      match a, r with
      | .kthreadBind, r => some (g, if kthreadBindBug g r then .bug cr else .returned cr r)
      -- the caller has the task, and may give it to anybody
      | _, .task p =>
          some ({ g with known := Function.update g.known p true
                         finished := Function.update g.finished cr true }, .run)
      | _, _ => some ({ g with finished := Function.update g.finished cr true }, .run)
  | .kernelThread cr direct =>
      match a with
      | .spawn t id =>
          if g.born t = false ∧ g.idFree id then
            some ({ g.bear t id (some cr) with made := Function.update g.made cr (some t) },
              .getId cr direct t)
          else none
      | _ => none
  | .getId cr direct t =>
      some (g, if g.pid t < 0 then .storeResult cr direct (.errPtr (g.pid t))
        else .sync (.waitStarted cr direct (g.pid t)) (.waitLock .plain))
  | .findTask cr direct pid =>
      some (g, .storeResult cr direct
        (match g.findTaskByPid pid with
        | some p => .task p
        | none => .null))
  | .storeResult cr direct r =>
      some ({ g with result := Function.update g.result cr r },
        .sync (.done cr direct) .completeLock)
  | .sync s pc =>
      match Completion.step i (g.view s.comp) pc .tick with
      | none => none
      | some (sh, pc') =>
          some (g.put s.comp sh, if finished pc' then s.back else .sync s pc')
  | .wakeStore p stop => some (g.wakeStore p, .wakeUp p stop)
  | .wakeUp p stop =>
      some ({ g with tasks := semUp g.tasks p },
        if stop then .sync .waitStop (.waitLock .plain) else .run)
  | .stopLock p => if g.stopLock then none else some ({ g with stopLock := true }, .stopInit p)
  | .stopInit p =>
      some ({ g with comp := Function.update g.comp .stop initCompletion }, .stopStore p)
  | .stopStore p => some ({ g with stopK := some p }, .wakeStore p true)
  | .stopReset => some ({ g with stopK := none }, .stopRead)
  | .stopRead => some (g, .stopUnlock g.stopErr)
  | .stopUnlock ret => some ({ g with stopLock := false }, .stopReturned ret)
  | .stopReturned _ => some (g, .run)
  | .bug _ => none
  | .panicked => none

/-- No thread is there yet; tasks, ids and results are whatever is in the memory. -/
def prog : Prog Shared Pc Choice where
  init g := (∀ x, g.comp x = initCompletion) ∧ g.live = [] ∧ g.pidTaskList = [] ∧
    g.worklist = [] ∧ g.next = 0 ∧ ∀ k, g.born k = false ∧ g.parent k = none ∧
      g.made k = none ∧ g.known k = false ∧ g.woken k = false ∧ g.entered k = false ∧
      g.finished k = false
  start pc := pc = .unborn
  step := step

def machine : Machine (Conf Shared Pc) (Nat × Choice) := prog.machine

/-! ## What an access can do -/

section
variable {i : Nat} {g g' : Shared} {pc pc' : Pc} {a : Choice}

/-- What an access in `complete` or `wait_for_completion` is. -/
theorem step_sync {s : Site} {pc : Completion.Pc}
    (hs : step i g (.sync s pc) a = some (g', pc')) :
    ∃ sh pc₁, Completion.step i (g.view s.comp) pc .tick = some (sh, pc₁) ∧
      g' = g.put s.comp sh ∧ pc' = if finished pc₁ then s.back else .sync s pc₁ := by
  simp only [step] at hs
  split at hs
  · cases hs
  · rename_i sh pc₁ hstep
    cases hs
    exact ⟨sh, pc₁, hstep, rfl, rfl⟩

/-- A thread begins because it was made, or because it is adopted. -/
theorem step_unborn (hs : step i g .unborn a = some (g', pc')) :
    (∃ cr, g.parent i = some cr ∧ g' = g ∧ pc' = .initTask (some cr)) ∨
      ∃ id, g.born i = false ∧ g.idFree id ∧ g' = g.bear i id none ∧ pc' = .initTask none := by
  simp only [step] at hs
  split at hs
  · rename_i cr hparent
    cases hs
    exact .inl ⟨cr, hparent, rfl, rfl⟩
  · split at hs
    · rename_i id _ hfree
      cases hs
      exact .inr ⟨id, hfree.1, hfree.2, rfl, rfl⟩
    · cases hs
  · cases hs

theorem step_kernelThread {cr : Nat} {direct : Bool}
    (hs : step i g (.kernelThread cr direct) a = some (g', pc')) :
    ∃ t id, g.born t = false ∧ g.idFree id ∧
      g' = { g.bear t id (some cr) with made := Function.update g.made cr (some t) } ∧
      pc' = .getId cr direct t := by
  simp only [step] at hs
  split at hs
  · split at hs
    · rename_i t id hfree
      cases hs
      exact ⟨t, id, hfree.1, hfree.2, rfl, rfl⟩
    · cases hs
  · cases hs

/-- What an access of thread `j` can do to the shared state, by where the thread stands. -/
inductive Effect (j : Nat) (g : Shared) : Pc → Shared → Prop
  | quiet (pc : Pc) (worklist : List Nat) (helper stopLock : Bool) (stopK : Option Nat)
      (stopErr : Int) :
      Effect j g pc { g with worklist, helper, stopLock, stopK, stopErr }
  | adopt {id : Int} : g.born j = false → g.idFree id → Effect j g .unborn (g.bear j id none)
  | spawn {cr t : Nat} {direct : Bool} {id : Int} : g.born t = false → g.idFree id →
      Effect j g (.kernelThread cr direct)
        { g.bear t id (some cr) with made := Function.update g.made cr (some t) }
  | exit : Effect j g .exit { g with live := g.live.erase j }
  | own (pc : Pc) (task : TaskStruct) : Effect j g pc (g.setTask j task)
  | attach (cr : Nat) : Effect j g (.attachPid (some cr)) (g.attachPid j (g.pid j))
  | attachAdopted :
      Effect j g (.attachPid none)
        { g.attachPid j (g.pid j) with known := Function.update g.known j true }
  | detach : Effect j g .detachPid (g.detachPid j)
  | enter (cr : Nat) :
      Effect j g (.testStop cr) { g with entered := Function.update g.entered j true }
  | create :
      Effect j g .run { g with
        next := g.next + 1
        comp := Function.update (Function.update g.comp (.started g.next) initCompletion)
          (.done g.next) initCompletion }
  | publish (cr p : Nat) :
      Effect j g (.returned cr (.task p)) { g with
        known := Function.update g.known p true
        finished := Function.update g.finished cr true }
  | finish (cr : Nat) (r : Result) :
      Effect j g (.returned cr r) { g with finished := Function.update g.finished cr true }
  | store (cr : Nat) (direct : Bool) (r : Result) :
      Effect j g (.storeResult cr direct r) { g with result := Function.update g.result cr r }
  | sync {s : Site} {pc pc₁ : Completion.Pc} {sh : Completion.Shared} :
      Completion.step j (g.view s.comp) pc .tick = some (sh, pc₁) →
      Effect j g (.sync s pc) (g.put s.comp sh)
  | wake (p : Nat) (stop : Bool) : Effect j g (.wakeStore p stop) (g.wakeStore p)
  | up (p : Nat) (stop : Bool) :
      Effect j g (.wakeUp p stop) { g with tasks := semUp g.tasks p }
  | stopInit (p : Nat) :
      Effect j g (.stopInit p) { g with comp := Function.update g.comp .stop initCompletion }

theorem step_effect (hs : step i g pc a = some (g', pc')) : Effect i g pc g' := by
  cases pc with
  | unborn =>
      rcases step_unborn hs with ⟨cr, -, rfl, -⟩ | ⟨id, hfree, hid, rfl, -⟩
      · exact .quiet ..
      · exact .adopt hfree hid
  | kernelThread cr direct =>
      obtain ⟨t, id, hfree, hid, rfl, -⟩ := step_kernelThread hs
      exact .spawn hfree hid
  | sync s pc =>
      obtain ⟨sh, pc₁, hstep, rfl, -⟩ := step_sync hs
      exact .sync hstep
  | run =>
      cases a with
      | kthreadCreate =>
          cases hs
          exact .create
      | sleep task =>
          cases hs
          exact .own ..
      | _ =>
          simp only [step, runStep] at hs
          (try split at hs) <;> cases hs <;> exact .quiet ..
  | returned cr r =>
      simp only [step] at hs
      split at hs <;> cases hs
      · exact .quiet ..
      · exact .publish ..
      · exact .finish ..
  | initTask o | setState cr =>
      cases hs
      exact .own ..
  | down cr =>
      simp only [step, semDown] at hs
      split at hs
      · cases hs
      · rename_i hd
        split at hd <;> cases hd
        cases hs
        exact .own ..
  | attachPid o =>
      cases o with
      | none =>
          cases hs
          exact .attachAdopted
      | some cr =>
          cases hs
          exact .attach cr
  | testStop cr =>
      simp only [step] at hs
      split at hs <;> cases hs
      · exact .quiet ..
      · exact .enter cr
  | exit =>
      cases hs
      exact .exit
  | detachPid =>
      cases hs
      exact .detach
  | storeResult cr direct r =>
      cases hs
      exact .store ..
  | wakeStore p stop =>
      cases hs
      exact .wake ..
  | wakeUp p stop =>
      cases hs
      exact .up ..
  | stopInit p =>
      cases hs
      exact .stopInit p
  | _ =>
      simp only [step] at hs
      (try split at hs) <;> cases hs <;> exact .quiet ..

/-- Where thread `j` may go on, with what it has found. -/
inductive Next (j : Nat) (g : Shared) : Pc → Pc → Prop
  -- the life of a thread
  | begin {cr : Nat} : g.parent j = some cr → Next j g .unborn (.initTask (some cr))
  | adopt : g.born j = false → Next j g .unborn (.initTask none)
  | init (o : Option Nat) : Next j g (.initTask o) (.attachPid o)
  | attach (cr : Nat) : Next j g (.attachPid (some cr)) (.setState cr)
  | attachAdopted : Next j g (.attachPid none) .run
  | setState (cr : Nat) : Next j g (.setState cr) (.sync (.started cr) .completeLock)
  | yield {cr : Nat} : (g.tasks j).state = .running → Next j g (.switch cr) (.testStop cr)
  | sleep (cr : Nat) : Next j g (.switch cr) (.down cr)
  | panic (cr : Nat) : Next j g (.switch cr) .panicked
  | down {cr : Nat} : 0 < (g.tasks j).sleepLock → Next j g (.down cr) (.testStop cr)
  | skip {cr : Nat} : g.stopK = some j → Next j g (.testStop cr) (.testStopped (-eintr))
  | enter {cr : Nat} : g.stopK ≠ some j → Next j g (.testStop cr) .run
  | stopped {ret : Int} : g.stopK = some j → Next j g (.testStopped ret) (.storeErr ret)
  | ended {ret : Int} : g.stopK ≠ some j → Next j g (.testStopped ret) .detachPid
  | storeErr (ret : Int) : Next j g (.storeErr ret) (.sync .stopDone .completeLock)
  | detach : Next j g .detachPid .exit
  | exit : Next j g .exit .dead
  -- its own code
  | create : Next j g .run (.testHelper g.next)
  | work {cr : Nat} {rest : List Nat} : g.worklist = cr :: rest →
      Next j g .run (.kernelThread cr false)
  | own : Next j g .run .run
  | wake {p : Nat} : g.known p = true → Next j g .run (.wakeStore p false)
  | stop {p : Nat} : g.known p = true → Next j g .run (.stopLock p)
  | ret (r : Int) : Next j g .run (.testStopped r)
  | doExit : Next j g .run .detachPid
  | leave : Next j g .run .exit
  -- `kthread_create` and its runner
  | queue {cr : Nat} : g.helper = true → Next j g (.testHelper cr) (.queueWork cr)
  | direct {cr : Nat} : g.helper = false → Next j g (.testHelper cr) (.kernelThread cr true)
  | waitDone (cr : Nat) :
      Next j g (.queueWork cr) (.sync (.waitDone cr) (.waitLock .plain))
  | readResult (cr : Nat) : Next j g (.readResult cr) (.returned cr (g.result cr))
  | bind {cr : Nat} {r : Result} : kthreadBindBug g r = false →
      Next j g (.returned cr r) (.returned cr r)
  | bug {cr : Nat} {r : Result} : kthreadBindBug g r = true → Next j g (.returned cr r) (.bug cr)
  | return (cr : Nat) (r : Result) : Next j g (.returned cr r) .run
  | make {cr : Nat} {direct : Bool} {t : Nat} : g.born t = false →
      Next j g (.kernelThread cr direct) (.getId cr direct t)
  | failed {cr : Nat} {direct : Bool} {t : Nat} : g.pid t < 0 →
      Next j g (.getId cr direct t) (.storeResult cr direct (.errPtr (g.pid t)))
  | waitStarted {cr : Nat} {direct : Bool} {t : Nat} : ¬ g.pid t < 0 →
      Next j g (.getId cr direct t) (.sync (.waitStarted cr direct (g.pid t)) (.waitLock .plain))
  | findTask (cr : Nat) (direct : Bool) (pid : Int) (r : Result) :
      Next j g (.findTask cr direct pid) (.storeResult cr direct r)
  | storeResult (cr : Nat) (direct : Bool) (r : Result) :
      Next j g (.storeResult cr direct r) (.sync (.done cr direct) .completeLock)
  -- `complete` and `wait_for_completion`
  | inside {s : Site} {pc pc₁ : Completion.Pc} {sh : Completion.Shared} :
      Completion.step j (g.view s.comp) pc .tick = some (sh, pc₁) → finished pc₁ = false →
      Next j g (.sync s pc) (.sync s pc₁)
  | back {s : Site} {pc pc₁ : Completion.Pc} {sh : Completion.Shared} :
      Completion.step j (g.view s.comp) pc .tick = some (sh, pc₁) → finished pc₁ = true →
      Next j g (.sync s pc) s.back
  -- `wake_up_process` and `kthread_stop`
  | wakeStore (p : Nat) (stop : Bool) : Next j g (.wakeStore p stop) (.wakeUp p stop)
  | wakeUp (p : Nat) : Next j g (.wakeUp p false) .run
  | waitStop (p : Nat) : Next j g (.wakeUp p true) (.sync .waitStop (.waitLock .plain))
  | stopLock {p : Nat} : g.stopLock = false → Next j g (.stopLock p) (.stopInit p)
  | stopInit (p : Nat) : Next j g (.stopInit p) (.stopStore p)
  | stopStore (p : Nat) : Next j g (.stopStore p) (.wakeStore p true)
  | stopReset : Next j g .stopReset .stopRead
  | stopRead : Next j g .stopRead (.stopUnlock g.stopErr)
  | stopUnlock (ret : Int) : Next j g (.stopUnlock ret) (.stopReturned ret)
  | stopReturned (ret : Int) : Next j g (.stopReturned ret) .run

theorem step_next (hs : step i g pc a = some (g', pc')) : Next i g pc pc' := by
  cases pc with
  | unborn =>
      rcases step_unborn hs with ⟨cr, hparent, -, rfl⟩ | ⟨id, hfree, -, -, rfl⟩
      · exact .begin hparent
      · exact .adopt hfree
  | attachPid o =>
      cases o with
      | none =>
          cases hs
          exact .attachAdopted
      | some cr =>
          cases hs
          exact .attach cr
  | switch cr =>
      simp only [step] at hs
      split at hs <;> cases hs
      · rename_i hyield
        exact .yield (schedule_eq_yield.mp hyield)
      · exact .sleep cr
      · exact .panic cr
  | down cr =>
      simp only [step] at hs
      split at hs
      · cases hs
      · rename_i ts hd
        have htoken := (semDown_some hd).1
        cases hs
        exact .down (by omega)
  | testStop cr =>
      simp only [step] at hs
      split at hs <;> cases hs
      · exact .skip ‹_›
      · exact .enter ‹_›
  | testStopped ret =>
      cases hs
      split
      · exact .stopped ‹_›
      · exact .ended ‹_›
  | run =>
      cases a with
      | runWork =>
          simp only [step, runStep] at hs
          split at hs <;> cases hs
          exact .work ‹_›
      | wakeUpProcess p | kthreadStop p =>
          simp only [step, runStep] at hs
          split at hs <;> cases hs
          constructor
          assumption
      | _ =>
          simp only [step, runStep] at hs
          (try split at hs) <;> cases hs <;> constructor
  | testHelper cr =>
      cases hs
      split
      · exact .queue ‹_›
      · exact .direct (Bool.eq_false_iff.mpr ‹_›)
  | returned cr r =>
      simp only [step] at hs
      split at hs <;> cases hs
      · split
        · exact .bug ‹_›
        · exact .bind (Bool.eq_false_iff.mpr ‹_›)
      · exact .return ..
      · exact .return ..
  | kernelThread cr direct =>
      obtain ⟨t, id, hfree, -, -, rfl⟩ := step_kernelThread hs
      exact .make hfree
  | getId cr direct t =>
      cases hs
      split
      · exact .failed ‹_›
      · exact .waitStarted ‹_›
  | sync s pc =>
      obtain ⟨sh, pc₁, hstep, -, rfl⟩ := step_sync hs
      cases hfin : finished pc₁ with
      | true => exact .back hstep hfin
      | false => exact .inside hstep hfin
  | wakeUp p stop =>
      cases stop with
      | true =>
          cases hs
          exact .waitStop p
      | false =>
          cases hs
          exact .wakeUp p
  | stopLock p =>
      simp only [step] at hs
      split at hs <;> cases hs
      exact .stopLock (Bool.eq_false_iff.mpr ‹_›)
  | dead | bug cr | panicked => cases hs
  | _ =>
      cases hs
      constructor

/-! ## A wait stays a wait, and a completion a completion -/

/-- Inside a site, a thread is in the code that the site calls. -/
def Shaped : Pc → Prop
  | .sync s pc =>
      finished pc = false ∧ if s.completes then pc.completing = true else pc.waiting = true
  | _ => True

theorem step_shaped (hs : step i g pc a = some (g', pc')) (h : Shaped pc) : Shaped pc' := by
  cases step_next hs with
  | @inside s pc pc₁ sh hstep hfin =>
      obtain ⟨hnot, hshape⟩ := h
      refine ⟨hfin, ?_⟩
      cases hc : s.completes with
      | true =>
          rw [hc, if_pos rfl] at hshape
          rcases Completion.step_completing hstep hshape with hcomp | rfl
          · rw [if_pos rfl]
            exact hcomp
          · cases hfin
      | false =>
          rw [hc, if_neg Bool.false_ne_true] at hshape
          rw [if_neg Bool.false_ne_true]
          refine Completion.step_waiting hstep hshape ?_
          rintro rfl
          cases hnot
  | @back s =>
      cases s with
      | done cr direct => cases direct <;> trivial
      | _ => trivial
  | setState | storeErr | waitDone | waitStarted | storeResult | waitStop => exact ⟨rfl, rfl⟩
  | _ => trivial

end

section
variable {c : Conf Shared Pc}

theorem shaped (h : machine.Reachable c) {i : Nat} {pc : Pc} (hp : c.pool[i]? = some pc) :
    Shaped pc := by
  refine Prog.each (P := prog) Shaped ?_ ?_ h hp
  · rintro pc rfl
    trivial
  · intro i g pc a g' pc' hk hs
    exact step_shaped hs hk

end

/-! ## Each call has one creator, one runner and one thread -/

inductive Place where
  /-- about to make the thread, or to have it made -/
  | pre
  /-- the runner, from the thread it made to `complete(&create->done)` -/
  | post
  /-- in `kthread_create` -/
  | creator

/-- `create->done` is going to be incremented. -/
def before : Completion.Pc → Nat
  | .completeLock | .completeInc => 1
  | _ => 0

@[simp] def places (cr : Nat) : Pc → Place → Nat
  | .testHelper v, .pre | .queueWork v, .pre | .kernelThread v _, .pre => if v = cr then 1 else 0
  | .getId v _ _, .post | .sync (.waitStarted v _ _) _, .post | .findTask v _ _, .post
  | .storeResult v _ _, .post => if v = cr then 1 else 0
  | .sync (.done v _) pc, .post => if v = cr then before pc else 0
  | .testHelper v, .creator | .queueWork v, .creator | .sync (.waitDone v) _, .creator
  | .readResult v, .creator | .returned v _, .creator
  | .bug v, .creator => if v = cr then 1 else 0
  | .kernelThread v d, .creator | .getId v d _, .creator | .sync (.waitStarted v d _) _, .creator
  | .findTask v d _, .creator | .storeResult v d _, .creator
  | .sync (.done v d) _, .creator => if v = cr then d.toNat else 0
  | _, _ => 0

/-- Call `cr` is among the first `next` ones. -/
def began (next cr : Nat) : Bool := cr < next

/-- The account of one call, `n` counting the threads at its places. -/
structure Account (cr : Nat) (g : Shared) (n : Place → Nat) : Prop where
  runner : n .pre + g.worklist.count cr + (g.made cr).isSome.toNat = (began g.next cr).toNat
  done : n .post + (g.comp (.done cr)).completed = (g.made cr).isSome.toNat
  creator : n .creator + (g.finished cr).toNat = (began g.next cr).toNat

section
variable {cr i : Nat} {g g' : Shared} {pc pc' : Pc} {a : Choice} {n m r : Place → Nat}

/-- Steps that do nothing to the call. -/
theorem Account.same (h : Account cr g n) (hn : g'.next = g.next)
    (hw : g'.worklist.count cr = g.worklist.count cr) (hm : g'.made cr = g.made cr)
    (hc : (g'.comp (.done cr)).completed = (g.comp (.done cr)).completed)
    (hf : g'.finished cr = g.finished cr) (hk : ∀ k, m k = n k) : Account cr g' m := by
  obtain rfl : m = n := funext hk
  exact ⟨by rw [hw, hm, hn]; exact h.runner, by rw [hc, hm]; exact h.done,
    by rw [hf, hn]; exact h.creator⟩

theorem Account.create (h : Account cr g (r + places cr .run)) :
    Account cr { g with
      next := g.next + 1
      comp := Function.update (Function.update g.comp (.started g.next) initCompletion)
        (.done g.next) initCompletion } (r + places cr (.testHelper g.next)) := by
  obtain ⟨hrunner, hdone, hcreator⟩ := h
  simp only [Pi.add_apply, places, add_zero] at hrunner hdone hcreator
  by_cases hcr : g.next = cr
  · subst hcr
    have hold : began g.next g.next = false := decide_eq_false (Nat.lt_irrefl _)
    have hnew : began (g.next + 1) g.next = true := decide_eq_true (Nat.lt_succ_self _)
    rw [hold, Bool.toNat_false] at hrunner hcreator
    constructor
    · simp [hnew]
      omega
    · simp [initCompletion]
      omega
    · simp [hnew]
      omega
  · have hsame : began (g.next + 1) cr = began g.next cr := by
      unfold began
      rw [decide_eq_decide]
      omega
    have hne : Comp.done cr ≠ Comp.done g.next := fun he => hcr (Comp.done.inj he).symm
    constructor
    · simpa [hcr, hsame] using hrunner
    · simpa [hcr, hne] using hdone
    · simpa [hcr, hsame] using hcreator

theorem Account.enqueue (h : Account cr g (r + places cr (.queueWork cr))) :
    Account cr { g with worklist := g.worklist ++ [cr] }
      (r + places cr (.sync (.waitDone cr) (.waitLock .plain))) := by
  obtain ⟨hrunner, hdone, hcreator⟩ := h
  constructor <;> simp at * <;> omega

theorem Account.take {rest : List Nat} (hlist : g.worklist = cr :: rest)
    (h : Account cr g (r + places cr .run)) :
    Account cr { g with worklist := rest } (r + places cr (.kernelThread cr false)) := by
  obtain ⟨hrunner, hdone, hcreator⟩ := h
  rw [hlist] at hrunner
  constructor <;> simp at * <;> omega

/-- The thread of the call is not there yet. -/
theorem Account.made_none {direct : Bool} (h : Account cr g (r + places cr (.kernelThread cr direct))) :
    g.made cr = none := by
  have hrunner := h.runner
  have hle : (began g.next cr).toNat ≤ 1 := Bool.toNat_le _
  simp only [Pi.add_apply, places, if_true] at hrunner
  cases hm : g.made cr with
  | none => rfl
  | some t =>
      rw [hm, Option.isSome_some, Bool.toNat_true] at hrunner
      omega

theorem Account.make {direct : Bool} {t : Nat} {id : Int}
    (h : Account cr g (r + places cr (.kernelThread cr direct))) :
    Account cr { g.bear t id (some cr) with made := Function.update g.made cr (some t) }
      (r + places cr (.getId cr direct t)) := by
  have hnone := h.made_none
  obtain ⟨hrunner, hdone, hcreator⟩ := h
  rw [hnone] at hrunner hdone
  simp only [Pi.add_apply, places, if_true, Option.isSome_none, Bool.toNat_false] at hrunner hdone
  refine ⟨?_, ?_, hcreator⟩
  · simp only [Function.update_self, Option.isSome_some, Bool.toNat_true]
    show r .pre + 0 + g.worklist.count cr + 1 = (began g.next cr).toNat
    omega
  · simp only [Function.update_self, Option.isSome_some, Bool.toNat_true]
    show r .post + (if cr = cr then 1 else 0) + (g.comp (.done cr)).completed = 1
    rw [if_pos rfl]
    omega

/-- `create->done` is incremented. -/
theorem Account.complete {direct : Bool} {x : CompletionT} {pc₁ : Completion.Pc} {ts : Tasks}
    (hx : x.completed = (g.comp (.done cr)).completed + 1) (hpc : before pc₁ = 0)
    (h : Account cr g (r + places cr (.sync (.done cr direct) .completeInc))) :
    Account cr { g with comp := Function.update g.comp (.done cr) x, tasks := ts }
      (r + places cr (.sync (.done cr direct) pc₁)) := by
  obtain ⟨hrunner, hdone, hcreator⟩ := h
  refine ⟨hrunner, ?_, hcreator⟩
  simp only [Pi.add_apply, places, if_true, before] at hdone
  simp only [Pi.add_apply, places, if_true, hpc, Function.update_self, hx]
  omega

theorem Account.finish {res : Result} {known : Nat → Bool}
    (h : Account cr g (r + places cr (.returned cr res))) :
    Account cr { g with known := known, finished := Function.update g.finished cr true }
      (r + places cr .run) := by
  obtain ⟨hrunner, hdone, hcreator⟩ := h
  have hle : (began g.next cr).toNat ≤ 1 := Bool.toNat_le _
  refine ⟨hrunner, hdone, ?_⟩
  simp at hcreator ⊢
  omega

/-- Accesses in a site other than that of `complete(&create->done)` of the call. -/
theorem put_completed {s : Site} {pc pc₁ : Completion.Pc} {sh : Completion.Shared}
    (hs : Completion.step i (g.view s.comp) pc .tick = some (sh, pc₁))
    (hpc : s.comp = .done cr → pc ≠ .completeInc) :
    ((g.put s.comp sh).comp (.done cr)).completed = (g.comp (.done cr)).completed := by
  by_cases hx : s.comp = .done cr
  · rcases Completion.step_done hs with ⟨-, hcomp, -⟩ | ⟨rfl, -, -⟩ | ⟨w, -, -, rfl⟩
    · simpa [Shared.put, Shared.view, hx] using hcomp
    · exact absurd rfl (hpc hx)
    · simp [Shared.put, Shared.view, hx]
  · simp [Shared.put, Ne.symm hx]

/-- After `complete` or `wait_for_completion` a thread is where it was, for the account. -/
theorem places_back (cr : Nat) (s : Site) (pc : Completion.Pc) :
    places cr (if finished pc then s.back else .sync s pc) = places cr (.sync s pc) := by
  cases hfin : finished pc with
  | false => rfl
  | true =>
      have hbefore : before pc = 0 := by
        cases pc <;> first | rfl | cases hfin
      funext k
      cases s with
      | done v direct => cases direct <;> cases k <;> simp [Site.back, hbefore]
      | _ => cases k <;> rfl

/-- Only the increment changes what is going to happen to `create->done`. -/
theorem step_before {g : Completion.Shared} {pc pc₁ : Completion.Pc} {sh : Completion.Shared}
    (hs : Completion.step i g pc .tick = some (sh, pc₁)) (h : pc.completing = true)
    (hpc : pc ≠ .completeInc) : before pc₁ = before pc := by
  cases pc with
  | completeInc => exact absurd rfl hpc
  | completeLock =>
      simp only [Completion.step] at hs
      split at hs <;> cases hs
      rfl
  | wakeNext rest => cases rest <;> cases hs <;> rfl
  | wakeStore p rest | wakeUp p rest | completeUnlock =>
      cases hs
      rfl
  | _ => cases h

/-- One access of a site keeps the account. -/
theorem sync_account {s : Site} {pc pc₁ : Completion.Pc} {sh : Completion.Shared}
    (hs : Completion.step i (g.view s.comp) pc .tick = some (sh, pc₁))
    (hshape : Shaped (.sync s pc)) (h : Account cr g (r + places cr (.sync s pc))) :
    Account cr (g.put s.comp sh) (r + places cr (if finished pc₁ then s.back else .sync s pc₁)) := by
  rw [places_back]
  obtain ⟨-, hshape⟩ := hshape
  cases s with
  | done v direct =>
      by_cases hinc : v = cr ∧ pc = .completeInc
      · obtain ⟨rfl, rfl⟩ := hinc
        cases hs
        exact h.complete rfl rfl
      · have hkeep : pc ≠ .completeInc ∨ v ≠ cr := by
          rcases not_and_or.mp hinc with hv | hpc
          · exact .inr hv
          · exact .inl hpc
        refine h.same rfl rfl rfl (put_completed hs ?_) rfl ?_
        · intro hx
          exact hkeep.resolve_right (fun hv => hv (Comp.done.inj hx))
        · intro k
          cases k with
          | post =>
              simp only [Pi.add_apply, places]
              split
              · rename_i hv
                rw [step_before hs hshape (hkeep.resolve_right (fun hne => hne hv))]
              · rfl
          | pre | creator => rfl
  | waitDone v =>
      refine h.same rfl rfl rfl (put_completed hs ?_) rfl (fun k => by cases k <;> rfl)
      rintro - rfl
      cases hshape
  | started v | waitStarted v direct pid | stopDone | waitStop =>
      exact h.same rfl rfl rfl (put_completed hs nofun) rfl (fun k => by cases k <;> rfl)

theorem step_account (hs : step i g pc a = some (g', pc')) (hshape : Shaped pc)
    (h : Account cr g (r + places cr pc)) : Account cr g' (r + places cr pc') := by
  cases pc with
  | sync s pc =>
      obtain ⟨sh, pc₁, hstep, rfl, rfl⟩ := step_sync hs
      exact sync_account hstep hshape h
  | run =>
      cases a with
      | kthreadCreate =>
          cases hs
          exact h.create
      | runWork =>
          simp only [step, runStep] at hs
          split at hs <;> cases hs
          rename_i v rest hlist
          by_cases hv : v = cr
          · subst hv
            exact h.take hlist
          · refine h.same rfl ?_ rfl rfl rfl (fun k => by cases k <;> simp [hv])
            simp [hlist, hv]
      | _ =>
          simp only [step, runStep] at hs
          (try split at hs) <;> cases hs <;>
            exact h.same rfl rfl rfl rfl rfl (fun k => by cases k <;> rfl)
  | queueWork v =>
      cases hs
      by_cases hv : v = cr
      · subst hv
        exact h.enqueue
      · refine h.same rfl ?_ rfl rfl rfl (fun k => by cases k <;> simp [hv])
        simp [hv]
  | kernelThread v direct =>
      obtain ⟨t, id, -, -, rfl, rfl⟩ := step_kernelThread hs
      by_cases hv : v = cr
      · subst hv
        exact h.make
      · refine h.same rfl rfl ?_ rfl rfl (fun k => by cases k <;> simp [hv])
        exact Function.update_of_ne (Ne.symm hv) _ _
  | returned v res =>
      simp only [step] at hs
      split at hs
      · cases hs
        refine h.same rfl rfl rfl rfl rfl (fun k => ?_)
        split <;> cases k <;> rfl
      all_goals
        cases hs
        by_cases hv : v = cr
        · subst hv
          exact h.finish
        · refine h.same rfl rfl rfl rfl ?_ (fun k => by cases k <;> simp [hv])
          exact Function.update_of_ne (Ne.symm hv) _ _
  | unborn =>
      rcases step_unborn hs with ⟨v, -, rfl, rfl⟩ | ⟨id, -, -, rfl, rfl⟩ <;>
        exact h.same rfl rfl rfl rfl rfl (fun k => by cases k <;> rfl)
  | attachPid o =>
      cases o <;> cases hs <;> exact h.same rfl rfl rfl rfl rfl (fun k => by cases k <;> rfl)
  | stopInit p =>
      cases hs
      exact h.same rfl rfl rfl rfl rfl (fun k => by cases k <;> rfl)
  | testStopped ret | testHelper v | getId v direct t | wakeUp p stop =>
      cases hs
      refine h.same rfl rfl rfl rfl rfl (fun k => ?_)
      split <;> cases k <;> simp
  | _ =>
      simp only [step] at hs
      (try split at hs) <;> cases hs <;>
        exact h.same rfl rfl rfl rfl rfl (fun k => by cases k <;> rfl)

end

section
variable {c : Conf Shared Pc}

theorem account (h : machine.Reachable c) (cr : Nat) :
    Account cr c.shared (total (places cr) c.pool) := by
  refine Prog.balance (P := prog) (places cr) (Account cr) ?_ ?_ h
  · rintro c ⟨⟨hcomp, -, -, hlist, hnext, hall⟩, hstart⟩
    have hzero : total (places cr) c.pool = 0 := by
      apply total_eq_zero
      intro pc hpc
      rw [hstart pc hpc]
      funext k
      cases k <;> rfl
    obtain ⟨-, -, hmade, -, -, -, hfin⟩ := hall cr
    rw [hzero]
    constructor
    · simp [hlist, hmade, hnext, began]
    · simp [hcomp, hmade, initCompletion]
    · simp [hfin, hnext, began]
  · intro c i a pc g pc' r hreach _ hp _ hs hacc
    exact step_account hs (shaped hreach hp) hacc

/-- What two threads of a pool weigh together. -/
theorem places_add_le (cr : Nat) (k : Place) {i j : Nat} {p q : Pc} (hij : i ≠ j)
    (hi : c.pool[i]? = some p) (hj : c.pool[j]? = some q) :
    places cr p k + places cr q k ≤ total (places cr) c.pool k := by
  rw [total_apply]
  exact add_le_total (fun pc => places cr pc k) hij hi hj

theorem places_le (cr : Nat) (k : Place) {i : Nat} {p : Pc} (hi : c.pool[i]? = some p) :
    places cr p k ≤ total (places cr) c.pool k := by
  rw [total_apply]
  exact le_total (fun pc => places cr pc k) hi

/-- Before `create->done` is incremented the call has not returned. -/
theorem runner_unfinished (h : machine.Reachable c) {cr i : Nat} {pc : Pc}
    (hi : c.pool[i]? = some pc) (hpost : places cr pc .post = 1) :
    (c.shared.comp (.done cr)).completed = 0 := by
  have hle := places_le cr .post hi
  have hdone := (account h cr).done
  have hone : (c.shared.made cr).isSome.toNat ≤ 1 := Bool.toNat_le _
  omega

/-- A call has one runner. -/
theorem runner_unique (h : machine.Reachable c) {cr i j : Nat} {p q : Pc}
    (hi : c.pool[i]? = some p) (hj : c.pool[j]? = some q) (hp : places cr p .post = 1)
    (hq : places cr q .post = 1) : i = j := by
  by_contra hij
  have hle := places_add_le cr .post hij hi hj
  have hdone := (account h cr).done
  have hone : (c.shared.made cr).isSome.toNat ≤ 1 := Bool.toNat_le _
  omega

/-- A call that has a thread in it has not returned. -/
theorem creator_unfinished (h : machine.Reachable c) {cr i : Nat} {pc : Pc}
    (hi : c.pool[i]? = some pc) (hcreator : places cr pc .creator = 1) :
    c.shared.finished cr = false := by
  have hle := places_le cr .creator hi
  have hacc := (account h cr).creator
  have hone : (began c.shared.next cr).toNat ≤ 1 := Bool.toNat_le _
  cases hf : c.shared.finished cr with
  | false => rfl
  | true =>
      rw [hf, Bool.toNat_true] at hacc
      omega

/-- No thread was made yet for a call whose runner is about to make it. -/
theorem made_none (h : machine.Reachable c) {cr i : Nat} {direct : Bool}
    (hi : c.pool[i]? = some (.kernelThread cr direct)) : c.shared.made cr = none := by
  have hle := places_le cr .pre hi
  have hacc := (account h cr).runner
  have hone : (began c.shared.next cr).toNat ≤ 1 := Bool.toNat_le _
  simp only [places, if_true] at hle
  cases hm : c.shared.made cr with
  | none => rfl
  | some t =>
      rw [hm, Option.isSome_some, Bool.toNat_true] at hacc
      omega

/-- Nor for a call to come. -/
theorem made_next (h : machine.Reachable c) : c.shared.made c.shared.next = none := by
  have hacc := (account h c.shared.next).runner
  have hnot : began c.shared.next c.shared.next = false := by simp [began]
  rw [hnot, Bool.toNat_false] at hacc
  cases hm : c.shared.made c.shared.next with
  | none => rfl
  | some t =>
      rw [hm, Option.isSome_some, Bool.toNat_true] at hacc
      omega

end

end LinuxDrivers.Kernel.Kthread
