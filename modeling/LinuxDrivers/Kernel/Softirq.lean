/-
# `LinuxDrivers.Kernel.Softirq` — softirqs and tasklets on the DDE kit

`softirq.c` runs softirqs in a thread of its own.  A raise sets a bit of the
pending word and raises a semaphore; the thread takes a token, copies the word,
clears it and calls the action of every bit of the copy:

    raise(nr):     v = pending;  pending = v | 1 << nr;  up(softirq_sem)
    thread:        down(softirq_sem);  if (pending) __do_softirq()
    __do_softirq:  do { p = pending;  pending = 0;
                        for every bit h of p:  softirq_vec[h].action() }
                   while (pending && --retries)

None of this is protected: `|=` is a load and a store, and so is the copying and
clearing.  Tasklets are two lists, each with a lock and a softirq of its own whose
action takes the whole list and runs what is on it:

    schedule(t):   if (!test_and_set(SCHED))  { lock; push; unlock; raise }
    action:        lock; take the list; unlock
                   for every t of it:
                     if (trylock RUN) { if (!count) { test_and_clear(SCHED) or BUG
                                                      func();  unlock RUN;  continue }
                                        unlock RUN }
                     lock; push t; raise; unlock

This module has the code as frames of `Lib.Stack`, one access per step, and the
machine of any number of threads that call it.  `SoftirqPending` and `Tasklet`
prove things about it.
-/
import LinuxDrivers.Basic
import LinuxDrivers.Lib.Stack

namespace LinuxDrivers.Kernel.Softirq

open LinuxDrivers.Lib

/-! ## The shared state -/

/-- The two tasklet lists, `tasklet_vec` and `tasklet_hi_vec`. -/
inductive Vec where
  | low
  | hi
  deriving DecidableEq, Repr

/-- `TASKLET_SOFTIRQ` and `HI_SOFTIRQ` -/
def Vec.nr : Vec → Fin 32
  | .low => 5
  | .hi => 0

/-- `1UL << nr` -/
def bit (nr : Fin 32) : Word := 1 <<< nr.val

/-- `tasklet_struct`: the two bits of `state` and the disable count, an `atomic_t`. -/
structure TaskletStruct where
  sched : Bool
  run : Bool
  count : Word
  deriving DecidableEq, Repr

/-- The history of a tasklet. -/
structure Hist where
  /-- successful `tasklet_schedule` and `tasklet_hi_schedule` calls -/
  scheduled : Nat
  /-- runs of the function that have begun -/
  ran : Nat
  /-- disables, by a `tasklet_disable` that has returned or from the start, that no
  `tasklet_enable` has undone; an enable that comes before its disable undoes none -/
  disabled : Nat
  deriving DecidableEq, Repr

structure Shared where
  /-- `local_softirq_pending()` -/
  pending : Word
  softirqSem : Nat
  list : Vec → List Nat
  lock : Vec → Bool
  tasklets : Nat → TaskletStruct
  hist : Nat → Hist

namespace Shared

def setList (g : Shared) (v : Vec) (l : List Nat) : Shared :=
  { g with list := Function.update g.list v l }

def setLock (g : Shared) (v : Vec) (b : Bool) : Shared :=
  { g with lock := Function.update g.lock v b }

def setTasklet (g : Shared) (t : Nat) (x : TaskletStruct) : Shared :=
  { g with tasklets := Function.update g.tasklets t x }

def setHist (g : Shared) (t : Nat) (x : Hist) : Shared :=
  { g with hist := Function.update g.hist t x }

end Shared

/-! ## The code -/

/-- What a thread, or a handler it runs, may call. -/
inductive Call where
  | raiseSoftirq (nr : Fin 32)
  | taskletSchedule (t : Nat)
  | taskletHiSchedule (t : Nat)
  | taskletDisable (t : Nat)
  | taskletEnable (t : Nat)
  | taskletKill (t : Nat)
  | taskletAction
  | taskletHiAction
  | doSoftirq
  /-- `dde_linux26_raise_softirq` -/
  | ddeRaiseSoftirq
  deriving DecidableEq, Repr

/-- Where a call stands, named after the access it makes next. -/
inductive Frame where
  /-- `raise_softirq_irqoff_cpu` -/
  | raiseLoad (nr : Fin 32)
  | raiseStore (nr : Fin 32) (v : Word)
  | raiseUp (nr : Fin 32)
  /-- `tasklet_schedule`, `tasklet_hi_schedule` -/
  | scheduleTest (v : Vec) (t : Nat)
  | enqueue (v : Vec) (t : Nat)
  /-- `tasklet_disable`, `tasklet_enable` -/
  | disableInc (t : Nat)
  | disableWait (t : Nat)
  | enableDec (t : Nat)
  /-- `tasklet_kill` -/
  | killTest (t : Nat)
  | killYield (t : Nat)
  | killWait (t : Nat)
  | killClear (t : Nat)
  /-- `tasklet_action`, `tasklet_hi_action`; `rest` is what is left of the list taken -/
  | actionTake (v : Vec)
  | actionNext (v : Vec) (rest : List Nat)
  | actionCount (v : Vec) (t : Nat) (rest : List Nat)
  | actionClear (v : Vec) (t : Nat) (rest : List Nat)
  /-- stopped in `BUG()` -/
  | bug (v : Vec) (t : Nat) (rest : List Nat)
  | actionFunc (v : Vec) (t : Nat) (rest : List Nat)
  | actionUnlock (v : Vec) (t : Nat) (rest : List Nat)
  | actionBackOff (v : Vec) (t : Nat) (rest : List Nat)
  | requeue (v : Vec) (t : Nat) (rest : List Nat)
  | requeueUnlock (v : Vec) (rest : List Nat)
  /-- the action of another softirq -/
  | handler (nr : Nat)
  /-- `do_softirq` -/
  | doTest
  /-- `__do_softirq`; `pending` is the local copy, shifted by `h` -/
  | doLoad (retries : Nat)
  | doClear (retries : Nat) (pending : Word)
  | doBits (retries : Nat) (pending : Word) (h : Nat)
  | doRetry (retries : Nat)
  /-- `dde_linux26_softirq_thread` -/
  | threadDown
  /-- `dde_linux26_raise_softirq` -/
  | kitUp
  deriving DecidableEq, Repr

/-- The first frame of a call. -/
def Call.frame : Call → Frame
  | .raiseSoftirq nr => .raiseLoad nr
  | .taskletSchedule t => .scheduleTest .low t
  | .taskletHiSchedule t => .scheduleTest .hi t
  | .taskletDisable t => .disableInc t
  | .taskletEnable t => .enableDec t
  | .taskletKill t => .killTest t
  | .taskletAction => .actionTake .low
  | .taskletHiAction => .actionTake .hi
  | .doSoftirq => .doTest
  | .ddeRaiseSoftirq => .kitUp

/-- `softirq_vec[h].action` -/
def softirqVec (h : Nat) : Frame :=
  if h = Vec.low.nr.val then .actionTake .low
  else if h = Vec.hi.nr.val then .actionTake .hi
  else .handler h

def maxSoftirqRetries : Nat := 10

/-- Code outside this file, idle or in a tasklet's function or another handler,
goes on or calls something. -/
inductive Choice where
  | go
  | call (c : Call)
  deriving DecidableEq, Repr

/-- One access of the top frame. -/
def exec (g : Shared) (f : Frame) (a : Choice) : Option (Shared × List Frame) :=
  match f with
  | .raiseLoad nr => some (g, [.raiseStore nr g.pending])
  | .raiseStore nr v => some ({ g with pending := v ||| bit nr }, [.raiseUp nr])
  | .raiseUp _ => some ({ g with softirqSem := g.softirqSem + 1 }, [])
  | .scheduleTest v t =>
      if (g.tasklets t).sched then some (g, [])
      else
        some ((g.setTasklet t { g.tasklets t with sched := true }).setHist t
            { g.hist t with scheduled := (g.hist t).scheduled + 1 }, [.enqueue v t])
  | .enqueue v t =>
      -- lock, push and unlock; the lock only has to be free
      if g.lock v then none else some (g.setList v (t :: g.list v), [.raiseLoad v.nr])
  | .disableInc t =>
      some (g.setTasklet t { g.tasklets t with count := (g.tasklets t).count + 1 },
        [.disableWait t])
  | .disableWait t =>
      if (g.tasklets t).run then some (g, [.disableWait t])
      else some (g.setHist t { g.hist t with disabled := (g.hist t).disabled + 1 }, [])
  | .enableDec t =>
      some ((g.setTasklet t { g.tasklets t with count := (g.tasklets t).count - 1 }).setHist t
        { g.hist t with disabled := (g.hist t).disabled - 1 }, [])
  | .killTest t =>
      if (g.tasklets t).sched then some (g, [.killYield t])
      else some (g.setTasklet t { g.tasklets t with sched := true }, [.killWait t])
  | .killYield t =>
      if (g.tasklets t).sched then some (g, [.killYield t]) else some (g, [.killTest t])
  | .killWait t =>
      if (g.tasklets t).run then some (g, [.killWait t]) else some (g, [.killClear t])
  | .killClear t => some (g.setTasklet t { g.tasklets t with sched := false }, [])
  | .actionTake v =>
      if g.lock v then none else some (g.setList v [], [.actionNext v (g.list v)])
  | .actionNext _ [] => some (g, [])
  | .actionNext v (t :: rest) =>
      -- `tasklet_trylock`
      if (g.tasklets t).run then some (g, [.requeue v t rest])
      else some (g.setTasklet t { g.tasklets t with run := true }, [.actionCount v t rest])
  | .actionCount v t rest =>
      if (g.tasklets t).count = 0 then some (g, [.actionClear v t rest])
      else some (g, [.actionBackOff v t rest])
  | .actionClear v t rest =>
      if (g.tasklets t).sched then
        some ((g.setTasklet t { g.tasklets t with sched := false }).setHist t
            { g.hist t with ran := (g.hist t).ran + 1 }, [.actionFunc v t rest])
      else some (g, [.bug v t rest])
  | .bug _ _ _ => none
  | .actionFunc v t rest =>
      match a with
      | .go => some (g, [.actionUnlock v t rest])
      | .call c => some (g, [c.frame, .actionFunc v t rest])
  | .actionUnlock v t rest =>
      some (g.setTasklet t { g.tasklets t with run := false }, [.actionNext v rest])
  | .actionBackOff v t rest =>
      some (g.setTasklet t { g.tasklets t with run := false }, [.requeue v t rest])
  | .requeue v t rest =>
      -- the raise happens under the lock
      if g.lock v then none
      else some ((g.setList v (t :: g.list v)).setLock v true,
        [.raiseLoad v.nr, .requeueUnlock v rest])
  | .requeueUnlock v rest => some (g.setLock v false, [.actionNext v rest])
  | .handler nr =>
      match a with
      | .go => some (g, [])
      | .call c => some (g, [c.frame, .handler nr])
  | .doTest => some (g, if g.pending = 0 then [] else [.doLoad maxSoftirqRetries])
  | .doLoad retries => some (g, [.doClear retries g.pending])
  | .doClear retries p => some ({ g with pending := 0 }, [.doBits retries p 0])
  | .doBits retries p h =>
      if p = 0 then some (g, [.doRetry retries])
      else if p.getLsbD 0 then some (g, [softirqVec h, .doBits retries (p >>> 1) (h + 1)])
      else some (g, [.doBits retries (p >>> 1) (h + 1)])
  | .doRetry retries =>
      some (g, if g.pending ≠ 0 ∧ retries - 1 ≠ 0 then [.doLoad (retries - 1)] else [])
  | .threadDown =>
      match g.softirqSem with
      | 0 => none
      | n + 1 => some ({ g with softirqSem := n }, [.doTest, .threadDown])
  | .kitUp => some ({ g with softirqSem := g.softirqSem + 1 }, [])

/-- After `dde_linux26_softirq_init`: nothing pending, the lists empty, tasklets as
`tasklet_init`, `DECLARE_TASKLET` and `DECLARE_TASKLET_DISABLED` leave them; idle
threads and softirq threads. -/
def code : Code Shared Frame Choice where
  init g := g.pending = 0 ∧ g.softirqSem = 0 ∧ (∀ v, g.list v = [] ∧ g.lock v = false) ∧
    ∀ t, (g.tasklets t).sched = false ∧ (g.tasklets t).run = false ∧
      (g.tasklets t).count.toNat = (g.hist t).disabled ∧
      (g.hist t).scheduled = 0 ∧ (g.hist t).ran = 0
  start stack := stack = [] ∨ stack = [.threadDown]
  call a :=
    match a with
    | .go => none
    | .call c => some c.frame
  exec := exec

def machine : Machine (Conf Shared (List Frame)) (Nat × Choice) := code.machine

/-- The initial state with no tasklet disabled. -/
def afterInit : Shared where
  pending := 0
  softirqSem := 0
  list _ := []
  lock _ := false
  tasklets _ := ⟨false, false, 0⟩
  hist _ := ⟨0, 0, 0⟩

theorem afterInit_init : code.init afterInit :=
  ⟨rfl, rfl, fun _ => ⟨rfl, rfl⟩, fun _ => ⟨rfl, rfl, rfl, rfl, rfl⟩⟩

/-! ## Weights of frames -/

section
variable {M : Type} {w : Frame → M}

/-- The threads begin idle or in front of their `down`. -/
theorem census_start [AddCommMonoid M] (hthread : w .threadDown = 0)
    {c : Conf Shared (List Frame)} (h : machine.init c) : census w c = 0 := by
  apply total_eq_zero
  intro stack hstack
  rcases h.2 stack hstack with rfl | rfl
  · rfl
  · rw [total_singleton, hthread]

/-- The actions of the softirqs are executors of the two lists and other handlers. -/
theorem weight_softirqVec [Zero M] (htake : ∀ v, w (.actionTake v) = 0)
    (hhandler : ∀ nr, w (.handler nr) = 0) (h : Nat) : w (softirqVec h) = 0 := by
  unfold softirqVec
  split
  · exact htake .low
  · split
    · exact htake .hi
    · exact hhandler h

end

/-! ## What the setters leave alone -/

section
variable (g : Shared) (v u : Vec) (t : Nat)

@[simp] theorem setList_same (l : List Nat) : (g.setList v l).list v = l := by
  simp [Shared.setList]

theorem setList_ne (l : List Nat) (h : u ≠ v) : (g.setList v l).list u = g.list u := by
  simp [Shared.setList, h]

@[simp] theorem setTasklet_same (x : TaskletStruct) : (g.setTasklet t x).tasklets t = x := by
  simp [Shared.setTasklet]

@[simp] theorem setHist_same (x : Hist) : (g.setHist t x).hist t = x := by
  simp [Shared.setHist]

end

end LinuxDrivers.Kernel.Softirq
