/-
# `LinuxDrivers.Kernel.WorkQueue` — work items, from `queue_work` to their function

`kernel/workqueue.c`, for one work queue and its worker thread:

    queue_work(w):          set PENDING, or return 0 if it is set
                            lock; data = cwq and the flags; add w to the list;
                            wake the worker; unlock; return 1
    run_workqueue:          lock; while the list is not empty:
                              take the first item off; unlock; run it; lock
                            unlock
    run_scheduled_work(w):  if w is pending and on the list:
                            lock; test again; take it off; unlock; run it
    to run w:               clear PENDING;  w->func(w)

and the worker, which sleeps on `more_work` while it finds the list empty.

`PENDING` stands for one place of the item: in the hands of the thread that queues it, on
the list, or in the hands of a thread that has taken it off and not yet released it.  That
is the account of an item (`Account`), and with it come what is counted beside the code:
how often the item was queued, taken off and run.

A work function may queue and run items, itself included, and it may sleep.

**Proved here.**

    the account of one item is kept by every access of every thread    (`exec_account`)
    the `BUG_ON` checks are not reached                                 (`no_bug`)
-/
import LinuxDrivers.Kernel.Sched
import LinuxDrivers.Lib.Stack

namespace LinuxDrivers.Kernel.WorkQueue

open LinuxDrivers.Lib LinuxDrivers.Kernel.Sched

/-! ## The state -/

/-- What the pointer part of `work->data` refers to. -/
inductive WqData where
  | null
  | cwq
  deriving DecidableEq, Repr

/-- `work->data`: a pointer and two flags in one word. -/
structure WorkData where
  wq : WqData
  noautorel : Bool
  pending : Bool
  deriving DecidableEq, Repr

/-- The history of an item. -/
structure Hist where
  /-- `queue_work` calls that found `PENDING` clear -/
  queued : Nat
  /-- how often it was taken off the list -/
  removed : Nat
  /-- runs of the function that have begun -/
  ran : Nat
  deriving DecidableEq, Repr

structure Shared where
  data : Nat → WorkData
  /-- `cwq->lock` is taken -/
  lock : Bool
  /-- `cwq->worklist` -/
  worklist : List Nat
  runDepth : Nat
  /-- the lock of `cwq->more_work` is taken -/
  moreLock : Bool
  /-- the worker's entry is on `cwq->more_work` -/
  moreWork : Bool
  worker : TaskStruct
  started : Bool
  /-- `kthread_should_stop()`, in the worker -/
  shouldStop : Bool
  hist : Nat → Hist

namespace Shared

def setData (g : Shared) (w : Nat) (x : WorkData) : Shared :=
  { g with data := Function.update g.data w x }

def setHist (g : Shared) (w : Nat) (x : Hist) : Shared :=
  { g with hist := Function.update g.hist w x }

def setWorkerState (g : Shared) (st : TaskState) : Shared :=
  { g with worker := { g.worker with state := st } }

/-- The item `w` is taken off the list, `rest` is left. -/
def takeOff (g : Shared) (w : Nat) (rest : List Nat) : Shared :=
  ({ g with worklist := rest }).setHist w { g.hist w with removed := (g.hist w).removed + 1 }

end Shared

/-! ## The code -/

/-- What a thread, or a work function, may call. -/
inductive Call where
  | queueWork (w : Nat)
  | runScheduledWork (w : Nat)
  /-- of the worker: a wake-up that has nothing to do with the list -/
  | wakeUpProcess
  /-- of the worker: the first part of `kthread_stop` -/
  | kthreadStop
  deriving DecidableEq, Repr

/-- Where a call stands, named after the access it makes next. -/
inductive Frame where
  /-- `queue_work`, `__queue_work`, `set_wq_data` -/
  | queueTest (w : Nat)
  | queueBug (w : Nat)
  | queueLock (w : Nat)
  | setBug (w : Nat)
  | setRead (w : Nat)
  | setStore (w : Nat) (noautorel : Bool)
  | addTail (w : Nat)
  | queueUnlock
  /-- `wake_up(&cwq->more_work)` -/
  | wakeLock
  | wakeStore
  | wakeUp
  | wakeUnlock
  /-- `run_scheduled_work` -/
  | schedPending (w : Nat)
  | schedEmpty (w : Nat)
  | schedWq (w : Nat)
  /-- `__run_work` -/
  | runLock (w : Nat)
  | runWq (w : Nat)
  | runPending (w : Nat)
  | runDel (w : Nat)
  | runFail (w : Nat)
  | runUnlock (w : Nat)
  | runAfter
  | runDone
  /-- running an item -/
  | autorel (w : Nat)
  | release (w : Nat)
  | start (w : Nat)
  | func (w : Nat)
  /-- `run_workqueue`, as the worker calls it -/
  | loopLock
  | loopNext
  | loopUnlock (w : Nat)
  | loopBug (w : Nat)
  | loopAgain
  | loopEnd
  /-- `worker_thread` -/
  | workerStart
  | workerState
  | workerStop
  | workerAdd
  | workerTest
  | workerSwitch
  | workerDown
  | workerRunning
  | workerRemove
  | workerRun
  | workerExit
  /-- `wake_up_process(worker)` -/
  | processStore
  | processUp
  | stop
  /-- stopped in a `BUG_ON` about `w` -/
  | bug (w : Nat)
  | panicked
  deriving DecidableEq, Repr

def Call.frame : Call → Frame
  | .queueWork w => .queueTest w
  | .runScheduledWork w => .schedPending w
  | .wakeUpProcess => .processStore
  | .kthreadStop => .stop

/-- What code outside this file does next. -/
inductive Choice where
  | go
  | call (c : Call)
  /-- an idle thread becomes the worker -/
  | worker
  /-- a work function that the worker runs leaves its task with this state and these
  tokens -/
  | sleep (task : TaskStruct)
  deriving DecidableEq, Repr

/-- One access of the top frame.  The list and the queue `more_work` change only under their
locks; a test under a lock and the change that follows it are one access. -/
def exec (g : Shared) (f : Frame) (a : Choice) : Option (Shared × List Frame) :=
  match f with
  | .queueTest w =>
      -- `test_and_set_bit`
      if (g.data w).pending then some (g, [])
      else
        some ((g.setData w { g.data w with pending := true }).setHist w
          { g.hist w with queued := (g.hist w).queued + 1 }, [.queueBug w])
  | .queueBug w => some (g, if w ∈ g.worklist then [.bug w] else [.queueLock w])
  | .queueLock w => if g.lock then none else some ({ g with lock := true }, [.setBug w])
  | .setBug w => some (g, if (g.data w).pending then [.setRead w] else [.bug w])
  | .setRead w => some (g, [.setStore w (g.data w).noautorel])
  | .setStore w noautorel => some (g.setData w ⟨.cwq, noautorel, true⟩, [.addTail w])
  | .addTail w => some ({ g with worklist := g.worklist ++ [w] }, [.wakeLock, .queueUnlock])
  | .queueUnlock => some ({ g with lock := false }, [])
  | .wakeLock =>
      if g.moreLock then none
      else some ({ g with moreLock := true }, if g.moreWork then [.wakeStore] else [.wakeUnlock])
  | .wakeStore => some (g.setWorkerState .running, [.wakeUp])
  | .wakeUp =>
      some ({ g with worker := { g.worker with sleepLock := g.worker.sleepLock + 1 } },
        [.wakeUnlock])
  | .wakeUnlock => some ({ g with moreLock := false }, [])
  | .schedPending w => some (g, if (g.data w).pending then [.schedEmpty w] else [])
  | .schedEmpty w => some (g, if w ∈ g.worklist then [.schedWq w] else [])
  | .schedWq w => some (g, if (g.data w).wq = .null then [] else [.runLock w])
  | .runLock w => if g.lock then none else some ({ g with lock := true }, [.runWq w])
  | .runWq w => some (g, if (g.data w).wq = .cwq then [.runPending w] else [.runFail w])
  | .runPending w => some (g, if (g.data w).pending then [.runDel w] else [.runFail w])
  | .runDel w =>
      if w ∈ g.worklist then some (g.takeOff w (g.worklist.erase w), [.runUnlock w])
      else some (g, [.runFail w])
  | .runFail w => some ({ g with lock := false }, [.schedPending w])
  | .runUnlock w => some ({ g with lock := false }, [.autorel w, .runAfter])
  | .runAfter => if g.lock then none else some ({ g with lock := true }, [.runDone])
  | .runDone => some ({ g with lock := false }, [])
  | .autorel w => some (g, if (g.data w).noautorel then [.start w] else [.release w])
  | .release w => some (g.setData w { g.data w with pending := false }, [.start w])
  | .start w => some (g.setHist w { g.hist w with ran := (g.hist w).ran + 1 }, [.func w])
  | .func w =>
      match a with
      | .go => some (g, [])
      | .call c => some (g, [c.frame, .func w])
      | .worker => none
      | .sleep task => if g.runDepth = 0 then none else some ({ g with worker := task }, [.func w])
  | .loopLock =>
      if g.lock then none
      else some ({ g with lock := true, runDepth := g.runDepth + 1 }, [.loopNext])
  | .loopNext =>
      match g.worklist with
      | [] => some (g, [.loopEnd])
      | w :: rest => some (g.takeOff w rest, [.loopUnlock w])
  | .loopUnlock w => some ({ g with lock := false }, [.loopBug w])
  | .loopBug w => some (g, if (g.data w).wq = .cwq then [.autorel w, .loopAgain] else [.bug w])
  | .loopAgain => if g.lock then none else some ({ g with lock := true }, [.loopNext])
  | .loopEnd => some ({ g with lock := false, runDepth := g.runDepth - 1 }, [.workerState])
  | .workerStart => if g.started then none else some ({ g with started := true }, [.workerState])
  | .workerState => some (g.setWorkerState .interruptible, [.workerStop])
  | .workerStop => some (g, if g.shouldStop then [.workerExit] else [.workerAdd])
  | .workerAdd => if g.moreLock then none else some ({ g with moreWork := true }, [.workerTest])
  | .workerTest => some (g, if g.worklist = [] then [.workerSwitch] else [.workerRunning])
  | .workerSwitch =>
      match schedule g.worker.state with
      | .yield => some (g, [.workerRemove])
      | .down => some (g, [.workerDown])
      | .panic => some (g, [.panicked])
  | .workerDown =>
      match g.worker.sleepLock with
      | 0 => none
      | n + 1 => some ({ g with worker := { g.worker with sleepLock := n } }, [.workerRemove])
  | .workerRunning => some (g.setWorkerState .running, [.workerRemove])
  | .workerRemove => if g.moreLock then none else some ({ g with moreWork := false }, [.workerRun])
  | .workerRun => some (g, if g.worklist = [] then [.workerState] else [.loopLock])
  | .workerExit => some (g.setWorkerState .running, [])
  | .processStore => some (g.setWorkerState .running, [.processUp])
  | .processUp =>
      some ({ g with worker := { g.worker with sleepLock := g.worker.sleepLock + 1 } }, [])
  | .stop => some ({ g with shouldStop := true }, [])
  | .bug _ => none
  | .panicked => none

/-- After `create_workqueue`, with items as `INIT_WORK` leaves them, any tokens in the worker's
semaphore, and idle threads. -/
def code : Code Shared Frame Choice where
  init g := (∀ w, g.data w = ⟨.null, false, false⟩ ∧ g.hist w = ⟨0, 0, 0⟩) ∧ g.lock = false ∧
    g.worklist = [] ∧ g.runDepth = 0 ∧ g.moreLock = false ∧ g.moreWork = false ∧
    g.started = false
  start stack := stack = []
  call a :=
    match a with
    | .call c => some c.frame
    | .worker => some .workerStart
    | _ => none
  exec := exec

def machine : Machine (Conf Shared (List Frame)) (Nat × Choice) := code.machine

/-! ## Where an item can be -/

inductive Place where
  /-- in the hands of a `queue_work` -/
  | adding
  /-- about to be stored as not released automatically -/
  | flagged
  /-- its data is relied on to refer to the queue -/
  | relied
  /-- taken off the list, and not released -/
  | taken
  /-- released, and about to be run -/
  | ready
  | bug

@[simp] def places (w : Nat) : Frame → Place → Nat
  | .queueBug v, .adding | .queueLock v, .adding | .setBug v, .adding | .setRead v, .adding
  | .setStore v _, .adding | .addTail v, .adding => if v = w then 1 else 0
  | .setStore v true, .flagged => if v = w then 1 else 0
  | .addTail v, .relied | .loopUnlock v, .relied | .loopBug v, .relied => if v = w then 1 else 0
  | .runUnlock v, .taken | .loopUnlock v, .taken | .loopBug v, .taken | .autorel v, .taken
  | .release v, .taken => if v = w then 1 else 0
  | .start v, .ready => if v = w then 1 else 0
  | .bug v, .bug => if v = w then 1 else 0
  | _, _ => 0

/-- A call begins with nothing in its hands. -/
@[simp] theorem places_frame (w : Nat) (c : Call) (k : Place) : places w c.frame k = 0 := by
  cases c <;> cases k <;> rfl

/-- The account of one item, `n` counting the frames it is in the hands of. -/
structure Account (w : Nat) (g : Shared) (n : Place → Nat) : Prop where
  auto : (g.data w).noautorel = false ∧ n .flagged = 0
  wq : 0 < n .relied + g.worklist.count w → (g.data w).wq = .cwq
  pending : n .adding + g.worklist.count w + n .taken = (g.data w).pending.toNat
  queued : (g.hist w).queued = (g.hist w).removed + n .adding + g.worklist.count w
  removed : (g.hist w).removed = (g.hist w).ran + n .taken + n .ready
  bug : n .bug = 0

/-- Steps that do nothing to the item. -/
theorem Account.step {w : Nat} {g g' : Shared} {n m : Place → Nat} (h : Account w g n)
    (hd : g'.data w = g.data w) (hl : g'.worklist.count w = g.worklist.count w)
    (hh : g'.hist w = g.hist w) (hm : ∀ k, m k = n k) : Account w g' m := by
  obtain rfl : m = n := funext hm
  exact ⟨by rw [hd]; exact h.auto, by rw [hd, hl]; exact h.wq, by rw [hd, hl]; exact h.pending,
    by rw [hl, hh]; exact h.queued, by rw [hh]; exact h.removed, h.bug⟩

/-! ## What each access does to the account of its own item -/

section
variable {w : Nat} {g : Shared} {r : Place → Nat}

/-- At most one of the places is taken. -/
theorem Account.le_one {n : Place → Nat} (h : Account w g n) :
    n .adding + g.worklist.count w + n .taken ≤ 1 := by
  rw [h.pending]
  exact Bool.toNat_le _

/-- A `queue_work` that finds `PENDING` clear makes a place for the item. -/
theorem Account.queue (hfree : (g.data w).pending = false)
    (h : Account w g (r + places w (.queueTest w))) :
    Account w ((g.setData w { g.data w with pending := true }).setHist w
      { g.hist w with queued := (g.hist w).queued + 1 }) (r + places w (.queueBug w)) := by
  obtain ⟨hauto, hwq, hpending, hqueued, hremoved, hbug⟩ := h
  rw [hfree] at hpending
  constructor <;> simp [Shared.setData, Shared.setHist] at * <;> first | assumption | omega

/-- The item in the hands of a `queue_work` is not on the list, and pending. -/
theorem Account.adding_ok {f : Frame} (hf : places w f .adding = 1)
    (h : Account w g (r + places w f)) : w ∉ g.worklist ∧ (g.data w).pending = true := by
  have hle := h.le_one
  have hpending := h.pending
  simp only [Pi.add_apply, hf] at hle hpending
  constructor
  · intro hmem
    have hpos := List.count_pos_iff.mpr hmem
    omega
  · cases hp : (g.data w).pending with
    | true => rfl
    | false =>
        rw [hp] at hpending
        simp only [Bool.toNat_false] at hpending
        omega

theorem Account.store (h : Account w g (r + places w (.setStore w false))) :
    Account w (g.setData w ⟨.cwq, false, true⟩) (r + places w (.addTail w)) := by
  have hpend := (h.adding_ok (by simp)).2
  obtain ⟨hauto, hwq, hpending, hqueued, hremoved, hbug⟩ := h
  rw [hpend] at hpending
  constructor <;> simp [Shared.setData] at * <;> first | assumption | omega

/-- The item moves from the hands of the thread to the list. -/
theorem Account.add (h : Account w g (r + places w (.addTail w))) :
    Account w { g with worklist := g.worklist ++ [w] } r := by
  obtain ⟨hauto, hwq, hpending, hqueued, hremoved, hbug⟩ := h
  have hcount : (g.worklist ++ [w]).count w = g.worklist.count w + 1 := by simp
  simp only [Pi.add_apply, places, if_true] at hauto hwq hpending hqueued hremoved hbug
  refine ⟨hauto, fun _ => hwq (by omega), ?_, ?_, hremoved, hbug⟩
  · rw [hcount, ← hpending]
    omega
  · rw [hcount]
    show (g.hist w).queued = (g.hist w).removed + _ + _
    omega

/-- The item moves from the list to the hands of a thread. -/
theorem Account.take {f : Frame} {rest : List Nat} (hf : f = .runUnlock w ∨ f = .loopUnlock w)
    (hrest : rest.count w + 1 = g.worklist.count w) (h : Account w g r) :
    Account w (g.takeOff w rest) (r + places w f) := by
  obtain ⟨hauto, hwq, hpending, hqueued, hremoved, hbug⟩ := h
  have hplaces : places w f .adding = 0 ∧ places w f .flagged = 0 ∧ places w f .taken = 1 ∧
      places w f .ready = 0 ∧ places w f .bug = 0 := by
    rcases hf with rfl | rfl <;> simp
  obtain ⟨hadding, hflagged, htaken, hready, hnobug⟩ := hplaces
  have hhist : (g.takeOff w rest).hist w = { g.hist w with removed := (g.hist w).removed + 1 } := by
    simp [Shared.takeOff, Shared.setHist]
  have hlist : (g.takeOff w rest).worklist = rest := rfl
  constructor
  · rw [Pi.add_apply, hflagged]
    exact hauto
  · intro _
    exact hwq (by omega)
  · rw [Pi.add_apply, Pi.add_apply, hadding, htaken, hlist]
    show _ = (g.data w).pending.toNat
    omega
  · rw [hhist, Pi.add_apply, hadding, hlist]
    show (g.hist w).queued = (g.hist w).removed + 1 + _ + _
    omega
  · rw [hhist, Pi.add_apply, Pi.add_apply, htaken, hready]
    show (g.hist w).removed + 1 = (g.hist w).ran + _ + _
    omega
  · rw [Pi.add_apply, hnobug]
    exact hbug

/-- The `BUG_ON` of `run_workqueue` was the last to rely on the data. -/
theorem Account.checked (h : Account w g (r + places w (.loopBug w))) :
    Account w g (r + places w (.autorel w)) := by
  obtain ⟨hauto, hwq, hpending, hqueued, hremoved, hbug⟩ := h
  refine ⟨hauto, ?_, hpending, hqueued, hremoved, hbug⟩
  intro hpos
  refine hwq (Nat.lt_of_lt_of_le hpos ?_)
  simp

/-- `PENDING` is cleared and the place given up. -/
theorem Account.release (h : Account w g (r + places w (.release w))) :
    Account w (g.setData w { g.data w with pending := false }) (r + places w (.start w)) := by
  have hle := h.le_one
  obtain ⟨hauto, hwq, hpending, hqueued, hremoved, hbug⟩ := h
  constructor <;> simp [Shared.setData] at * <;> first | assumption | omega

theorem Account.start (h : Account w g (r + places w (.start w))) :
    Account w (g.setHist w { g.hist w with ran := (g.hist w).ran + 1 }) r := by
  obtain ⟨hauto, hwq, hpending, hqueued, hremoved, hbug⟩ := h
  constructor <;> simp [Shared.setHist] at * <;> first | assumption | omega

end

/-! ## The account is kept -/

/-- The item an access is about. -/
def Frame.subject : Frame → Option Nat
  | .queueTest v | .queueBug v | .queueLock v | .setBug v | .setRead v | .setStore v _ | .addTail v
  | .schedPending v | .schedEmpty v | .schedWq v | .runLock v | .runWq v | .runPending v | .runDel v
  | .runFail v | .runUnlock v | .autorel v | .release v | .start v | .loopUnlock v | .loopBug v =>
      some v
  | _ => none

section
variable {w : Nat} {g g' : Shared} {f : Frame} {new : List Frame} {a : Choice} {r : Place → Nat}

/-- Two items do not share an account. -/
theorem exec_account_other (hf : ∀ v, f.subject = some v → v ≠ w)
    (hs : exec g f a = some (g', new)) (h : Account w g (r + places w f)) :
    Account w g' (r + total (places w) new) := by
  cases f with
  | setStore v noautorel =>
      have hv := hf v rfl
      cases hs
      exact h.step (by simp [Shared.setData, Ne.symm hv]) rfl rfl
        (fun k => by cases noautorel <;> cases k <;> simp [hv])
  | queueTest v | release v | start v =>
      have hv := hf v rfl
      simp only [exec] at hs
      (try split at hs) <;> cases hs <;> exact h.step
        (by simp [Shared.setData, Shared.setHist, Ne.symm hv]) rfl
        (by simp [Shared.setData, Shared.setHist, Ne.symm hv])
        (fun k => by cases k <;> simp [hv])
  | addTail v =>
      have hv := hf v rfl
      cases hs
      refine h.step rfl ?_ rfl (fun k => by cases k <;> simp [hv])
      simp [List.count_append, hv]
  | runDel v =>
      have hv := hf v rfl
      simp only [exec] at hs
      split at hs <;> cases hs
      · refine h.step rfl ?_ ?_ (fun k => by cases k <;> simp [hv])
        · exact List.count_erase_of_ne (Ne.symm hv)
        · simp [Shared.takeOff, Shared.setHist, Ne.symm hv]
      · exact h.step rfl rfl rfl (fun k => by cases k <;> simp)
  | loopNext =>
      simp only [exec] at hs
      split at hs
      · cases hs
        exact h.step rfl rfl rfl (fun k => by cases k <;> simp)
      · rename_i v rest hlist
        cases hs
        rw [total_singleton]
        by_cases hv : v = w
        · subst hv
          refine Account.take (.inr rfl) (by simp [hlist]) ?_
          exact h.step rfl rfl rfl (fun k => by cases k <;> simp)
        · refine h.step rfl ?_ ?_ (fun k => by cases k <;> simp [hv])
          · show rest.count w = _
            rw [hlist, List.count_cons_of_ne hv]
          · simp [Shared.takeOff, Shared.setHist, Ne.symm hv]
  | queueBug v | setBug v | schedPending v | schedEmpty v | schedWq v | runWq v | runPending v
  | autorel v | loopBug v =>
      have hv := hf v rfl
      cases hs
      refine h.step rfl rfl rfl (fun k => ?_)
      split <;> cases k <;> simp [hv]
  | setRead v =>
      have hv := hf v rfl
      cases hs
      refine h.step rfl rfl rfl (fun k => ?_)
      cases (g.data v).noautorel <;> cases k <;> simp [hv]
  | queueLock v | runLock v =>
      have hv := hf v rfl
      simp only [exec] at hs
      split at hs <;> cases hs
      exact h.step rfl rfl rfl (fun k => by cases k <;> simp [hv])
  | runFail v | runUnlock v | loopUnlock v =>
      have hv := hf v rfl
      cases hs
      exact h.step rfl rfl rfl (fun k => by cases k <;> simp [hv])
  | func v =>
      -- the item is out of its hands
      cases a with
      | go =>
          cases hs
          exact h.step rfl rfl rfl (fun k => by cases k <;> simp)
      | call c =>
          cases hs
          exact h.step rfl rfl rfl (fun k => by cases c <;> cases k <;> simp [Call.frame])
      | worker => cases hs
      | sleep task =>
          simp only [exec] at hs
          split at hs <;> cases hs
          exact h.step rfl rfl rfl (fun k => by cases k <;> simp)
  | wakeLock =>
      simp only [exec] at hs
      split at hs <;> cases hs
      refine h.step rfl rfl rfl (fun k => ?_)
      split <;> cases k <;> simp
  | workerStop | workerTest | workerRun =>
      cases hs
      refine h.step rfl rfl rfl (fun k => ?_)
      split <;> cases k <;> simp
  | _ =>
      simp only [exec] at hs
      (try split at hs) <;> cases hs <;>
        exact h.step rfl rfl rfl (fun k => by cases k <;> simp)

/-- The accesses to the item itself. -/
theorem exec_account_own (hf : f.subject = some w) (hs : exec g f a = some (g', new))
    (h : Account w g (r + places w f)) : Account w g' (r + total (places w) new) := by
  cases f with
  | queueTest v =>
      cases hf
      simp only [exec] at hs
      split at hs
      · cases hs
        exact h.step rfl rfl rfl (fun k => by cases k <;> simp)
      · rename_i hfree
        cases hs
        rw [total_singleton]
        exact Account.queue (by simpa using hfree) h
  | queueBug v =>
      cases hf
      cases hs
      rw [if_neg (h.adding_ok (by simp)).1]
      exact h.step rfl rfl rfl (fun k => by cases k <;> simp)
  | setBug v =>
      cases hf
      cases hs
      rw [if_pos (h.adding_ok (by simp)).2]
      exact h.step rfl rfl rfl (fun k => by cases k <;> simp)
  | setRead v =>
      cases hf
      cases hs
      rw [h.auto.1]
      exact h.step rfl rfl rfl (fun k => by cases k <;> simp)
  | setStore v noautorel =>
      cases hf
      cases hs
      rw [total_singleton]
      cases noautorel with
      | false => exact h.store
      | true => exact absurd h.auto.2 (by simp)
  | addTail v =>
      cases hf
      cases hs
      exact Account.step h.add rfl rfl rfl (fun k => by cases k <;> simp)
  | runDel v =>
      cases hf
      simp only [exec] at hs
      split at hs
      · rename_i hmem
        cases hs
        have hpos := List.count_pos_iff.mpr hmem
        rw [total_singleton]
        refine Account.take (.inl rfl) ?_ (h.step rfl rfl rfl (fun k => by cases k <;> simp))
        rw [List.count_erase_self]
        omega
      · cases hs
        exact h.step rfl rfl rfl (fun k => by cases k <;> simp)
  | autorel v =>
      cases hf
      cases hs
      rw [h.auto.1]
      exact h.step rfl rfl rfl (fun k => by cases k <;> simp)
  | release v =>
      cases hf
      cases hs
      rw [total_singleton]
      exact h.release
  | start v =>
      cases hf
      cases hs
      exact Account.step h.start rfl rfl rfl (fun k => by cases k <;> simp)
  | loopBug v =>
      cases hf
      cases hs
      have hrelied : 0 < (r + places w (.loopBug w)) .relied + g.worklist.count w := by
        simp only [Pi.add_apply, places, if_true]
        omega
      rw [if_pos (h.wq hrelied)]
      exact Account.step h.checked rfl rfl rfl (fun k => by cases k <;> simp)
  | schedPending v | schedEmpty v | schedWq v | runWq v | runPending v =>
      cases hs
      refine h.step rfl rfl rfl (fun k => ?_)
      split <;> cases k <;> simp
  | queueLock v | runLock v =>
      simp only [exec] at hs
      split at hs <;> cases hs
      exact h.step rfl rfl rfl (fun k => by cases k <;> simp)
  | runFail v | runUnlock v | loopUnlock v =>
      cases hs
      exact h.step rfl rfl rfl (fun k => by cases k <;> simp)
  | _ => cases hf

theorem exec_account (hs : exec g f a = some (g', new)) (h : Account w g (r + places w f)) :
    Account w g' (r + total (places w) new) := by
  by_cases hf : f.subject = some w
  · exact exec_account_own hf hs h
  · refine exec_account_other ?_ hs h
    rintro v hv rfl
    exact hf hv

end

section
variable {c : Conf Shared (List Frame)}

/-- The account of every item, in every reachable state. -/
theorem account (h : machine.Reachable c) (w : Nat) :
    Account w c.shared (census (places w) c) := by
  refine Code.balance (C := code) (places w) (Account w) ?_ ?_ ?_ h
  · intro c hc
    rw [Code.census_init (fun _ h => h) (places w) hc]
    obtain ⟨⟨hitems, -, hlist, -⟩, -⟩ := hc
    obtain ⟨hdata, hhist⟩ := hitems w
    constructor <;> simp [hdata, hhist, hlist]
  · intro g a f r hcall hr
    cases a with
    | call c =>
        cases hcall
        exact hr.step rfl rfl rfl (fun k => by simp [-places])
    | worker =>
        cases hcall
        exact hr.step rfl rfl rfl (fun k => by cases k <;> simp)
    | go => cases hcall
    | sleep task => cases hcall
  · intro c i a f rest g new r _ _ _ _ hs hr
    exact exec_account hs hr

/-- No thread is stopped in a `BUG_ON`. -/
theorem no_bug (h : machine.Reachable c) (w : Nat) :
    ∀ stack ∈ c.pool, Frame.bug w ∉ stack := by
  intro stack hstack hbug
  obtain ⟨i, hi⟩ := List.getElem?_of_mem hstack
  have hnone := (account h w).bug
  rw [census_apply] at hnone
  have hle := le_census (w := fun f => places w f .bug) hi hbug
  have hone : places w (.bug w) .bug = 1 := if_pos rfl
  rw [hnone] at hle
  omega

end

end LinuxDrivers.Kernel.WorkQueue
