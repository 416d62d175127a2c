/-
# `LinuxDrivers.Kernel.WakeUp` — whom `__wake_up` wakes

A wait queue is woken with a mask of task states and a number:

    __wake_up(q, mode, nr_exclusive, key)
        for every entry of q, in order:
            if its function answers non-zero, it is exclusive, and
            --nr_exclusive is zero                    stop

`mode` is meant to select the tasks to wake, and `nr_exclusive` to limit how many
exclusive ones are woken.  Both are left to the functions of the entries, which go
through `try_to_wake_up`, and the one of the DDE neither looks at the mask nor answers
anything but zero.

**Proved here.**

    every entry is woken, whatever the mask and the number   (`wakeUp_woken`)
    so the wake-up is selective iff there is nothing to select
                                                          (`wake_up_selective_iff`)
-/
import LinuxDrivers.Basic
import LinuxDrivers.Kernel.Sched

namespace LinuxDrivers.Kernel.WakeUp

/-! ## The code -/

def taskRunning : Word := 0

def taskInterruptible : Word := 1

def taskUninterruptible : Word := 2

/-- The state, any combination of `TASK_*` bits, and the sleep semaphore. -/
structure TaskStruct where
  state : Word
  sleepLock : Nat
  deriving DecidableEq, Repr

abbrev Tasks := Nat → TaskStruct

/-- `try_to_wake_up(p, state, sync)`, with its answer. -/
def tryToWakeUp (ts : Tasks) (p : Nat) (_state : Word) (_sync : Int) : Int × Tasks :=
  (Sched.tryToWakeUpResult, Function.update ts p ⟨taskRunning, (ts p).sleepLock + 1⟩)

/-- The functions an entry may have. -/
inductive WaitQueueFunc where
  | defaultWakeFunction
  | autoremoveWakeFunction
  deriving DecidableEq, Repr

/-- `wait_queue_t` -/
structure WaitQueueEntry where
  flags : Word
  /-- the task -/
  owner : Nat
  func : WaitQueueFunc
  deriving DecidableEq, Repr

def wqFlagExclusive : Word := 0x01

def WaitQueueEntry.exclusive (w : WaitQueueEntry) : Bool := w.flags &&& wqFlagExclusive != 0

/-- The answer, the tasks, and whether the entry stays on the queue. -/
def WaitQueueFunc.call (f : WaitQueueFunc) (ts : Tasks) (w : WaitQueueEntry) (mode : Word)
    (sync : Int) : Int × Tasks × Bool :=
  let (ret, ts) := tryToWakeUp ts w.owner mode sync
  match f with
  | .defaultWakeFunction => (ret, ts, true)
  | .autoremoveWakeFunction => (ret, ts, ret == 0)

/-- What a wake-up leaves behind: the tasks, the queue, and the entries it woke. -/
structure Woken where
  tasks : Tasks
  queue : List WaitQueueEntry
  woken : List WaitQueueEntry

def wakeUpCommon (mode : Word) (sync : Int) : List WaitQueueEntry → Int → Tasks → Woken
  | [], _, ts => ⟨ts, [], []⟩
  | curr :: next, nrExclusive, ts =>
      let (ret, ts, stays) := curr.func.call ts curr mode sync
      let kept := if stays then [curr] else []
      if ret ≠ 0 && curr.exclusive then
        if nrExclusive - 1 = 0 then ⟨ts, kept ++ next, [curr]⟩
        else
          let r := wakeUpCommon mode sync next (nrExclusive - 1) ts
          ⟨r.tasks, kept ++ r.queue, curr :: r.woken⟩
      else
        let r := wakeUpCommon mode sync next nrExclusive ts
        ⟨r.tasks, kept ++ r.queue, curr :: r.woken⟩

/-- `__wake_up`; the lock of the queue is held all the while. -/
def wakeUp (q : List WaitQueueEntry) (mode : Word) (nrExclusive : Int) (ts : Tasks) : Woken :=
  wakeUpCommon mode 0 q nrExclusive ts

/-! ## What it is for -/

def inMask (ts : Tasks) (mode : Word) (w : WaitQueueEntry) : Bool :=
  (ts w.owner).state &&& mode != 0

/-- The tasks woken are in a state of the mask, no such task that is not exclusive is left
out, and of the exclusive ones only so many are woken. -/
structure Selective (q : List WaitQueueEntry) (mode : Word) (nrExclusive : Int) (ts : Tasks)
    (r : Woken) : Prop where
  only : ∀ w ∈ r.woken, inMask ts mode w = true
  every : ∀ w ∈ q, w.exclusive = false → inMask ts mode w = true → w ∈ r.woken
  limited : 0 < nrExclusive → (r.woken.countP (·.exclusive) : Int) ≤ nrExclusive

/-! ## What it does -/

section
variable (mode : Word) (sync : Int)

/-- No function of an entry answers anything but zero, or takes its entry off. -/
theorem call_eq (f : WaitQueueFunc) (ts : Tasks) (w : WaitQueueEntry) :
    f.call ts w mode sync = (0, (tryToWakeUp ts w.owner mode sync).2, true) := by
  cases f <;> rfl

/-- One round of the loop. -/
theorem wakeUpCommon_cons (w : WaitQueueEntry) (next : List WaitQueueEntry) (nrExclusive : Int)
    (ts : Tasks) :
    wakeUpCommon mode sync (w :: next) nrExclusive ts =
      let r := wakeUpCommon mode sync next nrExclusive (tryToWakeUp ts w.owner mode sync).2
      ⟨r.tasks, w :: r.queue, w :: r.woken⟩ := by
  simp [wakeUpCommon, call_eq]

theorem wakeUpCommon_woken (q : List WaitQueueEntry) (nrExclusive : Int) :
    ∀ ts, (wakeUpCommon mode sync q nrExclusive ts).woken = q ∧
      (wakeUpCommon mode sync q nrExclusive ts).queue = q := by
  induction q with
  | nil =>
      intro ts
      exact ⟨rfl, rfl⟩
  | cons w next ih =>
      intro ts
      obtain ⟨hwoken, hqueue⟩ := ih (tryToWakeUp ts w.owner mode sync).2
      rw [wakeUpCommon_cons]
      exact ⟨congrArg (w :: ·) hwoken, congrArg (w :: ·) hqueue⟩

end

section
variable (q : List WaitQueueEntry) (mode : Word) (nrExclusive : Int) (ts : Tasks)

/-- Every entry is woken and stays on the queue. -/
theorem wakeUp_woken :
    (wakeUp q mode nrExclusive ts).woken = q ∧ (wakeUp q mode nrExclusive ts).queue = q :=
  wakeUpCommon_woken mode 0 q nrExclusive ts

/-- **When a wake-up is selective.**  Exactly if every waiter is in a state of the mask, and
there are not more exclusive waiters than are to be woken. -/
theorem wake_up_selective_iff :
    Selective q mode nrExclusive ts (wakeUp q mode nrExclusive ts) ↔
      (∀ w ∈ q, inMask ts mode w = true) ∧
        (0 < nrExclusive → (q.countP (·.exclusive) : Int) ≤ nrExclusive) := by
  have hwoken := (wakeUp_woken q mode nrExclusive ts).1
  constructor
  · intro hsel
    exact ⟨hwoken ▸ hsel.only, hwoken ▸ hsel.limited⟩
  · rintro ⟨hmask, hcount⟩
    refine ⟨?_, ?_, ?_⟩
    · rw [hwoken]
      exact hmask
    · intro w hw _ _
      rw [hwoken]
      exact hw
    · rw [hwoken]
      exact hcount

end

/-- **`wake_up` of two exclusive waiters wakes both.** -/
theorem wake_up_two_exclusive :
    ¬ Selective [⟨1, 0, .defaultWakeFunction⟩, ⟨1, 1, .defaultWakeFunction⟩]
      (taskInterruptible ||| taskUninterruptible) 1 (fun _ => ⟨taskInterruptible, 0⟩)
      (wakeUp [⟨1, 0, .defaultWakeFunction⟩, ⟨1, 1, .defaultWakeFunction⟩]
        (taskInterruptible ||| taskUninterruptible) 1 (fun _ => ⟨taskInterruptible, 0⟩)) := by
  intro hsel
  have htwo := hsel.limited (by decide)
  revert htwo
  decide

end LinuxDrivers.Kernel.WakeUp
