/-
# `LinuxDrivers.Kernel.WaitEvent` — when `wait_event` and `__wake_up` lose no wake-up

The wait queue of the code: a head and entries on the stacks of the sleepers, linked both ways,
and a spin lock.

    list_add(new, head):    next = head->next;
                            next->prev = new; new->next = next; new->prev = head; head->next = new
    list_del_init(e):       prev = e->prev; next = e->next;
                            next->prev = prev; prev->next = next; e->next = e; e->prev = e
    __wake_up_common:       pos = head->next; n = pos->next
                            while pos is not the head:  wake its task; pos = n; n = pos->next

An operation first reads the neighbours of the entry, and then stores.  With the lock these are
still the neighbours when it stores, and the queue is a list as in `Kernel.WaitQueue`.  Without, an
entry is linked in where another one has been added meanwhile, and that one is lost: two threads
that hold the lock of a `DECLARE_WAIT_QUEUE_HEAD` at once, each having initialised it, are enough.

The stores of one operation are one step.

**Proved here.**

    with the lock, what the code reaches is what `Kernel.WaitQueue` reaches    (`simulated`)
    no re-initialisation under a holder ⟹ no wake-up is lost          (`wait_event_not_lost`)
    a run in which two sleepers initialise the lock, and one never wakes  (`wakeup_lost`)
-/
import LinuxDrivers.Kernel.LazyLock
import LinuxDrivers.Kernel.WaitQueue
import LinuxDrivers.Lib.LinkedList

namespace LinuxDrivers.Kernel.WaitEvent

open LinuxDrivers.Lib LinuxDrivers.Kernel.Sched

/-! ## Sleepers and wakers, one access at a time -/

/-- Where a thread stands.  A sleeper remembers the state it sleeps in; a node it has read is in
its registers. -/
inductive Pc where
  /-- `wait_event`: about to test the condition for the first time -/
  | waitEvent (st : TaskState)
  /-- `DEFINE_WAIT` -/
  | defineWait (st : TaskState)
  /-- `prepare_to_wait` -/
  | prepareLock (st : TaskState)
  | prepareEmpty (st : TaskState)
  | addRead (st : TaskState)
  | addStore (next : Node Nat) (st : TaskState)
  | prepareState (st : TaskState)
  | prepareUnlock (st : TaskState)
  /-- about to test the condition in the loop -/
  | test (st : TaskState)
  /-- in `schedule()`: about to read `current->state` -/
  | switch (st : TaskState)
  /-- in `schedule()`: in `dde_kit_sem_down` -/
  | down (st : TaskState)
  /-- `finish_wait` -/
  | finishState (st : TaskState)
  | finishCheck (st : TaskState)
  | finishLock (st : TaskState)
  | delRead (st : TaskState)
  | delStore (prev next : Node Nat) (st : TaskState)
  | finishUnlock (st : TaskState)
  /-- `wait_event` has returned -/
  | awake (st : TaskState)
  | panicked
  /-- about to make the condition true -/
  | setCondition
  /-- `__wake_up` -/
  | wakeLock
  | wakeFirst
  | wakeNext (pos : Node Nat)
  | wakeStore (p : Nat) (n : Node Nat)
  | wakeUp (p : Nat) (n : Node Nat)
  | wakeUnlock
  /-- the waker has finished -/
  | finished
  deriving DecidableEq, Repr

structure Shared where
  condition : Bool
  /-- `q->lock` is taken -/
  lock : Bool
  /-- of `q->task_list` and of the entries; the entry of a sleeper is its thread's index -/
  links : Links Nat
  tasks : Tasks

/-- `autoremove_wake_function` after its call of `default_wake_function`, which has answered
`ret`. -/
def autoremoveWakeFunction (ret : Int) (p : Nat) (s : Links Nat) : Links Nat :=
  if ret ≠ 0 then s.unlink (.entry p) (s.prev (.entry p)) (s.next (.entry p)) else s

/-- One access of thread `i`. -/
def step (i : Nat) (g : Shared) (pc : Pc) (_ : Unit) : Option (Shared × Pc) :=
  match pc with
  | .waitEvent st => some (g, if g.condition then .awake st else .defineWait st)
  | .defineWait st => some ({ g with links := g.links.init (.entry i) }, .prepareLock st)
  | .prepareLock st => if g.lock then none else some ({ g with lock := true }, .prepareEmpty st)
  | .prepareEmpty st =>
      some (g, if g.links.next (.entry i) = .entry i then .addRead st else .prepareState st)
  | .addRead st => some (g, .addStore (g.links.next .head) st)
  | .addStore next st =>
      some ({ g with links := g.links.link (.entry i) .head next }, .prepareState st)
  | .prepareState st => some ({ g with tasks := setTaskState g.tasks i st }, .prepareUnlock st)
  | .prepareUnlock st => some ({ g with lock := false }, .test st)
  | .test st => some (g, if g.condition then .finishState st else .switch st)
  | .switch st =>
      match schedule (g.tasks i).state with
      | .yield => some (g, .prepareLock st)
      | .down => some (g, .down st)
      | .panic => some (g, .panicked)
  | .down st =>
      match semDown g.tasks i with
      | none => none
      | some ts => some ({ g with tasks := ts }, .prepareLock st)
  | .finishState st => some ({ g with tasks := setTaskState g.tasks i .running }, .finishCheck st)
  | .finishCheck st =>
      -- `list_empty_careful`
      some (g, if g.links.next (.entry i) = .entry i ∧ g.links.prev (.entry i) = .entry i
        then .awake st else .finishLock st)
  | .finishLock st => if g.lock then none else some ({ g with lock := true }, .delRead st)
  | .delRead st => some (g, .delStore (g.links.prev (.entry i)) (g.links.next (.entry i)) st)
  | .delStore prev next st =>
      some ({ g with links := g.links.unlink (.entry i) prev next }, .finishUnlock st)
  | .finishUnlock st => some ({ g with lock := false }, .awake st)
  | .awake st => some (g, .waitEvent st)
  | .panicked => none
  | .setCondition => some ({ g with condition := true }, .wakeLock)
  | .wakeLock => if g.lock then none else some ({ g with lock := true }, .wakeFirst)
  | .wakeFirst => some (g, .wakeNext (g.links.next .head))
  | .wakeNext .head => some (g, .wakeUnlock)
  | .wakeNext (.entry p) => some (g, .wakeStore p (g.links.next (.entry p)))
  | .wakeStore p n => some ({ g with tasks := setTaskState g.tasks p .running }, .wakeUp p n)
  | .wakeUp p n =>
      -- the entries are not exclusive, so the walk goes on whatever the answer is
      some ({ g with tasks := semUp g.tasks p
                     links := autoremoveWakeFunction tryToWakeUpResult p g.links }, .wakeNext n)
  | .wakeUnlock => some ({ g with lock := false }, .finished)
  | .finished => some (g, .setCondition)

/-- Sleepers in either sleeping state and wakers, on an empty queue with any
tokens left in the semaphores; both may come back for more. -/
def prog : Prog Shared Pc Unit where
  init g := g.lock = false ∧ g.links = .alone ∧ ∀ i, (g.tasks i).state = .running
  start pc := pc = .waitEvent .interruptible ∨ pc = .waitEvent .uninterruptible ∨ pc = .setCondition
  step := step

def initialised : Machine (Conf Shared Pc) (Nat × Unit) := prog.machine

/-- A waker that has not finished. -/
def Pc.waking : Pc → Bool
  | .setCondition | .wakeLock | .wakeFirst | .wakeNext _ | .wakeStore _ _ | .wakeUp _ _
  | .wakeUnlock => true
  | _ => false

/-- The condition is true, every waker has finished, and thread `i` hangs in
`dde_kit_sem_down` with its semaphore at zero. -/
def LostWakeup (c : Conf Shared Pc) (i : Nat) : Prop :=
  c.shared.condition = true ∧ (∀ pc ∈ c.pool, pc.waking = false) ∧
    ∃ st, c.pool[i]? = some (.down st) ∧ (c.shared.tasks i).sleepLock = 0

/-! ## The lock of the queue -/

/-- A thread that holds `q->lock` weighs one. -/
def holder : Pc → Nat
  | .prepareEmpty _ | .addRead _ | .addStore _ _ | .prepareState _ | .prepareUnlock _
  | .delRead _ | .delStore _ _ _ | .finishUnlock _ | .wakeFirst | .wakeNext _ | .wakeStore _ _
  | .wakeUp _ _ | .wakeUnlock => 1
  | _ => 0

theorem step_toggles {i : Nat} {g g' : Shared} {pc pc' : Pc}
    (hs : step i g pc () = some (g', pc')) :
    Prog.Toggles g.lock (holder pc) g'.lock (holder pc') := by
  cases pc with
  | prepareLock st | finishLock st | wakeLock =>
      simp only [step] at hs
      split at hs <;> cases hs
      rename_i hfree
      rw [Bool.eq_false_iff.mpr hfree]
      exact .take
  | prepareUnlock st | finishUnlock st | wakeUnlock =>
      cases hs
      exact .give _
  | waitEvent st | prepareEmpty st | test st | finishCheck st =>
      cases hs
      split <;> exact .same _ _
  | wakeNext pos => cases pos <;> cases hs <;> exact .same _ _
  | _ =>
      simp only [step] at hs
      (try split at hs) <;> cases hs <;> exact .same _ _

theorem total_holder {c : Conf Shared Pc} (h : initialised.Reachable c) :
    total holder c.pool = c.shared.lock.toNat := by
  have hflag := Prog.flag (P := prog) holder Shared.lock ?_
    (fun _ _ _ _ _ _ hs => step_toggles hs) h
  · rw [hflag]
    cases c.shared.lock <;> rfl
  · intro c hc
    refine ⟨hc.1.1, total_eq_zero ?_⟩
    intro pc hpc
    rcases hc.2 pc hpc with rfl | rfl | rfl <;> rfl

/-! ## The queue is a list -/

/-- A thread of the code with the links `s`, and the same thread on the queue `l`.  What it has
read is still so; outside of the lock it knows of its own entry only. -/
inductive Like (i : Nat) (s : Links Nat) (l : List Nat) : Pc → WaitQueue.Pc → Prop
  | waitEvent (st : TaskState) (h : i ∉ l) : Like i s l (.waitEvent st) (.waitEvent st)
  | defineWait (st : TaskState) (h : i ∉ l) : Like i s l (.defineWait st) (.prepareLock st)
  | prepareLock (st : TaskState) : Like i s l (.prepareLock st) (.prepareLock st)
  | prepareEmpty (st : TaskState) : Like i s l (.prepareEmpty st) (.prepareAdd st)
  | addRead (st : TaskState) (h : i ∉ l) : Like i s l (.addRead st) (.prepareAdd st)
  | addStore (st : TaskState) (h : i ∉ l) :
      Like i s l (.addStore (s.next .head) st) (.prepareAdd st)
  | prepareState (st : TaskState) : Like i s l (.prepareState st) (.prepareState st)
  | prepareUnlock (st : TaskState) : Like i s l (.prepareUnlock st) (.prepareUnlock st)
  | test (st : TaskState) : Like i s l (.test st) (.test st)
  | switch (st : TaskState) : Like i s l (.switch st) (.switch st)
  | down (st : TaskState) : Like i s l (.down st) (.down st)
  | finishState (st : TaskState) : Like i s l (.finishState st) (.finishState st)
  | finishCheck (st : TaskState) : Like i s l (.finishCheck st) (.finishCheck st)
  | finishLock (st : TaskState) (h : i ∈ l) : Like i s l (.finishLock st) (.finishLock st)
  | delRead (st : TaskState) (h : i ∈ l) : Like i s l (.delRead st) (.finishDel st)
  | delStore (st : TaskState) (h : i ∈ l) :
      Like i s l (.delStore (s.prev (.entry i)) (s.next (.entry i)) st) (.finishDel st)
  | finishUnlock (st : TaskState) (h : i ∉ l) : Like i s l (.finishUnlock st) (.finishUnlock st)
  | awake (st : TaskState) (h : i ∉ l) : Like i s l (.awake st) (.awake st)
  | panicked : Like i s l .panicked .panicked
  | setCondition : Like i s l .setCondition .setCondition
  | wakeLock : Like i s l .wakeLock .wakeLock
  | wakeFirst : Like i s l .wakeFirst (.wakeNext l)
  | wakeNext {n : Node Nat} {rest : List Nat} (h : Chain s.next n rest .head) :
      Like i s l (.wakeNext n) (.wakeNext rest)
  | wakeStore (p : Nat) {n : Node Nat} {rest : List Nat} (h : Chain s.next n rest .head) :
      Like i s l (.wakeStore p n) (.wakeStore p rest)
  | wakeUp (p : Nat) {n : Node Nat} {rest : List Nat} (h : Chain s.next n rest .head) :
      Like i s l (.wakeUp p n) (.wakeUp p rest)
  | wakeUnlock : Like i s l .wakeUnlock .wakeUnlock
  | finished : Like i s l .finished .finished

section
variable {i : Nat} {s s' : Links Nat} {l l' : List Nat} {pc pc' : Pc} {pb : WaitQueue.Pc}

/-- Somebody else changes the queue: no matter for a thread that does not hold the lock. -/
theorem Like.outside (h : Like i s l pc pb) (hout : WaitQueue.holder pb = 0)
    (hmem : i ∈ l' ↔ i ∈ l) : Like i s' l' pc pb := by
  cases h with
  | waitEvent st hoff => exact .waitEvent st (mt hmem.mp hoff)
  | defineWait st hoff => exact .defineWait st (mt hmem.mp hoff)
  | awake st hoff => exact .awake st (mt hmem.mp hoff)
  | finishLock st hon => exact .finishLock st (hmem.mpr hon)
  | prepareLock st => exact .prepareLock st
  | test st => exact .test st
  | switch st => exact .switch st
  | down st => exact .down st
  | finishState st => exact .finishState st
  | finishCheck st => exact .finishCheck st
  | panicked => exact .panicked
  | setCondition => exact .setCondition
  | wakeLock => exact .wakeLock
  | finished => exact .finished
  | _ => cases hout

theorem Like.waking (h : Like i s l pc pb) : pb.waking = pc.waking := by
  cases h <;> rfl

/-- The rest of the state is the same. -/
structure Same (g : Shared) (b : WaitQueue.Shared) : Prop where
  condition : b.condition = g.condition
  lock : b.lock = g.lock
  tasks : b.tasks = g.tasks
  linked : Linked g.links b.taskList

/-- What a step of thread `i` changes of the queue. -/
def Changes (i : Nat) (s s' : Links Nat) (l l' : List Nat) (pb : WaitQueue.Pc) : Prop :=
  s' = s ∧ l' = l ∨ WaitQueue.holder pb = 1 ∧ ∀ j, j ≠ i → (j ∈ l' ↔ j ∈ l)

/-- On the list, the thread makes the same step, or none. -/
def Follows (i : Nat) (g' : Shared) (pc' : Pc) (s : Links Nat) (b : WaitQueue.Shared)
    (pb : WaitQueue.Pc) : Prop :=
  ∃ b' pb', (b' = b ∧ pb' = pb ∨ WaitQueue.step i b pb () = some (b', pb')) ∧ Same g' b' ∧
    Like i g'.links b'.taskList pc' pb' ∧ Changes i s g'.links b.taskList b'.taskList pb

section
variable {g g' : Shared} {b : WaitQueue.Shared}

theorem Follows.stays (hsame : Same g' b) (hlinks : g'.links = s)
    (hlike : Like i g'.links b.taskList pc' pb) : Follows i g' pc' s b pb :=
  ⟨b, pb, .inl ⟨rfl, rfl⟩, hsame, hlike, .inl ⟨hlinks, rfl⟩⟩

theorem Follows.moves (b' : WaitQueue.Shared) (pb' : WaitQueue.Pc)
    (hs : WaitQueue.step i b pb () = some (b', pb')) (hsame : Same g' b') (hlinks : g'.links = s)
    (hlist : b'.taskList = b.taskList)
    (hlike : Like i g'.links b'.taskList pc' pb') : Follows i g' pc' s b pb :=
  ⟨b', pb', .inr hs, hsame, hlike, .inl ⟨hlinks, hlist⟩⟩

theorem step_follows (hsame : Same g b) (hlike : Like i g.links b.taskList pc pb)
    (hs : step i g pc () = some (g', pc')) : Follows i g' pc' g.links b pb := by
  obtain ⟨hcond, hlock, htasks, hlinked⟩ := hsame
  cases hlike with
  | waitEvent st hoff =>
      cases hs
      by_cases hc : g.condition = true
      · rw [if_pos hc]
        refine .moves b (.awake st) ?_ ⟨hcond, hlock, htasks, hlinked⟩ rfl rfl
          (.awake st hoff)
        simp only [WaitQueue.step, hcond, hc, if_true]
      · rw [if_neg hc]
        refine .moves b (.prepareLock st) ?_ ⟨hcond, hlock, htasks, hlinked⟩ rfl rfl
          (.defineWait st hoff)
        simp only [WaitQueue.step, hcond, if_neg hc]
  | defineWait st hoff =>
      cases hs
      have hinit := hlinked.init_eq hoff
      exact .stays ⟨hcond, hlock, htasks, hinit.symm ▸ hlinked⟩ hinit (.prepareLock st)
  | prepareLock st =>
      simp only [step] at hs
      split at hs <;> cases hs
      rename_i hfree
      refine .moves { b with lock := true } (.prepareAdd st) ?_
        ⟨hcond, rfl, htasks, hlinked⟩ rfl rfl (.prepareEmpty st)
      simp only [WaitQueue.step, hlock, if_neg hfree]
  | prepareEmpty st =>
      cases hs
      by_cases hself : g.links.next (.entry i) = .entry i
      · rw [if_pos hself]
        refine .stays ⟨hcond, hlock, htasks, hlinked⟩ rfl (.addRead st ?_)
        exact fun hmem => hlinked.mem_iff.mp hmem hself
      · rw [if_neg hself]
        refine .moves b (.prepareState st) ?_ ⟨hcond, hlock, htasks, hlinked⟩ rfl rfl
          (.prepareState st)
        simp only [WaitQueue.step, if_pos (hlinked.mem_iff.mpr hself)]
  | addRead st hoff =>
      cases hs
      exact .stays ⟨hcond, hlock, htasks, hlinked⟩ rfl (.addStore st hoff)
  | addStore st hoff =>
      cases hs
      refine ⟨{ b with taskList := i :: b.taskList }, .prepareState st, .inr ?_,
        ⟨hcond, hlock, htasks, hlinked.link_front hoff⟩, .prepareState st, .inr ⟨rfl, ?_⟩⟩
      · simp only [WaitQueue.step, if_neg hoff]
      · intro j hj
        simp only [List.mem_cons, hj, false_or]
  | prepareState st =>
      cases hs
      exact .moves _ _ rfl ⟨hcond, hlock, by rw [htasks], hlinked⟩ rfl rfl (.prepareUnlock st)
  | prepareUnlock st =>
      cases hs
      exact .moves _ _ rfl ⟨hcond, rfl, htasks, hlinked⟩ rfl rfl (.test st)
  | test st =>
      cases hs
      by_cases hc : g.condition = true
      · rw [if_pos hc]
        refine .moves b (.finishState st) ?_ ⟨hcond, hlock, htasks, hlinked⟩ rfl rfl
          (.finishState st)
        simp only [WaitQueue.step, hcond, hc, if_true]
      · rw [if_neg hc]
        refine .moves b (.switch st) ?_ ⟨hcond, hlock, htasks, hlinked⟩ rfl rfl
          (.switch st)
        simp only [WaitQueue.step, hcond, if_neg hc]
  | switch st =>
      simp only [step] at hs
      split at hs <;> cases hs
      · rename_i hyield
        refine .moves b _ ?_ ⟨hcond, hlock, htasks, hlinked⟩ rfl rfl (.prepareLock st)
        simp only [WaitQueue.step, htasks, hyield]
      · rename_i hdown
        refine .moves b _ ?_ ⟨hcond, hlock, htasks, hlinked⟩ rfl rfl (.down st)
        simp only [WaitQueue.step, htasks, hdown]
      · rename_i hpanic
        refine .moves b _ ?_ ⟨hcond, hlock, htasks, hlinked⟩ rfl rfl .panicked
        simp only [WaitQueue.step, htasks, hpanic]
  | down st =>
      simp only [step] at hs
      split at hs
      · cases hs
      · rename_i ts hd
        cases hs
        refine .moves { b with tasks := ts } _ ?_ ⟨hcond, hlock, rfl, hlinked⟩ rfl rfl
          (.prepareLock st)
        simp only [WaitQueue.step, htasks, hd]
  | finishState st =>
      cases hs
      exact .moves _ _ rfl ⟨hcond, hlock, by rw [htasks], hlinked⟩ rfl rfl (.finishCheck st)
  | finishCheck st =>
      cases hs
      by_cases hmem : i ∈ b.taskList
      · rw [if_neg (fun hself => hlinked.mem_iff.mp hmem hself.1)]
        refine .moves b _ ?_ ⟨hcond, hlock, htasks, hlinked⟩ rfl rfl (.finishLock st hmem)
        simp only [WaitQueue.step, if_pos hmem]
      · rw [if_pos (hlinked.off i hmem)]
        refine .moves b _ ?_ ⟨hcond, hlock, htasks, hlinked⟩ rfl rfl (.awake st hmem)
        simp only [WaitQueue.step, if_neg hmem]
  | finishLock st hon =>
      simp only [step] at hs
      split at hs <;> cases hs
      rename_i hfree
      refine .moves { b with lock := true } (.finishDel st) ?_
        ⟨hcond, rfl, htasks, hlinked⟩ rfl rfl (.delRead st hon)
      simp only [WaitQueue.step, hlock, if_neg hfree]
  | delRead st hon =>
      cases hs
      exact .stays ⟨hcond, hlock, htasks, hlinked⟩ rfl (.delStore st hon)
  | delStore st hon =>
      cases hs
      refine ⟨{ b with taskList := b.taskList.erase i }, .finishUnlock st, .inr rfl,
        ⟨hcond, hlock, htasks, hlinked.unlink hon⟩, .finishUnlock st ?_, .inr ⟨rfl, ?_⟩⟩
      · exact hlinked.nodup.not_mem_erase
      · intro j hj
        exact List.mem_erase_of_ne hj
  | finishUnlock st hoff =>
      cases hs
      exact .moves _ _ rfl ⟨hcond, rfl, htasks, hlinked⟩ rfl rfl (.awake st hoff)
  | awake st hoff =>
      cases hs
      exact .moves _ _ rfl ⟨hcond, hlock, htasks, hlinked⟩ rfl rfl (.waitEvent st hoff)
  | panicked => cases hs
  | setCondition =>
      cases hs
      exact .moves _ _ rfl ⟨rfl, hlock, htasks, hlinked⟩ rfl rfl .wakeLock
  | wakeLock =>
      simp only [step] at hs
      split at hs <;> cases hs
      rename_i hfree
      refine .moves { b with lock := true } (.wakeNext b.taskList) ?_
        ⟨hcond, rfl, htasks, hlinked⟩ rfl rfl .wakeFirst
      simp only [WaitQueue.step, hlock, if_neg hfree]
  | wakeFirst =>
      cases hs
      exact .stays ⟨hcond, hlock, htasks, hlinked⟩ rfl (.wakeNext hlinked.next)
  | @wakeNext n rest hchain =>
      cases rest with
      | nil =>
          obtain rfl : n = .head := hchain
          cases hs
          exact .moves _ _ rfl ⟨hcond, hlock, htasks, hlinked⟩ rfl rfl .wakeUnlock
      | cons p rest =>
          obtain ⟨rfl, hrest⟩ := hchain
          cases hs
          exact .moves _ _ rfl ⟨hcond, hlock, htasks, hlinked⟩ rfl rfl (.wakeStore p hrest)
  | wakeStore p hchain =>
      cases hs
      exact .moves _ _ rfl ⟨hcond, hlock, by rw [htasks], hlinked⟩ rfl rfl (.wakeUp p hchain)
  | wakeUp p hchain =>
      cases hs
      exact .moves _ _ rfl ⟨hcond, hlock, by rw [htasks], hlinked⟩ rfl rfl (.wakeNext hchain)
  | wakeUnlock =>
      cases hs
      exact .moves _ _ rfl ⟨hcond, rfl, htasks, hlinked⟩ rfl rfl .finished
  | finished =>
      cases hs
      exact .moves _ _ rfl ⟨hcond, hlock, htasks, hlinked⟩ rfl rfl .setCondition

end

end

/-- The whole pool, thread by thread. -/
structure Sim (c : Conf Shared Pc) (b : Conf WaitQueue.Shared WaitQueue.Pc) : Prop where
  same : Same c.shared b.shared
  length : b.pool.length = c.pool.length
  threads : ∀ (i : Nat) pc pb, c.pool[i]? = some pc → b.pool[i]? = some pb →
    Like i c.shared.links b.shared.taskList pc pb

section
variable {c : Conf Shared Pc} {b : Conf WaitQueue.Shared WaitQueue.Pc}

theorem Sim.thread (h : Sim c b) {i : Nat} {pc : Pc} (hp : c.pool[i]? = some pc) :
    ∃ pb, b.pool[i]? = some pb := by
  have hlt := (List.getElem?_eq_some_iff.mp hp).1
  rw [← h.length] at hlt
  exact ⟨_, List.getElem?_eq_getElem hlt⟩

/-- A step of one thread, and what it is to the others. -/
theorem Sim.step (h : Sim c b) (hreach : WaitQueue.machine.Reachable b) {i : Nat} {pc pc' : Pc}
    {pb pb' : WaitQueue.Pc} {g : Shared} {gb : WaitQueue.Shared} (hp : c.pool[i]? = some pc)
    (hpb : b.pool[i]? = some pb) (hsame : Same g gb)
    (hlike : Like i g.links gb.taskList pc' pb')
    (hchanges : Changes i c.shared.links g.links b.shared.taskList gb.taskList pb) :
    Sim ⟨g, c.pool.set i pc'⟩ ⟨gb, b.pool.set i pb'⟩ := by
  refine ⟨hsame, by rw [List.length_set, List.length_set, h.length], ?_⟩
  intro j q qb hq hqb
  by_cases hij : i = j
  · subst hij
    rw [List.getElem?_set_self (List.getElem?_eq_some_iff.mp hp).1, Option.some.injEq] at hq
    rw [List.getElem?_set_self (List.getElem?_eq_some_iff.mp hpb).1, Option.some.injEq] at hqb
    subst hq hqb
    exact hlike
  · rw [List.getElem?_set_ne hij] at hq hqb
    have hold := h.threads j q qb hq hqb
    rcases hchanges with ⟨hlinks, hlist⟩ | ⟨hholds, hmem⟩
    · rw [hlinks, hlist]
      exact hold
    · -- the thread that changes the queue has the lock alone
      have htwo := add_le_total WaitQueue.holder hij hpb hqb
      have hone := WaitQueue.total_holder hreach
      have hle : b.shared.lock.toNat ≤ 1 := Bool.toNat_le _
      exact hold.outside (by omega) (hmem j (Ne.symm hij))

/-- A thread that has not started, on a list. -/
def Pc.onList : Pc → WaitQueue.Pc
  | .waitEvent st => .waitEvent st
  | _ => .setCondition

/-- **The code on an initialised lock** does what is done on a list. -/
theorem simulated (h : initialised.Reachable c) :
    ∃ b, WaitQueue.machine.Reachable b ∧ Sim c b := by
  refine Machine.Reach.simulates Sim ?_ ?_ h
  · rintro c ⟨⟨hlock, hlinks, hstates⟩, hpool⟩
    refine ⟨⟨⟨c.shared.condition, false, [], c.shared.tasks⟩, c.pool.map Pc.onList⟩,
      ⟨⟨rfl, rfl, hstates⟩, ?_⟩, ⟨rfl, hlock.symm, rfl, hlinks ▸ .alone⟩, List.length_map .., ?_⟩
    · intro pb hpb
      obtain ⟨pc, hpc, rfl⟩ := List.mem_map.mp hpb
      rcases hpool pc hpc with rfl | rfl | rfl
      · exact .inl rfl
      · exact .inr (.inl rfl)
      · exact .inr (.inr rfl)
    · intro i pc pb hp hpb
      rw [List.getElem?_map, hp] at hpb
      cases hpb
      rcases hpool pc (List.mem_of_getElem? hp) with rfl | rfl | rfl
      · exact .waitEvent _ List.not_mem_nil
      · exact .waitEvent _ List.not_mem_nil
      · exact .setCondition
  · rintro c ⟨i, a⟩ c' b _ _ hst hreach hsim
    obtain ⟨pc, g, pc', hp, hs, rfl⟩ := Prog.machine_step hst
    obtain ⟨pb, hpb⟩ := hsim.thread hp
    obtain ⟨gb, pb', hmove, hsame, hlike, hchanges⟩ :=
      step_follows hsim.same (hsim.threads i pc pb hp hpb) hs
    have hnext := hsim.step hreach hp hpb hsame hlike hchanges
    rcases hmove with ⟨rfl, rfl⟩ | hmove
    · left
      obtain ⟨hi, hat⟩ := List.getElem?_eq_some_iff.mp hpb
      rw [← hat, List.set_getElem_self] at hnext
      exact hnext
    · right
      refine ⟨(i, ()), _, trivial, ?_, hnext⟩
      simp only [WaitQueue.machine, WaitQueue.prog, Prog.machine, hpb, hmove]

theorem not_lost (h : initialised.Reachable c) (i : Nat) : ¬ LostWakeup c i := by
  rintro ⟨hcond, hdone, st, hp, hzero⟩
  obtain ⟨b, hreach, hsim⟩ := simulated h
  refine WaitQueue.not_lost hreach i ⟨hsim.same.condition.trans hcond, ?_, st, ?_, ?_⟩
  · intro pb hpb
    obtain ⟨j, hj⟩ := List.getElem?_of_mem hpb
    have hlt := (List.getElem?_eq_some_iff.mp hj).1
    rw [hsim.length] at hlt
    have hpc := List.getElem?_eq_getElem hlt
    rw [(hsim.threads j _ pb hpc hj).waking]
    exact hdone _ (List.mem_of_getElem? hpc)
  · obtain ⟨pb, hpb⟩ := hsim.thread hp
    cases hsim.threads i _ pb hp hpb with
    | down => exact hpb
  · rw [hsim.same.tasks]
    exact hzero

end

/-! ## On any lock -/

/-- The code on a lock that is initialised when it is used, or has been before. -/
def locking : LazyLock.Locking Shared Pc Unit where
  prog := prog
  taken := Shared.lock
  setTaken g b := { g with lock := b }
  calls
    | .prepareLock _ | .prepareUnlock _ | .finishLock _ | .finishUnlock _ | .wakeLock
    | .wakeUnlock => true
    | _ => false
  holds := holder
  setTaken_self _ := rfl
  total_holds _ := total_holder

def machine : Machine (Conf (LazyLock.Lazy Shared) (LazyLock.Thread Pc)) (Nat × Unit) :=
  locking.machine

/-- **No lost wake-up.**  Whatever the interleaving of sleepers and wakers, and whatever tokens
were left in the semaphores, as long as the lock is not re-initialised under a holder: once the
condition is true and every waker has finished, no sleeper hangs in `dde_kit_sem_down` with its
semaphore at zero. -/
theorem wait_event_not_lost {c : Conf (LazyLock.Lazy Shared) (LazyLock.Thread Pc)}
    (h : machine.Reach (locking.keeps fun _ _ => True) c) (i : Nat) :
    ¬ LostWakeup (LazyLock.base c) i :=
  not_lost (LazyLock.Locking.reach_base h) i

/-- `DECLARE_WAIT_QUEUE_HEAD` -/
def declared : LazyLock.Lazy Shared :=
  ⟨⟨false, false, .alone, fun _ => ⟨.running, 0⟩⟩, true⟩

def sleeper : LazyLock.Thread Pc := ⟨.waitEvent .interruptible, .test⟩

def waker : LazyLock.Thread Pc := ⟨.setCondition, .test⟩

/-- Thread 0 falls asleep on a queue that needs initialisation, thread 1 makes the condition true
and wakes it. -/
theorem wait_event_not_lost_once :
    ∃ c : Conf (LazyLock.Lazy Shared) (LazyLock.Thread Pc),
      machine.Reach (locking.keeps fun _ _ => True) c ∧
      c.pool.map (·.pc) = [.down .interruptible, .finished] ∧
      c.shared.base.condition = true ∧ (c.shared.base.tasks 0).sleepLock = 1 ∧
      ¬ LostWakeup (LazyLock.base c) 0 := by
  have hinit : machine.Reach (locking.keeps fun _ _ => True) ⟨declared, [sleeper, waker]⟩ :=
    .init ⟨⟨rfl, rfl, fun _ => rfl⟩,
      by simp [LazyLock.Locking.lazy, locking, prog, sleeper, waker]⟩
  have hrun : (machine.runOk (locking.keeps fun _ _ => True) ⟨declared, [sleeper, waker]⟩
      (List.replicate 14 (0, ()) ++ List.replicate 10 (1, ()))).map
      (fun c => (c.pool.map (·.pc), c.shared.base.condition, c.shared.base.tasks 0)) =
      some ([.down .interruptible, .finished], true, ⟨.running, 1⟩) := by
    decide
  obtain ⟨c, hc, hat⟩ := Option.map_eq_some_iff.mp hrun
  simp only [Prod.mk.injEq] at hat
  obtain ⟨hpool, hcond, htask⟩ := hat
  have hreach := hinit.runOk _ hc
  exact ⟨c, hreach, hpool, hcond, by rw [htask], wait_event_not_lost hreach 0⟩

/-- **A wake-up is lost.**  Threads 0 and 1 both see `need_init` set, so that both get the lock;
both read the same first entry, and what thread 0 adds is lost when thread 1 adds its own.  Thread 2
makes the condition true and wakes the queue, and thread 0 sleeps for ever. -/
theorem wakeup_lost :
    ∃ c : Conf (LazyLock.Lazy Shared) (LazyLock.Thread Pc),
      machine.Reachable c ∧
      c.pool.map (·.pc) = [.down .interruptible, .down .interruptible, .finished] ∧
      LostWakeup (LazyLock.base c) 0 := by
  have hinit : machine.Reachable ⟨declared, [sleeper, sleeper, waker]⟩ :=
    .init ⟨⟨rfl, rfl, fun _ => rfl⟩,
      by simp [LazyLock.Locking.lazy, locking, prog, sleeper, waker]⟩
  have hrun : (machine.run ⟨declared, [sleeper, sleeper, waker]⟩
      (List.flatten [List.replicate 3 (0, ()), List.replicate 3 (1, ()),
        List.replicate 5 (0, ()), List.replicate 5 (1, ()), [(0, ())], [(1, ())],
        List.replicate 5 (0, ()), List.replicate 5 (1, ()), List.replicate 10 (2, ())])).map
      (fun c => (c.pool.map (·.pc), c.shared.base.condition, c.shared.base.tasks 0)) =
      some ([.down .interruptible, .down .interruptible, .finished], true,
        ⟨.interruptible, 0⟩) := by
    decide
  obtain ⟨c, hc, hat⟩ := Option.map_eq_some_iff.mp hrun
  simp only [Prod.mk.injEq] at hat
  obtain ⟨hpool, hcond, htask⟩ := hat
  have hbase : (LazyLock.base c).pool = _ := hpool
  refine ⟨c, hinit.run _ hc, hpool, hcond, ?_, .interruptible, ?_, ?_⟩
  · rw [hbase]
    decide
  · rw [hbase]
    rfl
  · show (c.shared.base.tasks 0).sleepLock = 0
    rw [htask]

end LinuxDrivers.Kernel.WaitEvent
