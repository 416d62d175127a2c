/-
# `LinuxDrivers.Kernel.Flush` — waiting for the items of a work queue

`flush_workqueue` waits until all items that were queued before have been handled.  It does not
look at the items, it counts:

    __queue_work     list_add_tail;  insert_sequence++
    run_workqueue    take the first item;  unlock;  call its function;  lock;
                     remove_sequence++;  wake work_done
    flush            needed = insert_sequence;  while needed - remove_sequence > 0 (signed):
                     prepare_to_wait;  unlock;  schedule();  lock

So `flush` returns when as many items have been handled, which are the items queued before if items
are handled in the order they were queued.  The loop of the worker does that, with two exceptions:
`run_scheduled_work` runs an item out of its turn, and a function that flushes the queue it runs in
runs the loop again, before its own item is counted.

Everything but the state of the tasks and their semaphores is used with the lock of the queue, so
an access to the sequences or to the list is taken together with taking the lock.  The sleep of the
worker on `more_work` is in `WorkQueue`; here it may enter the loop at any time.

**Proved here.**

    every item that was queued is on the list, being run or finished, and only once (`account`)
    when a flush returns, as many items have been finished as were queued before;
    without the two exceptions, these items; and a flush that hangs has something to
    wait for, unless `2 ^ 31` items more have been finished                (`workqueue_flush_waits`)
-/
import LinuxDrivers.Kernel.Sched
import Mathlib.Algebra.Order.Group.Multiset
import Mathlib.Data.Multiset.Range

namespace LinuxDrivers.Kernel.Flush

open LinuxDrivers.Lib LinuxDrivers.Kernel.Sched

/-! ## The code, one access at a time -/

/-- Where a thread is in `flush_cpu_workqueue`. -/
inductive Phase where
  | test
  /-- `prepare_to_wait` -/
  | add
  | state
  | unlock
  /-- in `schedule()`: about to read `current->state` -/
  | switch
  /-- in `schedule()`: in `dde_kit_sem_down` -/
  | sleep
  | relock
  /-- `finish_wait` -/
  | running
  | remove
  | exit
  | returned
  deriving DecidableEq, Repr

/-- Who runs an item: the loop of the worker, inside of the functions of other items, the
innermost first; or `run_scheduled_work`. -/
inductive Runner where
  | loop (outer : List Nat)
  | scheduled
  deriving DecidableEq, Repr

/-- Where a thread stands. -/
inductive Pc where
  | idle
  /-- a flush that needs the sequence to become `needed`; `n` items were queued before -/
  | flush (ph : Phase) (needed : Word) (n : Nat)
  /-- `run_workqueue` -/
  | loopLock (outer : List Nat)
  | loopNext (outer : List Nat)
  | loopEnd (outer : List Nat)
  /-- in the function of item `t` -/
  | func (t : Nat) (k : Runner)
  | again (t : Nat) (k : Runner)
  /-- `wake_up(&cwq->work_done)` -/
  | wakeNext (rest : List Nat) (k : Runner)
  | wakeStore (p : Nat) (rest : List Nat) (k : Runner)
  | wakeUp (p : Nat) (rest : List Nat) (k : Runner)
  | schedUnlock
  /-- `try_to_wake_up(p)` on behalf of somebody else -/
  | otherStore (p : Nat)
  | otherUp (p : Nat)
  | panicked
  deriving DecidableEq, Repr

/-- An item on the list is the number of its queueing. -/
structure Shared where
  /-- `cwq->lock` is taken -/
  lock : Bool
  removeSequence : Word
  insertSequence : Word
  worklist : List Nat
  workDone : List Nat
  tasks : Tasks
  /-- how many items have been queued, and which have been finished, in that order -/
  inserted : Nat
  finished : List Nat
  /-- an item was run by `run_scheduled_work`, or the loop was entered from a function -/
  disorder : Bool

inductive Choice where
  | go
  | queue
  | flush
  | run
  | runScheduledWork (t : Nat)
  /-- task `p` is woken for another reason -/
  | wakeUpProcess (p : Nat)
  deriving DecidableEq, Repr

/-- `cwq->thread` -/
def worker : Nat := 0

def flushStep (i : Nat) (g : Shared) (ph : Phase) (needed : Word) :
    Option (Shared × Option Phase) :=
  match ph with
  | .test =>
      some (g, some (if 0 < intOfWord (needed - g.removeSequence) then .add else .running))
  | .add =>
      some ({ g with workDone := if i ∈ g.workDone then g.workDone else i :: g.workDone },
        some .state)
  | .state => some ({ g with tasks := setTaskState g.tasks i .uninterruptible }, some .unlock)
  | .unlock => some ({ g with lock := false }, some .switch)
  | .switch =>
      match schedule (g.tasks i).state with
      | .yield => some (g, some .relock)
      | .down => some (g, some .sleep)
      | .panic => some (g, none)
  | .sleep =>
      match semDown g.tasks i with
      | none => none
      | some ts => some ({ g with tasks := ts }, some .relock)
  | .relock => if g.lock then none else some ({ g with lock := true }, some .test)
  | .running => some ({ g with tasks := setTaskState g.tasks i .running }, some .remove)
  | .remove => some ({ g with workDone := g.workDone.erase i }, some .exit)
  | .exit => some ({ g with lock := false }, some .returned)
  | .returned => none

/-- Where a thread is after a step of a flush. -/
def flushNext (needed : Word) (n : Nat) : Shared × Option Phase → Shared × Pc
  | (g, none) => (g, .panicked)
  | (g, some ph) => (g, .flush ph needed n)

/-- Where the loop goes after the last item. -/
def leave : List Nat → Pc
  | [] => .idle
  | t :: outer => .func t (.loop outer)

/-- One access of thread `i`. -/
def step (i : Nat) (g : Shared) (pc : Pc) (a : Choice) : Option (Shared × Pc) :=
  match pc with
  | .idle =>
      match a with
      | .go => none
      | .queue =>
          if g.lock then none
          else
            some ({ g with worklist := g.worklist ++ [g.inserted]
                           insertSequence := g.insertSequence + 1
                           inserted := g.inserted + 1 }, .idle)
      | .flush =>
          if i = worker ∨ g.lock then none
          else some ({ g with lock := true }, .flush .test g.insertSequence g.inserted)
      | .run => if i = worker then some (g, .loopLock []) else none
      | .runScheduledWork t =>
          if i = worker ∨ g.lock then none
          else if t ∈ g.worklist then
            some ({ g with worklist := g.worklist.erase t, disorder := true }, .func t .scheduled)
          else some (g, .idle)
      | .wakeUpProcess p => some (g, .otherStore p)
  | .flush .returned _ _ => some (g, .idle)
  | .flush ph needed n => (flushStep i g ph needed).map (flushNext needed n)
  | .loopLock outer => if g.lock then none else some ({ g with lock := true }, .loopNext outer)
  | .loopNext outer =>
      match g.worklist with
      | [] => some (g, .loopEnd outer)
      | t :: rest => some ({ g with worklist := rest, lock := false }, .func t (.loop outer))
  | .loopEnd outer => some ({ g with lock := false }, leave outer)
  | .func t k =>
      match a, k with
      | .go, _ => some (g, .again t k)
      | .flush, .loop outer => some ({ g with disorder := true }, .loopLock (t :: outer))
      | _, _ => none
  | .again t k =>
      if g.lock then none
      else
        some ({ g with lock := true, removeSequence := g.removeSequence + 1
                       finished := g.finished ++ [t] }, .wakeNext g.workDone k)
  | .wakeNext [] (.loop outer) => some (g, .loopNext outer)
  | .wakeNext [] .scheduled => some (g, .schedUnlock)
  | .wakeNext (p :: rest) k => some (g, .wakeStore p rest k)
  | .wakeStore p rest k =>
      some ({ g with tasks := setTaskState g.tasks p .running }, .wakeUp p rest k)
  | .wakeUp p rest k => some ({ g with tasks := semUp g.tasks p }, .wakeNext rest k)
  | .schedUnlock => some ({ g with lock := false }, .idle)
  | .otherStore p => some ({ g with tasks := setTaskState g.tasks p .running }, .otherUp p)
  | .otherUp p => some ({ g with tasks := semUp g.tasks p }, .idle)
  | .panicked => none

/-- Any number of threads, after `create_workqueue_thread`; the tasks are in any states and their
semaphores have any number of tokens. -/
def prog : Prog Shared Pc Choice where
  init g := g.lock = false ∧ g.removeSequence = 0 ∧ g.insertSequence = 0 ∧ g.worklist = [] ∧
    g.workDone = [] ∧ g.inserted = 0 ∧ g.finished = [] ∧ g.disorder = false
  start pc := pc = .idle
  step := step

def machine : Machine (Conf Shared Pc) (Nat × Choice) := prog.machine

/-- Fewer than `2 ^ 31` items are queued or being run. -/
def Few (c : Conf Shared Pc) (_ : Nat × Choice) : Prop :=
  c.shared.inserted < c.shared.finished.length + 2 ^ 31

instance (c : Conf Shared Pc) (ia : Nat × Choice) : Decidable (Few c ia) :=
  inferInstanceAs (Decidable (_ < _))

/-! ## What a step does to the items -/

def Runner.outer : Runner → List Nat
  | .loop outer => outer
  | .scheduled => []

/-- The items whose functions the thread is in. -/
def Pc.running : Pc → List Nat
  | .loopLock outer | .loopNext outer | .loopEnd outer => outer
  | .func t k | .again t k => t :: k.outer
  | .wakeNext _ k | .wakeStore _ _ k | .wakeUp _ _ k => k.outer
  | _ => []

/-- Those of them that another one was run inside of. -/
def Pc.outer : Pc → List Nat
  | .func _ k | .again _ k => k.outer
  | pc => pc.running

/-- The parts of the state that say where the items are. -/
structure SameItems (g g' : Shared) : Prop where
  worklist : g'.worklist = g.worklist
  inserted : g'.inserted = g.inserted
  finished : g'.finished = g.finished
  disorder : g'.disorder = g.disorder
  removeSequence : g'.removeSequence = g.removeSequence
  insertSequence : g'.insertSequence = g.insertSequence

/-- An item is queued, taken off the list by the loop or out of its turn, finished; or the loop is
entered from a function. -/
inductive Items (i : Nat) (g : Shared) : Pc → Shared → Pc → Prop
  | none {pc pc' : Pc} {g' : Shared} (hsame : SameItems g g') (hrunning : pc'.running = pc.running)
      (houter : pc.outer = [] → pc'.outer = []) : Items i g pc g' pc'
  | queue : Items i g .idle { g with worklist := g.worklist ++ [g.inserted]
                                     insertSequence := g.insertSequence + 1
                                     inserted := g.inserted + 1 } .idle
  | scheduled {t : Nat} (hmem : t ∈ g.worklist) :
      Items i g .idle { g with worklist := g.worklist.erase t, disorder := true }
        (.func t .scheduled)
  | take {outer : List Nat} {t : Nat} {rest : List Nat} (hlist : g.worklist = t :: rest) :
      Items i g (.loopNext outer) { g with worklist := rest, lock := false } (.func t (.loop outer))
  | nested {t : Nat} {outer : List Nat} :
      Items i g (.func t (.loop outer)) { g with disorder := true } (.loopLock (t :: outer))
  | finish {t : Nat} {k : Runner} :
      Items i g (.again t k)
        { g with lock := true, removeSequence := g.removeSequence + 1
                 finished := g.finished ++ [t] } (.wakeNext g.workDone k)

section
variable {i j : Nat} {g g' : Shared} {pc pc' : Pc} {a : Choice}

theorem SameItems.refl (g : Shared) : SameItems g g := ⟨rfl, rfl, rfl, rfl, rfl, rfl⟩

theorem flushStep_same {ph : Phase} {needed : Word} {o : Option Phase}
    (hs : flushStep i g ph needed = some (g', o)) : SameItems g g' := by
  cases ph <;> simp only [flushStep] at hs <;> (try split at hs) <;> cases hs <;>
    exact ⟨rfl, rfl, rfl, rfl, rfl, rfl⟩

/-- A step of a flush. -/
theorem flush_step {ph : Phase} {needed : Word} {n : Nat}
    (hs : step i g (.flush ph needed n) a = some (g', pc')) :
    (ph = .returned ∧ g' = g ∧ pc' = .idle) ∨
      ∃ o, flushStep i g ph needed = some (g', o) ∧
        ((o = none ∧ pc' = .panicked) ∨ ∃ ph', o = some ph' ∧ pc' = .flush ph' needed n) := by
  by_cases hret : ph = .returned
  · subst hret
    cases hs
    exact .inl ⟨rfl, rfl, rfl⟩
  · have hstep : step i g (.flush ph needed n) a =
        (flushStep i g ph needed).map (flushNext needed n) := by
      cases ph <;> first | rfl | exact absurd rfl hret
    rw [hstep] at hs
    obtain ⟨⟨g₁, o⟩, hflush, hnext⟩ := Option.map_eq_some_iff.mp hs
    cases o with
    | none =>
        cases hnext
        exact .inr ⟨none, hflush, .inl ⟨rfl, rfl⟩⟩
    | some ph' =>
        cases hnext
        exact .inr ⟨some ph', hflush, .inr ⟨ph', rfl, rfl⟩⟩

theorem step_items (hs : step i g pc a = some (g', pc')) : Items i g pc g' pc' := by
  cases pc with
  | idle =>
      cases a with
      | go => cases hs
      | queue =>
          simp only [step] at hs
          split at hs <;> cases hs
          exact .queue
      | flush =>
          simp only [step] at hs
          split at hs <;> cases hs
          exact .none ⟨rfl, rfl, rfl, rfl, rfl, rfl⟩ rfl (fun _ => rfl)
      | run =>
          simp only [step] at hs
          split at hs <;> cases hs
          exact .none (.refl g) rfl (fun _ => rfl)
      | runScheduledWork t =>
          simp only [step] at hs
          split at hs
          · cases hs
          · split at hs <;> cases hs
            · rename_i hmem
              exact .scheduled hmem
            · exact .none (.refl g) rfl (fun _ => rfl)
      | wakeUpProcess p =>
          cases hs
          exact .none (.refl g) rfl (fun _ => rfl)
  | flush ph needed n =>
      rcases flush_step hs with ⟨-, rfl, rfl⟩ | ⟨o, hflush, ⟨-, rfl⟩ | ⟨ph', -, rfl⟩⟩
      · exact .none (.refl g') rfl (fun _ => rfl)
      · exact .none (flushStep_same hflush) rfl (fun _ => rfl)
      · exact .none (flushStep_same hflush) rfl (fun _ => rfl)
  | loopLock outer =>
      simp only [step] at hs
      split at hs <;> cases hs
      exact .none ⟨rfl, rfl, rfl, rfl, rfl, rfl⟩ rfl id
  | loopNext outer =>
      simp only [step] at hs
      split at hs <;> cases hs
      · exact .none (.refl g) rfl id
      · rename_i t rest hlist
        exact .take hlist
  | loopEnd outer =>
      cases hs
      cases outer with
      | nil => exact .none ⟨rfl, rfl, rfl, rfl, rfl, rfl⟩ rfl id
      | cons t outer => exact .none ⟨rfl, rfl, rfl, rfl, rfl, rfl⟩ rfl nofun
  | func t k =>
      cases a with
      | go =>
          cases hs
          exact .none (.refl g) rfl id
      | flush =>
          cases k with
          | loop outer =>
              cases hs
              exact .nested
          | scheduled => cases hs
      | _ => cases k <;> cases hs
  | again t k =>
      simp only [step] at hs
      split at hs <;> cases hs
      exact .finish
  | wakeNext rest k =>
      cases rest with
      | nil =>
          cases k <;> cases hs <;> exact .none (.refl g) rfl id
      | cons p rest =>
          cases hs
          exact .none (.refl g) rfl id
  | wakeStore p rest k | wakeUp p rest k =>
      cases hs
      exact .none ⟨rfl, rfl, rfl, rfl, rfl, rfl⟩ rfl id
  | schedUnlock | otherStore p | otherUp p =>
      cases hs
      exact .none ⟨rfl, rfl, rfl, rfl, rfl, rfl⟩ rfl id
  | panicked => cases hs

end

/-! ## Where the items are -/

section
variable {ok : Conf Shared Pc → Nat × Choice → Prop} {c : Conf Shared Pc}

theorem total_start {M : Type} [AddCommMonoid M] (w : Pc → M) (hw : w .idle = 0)
    (hc : machine.init c) : total w c.pool = 0 := by
  apply total_eq_zero
  intro pc hpc
  rw [hc.2 pc hpc]
  exact hw

/-- Every item that was queued is finished, being run or on the list, and only once. -/
theorem account (h : machine.Reach ok c) :
    (c.shared.finished : Multiset Nat) + total (fun pc => (pc.running : Multiset Nat)) c.pool +
      (c.shared.worklist : Multiset Nat) = Multiset.range c.shared.inserted := by
  refine Prog.balance (P := prog) (fun pc => (pc.running : Multiset Nat))
    (fun g m => (g.finished : Multiset Nat) + m + (g.worklist : Multiset Nat) =
      Multiset.range g.inserted) ?_ ?_ h
  · intro c hc
    rw [total_start _ rfl hc]
    obtain ⟨⟨-, -, -, hlist, -, hinserted, hfinished, -⟩, -⟩ := hc
    rw [hlist, hinserted, hfinished]
    rfl
  · intro c i a pc g pc' r _ _ _ _ hs hI
    cases step_items hs with
    | none hsame hrunning _ =>
        rw [hsame.finished, hsame.worklist, hsame.inserted, hrunning]
        exact hI
    | queue =>
        rw [Multiset.range_succ, ← hI, ← Multiset.coe_add, Multiset.coe_singleton,
          ← Multiset.singleton_add]
        ac_rfl
    | @scheduled t hmem =>
        have hlist : (c.shared.worklist : Multiset Nat) =
            {t} + (c.shared.worklist.erase t : List Nat) := by
          rw [Multiset.singleton_add, ← Multiset.coe_erase,
            Multiset.cons_erase (Multiset.mem_coe.mpr hmem)]
        rw [hlist] at hI
        show _ + (r + (([t] : List Nat) : Multiset Nat)) + _ = _
        rw [← hI, Multiset.coe_singleton]
        show _ = _ + (r + ((0 : Multiset Nat))) + _
        ac_rfl
    | @take outer t rest hlist =>
        rw [hlist] at hI
        show (c.shared.finished : Multiset Nat) + (r + ((t :: outer : List Nat) : Multiset Nat)) +
          (rest : Multiset Nat) = _
        rw [← hI, ← Multiset.cons_coe, ← Multiset.cons_coe, ← Multiset.singleton_add,
          ← Multiset.singleton_add]
        show _ = _ + (r + (outer : Multiset Nat)) + _
        ac_rfl
    | nested => exact hI
    | @finish t k =>
        rw [← hI, ← Multiset.coe_add, Multiset.coe_singleton]
        show _ + (r + (k.outer : Multiset Nat)) + _ =
          _ + (r + ((t :: k.outer : List Nat) : Multiset Nat)) + _
        rw [← Multiset.cons_coe, ← Multiset.singleton_add]
        ac_rfl

theorem finished_nodup (h : machine.Reach ok c) :
    c.shared.finished.Nodup ∧ ∀ t ∈ c.shared.finished, t < c.shared.inserted := by
  have hle : (c.shared.finished : Multiset Nat) ≤ Multiset.range c.shared.inserted := by
    rw [← account h, add_assoc]
    exact Multiset.le_add_right _ _
  refine ⟨Multiset.coe_nodup.mp (Multiset.nodup_of_le hle (Multiset.nodup_range _)), ?_⟩
  intro t ht
  exact Multiset.mem_range.mp (Multiset.mem_of_le hle (Multiset.mem_coe.mpr ht))

/-- The sequences count. -/
theorem sequences (h : machine.Reach ok c) :
    c.shared.removeSequence = BitVec.ofNat 32 c.shared.finished.length ∧
      c.shared.insertSequence = BitVec.ofNat 32 c.shared.inserted := by
  refine Prog.always (P := prog) (fun g => g.removeSequence = BitVec.ofNat 32 g.finished.length ∧
    g.insertSequence = BitVec.ofNat 32 g.inserted) ?_ ?_ h
  · intro c hc
    obtain ⟨⟨-, hremove, hinsert, -, -, hinserted, hfinished, -⟩, -⟩ := hc
    rw [hremove, hinsert, hinserted, hfinished]
    exact ⟨rfl, rfl⟩
  · intro c i a pc g pc' _ _ _ hs hI
    cases step_items hs with
    | none hsame =>
        rw [hsame.removeSequence, hsame.insertSequence, hsame.finished, hsame.inserted]
        exact hI
    | queue => exact ⟨hI.1, by rw [hI.2]; exact (BitVec.ofNat_add _ _).symm⟩
    | scheduled | take | nested => exact hI
    | finish =>
        refine ⟨?_, hI.2⟩
        rw [hI.1, List.length_append, List.length_singleton]
        exact (BitVec.ofNat_add _ _).symm

/-! ## The order of the items -/

/-- In the loop of `run_workqueue`, or in a function that it calls. -/
def Pc.inLoop : Pc → Bool
  | .loopLock _ | .loopNext _ | .loopEnd _ => true
  | .func _ (.loop _) | .again _ (.loop _) | .wakeNext _ (.loop _) | .wakeStore _ _ (.loop _)
  | .wakeUp _ _ (.loop _) => true
  | _ => false

theorem step_to_inLoop {i : Nat} {g g' : Shared} {pc pc' : Pc} {a : Choice}
    (hs : step i g pc a = some (g', pc')) (hin : pc'.inLoop = true) :
    i = worker ∨ pc.inLoop = true := by
  cases pc with
  | idle =>
      cases a with
      | run =>
          simp only [step] at hs
          split at hs <;> cases hs
          rename_i hi
          exact .inl hi
      | runScheduledWork t =>
          simp only [step] at hs
          split at hs
          · cases hs
          · split at hs <;> cases hs <;> cases hin
      | _ => simp only [step] at hs; (try split at hs) <;> cases hs <;> cases hin
  | flush ph needed n =>
      rcases flush_step hs with ⟨-, -, rfl⟩ | ⟨o, -, ⟨-, rfl⟩ | ⟨ph', -, rfl⟩⟩ <;> cases hin
  | loopLock outer | loopNext outer | loopEnd outer => exact .inr rfl
  | func t k =>
      cases k with
      | loop outer => exact .inr rfl
      | scheduled =>
          cases a <;> cases hs
          cases hin
  | again t k =>
      cases k with
      | loop outer => exact .inr rfl
      | scheduled =>
          simp only [step] at hs
          split at hs <;> cases hs
          cases hin
  | wakeNext rest k =>
      cases k with
      | loop outer => exact .inr rfl
      | scheduled => cases rest <;> cases hs <;> cases hin
  | wakeStore p rest k | wakeUp p rest k =>
      cases k with
      | loop outer => exact .inr rfl
      | scheduled =>
          cases hs
          cases hin
  | schedUnlock | otherStore p | otherUp p =>
      cases hs
      cases hin
  | panicked => cases hs

theorem inLoop_worker (h : machine.Reach ok c) :
    ∀ (i : Nat) (pc : Pc), c.pool[i]? = some pc → pc.inLoop = true → i = worker := by
  refine Prog.thread (P := prog) (fun i _ pc => pc.inLoop = true → i = worker) ?_ ?_ ?_ h
  · intro c i pc hc hp hin
    rw [hc.2 pc (List.mem_of_getElem? hp)] at hin
    cases hin
  · intro c i a pc g pc' _ _ _ hs hR hin
    rcases step_to_inLoop hs hin with hi | hbefore
    · exact hi
    · exact hR hbefore
  · intro c i j a pc q g q' _ _ _ _ _ _ hR hin
    exact hR hin

/-- Without the exceptions, only the worker runs items, and one at a time. -/
theorem orderly (h : machine.Reach ok c) :
    ∀ (i : Nat) (pc : Pc), c.pool[i]? = some pc → c.shared.disorder = false →
      pc.outer = [] ∧ (pc.running ≠ [] → i = worker) := by
  refine Prog.thread (P := prog) (fun i g pc => g.disorder = false →
    pc.outer = [] ∧ (pc.running ≠ [] → i = worker)) ?_ ?_ ?_ h
  · intro c i pc hc hp _
    rw [hc.2 pc (List.mem_of_getElem? hp)]
    exact ⟨rfl, fun hne => absurd rfl hne⟩
  · intro c i a pc g pc' hreach _ hp hs hR hd
    cases step_items hs with
    | none hsame hrunning houter =>
        obtain ⟨hout, hworker⟩ := hR (hsame.disorder ▸ hd)
        rw [hrunning]
        exact ⟨houter hout, hworker⟩
    | queue => exact hR hd
    | scheduled | nested => cases hd
    | take hlist => exact ⟨(hR hd).1, fun _ => inLoop_worker hreach i _ hp rfl⟩
    | finish => exact ⟨(hR hd).1, fun _ => (hR hd).2 (List.cons_ne_nil _ _)⟩
  · intro c i j a pc q g q' _ _ _ _ _ hs hR hd
    cases step_items hs with
    | none hsame => exact hR (hsame.disorder ▸ hd)
    | queue | take | finish => exact hR hd
    | scheduled | nested => cases hd

theorem worker_range (h : machine.Reach ok c) :
    ∀ pc : Pc, c.pool[worker]? = some pc → c.shared.disorder = false →
      c.shared.finished ++ pc.running ++ c.shared.worklist = List.range c.shared.inserted := by
  refine Prog.watch (P := prog) worker (fun _ => (0 : Nat)) (fun g pc _ => g.disorder = false →
    g.finished ++ pc.running ++ g.worklist = List.range g.inserted) ?_ ?_ ?_ h
  · intro c pc hc hp _
    rw [hc.2 pc (List.mem_of_getElem? hp)]
    obtain ⟨⟨-, -, -, hlist, -, hinserted, hfinished, -⟩, -⟩ := hc
    rw [hlist, hinserted, hfinished]
    rfl
  · intro c a pc g pc' _ hreach _ hp hs hR hd
    cases step_items hs with
    | none hsame hrunning _ =>
        rw [hsame.finished, hsame.worklist, hsame.inserted, hrunning]
        exact hR (hsame.disorder ▸ hd)
    | queue =>
        rw [List.range_succ, ← hR hd, List.append_assoc _ _ [_]]
    | scheduled | nested => cases hd
    | @take outer t rest hlist =>
        have hempty : outer = [] := (orderly hreach worker _ hp hd).1
        subst hempty
        rw [← hR hd, hlist]
        simp [Pc.running, Runner.outer]
    | @finish t k =>
        rw [← hR hd]
        simp [Pc.running]
  · intro c j a pc q g q' _ hreach _ hij _ hq hs hR hd
    cases step_items hs with
    | none hsame _ _ =>
        rw [hsame.finished, hsame.worklist, hsame.inserted]
        exact hR (hsame.disorder ▸ hd)
    | queue =>
        rw [List.range_succ, ← hR hd, List.append_assoc _ _ [_]]
    | scheduled | nested => cases hd
    | take hlist => exact absurd (inLoop_worker hreach j _ hq rfl).symm hij
    | finish => exact absurd ((orderly hreach j _ hq hd).2 (List.cons_ne_nil _ _)).symm hij

/-- If nobody runs an item out of its turn, they are finished in the order they were queued. -/
theorem finished_in_order (h : machine.Reach ok c) (hpool : c.pool ≠ [])
    (hd : c.shared.disorder = false) :
    c.shared.finished = List.range c.shared.finished.length := by
  obtain ⟨pc, rest, hcons⟩ := List.exists_cons_of_ne_nil hpool
  have hrange := worker_range h pc (by rw [hcons]; rfl) hd
  have hpre : c.shared.finished <+: List.range c.shared.inserted :=
    ⟨pc.running ++ c.shared.worklist, by rw [← List.append_assoc]; exact hrange⟩
  have hlength := hpre.length_le
  rw [List.length_range] at hlength
  have htake := List.prefix_iff_eq_take.mp hpre
  rw [List.take_range, Nat.min_eq_left hlength] at htake
  exact htake

end

/-! ## The comparison of the sequences -/

theorem compare_le {n m : Nat} (hn : n < m + 2 ^ 31)
    (h : ¬ 0 < intOfWord (BitVec.ofNat 32 n - BitVec.ofNat 32 m)) : n ≤ m := by
  rw [intOfWord, BitVec.toInt_eq_toNat_cond, BitVec.toNat_sub, BitVec.toNat_ofNat,
    BitVec.toNat_ofNat] at h
  split at h <;> omega

theorem compare_lt {n m : Nat} (h : 0 < intOfWord (BitVec.ofNat 32 n - BitVec.ofNat 32 m)) :
    m < n ∨ n + 2 ^ 31 < m := by
  rw [intOfWord, BitVec.toInt_eq_toNat_cond, BitVec.toNat_sub, BitVec.toNat_ofNat,
    BitVec.toNat_ofNat] at h
  split at h <;> omega

/-! ## A flush that returns -/

/-- The loop of the flush is over. -/
def Phase.passed : Phase → Bool
  | .running | .remove | .exit | .returned => true
  | _ => false

section
variable {ok : Conf Shared Pc → Nat × Choice → Prop} {c : Conf Shared Pc} {i : Nat} {g g' : Shared}
  {pc pc' : Pc} {a : Choice} {ph ph' : Phase} {needed : Word} {n m : Nat}

theorem step_grows (hs : step i g pc a = some (g', pc')) :
    g.inserted ≤ g'.inserted ∧ g.finished.length ≤ g'.finished.length := by
  cases step_items hs with
  | none hsame =>
      rw [hsame.inserted, hsame.finished]
      exact ⟨Nat.le_refl _, Nat.le_refl _⟩
  | queue => exact ⟨Nat.le_succ _, Nat.le_refl _⟩
  | scheduled | take | nested => exact ⟨Nat.le_refl _, Nat.le_refl _⟩
  | finish =>
      refine ⟨Nat.le_refl _, ?_⟩
      rw [List.length_append]
      exact Nat.le_add_right _ _

theorem flushStep_passed (hs : flushStep i g ph needed = some (g', some ph'))
    (hp : ph'.passed = true) :
    ph.passed = true ∨ (ph = .test ∧ ¬ 0 < intOfWord (needed - g.removeSequence)) := by
  cases ph with
  | test =>
      cases hs
      by_cases hpos : 0 < intOfWord (needed - g.removeSequence)
      · rw [if_pos hpos] at hp
        cases hp
      · exact .inr ⟨rfl, hpos⟩
  | running | remove | exit => exact .inl rfl
  | _ => simp only [flushStep] at hs; (try split at hs) <;> cases hs <;> cases hp

/-- What a flush knows: how many items were queued before it started, and at its end that as many
have been finished. -/
structure Knows (g : Shared) (ph : Phase) (needed : Word) (n : Nat) : Prop where
  needed : needed = BitVec.ofNat 32 n
  queued : n ≤ g.inserted
  finished : ph.passed = true → n ≤ g.finished.length

theorem flush_knows (h : machine.Reach Few c) :
    ∀ (i : Nat) (pc : Pc), c.pool[i]? = some pc →
      ∀ ph needed n, pc = .flush ph needed n → Knows c.shared ph needed n := by
  refine Prog.thread (P := prog) (fun _ g pc =>
    ∀ ph needed n, pc = .flush ph needed n → Knows g ph needed n) ?_ ?_ ?_ h
  · intro c i pc hc hp ph needed n hpc
    rw [hc.2 pc (List.mem_of_getElem? hp)] at hpc
    cases hpc
  · intro c i a pc g pc' hreach hfew hp hs hR ph needed n hpc
    subst hpc
    cases pc with
    | flush ph₀ needed₀ n₀ =>
        have hknows := hR ph₀ needed₀ n₀ rfl
        rcases flush_step hs with ⟨-, -, hidle⟩ | ⟨o, hflush, ⟨-, hpanic⟩ | ⟨ph', ho, hpc⟩⟩
        · cases hidle
        · cases hpanic
        · cases hpc
          subst ho
          have hsame := flushStep_same hflush
          refine ⟨hknows.needed, hsame.inserted ▸ hknows.queued, ?_⟩
          intro hpassed
          rw [hsame.finished]
          rcases flushStep_passed hflush hpassed with hbefore | ⟨-, htest⟩
          · exact hknows.finished hbefore
          · rw [hknows.needed, (sequences hreach).1] at htest
            have hqueued := hknows.queued
            have hfew' : c.shared.inserted < c.shared.finished.length + 2 ^ 31 := hfew
            exact compare_le (by omega) htest
    | idle =>
        cases a with
        | flush =>
            simp only [prog, step] at hs
            split at hs <;> cases hs
            exact ⟨(sequences hreach).2, Nat.le_refl _, nofun⟩
        | runScheduledWork t =>
            simp only [prog, step] at hs
            split at hs
            · cases hs
            · split at hs <;> cases hs
        | _ => simp only [prog, step] at hs; (try split at hs) <;> cases hs
    | loopEnd outer => cases outer <;> cases hs
    | func t k => cases a <;> cases k <;> cases hs
    | wakeNext rest k => cases rest <;> cases k <;> cases hs
    | _ => simp only [prog, step] at hs; (try split at hs) <;> cases hs
  · intro c i j a pc q g q' _ _ _ _ _ hs hR ph needed n hpc
    obtain ⟨hneeded, hqueued, hfinished⟩ := hR ph needed n hpc
    obtain ⟨hins, hfin⟩ := step_grows hs
    exact ⟨hneeded, Nat.le_trans hqueued hins, fun hpassed => Nat.le_trans (hfinished hpassed) hfin⟩

/-! ## A flush that sleeps -/

/-- The thread has the lock. -/
def Pc.holds : Pc → Nat
  | .flush .test _ _ | .flush .add _ _ | .flush .state _ _ | .flush .unlock _ _
  | .flush .running _ _ | .flush .remove _ _ | .flush .exit _ _ => 1
  | .loopNext _ | .loopEnd _ | .wakeNext _ _ | .wakeStore _ _ _ | .wakeUp _ _ _ | .schedUnlock => 1
  | _ => 0

theorem leave_holds (outer : List Nat) : (leave outer).holds = 0 := by
  cases outer <;> rfl

theorem step_lock (hs : step i g pc a = some (g', pc')) :
    (g'.lock = g.lock ∧ pc'.holds = pc.holds) ∨
      (g.lock = false ∧ g'.lock = true ∧ pc.holds = 0 ∧ pc'.holds = 1) ∨
      (g'.lock = false ∧ pc.holds = 1 ∧ pc'.holds = 0) := by
  cases pc with
  | idle =>
      cases a with
      | flush =>
          simp only [step] at hs
          split at hs <;> cases hs
          rename_i hfree
          exact .inr (.inl ⟨by simpa using (not_or.mp hfree).2, rfl, rfl, rfl⟩)
      | runScheduledWork t =>
          simp only [step] at hs
          split at hs
          · cases hs
          · split at hs <;> cases hs <;> exact .inl ⟨rfl, rfl⟩
      | _ => simp only [step] at hs; (try split at hs) <;> cases hs <;> exact .inl ⟨rfl, rfl⟩
  | flush ph needed n =>
      cases ph with
      | test =>
          cases hs
          refine .inl ⟨rfl, ?_⟩
          split <;> rfl
      | add | state | running | remove | returned =>
          cases hs
          exact .inl ⟨rfl, rfl⟩
      | unlock | exit =>
          cases hs
          exact .inr (.inr ⟨rfl, rfl, rfl⟩)
      | switch =>
          rcases flush_step hs with ⟨hret, -⟩ | ⟨o, hflush, hpc⟩
          · cases hret
          · simp only [flushStep] at hflush
            split at hflush <;> cases hflush <;>
              rcases hpc with ⟨ho, rfl⟩ | ⟨ph', ho, rfl⟩ <;> cases ho <;> exact .inl ⟨rfl, rfl⟩
      | sleep =>
          rcases flush_step hs with ⟨hret, -⟩ | ⟨o, hflush, hpc⟩
          · cases hret
          · simp only [flushStep] at hflush
            split at hflush <;> cases hflush
            rcases hpc with ⟨ho, rfl⟩ | ⟨ph', ho, rfl⟩ <;> cases ho
            exact .inl ⟨rfl, rfl⟩
      | relock =>
          rcases flush_step hs with ⟨hret, -⟩ | ⟨o, hflush, hpc⟩
          · cases hret
          · simp only [flushStep] at hflush
            split at hflush <;> cases hflush
            rename_i hfree
            rcases hpc with ⟨ho, rfl⟩ | ⟨ph', ho, rfl⟩ <;> cases ho
            exact .inr (.inl ⟨by simpa using hfree, rfl, rfl, rfl⟩)
  | loopLock outer =>
      simp only [step] at hs
      split at hs <;> cases hs
      rename_i hfree
      exact .inr (.inl ⟨by simpa using hfree, rfl, rfl, rfl⟩)
  | loopNext outer =>
      simp only [step] at hs
      split at hs <;> cases hs
      · exact .inl ⟨rfl, rfl⟩
      · exact .inr (.inr ⟨rfl, rfl, rfl⟩)
  | loopEnd outer =>
      cases hs
      exact .inr (.inr ⟨rfl, rfl, leave_holds outer⟩)
  | func t k =>
      cases a <;> cases k <;> cases hs <;> exact .inl ⟨rfl, rfl⟩
  | again t k =>
      simp only [step] at hs
      split at hs <;> cases hs
      rename_i hfree
      exact .inr (.inl ⟨by simpa using hfree, rfl, rfl, rfl⟩)
  | wakeNext rest k => cases rest <;> cases k <;> cases hs <;> exact .inl ⟨rfl, rfl⟩
  | wakeStore p rest k | wakeUp p rest k | otherStore p | otherUp p =>
      cases hs
      exact .inl ⟨rfl, rfl⟩
  | schedUnlock =>
      cases hs
      exact .inr (.inr ⟨rfl, rfl, rfl⟩)
  | panicked => cases hs

theorem lock_held (h : machine.Reach ok c) : total Pc.holds c.pool = c.shared.lock.toNat := by
  refine Prog.balance (P := prog) Pc.holds (fun g n => n = g.lock.toNat) ?_ ?_ h
  · intro c hc
    rw [total_start Pc.holds rfl hc, hc.1.1]
    rfl
  · intro c i a pc g pc' r _ _ _ _ hs hI
    rcases step_lock hs with ⟨hlock, hpc⟩ | ⟨hfree, htaken, hpc, hpc'⟩ | ⟨hfree, hpc, hpc'⟩
    · rw [hpc, hI, hlock]
    · rw [hfree, hpc] at hI
      rw [htaken, hpc', show r = 0 from hI]
      rfl
    · rw [hpc] at hI
      have hle := Bool.toNat_le c.shared.lock
      rw [hfree, hpc']
      show r = 0
      omega

/-- From the moment the entry is queued until the sleep is over. -/
def Phase.queued : Phase → Bool
  | .state | .unlock | .switch | .sleep => true
  | _ => false

theorem step_workDone (hs : step i g pc a = some (g', pc')) :
    g'.workDone = g.workDone ∨
      (∃ needed n, pc = .flush .add needed n ∧ pc' = .flush .state needed n ∧
        g'.workDone = if i ∈ g.workDone then g.workDone else i :: g.workDone) ∨
      (∃ needed n, pc = .flush .remove needed n ∧ g'.workDone = g.workDone.erase i) := by
  cases pc with
  | idle =>
      cases a with
      | runScheduledWork t =>
          simp only [step] at hs
          split at hs
          · cases hs
          · split at hs <;> cases hs <;> exact .inl rfl
      | _ => simp only [step] at hs; (try split at hs) <;> cases hs <;> exact .inl rfl
  | flush ph needed n =>
      cases ph with
      | add =>
          cases hs
          exact .inr (.inl ⟨needed, n, rfl, rfl, rfl⟩)
      | remove =>
          cases hs
          exact .inr (.inr ⟨needed, n, rfl, rfl⟩)
      | _ =>
          rcases flush_step hs with ⟨-, rfl, -⟩ | ⟨o, hflush, -⟩
          · exact .inl rfl
          · simp only [flushStep] at hflush
            (try split at hflush) <;> cases hflush <;> exact .inl rfl
  | loopEnd outer => cases hs; exact .inl rfl
  | func t k => cases a <;> cases k <;> cases hs <;> exact .inl rfl
  | wakeNext rest k => cases rest <;> cases k <;> cases hs <;> exact .inl rfl
  | _ =>
      simp only [step] at hs
      (try split at hs) <;> cases hs <;> exact .inl rfl

/-- How a flush comes to sleep. -/
theorem flushStep_queued (hs : flushStep i g ph needed = some (g', some ph'))
    (hq : ph'.queued = true) : ph = .add ∨ ph.queued = true := by
  cases ph with
  | add => exact .inl rfl
  | state | unlock | switch | sleep => exact .inr rfl
  | test =>
      cases hs
      split at hq <;> cases hq
  | _ => simp only [flushStep] at hs; (try split at hs) <;> cases hs <;> cases hq

/-- A step that leads into a flush is one of the flush, or the first one. -/
theorem step_to_flush (hs : step i g pc a = some (g', .flush ph needed n)) :
    ph = .test ∨ ∃ ph₀, pc = .flush ph₀ needed n ∧
      flushStep i g ph₀ needed = some (g', some ph) := by
  cases pc with
  | flush ph₀ needed₀ n₀ =>
      rcases flush_step hs with ⟨-, -, hidle⟩ | ⟨o, hflush, ⟨-, hpanic⟩ | ⟨ph', ho, hpc⟩⟩
      · cases hidle
      · cases hpanic
      · cases hpc
        subst ho
        exact .inr ⟨ph₀, rfl, hflush⟩
  | idle =>
      cases a with
      | flush =>
          simp only [step] at hs
          split at hs <;> cases hs
          exact .inl rfl
      | runScheduledWork t =>
          simp only [step] at hs
          split at hs
          · cases hs
          · split at hs <;> cases hs
      | _ => simp only [step] at hs; (try split at hs) <;> cases hs
  | loopEnd outer => cases outer <;> cases hs
  | func t k => cases a <;> cases k <;> cases hs
  | wakeNext rest k => cases rest <;> cases k <;> cases hs
  | _ => simp only [step] at hs; (try split at hs) <;> cases hs

theorem queued_mem (h : machine.Reach ok c) :
    ∀ (i : Nat) (pc : Pc), c.pool[i]? = some pc →
      ∀ ph needed n, pc = .flush ph needed n → ph.queued = true → i ∈ c.shared.workDone := by
  refine Prog.thread (P := prog) (fun i g pc =>
    ∀ ph needed n, pc = .flush ph needed n → ph.queued = true → i ∈ g.workDone) ?_ ?_ ?_ h
  · intro c i pc hc hp ph needed n hpc
    rw [hc.2 pc (List.mem_of_getElem? hp)] at hpc
    cases hpc
  · intro c i a pc g pc' _ _ _ hs hR ph needed n hpc hq
    subst hpc
    rcases step_to_flush hs with rfl | ⟨ph₀, rfl, hflush⟩
    · cases hq
    · rcases flushStep_queued hflush hq with rfl | hbefore
      · cases hflush
        show i ∈ if i ∈ c.shared.workDone then c.shared.workDone else i :: c.shared.workDone
        split
        · assumption
        · exact List.mem_cons_self
      · have hmem := hR ph₀ needed n rfl hbefore
        rcases step_workDone hs with hsame | ⟨_, _, hadd, -⟩ | ⟨_, _, hremove, -⟩
        · rw [hsame]
          exact hmem
        · cases hadd
          cases hbefore
        · cases hremove
          cases hbefore
  · intro c i j a pc q g q' _ _ hij _ _ hs hR ph needed n hpc hq
    have hmem := hR ph needed n hpc hq
    rcases step_workDone hs with hsame | ⟨_, _, -, -, hadd⟩ | ⟨_, _, -, hremove⟩
    · rw [hsame]
      exact hmem
    · rw [hadd]
      split
      · exact hmem
      · exact List.mem_cons_of_mem _ hmem
    · rw [hremove]
      exact (List.mem_erase_of_ne hij).mpr hmem

/-- A thread that will raise the semaphore of `i` weighs one. -/
def willWake (i : Nat) : Pc → Nat
  | .wakeNext rest _ => if i ∈ rest then 1 else 0
  | .wakeStore p rest _ | .wakeUp p rest _ => if i ∈ p :: rest then 1 else 0
  | _ => 0

theorem leave_willWake (i : Nat) (outer : List Nat) : willWake i (leave outer) = 0 := by
  cases outer <;> rfl

/-- The sleep of flusher `i` is covered, `m` threads being on their way to it. -/
def Covered (i : Nat) (needed : Word) (g : Shared) (m : Nat) : Prop :=
  0 < intOfWord (needed - g.removeSequence) ∨ 0 < (g.tasks i).sleepLock ∨ 0 < m

theorem Covered.frame (h : Covered i needed g n) (hr : g'.removeSequence = g.removeSequence)
    (ht : (g'.tasks i).sleepLock = (g.tasks i).sleepLock) (hm : m = n) : Covered i needed g' m := by
  subst hm
  rw [Covered, hr, ht]
  exact h

/-- Raising a semaphore takes no token from anybody. -/
theorem Covered.semUp {i p : Nat} (h : Covered i needed g n) (hm : i ≠ p → m = n) :
    Covered i needed { g with tasks := Sched.semUp g.tasks p } m := by
  by_cases hp : i = p
  · subst hp
    exact .inr (.inl (by simp))
  · exact h.frame rfl (congrArg _ (semUp_ne _ _ _ hp)) (hm hp)

/-- A step of another thread: whoever counts an item wakes those on the queue. -/
theorem step_covered {i j : Nat} {r : Nat} (hij : i ≠ j) (hmem : g.lock = false → i ∈ g.workDone)
    (hs : step j g pc a = some (g', pc')) (h : Covered i needed g (r + willWake i pc)) :
    Covered i needed g' (r + willWake i pc') := by
  cases pc with
  | idle =>
      cases a with
      | runScheduledWork t =>
          simp only [step] at hs
          split at hs
          · cases hs
          · split at hs <;> cases hs <;> exact h.frame rfl rfl rfl
      | _ => simp only [step] at hs; (try split at hs) <;> cases hs <;> exact h.frame rfl rfl rfl
  | flush ph needed' n =>
      have hw : willWake i pc' = 0 := by
        rcases flush_step hs with ⟨-, -, rfl⟩ | ⟨o, -, ⟨-, rfl⟩ | ⟨ph', -, rfl⟩⟩ <;> rfl
      have htoken : (g'.tasks i).sleepLock = (g.tasks i).sleepLock := by
        rcases flush_step hs with ⟨-, rfl, -⟩ | ⟨o, hflush, -⟩
        · rfl
        · cases ph with
          | state | running =>
              cases hflush
              exact setTaskState_sleepLock _ _ _ _
          | sleep =>
              simp only [flushStep] at hflush
              split at hflush
              · cases hflush
              · rename_i ts hd
                cases hflush
                exact congrArg _ ((semDown_some hd).2.2 i hij)
          | _ => simp only [flushStep] at hflush; (try split at hflush) <;> cases hflush <;> rfl
      refine h.frame ?_ htoken (by rw [hw]; rfl)
      cases step_items hs with
      | none hsame => exact hsame.removeSequence
  | loopEnd outer =>
      cases hs
      exact h.frame rfl rfl (by rw [leave_willWake]; rfl)
  | func t k => cases a <;> cases k <;> cases hs <;> exact h.frame rfl rfl rfl
  | again t k =>
      simp only [step] at hs
      split at hs <;> cases hs
      rename_i hfree
      refine .inr (.inr ?_)
      simp only [willWake, if_pos (hmem (by simpa using hfree))]
      omega
  | wakeNext rest k =>
      cases rest with
      | nil => cases k <;> cases hs <;> exact h.frame rfl rfl (by simp [willWake])
      | cons p rest =>
          cases hs
          exact h.frame rfl rfl rfl
  | wakeStore p rest k | otherStore p =>
      cases hs
      exact h.frame rfl (setTaskState_sleepLock _ _ _ _) rfl
  | wakeUp p rest k =>
      cases hs
      exact h.semUp (fun hp => by simp [willWake, hp])
  | otherUp p =>
      cases hs
      exact h.semUp (fun _ => rfl)
  | _ =>
      simp only [step] at hs
      (try split at hs) <;> cases hs <;> exact h.frame rfl rfl rfl

/-- A flush that has found the sequence too low, and is on its way to `dde_kit_sem_down` or in
it. -/
def Phase.asleep : Phase → Bool
  | .add => true
  | ph => ph.queued

theorem flushStep_asleep (hs : flushStep i g ph needed = some (g', some ph'))
    (ha : ph'.asleep = true) :
    (ph = .test ∧ g' = g ∧ 0 < intOfWord (needed - g.removeSequence)) ∨
      ph.asleep = true ∧ (g'.tasks i).sleepLock = (g.tasks i).sleepLock := by
  cases ph with
  | test =>
      cases hs
      by_cases hpos : 0 < intOfWord (needed - g.removeSequence)
      · exact .inl ⟨rfl, rfl, hpos⟩
      · rw [if_neg hpos] at ha
        cases ha
  | state =>
      cases hs
      exact .inr ⟨rfl, setTaskState_sleepLock _ _ _ _⟩
  | add | unlock =>
      cases hs
      exact .inr ⟨rfl, rfl⟩
  | switch =>
      simp only [flushStep] at hs
      split at hs <;> cases hs
      · cases ha
      · exact .inr ⟨rfl, rfl⟩
  | _ => simp only [flushStep] at hs; (try split at hs) <;> cases hs <;> cases ha

theorem asleep_covered (h : machine.Reach ok c) (i : Nat) :
    ∀ pc : Pc, c.pool[i]? = some pc → ∀ ph needed n, pc = .flush ph needed n → ph.asleep = true →
      Covered i needed c.shared (total (willWake i) c.pool) := by
  refine Prog.watch (P := prog) i (willWake i) (fun g pc m => ∀ ph needed n,
    pc = .flush ph needed n → ph.asleep = true → Covered i needed g m) ?_ ?_ ?_ h
  · intro c pc hc hp ph needed n hpc
    rw [hc.2 pc (List.mem_of_getElem? hp)] at hpc
    cases hpc
  · intro c a pc g pc' r _ _ _ hs hS ph needed n hpc ha
    subst hpc
    rcases step_to_flush hs with rfl | ⟨ph₀, rfl, hflush⟩
    · cases ha
    · rcases flushStep_asleep hflush ha with ⟨-, rfl, hpos⟩ | ⟨hbefore, htoken⟩
      · exact .inl hpos
      · exact (hS ph₀ needed n rfl hbefore).frame (flushStep_same hflush).removeSequence htoken rfl
  · intro c j a pc q g q' r hreach _ hij hp _ hs hS ph needed n hpc ha
    refine step_covered hij ?_ hs (hS ph needed n hpc ha)
    -- a flush that is not yet on the queue has the lock
    intro hfree
    by_cases hq : ph.queued = true
    · exact queued_mem hreach i pc hp ph needed n hpc hq
    · have hadd : ph = .add := by
        cases ph <;> first | rfl | exact absurd ha hq
      have hle := le_total Pc.holds hp
      rw [lock_held hreach, hfree, hpc, hadd] at hle
      exact absurd hle (Nat.not_succ_le_zero 0)

/-! ## The flush -/

/-- On the way to wake somebody on `work_done`. -/
def Pc.waking : Pc → Bool
  | .wakeNext _ _ | .wakeStore _ _ _ | .wakeUp _ _ _ => true
  | _ => false

theorem willWake_of_not_waking (i : Nat) {pc : Pc} (h : pc.waking = false) : willWake i pc = 0 := by
  cases pc <;> first | rfl | cases h

/-- **A flush waits for what was queued before.**  In every interleaving of `queue_work`,
`flush_workqueue`, the worker, `run_scheduled_work` and other wake-ups, with fewer than `2 ^ 31`
items queued or being run at a time: no item is finished twice.  When a flush returns, at least as
many items have been finished as were queued before it; and if none was run out of its turn, all
items queued before it.  If a flush hangs in `dde_kit_sem_down` with its semaphore at zero, and
nobody is on the way to wake it, then fewer items have been finished and there is one on the list or
being run; unless more than `2 ^ 31` items have been finished since it began. -/
theorem workqueue_flush_waits (c : Conf Shared Pc) (h : machine.Reach Few c) :
    c.shared.finished.Nodup ∧
      (∀ (i : Nat) (needed : Word) (n : Nat), c.pool[i]? = some (.flush .returned needed n) →
        n ≤ c.shared.finished.length ∧
          (c.shared.disorder = false → ∀ t < n, t ∈ c.shared.finished)) ∧
      ∀ (i : Nat) (needed : Word) (n : Nat), c.pool[i]? = some (.flush .sleep needed n) →
        (c.shared.tasks i).sleepLock = 0 → (∀ pc ∈ c.pool, pc.waking = false) →
        (c.shared.finished.length < n ∧
          (c.shared.worklist ≠ [] ∨ ∃ pc ∈ c.pool, pc.running ≠ [])) ∨
        n + 2 ^ 31 < c.shared.finished.length := by
  refine ⟨(finished_nodup h).1, ?_, ?_⟩
  · intro i needed n hp
    have hle := (flush_knows h i _ hp _ _ _ rfl).finished rfl
    refine ⟨hle, ?_⟩
    intro hd t ht
    have hpool : c.pool ≠ [] := List.ne_nil_of_mem (List.mem_of_getElem? hp)
    rw [finished_in_order h hpool hd]
    exact List.mem_range.mpr (Nat.lt_of_lt_of_le ht hle)
  · intro i needed n hp htoken hwaking
    have hknows := flush_knows h i _ hp _ _ _ rfl
    have hwake : total (willWake i) c.pool = 0 :=
      total_eq_zero (fun pc hpc => willWake_of_not_waking i (hwaking pc hpc))
    rcases asleep_covered h i _ hp _ _ _ rfl rfl with hpos | htok | hwaker
    · rw [hknows.needed, (sequences h).1] at hpos
      rcases compare_lt hpos with hlt | hwrap
      · refine .inl ⟨hlt, ?_⟩
        by_contra hnone
        obtain ⟨hlist, hrun⟩ := not_or.mp hnone
        have hzero : total (fun pc => (pc.running : Multiset Nat)) c.pool = 0 := by
          refine total_eq_zero ?_
          intro pc hpc
          have hempty : pc.running = [] := by
            by_contra hne
            exact hrun ⟨pc, hpc, hne⟩
          rw [hempty]
          rfl
        have hcard := congrArg Multiset.card (account h)
        rw [hzero, not_not.mp hlist] at hcard
        simp only [add_zero, Multiset.coe_nil, Multiset.coe_card, Multiset.card_range] at hcard
        have hqueued := hknows.queued
        omega
      · exact .inr hwrap
    · omega
    · omega

/-- A queue after its creation, with the worker and one thread. -/
def fresh : Conf Shared Pc :=
  ⟨⟨false, 0, 0, [], [], fun _ => ⟨.running, 0⟩, 0, [], false⟩, [.idle, .idle]⟩

theorem fresh_init : machine.init fresh :=
  ⟨⟨rfl, rfl, rfl, rfl, rfl, rfl, rfl, rfl⟩, by simp [fresh, prog]⟩

/-- Thread 1 queues an item, flushes, sleeps until the worker has finished it, and returns. -/
theorem workqueue_flush_waits_one :
    ∃ c, machine.Reach Few c ∧ c.pool[1]? = some (.flush .returned 1 1) ∧
      c.shared.disorder = false ∧ 1 ≤ c.shared.finished.length ∧
      ∀ t < 1, t ∈ c.shared.finished := by
  have hrun : (machine.runOk Few fresh
      ([(1, .queue), (1, .flush)] ++ List.replicate 5 (1, .go) ++ [(0, .run)] ++
        List.replicate 10 (0, .go) ++ List.replicate 6 (1, .go))).map
      (fun c => (c.pool[1]?, c.shared.disorder)) = some (some (.flush .returned 1 1), false) := by
    decide
  obtain ⟨c, hc, hat⟩ := Option.map_eq_some_iff.mp hrun
  obtain ⟨hpool, hd⟩ := Prod.mk.inj hat
  have hreach := Machine.Reach.runOk (.init fresh_init) _ hc
  obtain ⟨hle, hall⟩ := (workqueue_flush_waits c hreach).2.1 1 1 1 hpool
  exact ⟨c, hreach, hpool, hd, hle, hall hd⟩

end

end LinuxDrivers.Kernel.Flush
