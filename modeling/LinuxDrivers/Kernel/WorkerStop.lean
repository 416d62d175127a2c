/-
# `LinuxDrivers.Kernel.WorkerStop` — a worker that is to stop does not sleep through it

`kthread_stop` of `kernel/kthread.c`, on the worker of a work queue:

    stopper   lock;  init done;  k = worker;  wake the worker;  wait for done
              k = NULL;  ret = err;  unlock;  return ret
    worker    state = INTERRUPTIBLE;  complete create->started;  schedule()
              ret = -EINTR, or what worker_thread returns if k is not the worker
              if k is the worker:  err = ret;  complete done

The worker sleeps in two places, in `kthread` and in the loop of `worker_thread`, and it looks
at `k` after the first and before the second, with no lock.  A wake-up stores `RUNNING`, which
the worker may overwrite on its way to sleep, but it also leaves a token, and the worker is
the only one to take tokens.  So a stopper that has come to its wait has left a token for
whoever did not see `k`.

The work queue is that of `WorkQueue`, with its `kthread_stop` taken apart, and the completion
that of `Completion`.  Beside the state of the code there is a history: `worker_thread` was
entered, and its result stored.

**Proved here.**

    the work queue is what it was in `WorkQueue` and `Worker`  (`account`, `attended`)
    a stopper waits, and the worker is on its way to sleep
      ⟹  there is a token                                     (`signalled`)
    so no stopper waits for a worker that sleeps on           (`not_missed`)
-/
import LinuxDrivers.Kernel.Worker
import LinuxDrivers.Kernel.Kthread

namespace LinuxDrivers.Kernel.WorkerStop

open LinuxDrivers.Lib LinuxDrivers.Kernel.Sched
open LinuxDrivers.Kernel.WorkQueue (Role Place Attended Account roles places)
open LinuxDrivers.Kernel.Kthread (finished eintr)

/-! ## The code -/

structure Shared where
  /-- the queue and the task of the worker; `shouldStop` is `kthread_stop_info.k == worker` -/
  wq : WorkQueue.Shared
  /-- `kthread_stop_info.done`, and the tasks of the stoppers -/
  done : Completion.Shared
  /-- `kthread_stop_lock`, and `kthread_stop_info.err` -/
  stopLock : Bool
  stopErr : Int
  /-- `create->started` is completed: `kthread_create` hands out the task -/
  created : Bool
  /-- `worker_thread` was called -/
  entered : Bool
  /-- the worker has stored its result -/
  stored : Bool

namespace Shared

def setWorker (g : Shared) (task : TaskStruct) : Shared :=
  { g with wq := { g.wq with worker := task } }

def setShouldStop (g : Shared) (stop : Bool) : Shared :=
  { g with wq := { g.wq with shouldStop := stop } }

end Shared

/-- Where a call stands, named after the access it makes next. -/
inductive Frame where
  /-- `worker_thread`, `queue_work`, work functions and all that `WorkQueue` has -/
  | wq (f : WorkQueue.Frame)
  /-- `kthread` -/
  | birth
  | setState
  | completeStarted
  | switch
  | down
  | testStop
  /-- also the place where `worker_thread` returns to -/
  | testStopped (ret : Int)
  | storeErr (ret : Int)
  | complete (pc : Completion.Pc)
  | exited
  /-- `kthread_stop(worker)`, called by task `me` -/
  | stopLock (me : Nat)
  | stopInit (me : Nat)
  | stopStore (me : Nat)
  | wakeStore (me : Nat)
  | wakeUp (me : Nat)
  | wait (me : Nat) (pc : Completion.Pc)
  | stopReset
  | stopRead
  | stopUnlock (ret : Int)
  | returned (ret : Int)
  deriving DecidableEq, Repr

/-- What code outside these files does next. -/
inductive Choice where
  | wq (a : WorkQueue.Choice)
  | kthreadStop (me : Nat)
  deriving DecidableEq, Repr

/-- One access of the top frame. -/
def exec (g : Shared) (f : Frame) (a : Choice) : Option (Shared × List Frame) :=
  match f with
  | .wq f =>
      match a with
      | .wq a =>
          if a = .call .kthreadStop then none
          else (WorkQueue.exec g.wq f a).map (fun x => ({ g with wq := x.1 }, x.2.map .wq))
      | .kthreadStop _ => none
  | .birth =>
      if g.wq.started then none
      else some ({ g with wq := { g.wq with started := true } }, [.setState])
  | .setState =>
      some (g.setWorker { g.wq.worker with state := .interruptible }, [.completeStarted])
  | .completeStarted => some ({ g with created := true }, [.switch])
  | .switch =>
      match schedule g.wq.worker.state with
      | .yield => some (g, [.testStop])
      | .down => some (g, [.down])
      | .panic => some (g, [.wq .panicked])
  | .down =>
      match g.wq.worker.sleepLock with
      | 0 => none
      | n + 1 => some (g.setWorker { g.wq.worker with sleepLock := n }, [.testStop])
  | .testStop =>
      if g.wq.shouldStop then some (g, [.testStopped (-eintr)])
      else some ({ g with entered := true }, [.wq .workerState, .testStopped 0])
  | .testStopped ret => some (g, if g.wq.shouldStop then [.storeErr ret] else [.exited])
  | .storeErr ret =>
      some ({ g with stopErr := ret, stored := true }, [.complete .completeLock])
  | .complete pc =>
      -- `complete` does nothing to the task of its caller
      match Completion.step 0 g.done pc .tick with
      | none => none
      | some (sh, pc') =>
          some ({ g with done := sh }, if finished pc' then [.exited] else [.complete pc'])
  | .exited => none
  | .stopLock me =>
      if g.created = false ∨ g.stopLock = true then none
      else some ({ g with stopLock := true }, [.stopInit me])
  | .stopInit me =>
      some ({ g with done := { g.done with
        done := 0, lock := false, taskList := [], completed := 0, succeeded := 0 } },
        [.stopStore me])
  | .stopStore me => some (g.setShouldStop true, [.wakeStore me])
  | .wakeStore me => some (g.setWorker { g.wq.worker with state := .running }, [.wakeUp me])
  | .wakeUp me =>
      some (g.setWorker { g.wq.worker with sleepLock := g.wq.worker.sleepLock + 1 },
        [.wait me (.waitLock .plain)])
  | .wait me pc =>
      match Completion.step me g.done pc .tick with
      | none => none
      | some (sh, pc') =>
          some ({ g with done := sh }, if finished pc' then [.stopReset] else [.wait me pc'])
  | .stopReset => some (g.setShouldStop false, [.stopRead])
  | .stopRead => some (g, [.stopUnlock g.stopErr])
  | .stopUnlock ret => some ({ g with stopLock := false }, [.returned ret])
  | .returned _ => some (g, [])

/-- The work queue as `create_workqueue` has set it up, before its worker is there.  Threads
call what `WorkQueue` lets them call, one of them becomes the worker, and any number of them
stop it. -/
def code : Code Shared Frame Choice where
  init g := WorkQueue.code.init g.wq ∧ g.wq.shouldStop = false ∧ g.done.done = 0 ∧
    g.stopLock = false ∧ g.created = false ∧ g.entered = false ∧ g.stored = false
  start stack := stack = []
  call a :=
    match a with
    | .wq (.call .kthreadStop) => none
    | .wq (.call c) => some (.wq c.frame)
    | .wq .worker => some .birth
    | .wq _ => none
    | .kthreadStop me => some (.stopLock me)
  exec := exec

def machine : Machine (Conf Shared (List Frame)) (Nat × Choice) := code.machine

/-! ## What an access can do -/

/-- The calls of idle threads. -/
theorem call_cases {a : Choice} {f : Frame} (h : code.call a = some f) :
    (∃ c : WorkQueue.Call, c ≠ .kthreadStop ∧ f = .wq c.frame) ∨ f = .birth ∨
      ∃ me, f = .stopLock me := by
  cases a with
  | wq a =>
      cases a with
      | call c =>
          cases c with
          | kthreadStop => cases h
          | queueWork w =>
              cases h
              exact .inl ⟨.queueWork w, nofun, rfl⟩
          | runScheduledWork w =>
              cases h
              exact .inl ⟨.runScheduledWork w, nofun, rfl⟩
          | wakeUpProcess =>
              cases h
              exact .inl ⟨.wakeUpProcess, nofun, rfl⟩
      | worker =>
          cases h
          exact .inr (.inl rfl)
      | go => cases h
      | sleep task => cases h
  | kthreadStop me =>
      cases h
      exact .inr (.inr ⟨me, rfl⟩)

/-- The accesses, one by one. -/
inductive Next (g : Shared) : Frame → Shared → List Frame → Prop
  | wq {f : WorkQueue.Frame} {a : WorkQueue.Choice} {wq : WorkQueue.Shared}
      {new : List WorkQueue.Frame} : a ≠ .call .kthreadStop →
      WorkQueue.exec g.wq f a = some (wq, new) → Next g (.wq f) { g with wq := wq } (new.map .wq)
  | birth : g.wq.started = false →
      Next g .birth { g with wq := { g.wq with started := true } } [.setState]
  | setState :
      Next g .setState (g.setWorker { g.wq.worker with state := .interruptible })
        [.completeStarted]
  | completeStarted : Next g .completeStarted { g with created := true } [.switch]
  | yield : Next g .switch g [.testStop]
  | sleep : Next g .switch g [.down]
  | panic : Next g .switch g [.wq .panicked]
  | down {n : Nat} : Next g .down (g.setWorker { g.wq.worker with sleepLock := n }) [.testStop]
  | skip : g.wq.shouldStop = true → Next g .testStop g [.testStopped (-eintr)]
  | enter : Next g .testStop { g with entered := true } [.wq .workerState, .testStopped 0]
  | stopped {ret : Int} : Next g (.testStopped ret) g [.storeErr ret]
  | leave {ret : Int} : g.wq.shouldStop = false → Next g (.testStopped ret) g [.exited]
  | storeErr {ret : Int} :
      Next g (.storeErr ret) { g with stopErr := ret, stored := true } [.complete .completeLock]
  | complete {pc pc' : Completion.Pc} {sh : Completion.Shared} :
      Completion.step 0 g.done pc .tick = some (sh, pc') → finished pc' = false →
      Next g (.complete pc) { g with done := sh } [.complete pc']
  | completed {pc pc' : Completion.Pc} {sh : Completion.Shared} :
      Completion.step 0 g.done pc .tick = some (sh, pc') →
      Next g (.complete pc) { g with done := sh } [.exited]
  | stopLock {me : Nat} : g.stopLock = false →
      Next g (.stopLock me) { g with stopLock := true } [.stopInit me]
  | stopInit {me : Nat} {sh : Completion.Shared} : sh.done = 0 →
      Next g (.stopInit me) { g with done := sh } [.stopStore me]
  | stopStore {me : Nat} : Next g (.stopStore me) (g.setShouldStop true) [.wakeStore me]
  | wakeStore {me : Nat} :
      Next g (.wakeStore me) (g.setWorker { g.wq.worker with state := .running }) [.wakeUp me]
  | wakeUp {me : Nat} :
      Next g (.wakeUp me)
        (g.setWorker { g.wq.worker with sleepLock := g.wq.worker.sleepLock + 1 })
        [.wait me (.waitLock .plain)]
  | wait {me : Nat} {pc pc' : Completion.Pc} {sh : Completion.Shared} :
      Completion.step me g.done pc .tick = some (sh, pc') → finished pc' = false →
      Next g (.wait me pc) { g with done := sh } [.wait me pc']
  | waited {me : Nat} {pc pc' : Completion.Pc} {sh : Completion.Shared} :
      Completion.step me g.done pc .tick = some (sh, pc') → finished pc' = true →
      Next g (.wait me pc) { g with done := sh } [.stopReset]
  | stopReset : Next g .stopReset (g.setShouldStop false) [.stopRead]
  | stopRead : Next g .stopRead g [.stopUnlock g.stopErr]
  | stopUnlock {ret : Int} :
      Next g (.stopUnlock ret) { g with stopLock := false } [.returned ret]
  | returned {ret : Int} : Next g (.returned ret) g []

section
variable {g g' : Shared} {f : Frame} {new : List Frame} {a : Choice}

theorem exec_next (hs : exec g f a = some (g', new)) : Next g f g' new := by
  cases f with
  | wq f =>
      cases a with
      | wq a =>
          simp only [exec] at hs
          split at hs
          · cases hs
          · rename_i ha
            obtain ⟨⟨wq, frames⟩, hx, hxg⟩ := Option.map_eq_some_iff.mp hs
            cases hxg
            exact .wq ha hx
      | kthreadStop me => cases hs
  | birth =>
      simp only [exec] at hs
      split at hs <;> cases hs
      exact .birth (Bool.eq_false_iff.mpr ‹_›)
  | switch =>
      simp only [exec] at hs
      split at hs <;> cases hs
      · exact .yield
      · exact .sleep
      · exact .panic
  | down =>
      simp only [exec] at hs
      split at hs <;> cases hs
      exact .down
  | testStop =>
      simp only [exec] at hs
      split at hs <;> cases hs
      · exact .skip ‹_›
      · exact .enter
  | testStopped ret =>
      cases hs
      split
      · exact .stopped
      · exact .leave (Bool.eq_false_iff.mpr ‹_›)
  | complete pc =>
      simp only [exec] at hs
      split at hs <;> cases hs
      rename_i sh pc' hstep
      cases hfin : finished pc' with
      | true => exact .completed hstep
      | false => exact .complete hstep hfin
  | wait me pc =>
      simp only [exec] at hs
      split at hs <;> cases hs
      rename_i sh pc' hstep
      cases hfin : finished pc' with
      | true => exact .waited hstep hfin
      | false => exact .wait hstep hfin
  | stopLock me =>
      simp only [exec] at hs
      split at hs <;> cases hs
      rename_i hfree
      exact .stopLock (by simpa using (not_or.mp hfree).2)
  | stopInit me =>
      cases hs
      exact .stopInit rfl
  | exited => cases hs
  | _ =>
      cases hs
      constructor

end

/-! ## The work queue as before -/

/-- The places of `WorkQueue`. -/
@[simp] def queuePlaces (w : Nat) : Frame → Place → Nat
  | .wq f, k => places w f k
  | _, _ => 0

/-- The roles of `Worker`; in `kthread` the worker is awake and not on `more_work`. -/
@[simp] def queueRoles : Frame → Role → Nat
  | .wq f, k => roles f k
  | .setState, .off | .completeStarted, .off | .switch, .off | .down, .off | .testStop, .off => 1
  | _, _ => 0

/-- While the worker is awake it may take a token. -/
theorem awake {g : WorkQueue.Shared} {n : Role → Nat} {task : TaskStruct} (hoff : 0 < n .off)
    (h : Attended g n) : Attended { g with worker := task } n := by
  have hle := h.le_one
  refine ⟨h.one, h.depth, h.queued, ?_⟩
  intro hasleep
  omega

section
variable {c : Conf Shared (List Frame)}

theorem account (h : machine.Reachable c) (w : Nat) :
    Account w c.shared.wq (census (queuePlaces w) c) := by
  refine Code.balance (C := code) (queuePlaces w) (fun g n => Account w g.wq n) ?_ ?_ ?_ h
  · intro c hc
    rw [Code.census_init (fun _ h => h) (queuePlaces w) hc]
    obtain ⟨⟨⟨hitems, -, hlist, -⟩, -⟩, -⟩ := hc
    obtain ⟨hdata, hhist⟩ := hitems w
    constructor <;> simp [hdata, hhist, hlist]
  · intro g a f r hcall hr
    rcases call_cases hcall with ⟨c, -, rfl⟩ | rfl | ⟨me, rfl⟩
    · exact hr.step rfl rfl rfl (fun k => by simp [-places])
    · exact hr.step rfl rfl rfl (fun k => by simp)
    · exact hr.step rfl rfl rfl (fun k => by simp)
  · intro c i a f rest g new r _ _ _ _ hs hr
    cases exec_next hs with
    | wq _ hx =>
        rw [total_map]
        exact WorkQueue.exec_account hx hr
    | panic | enter => exact hr.step rfl rfl rfl (fun k => by cases k <;> simp)
    | _ => exact hr.step rfl rfl rfl (fun k => by simp)

theorem loopBug_ok (h : machine.Reachable c) {w i : Nat} {rest : List Frame}
    (hp : c.pool[i]? = some (.wq (.loopBug w) :: rest)) : (c.shared.wq.data w).wq = .cwq := by
  have hle := le_census (w := fun f => queuePlaces w f .relied) hp List.mem_cons_self
  have hone : queuePlaces w (.wq (.loopBug w)) .relied = 1 := if_pos rfl
  refine (account h w).wq ?_
  rw [census_apply]
  omega

theorem attended (h : machine.Reachable c) : Attended c.shared.wq (census queueRoles c) := by
  refine Code.balance (C := code) queueRoles (fun g n => Attended g.wq n) ?_ ?_ ?_ h
  · intro c hc
    rw [Code.census_init (fun _ h => h) queueRoles hc]
    obtain ⟨⟨⟨-, -, -, hdepth, -⟩, -⟩, -⟩ := hc
    constructor <;> simp [hdepth]
  · intro g a f r hcall hr
    rcases call_cases hcall with ⟨c, -, rfl⟩ | rfl | ⟨me, rfl⟩
    · exact hr.same rfl rfl rfl rfl rfl (fun k => by simp [-roles])
    · exact hr.same rfl rfl rfl rfl rfl (fun k => by simp)
    · exact hr.same rfl rfl rfl rfl rfl (fun k => by simp)
  · intro c i a f rest g new r hreach _ hi _ hs hr
    cases exec_next hs with
    | wq _ hx =>
        rw [total_map]
        refine WorkQueue.exec_attended ?_ hx hr
        rintro w rfl
        exact loopBug_ok hreach hi
    | birth hfree =>
        have hstart : Attended c.shared.wq (r + roles .workerStart) :=
          hr.same rfl rfl rfl rfl rfl (fun k => by cases k <;> simp)
        exact (hstart.start hfree).same rfl rfl rfl rfl rfl (fun k => by cases k <;> simp)
    | panic | skip =>
        -- the worker is not counted any more
        have hexit : Attended c.shared.wq (r + roles .workerExit) :=
          hr.same rfl rfl rfl rfl rfl (fun k => by cases k <;> simp)
        exact (hexit.drop (.inl rfl)).same rfl rfl rfl rfl rfl (fun k => by cases k <;> simp)
    | down =>
        refine (awake ?_ hr).same rfl rfl rfl rfl rfl (fun k => by cases k <;> simp)
        simp
    | wakeUp => exact hr.token (Nat.succ_pos _) (fun k _ => by simp)
    | _ => exact hr.same rfl rfl rfl rfl rfl (fun k => by cases k <;> simp)

end

/-! ## What the work queue does with the flag and the tokens -/

/-- `kthread_should_stop` was not seen, and there is a sleep ahead. -/
@[simp] def late : WorkQueue.Frame → Nat
  | .workerAdd | .workerTest | .workerSwitch | .workerDown => 1
  | _ => 0

/-- The part of `kthread_stop` that `WorkQueue` has. -/
@[simp] def early : WorkQueue.Frame → Nat
  | .stop => 1
  | _ => 0

section
variable {g g' : WorkQueue.Shared} {f : WorkQueue.Frame} {new : List WorkQueue.Frame}
  {a : WorkQueue.Choice}

theorem exec_started (hs : WorkQueue.exec g f a = some (g', new)) (h : g.started = true) :
    g'.started = true := by
  cases f with
  | func w =>
      cases a with
      | sleep task =>
          simp only [WorkQueue.exec] at hs
          split at hs <;> cases hs
          exact h
      | worker => cases hs
      | _ =>
          cases hs
          exact h
  | workerStart =>
      rw [WorkQueue.exec, if_pos h] at hs
      cases hs
  | _ =>
      simp only [WorkQueue.exec] at hs
      (repeat' split at hs) <;> cases hs <;> exact h

/-- The flag is not its business. -/
theorem exec_flag (ha : a ≠ .call .kthreadStop) (hf : early f = 0)
    (hs : WorkQueue.exec g f a = some (g', new)) :
    g'.shouldStop = g.shouldStop ∧ total early new = 0 := by
  cases f with
  | stop => cases hf
  | func w =>
      cases a with
      | call c =>
          cases hs
          cases c with
          | kthreadStop => exact absurd rfl ha
          | _ => exact ⟨rfl, rfl⟩
      | sleep task =>
          simp only [WorkQueue.exec] at hs
          split at hs <;> cases hs
          exact ⟨rfl, rfl⟩
      | go =>
          cases hs
          exact ⟨rfl, rfl⟩
      | worker => cases hs
  | _ =>
      simp only [WorkQueue.exec] at hs
      (repeat' split at hs) <;> cases hs <;> exact ⟨rfl, rfl⟩

/-- Tokens become fewer only by the worker's own sleeps, and the worker goes on to a sleep only
if it is not to stop. -/
theorem exec_token (hs : WorkQueue.exec g f a = some (g', new)) :
    (g.worker.sleepLock ≤ g'.worker.sleepLock ∧ total late new ≤ late f) ∨
      (f = .workerStop ∧ g.shouldStop = false ∧ g' = g) ∨
      (f = .workerDown ∨ g.runDepth ≠ 0) ∧ total late new = 0 := by
  cases f with
  | func w =>
      cases a with
      | call c =>
          cases hs
          exact .inl ⟨Nat.le_refl _, by cases c <;> exact Nat.le_refl _⟩
      | sleep task =>
          simp only [WorkQueue.exec] at hs
          split at hs <;> cases hs
          exact .inr (.inr ⟨.inr ‹_›, rfl⟩)
      | go =>
          cases hs
          exact .inl ⟨Nat.le_refl _, Nat.le_refl _⟩
      | worker => cases hs
  | workerStop =>
      cases hs
      cases hstop : g.shouldStop with
      | true => exact .inl ⟨Nat.le_refl _, Nat.le_refl _⟩
      | false => exact .inr (.inl ⟨rfl, rfl, rfl⟩)
  | workerDown =>
      simp only [WorkQueue.exec] at hs
      split at hs <;> cases hs
      exact .inr (.inr ⟨.inl rfl, rfl⟩)
  | wakeUp | processUp =>
      cases hs
      exact .inl ⟨Nat.le_succ _, Nat.le_refl _⟩
  | _ =>
      simp only [WorkQueue.exec] at hs
      (repeat' split at hs) <;> cases hs <;> exact .inl ⟨Nat.le_refl _, by simp⟩

end

/-! ## No stop without a token -/

inductive Kind where
  /-- a stopper has the lock and is not, or no longer, in `kthread_stop_info.k` -/
  | holding
  /-- it is there, and not waiting -/
  | signalled
  | waiting
  /-- the worker, with a sleep ahead and past its test -/
  | late
  | early

@[simp] def kinds : Frame → Kind → Nat
  | .stopInit _, .holding | .stopStore _, .holding | .stopRead, .holding
  | .stopUnlock _, .holding => 1
  | .wakeStore _, .signalled | .wakeUp _, .signalled | .stopReset, .signalled => 1
  | .wait _ _, .waiting => 1
  | .setState, .late | .completeStarted, .late | .switch, .late | .down, .late => 1
  | .wq f, .late => late f
  | .wq f, .early => early f
  | _, _ => 0

/-- The stop is signalled, `n` counting the frames by their kinds. -/
structure Signalled (g : Shared) (n : Kind → Nat) : Prop where
  early : n .early = 0
  locked : n .holding + n .signalled + n .waiting = g.stopLock.toNat
  flag : n .signalled + n .waiting = g.wq.shouldStop.toNat
  token : g.wq.started = false ∨ 0 < n .late → 0 < n .waiting → 0 < g.wq.worker.sleepLock

section
variable {g g' : Shared} {f : Frame} {n m r : Kind → Nat}

/-- Steps of the worker and of others; what is left to show is that there is a token. -/
theorem Signalled.keep (h : Signalled g n) (hl : g'.stopLock = g.stopLock)
    (hf : g'.wq.shouldStop = g.wq.shouldStop) (hm : ∀ k, k ≠ .late → m k = n k)
    (htoken : g'.wq.started = false ∨ 0 < m .late → 0 < n .waiting →
      0 < g'.wq.worker.sleepLock) : Signalled g' m := by
  refine ⟨?_, ?_, ?_, ?_⟩
  · rw [hm .early nofun, h.early]
  · rw [hm .holding nofun, hm .signalled nofun, hm .waiting nofun, hl, h.locked]
  · rw [hm .signalled nofun, hm .waiting nofun, hf, h.flag]
  · rw [hm .waiting nofun]
    exact htoken

/-- There may be more tokens, and the worker may have its sleep behind it. -/
theorem Signalled.step (h : Signalled g n) (hl : g'.stopLock = g.stopLock)
    (hf : g'.wq.shouldStop = g.wq.shouldStop)
    (hs : g.wq.started = true → g'.wq.started = true)
    (ht : g.wq.worker.sleepLock ≤ g'.wq.worker.sleepLock) (hm : ∀ k, k ≠ .late → m k = n k)
    (hlate : m .late ≤ n .late) : Signalled g' m := by
  refine h.keep hl hf hm ?_
  intro hahead hwaiting
  refine Nat.lt_of_lt_of_le (h.token ?_ hwaiting) ht
  rcases hahead with hunborn | hpos
  · refine .inl (Bool.eq_false_iff.mpr fun hborn => ?_)
    rw [hs hborn] at hunborn
    cases hunborn
  · exact .inr (Nat.lt_of_lt_of_le hpos hlate)

/-- The steps of most frames. -/
theorem Signalled.same (h : Signalled g n) (hl : g'.stopLock = g.stopLock)
    (hw : g'.wq = g.wq) (hm : ∀ k, k ≠ .late → m k = n k) (hlate : m .late ≤ n .late) :
    Signalled g' m :=
  h.step hl (by rw [hw]) (by rw [hw]; exact id) (by rw [hw]) hm hlate

/-- Whatever the worker leaves in its semaphore, there is no sleep ahead of it. -/
theorem Signalled.settled (h : Signalled g n) (hl : g'.stopLock = g.stopLock)
    (hf : g'.wq.shouldStop = g.wq.shouldStop) (hs : g'.wq.started = true)
    (hm : ∀ k, k ≠ .late → m k = n k) (hlate : m .late = 0) : Signalled g' m := by
  refine h.keep hl hf hm ?_
  rintro (hunborn | hpos)
  · rw [hs] at hunborn
    cases hunborn
  · omega

/-- A stopper that waits would have been seen. -/
theorem Signalled.unseen (h : Signalled g n) (hstop : g.wq.shouldStop = false)
    (hm : ∀ k, k ≠ .late → m k = n k) : Signalled g m := by
  have hflag := h.flag
  rw [hstop] at hflag
  refine h.keep rfl rfl hm ?_
  intro _ hwaiting
  simp only [Bool.toNat_false] at hflag
  omega

/-! ### What each access does -/

theorem Signalled.lock {me : Nat} (hfree : g.stopLock = false)
    (h : Signalled g (r + kinds (.stopLock me))) :
    Signalled { g with stopLock := true } (r + kinds (.stopInit me)) := by
  obtain ⟨hearly, hlocked, hflag, htoken⟩ := h
  rw [hfree] at hlocked
  constructor <;> simp at * <;> first | assumption | omega

/-- The lock keeps the other stoppers away. -/
theorem Signalled.store {me : Nat} (h : Signalled g (r + kinds (.stopStore me))) :
    Signalled (g.setShouldStop true) (r + kinds (.wakeStore me)) := by
  have hle := Bool.toNat_le g.stopLock
  obtain ⟨hearly, hlocked, hflag, htoken⟩ := h
  simp only [Pi.add_apply, kinds, add_zero] at hearly hlocked hflag htoken
  refine ⟨hearly, ?_, ?_, htoken⟩
  · simp only [Pi.add_apply, kinds, Shared.setShouldStop]
    omega
  · simp only [Pi.add_apply, kinds, Shared.setShouldStop, Bool.toNat_true]
    omega

/-- The stopper leaves a token and goes to wait. -/
theorem Signalled.wake {me : Nat} {pc : Completion.Pc} {task : TaskStruct}
    (htask : 0 < task.sleepLock) (h : Signalled g (r + kinds (.wakeUp me))) :
    Signalled (g.setWorker task) (r + kinds (.wait me pc)) := by
  obtain ⟨hearly, hlocked, hflag, -⟩ := h
  simp only [Pi.add_apply, kinds, add_zero] at hearly hlocked hflag
  refine ⟨hearly, ?_, ?_, fun _ _ => htask⟩
  · simp only [Pi.add_apply, kinds, Shared.setWorker]
    omega
  · simp only [Pi.add_apply, kinds, Shared.setWorker]
    omega

theorem Signalled.waited {me : Nat} {pc : Completion.Pc} {sh : Completion.Shared}
    (h : Signalled g (r + kinds (.wait me pc))) :
    Signalled { g with done := sh } (r + kinds .stopReset) := by
  obtain ⟨hearly, hlocked, hflag, htoken⟩ := h
  simp only [Pi.add_apply, kinds, add_zero] at hearly hlocked hflag htoken
  refine ⟨hearly, ?_, ?_, ?_⟩
  · simp only [Pi.add_apply, kinds]
    omega
  · simp only [Pi.add_apply, kinds]
    omega
  · intro hahead hwaiting
    exact htoken hahead (Nat.succ_pos _)

theorem Signalled.reset (h : Signalled g (r + kinds .stopReset)) :
    Signalled (g.setShouldStop false) (r + kinds .stopRead) := by
  have hle := Bool.toNat_le g.stopLock
  obtain ⟨hearly, hlocked, hflag, htoken⟩ := h
  simp only [Pi.add_apply, kinds, add_zero] at hearly hlocked hflag htoken
  refine ⟨hearly, ?_, ?_, htoken⟩
  · simp only [Pi.add_apply, kinds, Shared.setShouldStop]
    omega
  · simp only [Pi.add_apply, kinds, Shared.setShouldStop, Bool.toNat_false]
    omega

theorem Signalled.unlock {ret : Int} (h : Signalled g (r + kinds (.stopUnlock ret))) :
    Signalled { g with stopLock := false } r := by
  have hle := Bool.toNat_le g.stopLock
  obtain ⟨hearly, hlocked, hflag, htoken⟩ := h
  simp only [Pi.add_apply, kinds, add_zero] at hearly hlocked hflag htoken
  refine ⟨hearly, ?_, hflag, htoken⟩
  simp only [Bool.toNat_false]
  omega

end

section
variable {c : Conf Shared (List Frame)}

/-- The worker with a sleep ahead has one of the roles outside of `run_workqueue`. -/
theorem late_le_roles (f : Frame) :
    kinds f .late ≤ queueRoles f .off + queueRoles f .on + queueRoles f .asleep := by
  cases f with
  | wq f => cases f <;> simp
  | _ => simp

/-- There is one worker: when it takes a token, nobody else has a sleep ahead. -/
theorem alone (h : machine.Reachable c) {f : Frame} {r : Kind → Nat}
    (hr : census kinds c = r + kinds f)
    (hf : 0 < kinds f .late ∨ c.shared.wq.runDepth ≠ 0) :
    c.shared.wq.started = true ∧ r .late = 0 := by
  obtain ⟨hone, hdepth, -, -⟩ := attended h
  have hle : census kinds c .late ≤
      census queueRoles c .off + census queueRoles c .on + census queueRoles c .asleep := by
    rw [census_apply, census_apply, census_apply, census_apply, ← census_add, ← census_add]
    exact census_le_census late_le_roles
  rw [hr, Pi.add_apply] at hle
  cases hs : c.shared.wq.started with
  | true =>
      rw [hs, Bool.toNat_true] at hone
      exact ⟨rfl, by omega⟩
  | false =>
      rw [hs, Bool.toNat_false] at hone
      omega

/-- The accesses of `WorkQueue`. -/
theorem signalled_wq (h : machine.Reachable c) {f : WorkQueue.Frame} {a : WorkQueue.Choice}
    {wq : WorkQueue.Shared} {new : List WorkQueue.Frame} {r : Kind → Nat}
    (ha : a ≠ .call .kthreadStop) (hr : census kinds c = r + kinds (.wq f))
    (hx : WorkQueue.exec c.shared.wq f a = some (wq, new))
    (hI : Signalled c.shared (r + kinds (.wq f))) :
    Signalled { c.shared with wq := wq } (r + total kinds (new.map .wq)) := by
  have hearly : early f = 0 := by
    have hnone := hI.early
    simp only [Pi.add_apply, kinds] at hnone
    omega
  obtain ⟨hflag, hnew⟩ := exec_flag ha hearly hx
  have hstarted := exec_started hx
  have hlate : total kinds (new.map .wq) .late = total late new := by
    rw [total_apply, total_map]
    rfl
  have hkinds : ∀ k, k ≠ .late →
      (r + total kinds (new.map .wq)) k = (r + kinds (.wq f)) k := by
    intro k hk
    rw [Pi.add_apply, Pi.add_apply, total_apply, total_map]
    cases k with
    | late => exact absurd rfl hk
    | early =>
        simp only [kinds]
        rw [hnew, hearly]
    | _ =>
        simp only [kinds]
        rw [total_eq_zero (fun _ _ => rfl)]
  rcases exec_token hx with ⟨htoken, hle⟩ | ⟨rfl, hstop, rfl⟩ | ⟨hf, hzero⟩
  · refine hI.step rfl hflag hstarted htoken hkinds ?_
    rw [Pi.add_apply, Pi.add_apply, hlate]
    exact Nat.add_le_add_left hle _
  · exact hI.unseen hstop hkinds
  · have hworker : 0 < kinds (.wq f) .late ∨ c.shared.wq.runDepth ≠ 0 := by
      rcases hf with rfl | hin
      · exact .inl Nat.one_pos
      · exact .inr hin
    obtain ⟨hborn, hrest⟩ := alone h hr hworker
    refine hI.settled rfl hflag (hstarted hborn) hkinds ?_
    rw [Pi.add_apply, hlate, hrest, hzero]

theorem signalled (h : machine.Reachable c) : Signalled c.shared (census kinds c) := by
  refine Code.balance (C := code) kinds Signalled ?_ ?_ ?_ h
  · intro c hc
    rw [Code.census_init (fun _ h => h) kinds hc]
    obtain ⟨⟨-, hstop, -, hlock, -⟩, -⟩ := hc
    constructor <;> simp [hstop, hlock]
  · intro g a f r hcall hr
    rcases call_cases hcall with ⟨c, hc, rfl⟩ | rfl | ⟨me, rfl⟩
    · refine hr.same rfl rfl ?_ ?_
      · intro k hk
        cases c <;> cases k <;> simp_all [WorkQueue.Call.frame]
      · cases c <;> simp [WorkQueue.Call.frame]
    · exact hr.same rfl rfl (fun k _ => by simp) (by simp)
    · exact hr.same rfl rfl (fun k _ => by simp) (by simp)
  · intro c i a f rest g new r hreach _ _ hcensus hs hr
    cases exec_next hs with
    | wq ha hx => exact signalled_wq hreach ha hcensus hx hr
    | birth hfree =>
        refine hr.keep rfl rfl (fun k hk => by cases k <;> simp_all) ?_
        exact fun _ => hr.token (.inl hfree)
    | down =>
        obtain ⟨hborn, hrest⟩ := alone hreach hcensus (.inl Nat.one_pos)
        exact hr.settled rfl rfl hborn (fun k hk => by cases k <;> simp_all) (by simp [hrest])
    | stopLock hfree =>
        rw [total_singleton]
        exact hr.lock hfree
    | stopStore =>
        rw [total_singleton]
        exact hr.store
    | wakeUp =>
        rw [total_singleton]
        exact hr.wake (Nat.succ_pos _)
    | waited =>
        rw [total_singleton]
        exact hr.waited
    | stopReset =>
        rw [total_singleton]
        exact hr.reset
    | stopUnlock => exact hr.unlock.same rfl rfl (fun k _ => by simp) (by simp)
    | setState | wakeStore =>
        exact hr.step rfl rfl id (Nat.le_refl _) (fun k _ => by cases k <;> simp) (by simp)
    | _ => exact hr.same rfl rfl (fun k hk => by cases k <;> simp_all) (by simp)

/-- A stopper waits for the worker, and the worker is blocked in `dde_kit_sem_down`, called from
`kthread` or from the loop of `worker_thread`. -/
structure Missed (c : Conf Shared (List Frame)) : Prop where
  waits : ∃ stack ∈ c.pool, ∃ me pc, .wait me pc ∈ stack
  blocked : ∃ stack ∈ c.pool, stack.head? = some .down ∨ stack.head? = some (.wq .workerDown)
  noToken : c.shared.wq.worker.sleepLock = 0

theorem not_missed (h : machine.Reachable c) : ¬ Missed c := by
  rintro ⟨⟨stack, hstack, me, pc, hwait⟩, ⟨other, hother, hdown⟩, hzero⟩
  obtain ⟨i, hi⟩ := List.getElem?_of_mem hstack
  obtain ⟨j, hj⟩ := List.getElem?_of_mem hother
  have hwaiting : 0 < census kinds c .waiting := by
    rw [census_apply]
    exact le_census (w := fun f => kinds f .waiting) hi hwait
  have hlate : 0 < census kinds c .late := by
    rw [census_apply]
    rcases hdown with hdown | hdown
    · exact le_census (w := fun f => kinds f .late) hj (List.mem_of_head? hdown)
    · exact le_census (w := fun f => kinds f .late) hj (List.mem_of_head? hdown)
  have htoken := (signalled h).token (.inr hlate) hwaiting
  omega

end

end LinuxDrivers.Kernel.WorkerStop
