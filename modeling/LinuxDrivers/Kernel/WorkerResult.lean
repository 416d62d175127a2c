/-
# `LinuxDrivers.Kernel.WorkerResult` — what `kthread_stop` brings back

The result of a worker goes from `kthread` to its stopper through `kthread_stop_info.err`,
which has no lock of its own:

    worker    ret = -EINTR, or 0 from worker_thread
              k is the worker?  err = ret;  complete done
    stopper   wait for done;  k = NULL;  ret = err

There is one worker, and it stores one result.  Whoever is past `done` finds it stored, and
the worker is not past its last test with `k` taken away, since the stopper that has put it
there waits for the result.

**Proved here.**

    what is stored, read and returned is the result of the worker      (`outcome`)
    a worker that has seen `k` finds it again at its last test          (`seen`)
    no stop is missed, and `kthread_stop` returns 0 or -EINTR           (`worker_stop`)
-/
import LinuxDrivers.Kernel.WorkerStop

namespace LinuxDrivers.Kernel.WorkerStop

open LinuxDrivers.Lib LinuxDrivers.Kernel.Sched
open LinuxDrivers.Kernel.Kthread (finished eintr)

/-! ## The result of the worker -/

/-- What `kthread` hands to the stopper. -/
def result (entered : Bool) : Int := if entered then 0 else -eintr

inductive Stage where
  /-- the worker, not yet past its first test -/
  | before
  /-- the worker, with this result in its hands -/
  | has (ret : Int)
  /-- only if the result is stored -/
  | after
  /-- a stopper, with this result in its hands -/
  | got (ret : Int)
  /-- in a place where neither `complete` nor `wait_for_completion` is -/
  | misplaced

@[simp] def stages : Frame → Stage → Nat
  | .setState, .before | .completeStarted, .before | .switch, .before | .down, .before
  | .testStop, .before => 1
  | .testStopped v, .has ret | .storeErr v, .has ret => if v = ret then 1 else 0
  | .complete _, .after | .stopReset, .after | .stopRead, .after => 1
  | .wait _ pc, .after => pc.past.toNat
  | .stopUnlock v, .got ret | .returned v, .got ret => if v = ret then 1 else 0
  | .complete pc, .misplaced => (!pc.completing).toNat
  | .wait _ pc, .misplaced => (!pc.waiting || finished pc).toNat
  | _, _ => 0

/-- The work queue has nothing to do with the result. -/
theorem stages_wq (f : WorkQueue.Frame) : stages (.wq f) = 0 :=
  funext fun k => by cases k <;> rfl

/-- What is known of the result, `n` counting the frames by their stages. -/
structure Outcome (g : Shared) (n : Stage → Nat) : Prop where
  one : ∀ ret, n .before + n (.has ret) ≤ g.wq.started.toNat
  before : g.wq.started = false ∨ 0 < n .before → g.entered = false ∧ g.stored = false
  has : ∀ ret, 0 < n (.has ret) → ret = result g.entered ∧ g.stored = false
  err : g.stored = true → g.stopErr = result g.entered
  done : g.done.done ≠ 0 ∨ 0 < n .after → g.stored = true
  got : ∀ ret, 0 < n (.got ret) → ret = result g.entered ∧ g.stored = true
  placed : n .misplaced = 0

section
variable {g g' : Shared} {n m r : Stage → Nat}

/-- Steps that leave the result alone. -/
theorem Outcome.step (h : Outcome g n) (hs : g.wq.started = true → g'.wq.started = true)
    (he : g'.entered = g.entered) (ht : g'.stored = g.stored) (hr : g'.stopErr = g.stopErr)
    (hd : g'.done.done ≠ 0 ∨ 0 < m .after → g.done.done ≠ 0 ∨ 0 < n .after)
    (hm : ∀ k, k ≠ .after → m k ≤ n k) : Outcome g' m := by
  obtain ⟨hone, hbefore, hhas, herr, hdone, hgot, hplaced⟩ := h
  refine ⟨?_, ?_, ?_, ?_, ?_, ?_, ?_⟩
  · intro ret
    refine Nat.le_trans (Nat.add_le_add (hm _ nofun) (hm _ nofun)) (Nat.le_trans (hone ret) ?_)
    cases hborn : g.wq.started with
    | true => rw [hs hborn]
    | false => exact Nat.zero_le _
  · rw [he, ht]
    rintro (hunborn | hk)
    · refine hbefore (.inl (Bool.eq_false_iff.mpr fun hborn => ?_))
      rw [hs hborn] at hunborn
      cases hunborn
    · exact hbefore (.inr (Nat.lt_of_lt_of_le hk (hm _ nofun)))
  · rw [he, ht]
    exact fun ret hk => hhas ret (Nat.lt_of_lt_of_le hk (hm _ nofun))
  · rw [he, ht, hr]
    exact herr
  · rw [ht]
    exact fun hafter => hdone (hd hafter)
  · rw [he, ht]
    exact fun ret hk => hgot ret (Nat.lt_of_lt_of_le hk (hm _ nofun))
  · exact Nat.le_zero.mp (hplaced ▸ hm _ nofun)

theorem Outcome.same (h : Outcome g n) (hs : g'.wq.started = g.wq.started)
    (he : g'.entered = g.entered) (ht : g'.stored = g.stored) (hr : g'.stopErr = g.stopErr)
    (hd : g'.done = g.done) (hm : ∀ k, m k ≤ n k) : Outcome g' m :=
  h.step (by rw [hs]; exact id) he ht hr
    (by rw [hd]; exact Or.imp_right fun hk => Nat.lt_of_lt_of_le hk (hm _)) (fun k _ => hm k)

/-! ### What each access does -/

theorem Outcome.birth (hfree : g.wq.started = false) (h : Outcome g (r + stages .birth)) :
    Outcome { g with wq := { g.wq with started := true } } (r + stages .setState) := by
  obtain ⟨hone, hbefore, hhas, herr, hdone, hgot, hplaced⟩ := h
  rw [hfree] at hone
  refine ⟨?_, fun _ => hbefore (.inl hfree), hhas, herr, hdone, hgot, hplaced⟩
  intro ret
  have hone := hone ret
  simp only [Pi.add_apply, stages, Bool.toNat_false, Bool.toNat_true] at hone ⊢
  omega

/-- The worker is to stop before it has begun. -/
theorem Outcome.skip (h : Outcome g (r + stages .testStop)) :
    Outcome g (r + stages (.testStopped (-eintr))) := by
  obtain ⟨hone, hbefore, hhas, herr, hdone, hgot, hplaced⟩ := h
  obtain ⟨hentered, hstored⟩ := hbefore (.inr (by simp))
  refine ⟨?_, fun _ => ⟨hentered, hstored⟩, ?_, herr, hdone, hgot, hplaced⟩
  · intro ret
    have hone := hone ret
    simp only [Pi.add_apply, stages] at hone ⊢
    split <;> omega
  · intro ret hpos
    simp only [Pi.add_apply, stages] at hpos
    split at hpos
    · rename_i hret
      rw [← hret, hentered]
      exact ⟨rfl, hstored⟩
    · exact hhas ret hpos

/-- `worker_thread` is called, and will return 0. -/
theorem Outcome.enter (h : Outcome g (r + stages .testStop)) :
    Outcome { g with entered := true } (r + stages (.testStopped 0)) := by
  have hle := Bool.toNat_le g.wq.started
  obtain ⟨hone, hbefore, -, -, hdone, hgot, hplaced⟩ := h
  obtain ⟨hentered, hstored⟩ := hbefore (.inr (by simp))
  have hnone : ∀ ret, r .before = 0 ∧ r (.has ret) = 0 := by
    intro ret
    have hone := hone ret
    simp only [Pi.add_apply, stages] at hone
    omega
  have hstart : g.wq.started = true := by
    have hone := hone 0
    cases hs : g.wq.started with
    | true => rfl
    | false => simp [hs] at hone
  refine ⟨?_, ?_, ?_, fun hs => ?_, hdone, fun ret hpos => ?_, hplaced⟩
  · intro ret
    simp only [Pi.add_apply, stages, (hnone ret).1, (hnone ret).2, hstart, Bool.toNat_true]
    split <;> omega
  · rintro (hunborn | hpos)
    · rw [hstart] at hunborn
      cases hunborn
    · simp [(hnone 0).1] at hpos
  · intro ret hpos
    simp only [Pi.add_apply, stages, (hnone ret).2] at hpos
    split at hpos
    · rename_i hret
      exact ⟨hret.symm, hstored⟩
    · cases hpos
  · rw [hstored] at hs
    cases hs
  · have hs := (hgot ret hpos).2
    rw [hstored] at hs
    cases hs

/-- The result is stored once, by the worker. -/
theorem Outcome.store {ret : Int} (h : Outcome g (r + stages (.storeErr ret))) :
    Outcome { g with stopErr := ret, stored := true }
      (r + stages (.complete .completeLock)) := by
  have hle := Bool.toNat_le g.wq.started
  obtain ⟨hone, hbefore, hhas, -, hdone, hgot, hplaced⟩ := h
  obtain ⟨hret, hstored⟩ := hhas ret (by simp)
  have hrest : r .before = 0 ∧ r (.has ret) = 0 ∧ g.wq.started = true := by
    have hone := hone ret
    simp only [Pi.add_apply, stages, if_true] at hone
    cases hs : g.wq.started with
    | true => exact ⟨by omega, by omega, rfl⟩
    | false =>
        rw [hs, Bool.toNat_false] at hone
        omega
  obtain ⟨hnone, hgone, hstart⟩ := hrest
  refine ⟨?_, ?_, ?_, fun _ => hret, fun _ => rfl, fun v hpos => ?_, hplaced⟩
  · intro v
    refine Nat.le_trans ?_ (hone v)
    simp
  · rintro (hunborn | hpos)
    · rw [hstart] at hunborn
      cases hunborn
    · simp [hnone] at hpos
  · intro v hpos
    -- another result would be the same one
    have hv := (hhas v (Nat.lt_of_lt_of_le hpos (by simp))).1
    rw [hv, ← hret] at hpos
    simp [hgone] at hpos
  · exact ⟨(hgot v hpos).1, rfl⟩

/-- A completion is in `complete`, and a wait in `wait_for_completion`. -/
theorem Outcome.completing {pc : Completion.Pc} (h : Outcome g (r + stages (.complete pc))) :
    pc.completing = true := by
  have hplaced := h.placed
  cases hc : pc.completing with
  | true => rfl
  | false => simp [hc] at hplaced

theorem Outcome.waiting {me : Nat} {pc : Completion.Pc}
    (h : Outcome g (r + stages (.wait me pc))) : pc.waiting = true ∧ finished pc = false := by
  have hplaced := h.placed
  cases hw : pc.waiting with
  | true =>
      cases hfin : finished pc with
      | true => simp [hfin] at hplaced
      | false => exact ⟨rfl, rfl⟩
  | false => simp [hw] at hplaced

theorem Outcome.complete {pc pc' : Completion.Pc} {sh : Completion.Shared}
    (hstep : Completion.step 0 g.done pc .tick = some (sh, pc')) (hfin : finished pc' = false)
    (h : Outcome g (r + stages (.complete pc))) :
    Outcome { g with done := sh } (r + stages (.complete pc')) := by
  refine h.step id rfl rfl rfl (fun _ => .inr (by simp)) ?_
  intro k hk
  rcases Completion.step_completing hstep h.completing with hcomp | rfl
  · cases k <;> simp [hcomp]
  · cases hfin

section
variable {me : Nat} {pc pc' : Completion.Pc} {sh : Completion.Shared}

/-- A wait changes `done`, and gets past its test, only after a completion. -/
theorem Outcome.wait_done (hstep : Completion.step me g.done pc .tick = some (sh, pc'))
    (h : Outcome g (r + stages (.wait me pc))) (hafter : sh.done ≠ 0 ∨ pc'.past = true) :
    g.done.done ≠ 0 ∨ 0 < (r + stages (.wait me pc)) .after := by
  have hpast : pc.past = true → 0 < (r + stages (.wait me pc)) .after := fun hp => by simp [hp]
  rcases hafter with hdone | hnext
  · rcases Completion.step_done hstep with ⟨hsame, -⟩ | ⟨rfl, -⟩ | ⟨w, rfl, -⟩
    · exact .inl (hsame ▸ hdone)
    · cases h.waiting.1
    · exact .inr (hpast rfl)
  · exact (Completion.step_past hstep hnext).symm.imp_right hpast

theorem Outcome.wait_waiting (hstep : Completion.step me g.done pc .tick = some (sh, pc'))
    (h : Outcome g (r + stages (.wait me pc))) : pc'.waiting = true := by
  obtain ⟨hwait, hfin⟩ := h.waiting
  refine Completion.step_waiting hstep hwait ?_
  rintro rfl
  cases hfin

theorem Outcome.wait (hstep : Completion.step me g.done pc .tick = some (sh, pc'))
    (hfin : finished pc' = false) (h : Outcome g (r + stages (.wait me pc))) :
    Outcome { g with done := sh } (r + stages (.wait me pc')) := by
  have hwait := h.wait_waiting hstep
  refine h.step id rfl rfl rfl ?_ ?_
  · rintro (hdone | hpos)
    · exact h.wait_done hstep (.inl hdone)
    · cases hpast : pc'.past with
      | true => exact h.wait_done hstep (.inr hpast)
      | false =>
          simp only [Pi.add_apply, stages, hpast, Bool.toNat_false, add_zero] at hpos
          exact .inr (Nat.add_pos_left hpos _)
  · intro k hk
    cases k <;> simp_all

/-- The stopper comes back from its wait. -/
theorem Outcome.waited (hstep : Completion.step me g.done pc .tick = some (sh, pc'))
    (hfin : finished pc' = true) (h : Outcome g (r + stages (.wait me pc))) :
    Outcome { g with done := sh } (r + stages .stopReset) := by
  have hwait := h.wait_waiting hstep
  have hpast : pc'.past = true := by
    cases pc' with
    | returned success w =>
        cases success with
        | true => rfl
        | false => cases w <;> cases hwait
    | idle => cases hwait
    | _ => cases hfin
  refine h.step id rfl rfl rfl (fun _ => h.wait_done hstep (.inr hpast)) ?_
  · intro k hk
    cases k <;> simp_all

end

/-- The stopper reads what the worker has stored. -/
theorem Outcome.read (h : Outcome g (r + stages .stopRead)) :
    Outcome g (r + stages (.stopUnlock g.stopErr)) := by
  obtain ⟨hone, hbefore, hhas, herr, hdone, hgot, hplaced⟩ := h
  have hstored := hdone (.inr (by simp))
  refine ⟨hone, hbefore, hhas, herr, fun _ => hstored, ?_, hplaced⟩
  intro ret hpos
  simp only [Pi.add_apply, stages] at hpos
  split at hpos
  · rename_i hret
    exact ⟨hret ▸ herr hstored, hstored⟩
  · exact hgot ret hpos

end

section
variable {c : Conf Shared (List Frame)}

theorem outcome (h : machine.Reachable c) : Outcome c.shared (census stages c) := by
  refine Code.balance (C := code) stages Outcome ?_ ?_ ?_ h
  · intro c hc
    rw [Code.census_init (fun _ h => h) stages hc]
    obtain ⟨⟨-, -, hdone, -, -, hentered, hstored⟩, -⟩ := hc
    constructor <;> simp [hdone, hentered, hstored]
  · intro g a f r hcall hr
    rcases call_cases hcall with ⟨c, hc, rfl⟩ | rfl | ⟨me, rfl⟩
    · exact hr.same rfl rfl rfl rfl rfl (fun k => by simp)
    · exact hr.same rfl rfl rfl rfl rfl (fun k => by simp)
    · exact hr.same rfl rfl rfl rfl rfl (fun k => by simp)
  · intro c i a f rest g new r hreach _ _ _ hs hr
    cases exec_next hs with
    | wq _ hx =>
        rw [stages_wq] at hr
        rw [total_map, total_eq_zero (fun f _ => stages_wq f)]
        exact hr.step (exec_started hx) rfl rfl rfl id (fun k _ => Nat.le_refl _)
    | birth hfree =>
        rw [total_singleton]
        exact hr.birth hfree
    | skip =>
        rw [total_singleton]
        exact hr.skip
    | enter => exact hr.enter.same rfl rfl rfl rfl rfl (fun k => by simp)
    | storeErr =>
        rw [total_singleton]
        exact hr.store
    | complete hstep hfin =>
        rw [total_singleton]
        exact hr.complete hstep hfin
    | completed hstep =>
        exact hr.step id rfl rfl rfl (fun _ => .inr (by simp)) (fun k _ => by simp)
    | stopInit hzero =>
        refine hr.step id rfl rfl rfl ?_ (fun k _ => by simp)
        exact Or.imp (fun hne => absurd hzero hne) (fun hpos => by simpa using hpos)
    | wait hstep hfin =>
        rw [total_singleton]
        exact hr.wait hstep hfin
    | waited hstep hfin =>
        rw [total_singleton]
        exact hr.waited hstep hfin
    | stopRead =>
        rw [total_singleton]
        exact hr.read
    | wakeUp =>
        exact hr.same rfl rfl rfl rfl rfl (fun k => by cases k <;> simp [Completion.Pc.past,
          Completion.Pc.waiting, finished])
    | _ => exact hr.same rfl rfl rfl rfl rfl (fun k => by cases k <;> simp)

end

/-! ## The worker does not end unseen

`worker_thread` returns to `kthread`, and from there the worker ends without a word if it finds
the flag down.  It never does: it came back because the flag was up, and the stopper that has
put it up waits for the result. -/

/-- A call of `worker_thread` stands here. -/
def inWorker : WorkQueue.Frame → Bool
  | .workerStart | .workerState | .workerStop | .workerAdd | .workerTest | .workerSwitch
  | .workerDown | .workerRunning | .workerRemove | .workerRun | .workerExit | .loopLock
  | .loopNext | .loopUnlock _ | .loopBug _ | .loopAgain | .loopEnd => true
  | _ => false

/-- A call that stands here goes no further. -/
def dead : WorkQueue.Frame → Bool
  | .bug _ | .panicked => true
  | _ => false

section
variable {g g' : WorkQueue.Shared} {f : WorkQueue.Frame} {new : List WorkQueue.Frame}
  {a : WorkQueue.Choice}

/-- Code goes on, stops dead, calls or returns, and stays in `worker_thread` or out of it. -/
inductive Goes : WorkQueue.Frame → List WorkQueue.Frame → Prop
  | on {f x : WorkQueue.Frame} : inWorker x = inWorker f → Goes f [x]
  | dies {f x : WorkQueue.Frame} : dead x = true → Goes f [x]
  | calls {f x y : WorkQueue.Frame} : inWorker x = false → inWorker y = inWorker f →
      y ≠ .workerExit → Goes f [x, y]
  | returns {f : WorkQueue.Frame} : inWorker f = false → Goes f []
  | exits : Goes .workerExit []

theorem exec_goes (hs : WorkQueue.exec g f a = some (g', new)) : dead f = false ∧ Goes f new := by
  cases f with
  | func w =>
      cases a with
      | call c =>
          cases hs
          exact ⟨rfl, .calls (by cases c <;> rfl) rfl (by simp)⟩
      | sleep task =>
          simp only [WorkQueue.exec] at hs
          split at hs <;> cases hs
          exact ⟨rfl, .on rfl⟩
      | go =>
          cases hs
          exact ⟨rfl, .returns rfl⟩
      | worker => cases hs
  | addTail w | runUnlock w =>
      cases hs
      exact ⟨rfl, .calls rfl rfl (by simp)⟩
  | workerExit =>
      cases hs
      exact ⟨rfl, .exits⟩
  | loopBug w =>
      cases hs
      split
      · exact ⟨rfl, .calls rfl rfl (by simp)⟩
      · exact ⟨rfl, .dies rfl⟩
  | _ =>
      simp only [WorkQueue.exec] at hs
      (repeat' split at hs) <;> cases hs <;>
        first
        | exact ⟨rfl, .on rfl⟩
        | exact ⟨rfl, .dies rfl⟩
        | exact ⟨rfl, .returns rfl⟩

theorem inWorker_of_dead (h : dead f = true) : inWorker f = false := by
  cases f <;> first | rfl | cases h

/-- `worker_thread` returns because it is to stop. -/
theorem exec_exit (hs : WorkQueue.exec g f a = some (g', new))
    (hexit : new.head? = some .workerExit) : g.shouldStop = true := by
  cases f with
  | workerStop =>
      cases hs
      cases hstop : g.shouldStop with
      | true => rfl
      | false => simp [hstop] at hexit
  | func w =>
      cases a with
      | call c =>
          cases hs
          cases c <;> cases hexit
      | sleep task =>
          simp only [WorkQueue.exec] at hs
          split at hs <;> cases hs
          cases hexit
      | go =>
          cases hs
          cases hexit
      | worker => cases hs
  | _ =>
      simp only [WorkQueue.exec] at hs
      (repeat' split at hs) <;> cases hs <;> cases hexit

end

/-- What is below a frame: `kthread` is below `worker_thread`, and below nothing else. -/
structure Below (f : Frame) (below : Option Frame) : Prop where
  kthread : ∀ ret, below = some (.testStopped ret) →
    ∃ x, f = .wq x ∧ (inWorker x = true ∨ dead x = true)
  worker : ∀ x, f = .wq x → inWorker x = true → ∃ ret, below = some (.testStopped ret)
  top : below ≠ some (.wq .workerExit)

section
variable {g g' : Shared} {f : Frame} {new rest : List Frame} {a : Choice}

/-- What moves above `kthread` is `worker_thread`. -/
theorem Below.returns {f : WorkQueue.Frame} {below : Option Frame} {ret : Int}
    (hdead : dead f = false) (h : Below (.wq f) below) (hret : below = some (.testStopped ret)) :
    inWorker f = true := by
  obtain ⟨x, ⟨⟩, hin | hstuck⟩ := h.kthread ret hret
  · exact hin
  · rw [hdead] at hstuck
    cases hstuck

/-- The frames of the work queue are replaced by such frames. -/
theorem Below.goes {f : WorkQueue.Frame} {new : List WorkQueue.Frame} (hdead : dead f = false)
    (hgoes : Goes f new) (h : Below (.wq f) rest.head?) (hrest : Code.Stacked Below rest) :
    Code.Stacked Below (new.map .wq ++ rest) := by
  cases hgoes with
  | @on _ x hsame =>
      refine ⟨⟨?_, ?_, h.top⟩, hrest⟩
      · exact fun ret hret => ⟨x, rfl, .inl (hsame.trans (h.returns hdead hret))⟩
      · rintro _ ⟨⟩ hin
        exact h.worker f rfl (hsame.symm.trans hin)
  | @dies _ x hx =>
      refine ⟨⟨fun ret hret => ⟨x, rfl, .inr hx⟩, ?_, h.top⟩, hrest⟩
      rintro _ ⟨⟩ hin
      rw [inWorker_of_dead hx] at hin
      cases hin
  | @calls _ x y hx hsame hy =>
      refine ⟨⟨nofun, ?_, ?_⟩, ⟨?_, ?_, h.top⟩, hrest⟩
      · rintro _ ⟨⟩ hin
        rw [hx] at hin
        cases hin
      · intro htop
        cases htop
        exact hy rfl
      · exact fun ret hret => ⟨y, rfl, .inl (hsame.trans (h.returns hdead hret))⟩
      · rintro _ ⟨⟩ hin
        exact h.worker f rfl (hsame.symm.trans hin)
  | returns _ => exact hrest
  | exits => exact hrest

/-- Nothing but `worker_thread` returns to `kthread`. -/
theorem Below.other (h : Below f rest.head?) (hf : ∀ x, f ≠ .wq x) (ret : Int) :
    rest.head? ≠ some (.testStopped ret) := by
  intro hret
  obtain ⟨x, hx, -⟩ := h.kthread ret hret
  exact hf x hx

theorem Below.exec (hs : exec g f a = some (g', new)) (h : Below f rest.head?)
    (hrest : Code.Stacked Below rest) : Code.Stacked Below (new ++ rest) := by
  cases exec_next hs with
  | wq _ hx =>
      obtain ⟨hdead, hgoes⟩ := exec_goes hx
      exact h.goes hdead hgoes hrest
  | enter =>
      exact ⟨⟨fun _ _ => ⟨_, rfl, .inl rfl⟩, fun _ _ _ => ⟨0, rfl⟩, nofun⟩,
        ⟨fun ret hret => absurd hret (h.other nofun ret), nofun, h.top⟩, hrest⟩
  | panic =>
      refine ⟨⟨fun ret hret => absurd hret (h.other nofun ret), ?_, h.top⟩, hrest⟩
      rintro _ ⟨⟩ ⟨⟩
  | returned => exact hrest
  | _ => exact ⟨⟨fun ret hret => absurd hret (h.other nofun ret), nofun, h.top⟩, hrest⟩

end

section
variable {c : Conf Shared (List Frame)}

theorem stacked (h : machine.Reachable c) {i : Nat} {stack : List Frame}
    (hi : c.pool[i]? = some stack) : Code.Stacked Below stack := by
  refine Code.stacked (C := code) Below ?_ ?_ ?_ h hi
  · rintro stack rfl
    trivial
  · intro a f hcall
    rcases call_cases hcall with ⟨c, -, rfl⟩ | rfl | ⟨me, rfl⟩
    · refine ⟨nofun, ?_, nofun⟩
      rintro _ ⟨⟩ hin
      cases c <;> cases hin
    · exact ⟨nofun, nofun, nofun⟩
    · exact ⟨nofun, nofun, nofun⟩
  · intro g f a g' new rest hs hbelow hrest
    exact hbelow.exec hs hrest

/-- The flag goes down when a stopper takes it down. -/
theorem flag_kept (h : machine.Reachable c) {j : Nat} {f : Frame} {rest new : List Frame}
    {a : Choice} {g : Shared} (hj : c.pool[j]? = some (f :: rest))
    (hs : exec c.shared f a = some (g, new)) (hstop : c.shared.wq.shouldStop = true) :
    f = .stopReset ∨ g.wq.shouldStop = true := by
  cases exec_next hs with
  | @wq f a wq new ha hx =>
      have hle : early f ≤ census (fun f => kinds f .early) c :=
        le_census (w := fun f => kinds f .early) hj List.mem_cons_self
      have hnone := (signalled h).early
      rw [census_apply] at hnone
      have hearly : early f = 0 := by omega
      exact .inr ((exec_flag ha hearly hx).1.trans hstop)
  | stopStore => exact .inr rfl
  | stopReset => exact .inl rfl
  | _ => exact .inr hstop

/-- Whoever is past the worker's result has it stored. -/
theorem stored_of_after (h : machine.Reachable c) {i : Nat} {stack : List Frame} {f : Frame}
    (hi : c.pool[i]? = some stack) (hf : f ∈ stack) (hafter : 0 < stages f .after) :
    c.shared.stored = true := by
  refine (outcome h).done (.inr ?_)
  rw [census_apply]
  exact Nat.lt_of_lt_of_le hafter (le_census (w := fun f => stages f .after) hi hf)

/-- The worker has seen the flag up. -/
def sawFlag : Frame → Bool
  | .testStopped _ | .wq .workerExit => true
  | _ => false

theorem sawFlag_cases {f : Frame} (h : sawFlag f = true) :
    (∃ ret, f = .testStopped ret) ∨ f = .wq .workerExit := by
  cases f with
  | testStopped ret => exact .inl ⟨ret, rfl⟩
  | wq f =>
      cases f with
      | workerExit => exact .inr rfl
      | _ => cases h
  | _ => cases h

/-- While it is on its way to the next test, the flag stays up. -/
def Seen (g : Shared) (stack : List Frame) : Prop :=
  ∀ f, stack.head? = some f → sawFlag f = true → g.wq.shouldStop = true

/-- On this way its result is still in its hands. -/
theorem unstored (h : machine.Reachable c) {i : Nat} {stack : List Frame} {f : Frame}
    (hi : c.pool[i]? = some stack) (hf : stack.head? = some f) (hsaw : sawFlag f = true) :
    c.shared.stored = false := by
  have hmem : ∃ ret, .testStopped ret ∈ stack := by
    rcases sawFlag_cases hsaw with ⟨ret, rfl⟩ | rfl
    · exact ⟨ret, List.mem_of_head? hf⟩
    · cases stack with
      | nil => cases hf
      | cons f rest =>
          cases hf
          obtain ⟨ret, hret⟩ := (stacked h hi).1.worker .workerExit rfl rfl
          exact ⟨ret, List.mem_cons_of_mem _ (List.mem_of_head? hret)⟩
  obtain ⟨ret, hret⟩ := hmem
  refine ((outcome h).has ret ?_).2
  rw [census_apply]
  have hle := le_census (w := fun f => stages f (.has ret)) hi hret
  have hone : stages (.testStopped ret) (.has ret) = 1 := if_pos rfl
  omega

/-- A step of the worker's own thread. -/
theorem Seen.own {i : Nat} {f : Frame} {rest new : List Frame} {a : Choice} {g : Shared}
    (hseen : Seen c.shared (f :: rest)) (h : machine.Reachable c)
    (hi : c.pool[i]? = some (f :: rest)) (hs : exec c.shared f a = some (g, new)) :
    Seen g (new ++ rest) := by
  have hbelow := (stacked h hi).1
  have hkept := flag_kept h hi hs
  cases exec_next hs with
  | @wq f a wq new ha hx =>
      have hup : c.shared.wq.shouldStop = true → wq.shouldStop = true := by
        intro hstop
        rcases hkept hstop with hf | hup
        · cases hf
        · exact hup
      cases new with
      | nil =>
          -- what is below comes to light
          intro f' hf' hsaw
          rcases sawFlag_cases hsaw with ⟨ret, rfl⟩ | rfl
          · obtain ⟨hdead, hgoes⟩ := exec_goes hx
            have hin := hbelow.returns hdead hf'
            cases hgoes with
            | returns hout =>
                rw [hout] at hin
                cases hin
            | exits => exact hup (hseen _ rfl rfl)
          · exact absurd hf' hbelow.top
      | cons x new =>
          rintro _ ⟨⟩ hsaw
          rcases sawFlag_cases hsaw with ⟨ret, hret⟩ | hexit
          · cases hret
          · cases hexit
            exact hup (exec_exit hx rfl)
  | skip hstop => exact fun _ _ _ => hstop
  | returned =>
      intro f' hf' hsaw
      rcases sawFlag_cases hsaw with ⟨ret, rfl⟩ | rfl
      · exact absurd hf' (hbelow.other nofun ret)
      · exact absurd hf' hbelow.top
  | _ => rintro _ ⟨⟩ ⟨⟩

theorem seen (h : machine.Reachable c) :
    ∀ (i : Nat) (stack : List Frame), c.pool[i]? = some stack → Seen c.shared stack := by
  refine Prog.thread (P := code.prog) (fun _ => Seen) ?_ ?_ ?_ h
  · intro c i stack hc hi
    rw [hc.2 stack (List.mem_of_getElem? hi)]
    nofun
  · intro c i a stack g stack' hreach _ hi hs hseen
    cases stack with
    | nil =>
        obtain ⟨f, hf, hfg⟩ := Option.map_eq_some_iff.mp hs
        cases hfg
        rintro _ ⟨⟩ hsaw
        rcases call_cases hf with ⟨c, -, rfl⟩ | rfl | ⟨me, rfl⟩
        · cases c <;> cases hsaw
        · cases hsaw
        · cases hsaw
    | cons f rest =>
        obtain ⟨⟨g₁, new⟩, hx, hxg⟩ := Option.map_eq_some_iff.mp hs
        cases hxg
        exact hseen.own hreach hi hx
  · intro c i j a stack other g other' hreach _ _ hi hj hs hseen f hf hsaw
    cases other with
    | nil =>
        obtain ⟨f', hf', hfg⟩ := Option.map_eq_some_iff.mp hs
        cases hfg
        exact hseen f hf hsaw
    | cons f' rest =>
        obtain ⟨⟨g₁, new⟩, hx, hxg⟩ := Option.map_eq_some_iff.mp hs
        cases hxg
        rcases flag_kept hreach hj hx (hseen f hf hsaw) with rfl | hup
        · -- the stopper has waited for the result, which is not stored yet
          have hstored := stored_of_after hreach hj List.mem_cons_self Nat.one_pos
          rw [unstored hreach hi hf hsaw] at hstored
          cases hstored
        · exact hup

@[simp] def ends : Frame → Nat
  | .exited => 1
  | _ => 0

/-- The worker ends after it has stored its result. -/
theorem ended (h : machine.Reachable c) : 0 < census ends c → c.shared.stored = true := by
  refine Code.balance (C := code) ends (fun g n => 0 < n → g.stored = true) ?_ ?_ ?_ h
  · intro c hc
    rw [Code.census_init (fun _ h => h) ends hc]
    nofun
  · intro g a f r hcall hr
    rcases call_cases hcall with ⟨c, -, rfl⟩ | rfl | ⟨me, rfl⟩ <;> exact hr
  · intro c i a f rest g new r hreach _ hi _ hs hr
    cases exec_next hs with
    | wq _ hx =>
        rw [total_map, total_eq_zero (w := fun f => ends (.wq f)) (fun _ _ => rfl)]
        exact hr
    | leave hdown =>
        have hup := seen hreach i _ hi _ rfl rfl
        rw [hdown] at hup
        cases hup
    | storeErr => exact fun _ => rfl
    | completed _ => exact fun _ => stored_of_after hreach hi List.mem_cons_self Nat.one_pos
    | _ => exact fun hpos => hr (by simpa using hpos)

/-! ## Stopping -/

theorem returned_result (h : machine.Reachable c) {stack : List Frame} {ret : Int}
    (hstack : stack ∈ c.pool) (hret : .returned ret ∈ stack) :
    ret = result c.shared.entered := by
  obtain ⟨i, hi⟩ := List.getElem?_of_mem hstack
  refine ((outcome h).got ret ?_).1
  rw [census_apply]
  have hle := le_census (w := fun f => stages f (.got ret)) hi hret
  have hone : stages (.returned ret) (.got ret) = 1 := if_pos rfl
  omega

theorem exited_stored (h : machine.Reachable c) {stack : List Frame} (hstack : stack ∈ c.pool)
    (hexited : .exited ∈ stack) : c.shared.stored = true := by
  obtain ⟨i, hi⟩ := List.getElem?_of_mem hstack
  exact ended h (le_census (w := ends) hi hexited)

/-- **No stop is missed.**  Whatever the interleaving of the worker from its first access on, of
threads that queue work and wake the worker, of work functions that do the same and sleep, and
of any number of calls of `kthread_stop`: no stopper waits for a worker that hangs in one of its
two sleeps with its semaphore at zero; what `kthread_stop` returns is 0 if `worker_thread` was
entered and `-EINTR` if it was not; and the worker does not end without having stored it. -/
theorem worker_stop (c : Conf Shared (List Frame)) (h : machine.Reachable c) :
    ¬ Missed c ∧
      (∀ stack ∈ c.pool, ∀ ret, .returned ret ∈ stack →
        ret = if c.shared.entered then 0 else -eintr) ∧
      ∀ stack ∈ c.pool, .exited ∈ stack → c.shared.stored = true :=
  ⟨not_missed h, fun _ hstack _ hret => returned_result h hstack hret,
    fun _ hstack hexited => exited_stored h hstack hexited⟩

end

/-- Nothing has happened, and nobody has a token. -/
def fresh : Shared where
  wq := ⟨fun _ => ⟨.null, false, false⟩, false, [], 0, false, false, ⟨.running, 0⟩, false, false,
    fun _ => ⟨0, 0, 0⟩⟩
  done := ⟨0, false, [], fun _ => ⟨.running, 0⟩, 0, fun _ => false, 0, 0⟩
  stopLock := false
  stopErr := 0
  created := false
  entered := false
  stored := false

theorem fresh_reachable : machine.Reachable ⟨fresh, [[], []]⟩ :=
  .init ⟨⟨⟨fun _ => ⟨rfl, rfl⟩, rfl, rfl, rfl, rfl, rfl, rfl⟩, rfl, rfl, rfl, rfl, rfl, rfl⟩,
    by simp [code, Code.prog]⟩

/-- A worker that was woken is stopped in the sleep of its loop, and one that was not in its
first sleep. -/
theorem worker_stop_twice :
    ∃ c c', machine.Reachable c ∧ c.pool = [[.exited], [.returned 0]] ∧
      c.shared.entered = true ∧ machine.Reachable c' ∧
      c'.pool = [[.exited], [.returned (-eintr)]] ∧ c'.shared.entered = false ∧
      ¬ Missed c ∧ ¬ Missed c' ∧
      (0 : Int) = (if c.shared.entered then 0 else -eintr) ∧
      -eintr = (if c'.shared.entered then 0 else -eintr) ∧
      c.shared.stored = true ∧ c'.shared.stored = true := by
  have hwoken : (machine.run ⟨fresh, [[], []]⟩
      (List.flatten [(0, .wq .worker) :: List.replicate 4 (0, .wq .go),
        (1, .wq (.call .wakeUpProcess)) :: List.replicate 2 (1, .wq .go),
        List.replicate 7 (0, .wq .go), (1, .kthreadStop 1) :: List.replicate 11 (1, .wq .go),
        List.replicate 15 (0, .wq .go), List.replicate 9 (1, .wq .go)])).map
      (fun c => (c.pool, c.shared.entered)) = some ([[.exited], [.returned 0]], true) := by
    decide
  have hasleep : (machine.run ⟨fresh, [[], []]⟩
      (List.flatten [(0, .wq .worker) :: List.replicate 4 (0, .wq .go),
        (1, .kthreadStop 1) :: List.replicate 11 (1, .wq .go),
        List.replicate 11 (0, .wq .go), List.replicate 9 (1, .wq .go)])).map
      (fun c => (c.pool, c.shared.entered)) =
        some ([[.exited], [.returned (-eintr)]], false) := by
    decide
  obtain ⟨c, hc, hat⟩ := Option.map_eq_some_iff.mp hwoken
  obtain ⟨c', hc', hat'⟩ := Option.map_eq_some_iff.mp hasleep
  obtain ⟨hpool, hentered⟩ := Prod.mk.inj hat
  obtain ⟨hpool', hentered'⟩ := Prod.mk.inj hat'
  have hreach := fresh_reachable.run _ hc
  have hreach' := fresh_reachable.run _ hc'
  obtain ⟨hmissed, hret, hstored⟩ := worker_stop c hreach
  obtain ⟨hmissed', hret', hstored'⟩ := worker_stop c' hreach'
  exact ⟨c, c', hreach, hpool, hentered, hreach', hpool', hentered', hmissed, hmissed',
    hret [.returned 0] (by simp [hpool]) 0 (by simp),
    hret' [.returned (-eintr)] (by simp [hpool']) _ (by simp),
    hstored [.exited] (by simp [hpool]) (by simp),
    hstored' [.exited] (by simp [hpool']) (by simp)⟩

end LinuxDrivers.Kernel.WorkerStop
