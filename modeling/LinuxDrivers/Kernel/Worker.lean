/-
# `LinuxDrivers.Kernel.Worker` — the worker does not sleep through its work

The worker of a work queue decides to sleep without the lock of the queue:

    state = INTERRUPTIBLE;  enter more_work;  list empty?  schedule() : state = RUNNING
    leave more_work;  list empty?  : run_workqueue

It may find the list empty and be overtaken by a `queue_work`, and it may be woken for
nothing, by an old token or by a wake-up of its task that has nothing to do with the list.
What it relies on is the order: it is on `more_work` before it looks at the list, and an
item is on the list before `more_work` is woken.

**Proved here.**

    a worker that sleeps is on `more_work`, and if there is work there is a token for it
    or there will be                                            (`attended`)
    every queueing of an item is followed by one run at most, no item is taken off the list
    and not run, no `BUG_ON` is reached, and the worker does not sleep through its work
                                                                (`work_delivered`)
-/
import LinuxDrivers.Kernel.WorkQueue

namespace LinuxDrivers.Kernel.WorkQueue

open LinuxDrivers.Lib LinuxDrivers.Kernel.Sched

/-! ## Where the worker is -/

inductive Role where
  /-- the worker, awake and not on `more_work` -/
  | off
  /-- awake, on `more_work` -/
  | on
  /-- it has found the list empty, and is on its way to `dde_kit_sem_down` or in it -/
  | asleep
  /-- in `run_workqueue` -/
  | inside
  /-- a thread that will look for the worker on `more_work`, or wake it -/
  | waking

@[simp] def roles : Frame → Role → Nat
  | .workerState, .off | .workerStop, .off | .workerAdd, .off | .workerRun, .off
  | .workerExit, .off | .loopLock, .off => 1
  | .workerTest, .on | .workerRunning, .on | .workerRemove, .on => 1
  | .workerSwitch, .asleep | .workerDown, .asleep => 1
  | .loopNext, .inside | .loopUnlock _, .inside | .loopBug _, .inside | .loopAgain, .inside
  | .loopEnd, .inside => 1
  | .wakeLock, .waking | .wakeStore, .waking | .wakeUp, .waking => 1
  | _, _ => 0

@[simp] theorem roles_frame (c : Call) (k : Role) : roles c.frame k = 0 := by
  cases c <;> cases k <;> rfl

/-- The list is attended to, `n` counting the frames by their roles. -/
structure Attended (g : Shared) (n : Role → Nat) : Prop where
  one : n .off + n .on + n .asleep + n .inside ≤ g.started.toNat
  depth : n .inside = g.runDepth
  queued : 0 < n .on + n .asleep → g.moreWork = true
  covered : 0 < n .asleep → g.worklist ≠ [] → 0 < g.worker.sleepLock ∨ 0 < n .waking

section
variable {g g' : Shared} {f : Frame} {new : List Frame} {a : Choice} {n m r : Role → Nat}

/-- There is one worker. -/
theorem Attended.le_one (h : Attended g n) : n .off + n .on + n .asleep + n .inside ≤ 1 :=
  Nat.le_trans h.one (Bool.toNat_le _)

/-- Steps that have nothing to do with the worker.  The list may become shorter and there may
be more tokens. -/
theorem Attended.step (h : Attended g n) (hs : g'.started = g.started)
    (hr : g'.runDepth = g.runDepth) (hq : g'.moreWork = g.moreWork)
    (hl : g'.worklist ≠ [] → g.worklist ≠ []) (ht : g.worker.sleepLock ≤ g'.worker.sleepLock)
    (hm : ∀ k, m k = n k) : Attended g' m := by
  obtain rfl : m = n := funext hm
  refine ⟨hs ▸ h.one, hr ▸ h.depth, hq ▸ h.queued, ?_⟩
  intro hasleep hlist
  rcases h.covered hasleep (hl hlist) with htoken | hwaking
  · exact .inl (Nat.lt_of_lt_of_le htoken ht)
  · exact .inr hwaking

/-- The steps of most frames. -/
theorem Attended.same (h : Attended g n) (hs : g'.started = g.started)
    (hr : g'.runDepth = g.runDepth) (hq : g'.moreWork = g.moreWork)
    (hl : g'.worklist = g.worklist) (ht : g'.worker.sleepLock = g.worker.sleepLock)
    (hm : ∀ k, m k = n k) : Attended g' m :=
  h.step hs hr hq (fun hne => hl ▸ hne) (Nat.le_of_eq ht.symm) hm

/-! ## What each access does -/

theorem Attended.start (hfree : g.started = false) (h : Attended g (r + roles .workerStart)) :
    Attended { g with started := true } (r + roles .workerState) := by
  obtain ⟨hone, hdepth, hqueued, hcovered⟩ := h
  rw [hfree] at hone
  constructor <;> simp at * <;> first | assumption | omega

/-- The worker enters `more_work`. -/
theorem Attended.add (h : Attended g (r + roles .workerAdd)) :
    Attended { g with moreWork := true } (r + roles .workerTest) := by
  obtain ⟨hone, hdepth, hqueued, hcovered⟩ := h
  constructor <;> simp at * <;> first | assumption | omega

/-- It finds the list empty. -/
theorem Attended.fallAsleep (hempty : g.worklist = []) (h : Attended g (r + roles .workerTest)) :
    Attended g (r + roles .workerSwitch) := by
  obtain ⟨hone, hdepth, hqueued, -⟩ := h
  simp only [Pi.add_apply, roles] at hone hdepth hqueued
  refine ⟨?_, hdepth, ?_, fun _ hlist => absurd hempty hlist⟩
  · simp only [Pi.add_apply, roles]
    omega
  · intro _
    exact hqueued (by omega)

/-- It is awake again; a token may be gone. -/
theorem Attended.wake {task : TaskStruct} (hf : f = .workerSwitch ∨ f = .workerDown)
    (h : Attended g (r + roles f)) :
    Attended { g with worker := task } (r + roles .workerRemove) := by
  have hle := h.le_one
  obtain ⟨hone, hdepth, hqueued, hcovered⟩ := h
  rcases hf with rfl | rfl
  all_goals
    simp only [Pi.add_apply, roles] at hle hone hdepth hqueued hcovered
    refine ⟨?_, hdepth, ?_, ?_⟩
    · simp only [Pi.add_apply, roles]
      omega
    · intro _
      exact hqueued (by omega)
    · intro hasleep
      simp only [Pi.add_apply, roles] at hasleep
      omega

/-- It leaves `more_work`. -/
theorem Attended.remove (h : Attended g (r + roles .workerRemove)) :
    Attended { g with moreWork := false } (r + roles .workerRun) := by
  have hle := h.le_one
  obtain ⟨hone, hdepth, hqueued, hcovered⟩ := h
  simp only [Pi.add_apply, roles] at hle hone hdepth hqueued hcovered
  refine ⟨?_, hdepth, ?_, hcovered⟩
  · simp only [Pi.add_apply, roles]
    omega
  · intro hon
    simp only [Pi.add_apply, roles] at hon
    omega

theorem Attended.enter (h : Attended g (r + roles .loopLock)) :
    Attended { g with lock := true, runDepth := g.runDepth + 1 } (r + roles .loopNext) := by
  obtain ⟨hone, hdepth, hqueued, hcovered⟩ := h
  constructor <;> simp at * <;> first | assumption | omega

theorem Attended.leave (h : Attended g (r + roles .loopEnd)) :
    Attended { g with lock := false, runDepth := g.runDepth - 1 } (r + roles .workerState) := by
  obtain ⟨hone, hdepth, hqueued, hcovered⟩ := h
  constructor <;> simp at * <;> first | assumption | omega

/-- A frame of the worker that ends. -/
theorem Attended.drop (hf : f = .workerExit ∨ f = .workerSwitch) (h : Attended g (r + roles f)) :
    Attended g r := by
  have hle := h.le_one
  obtain ⟨hone, hdepth, hqueued, hcovered⟩ := h
  rcases hf with rfl | rfl
  all_goals
    simp only [Pi.add_apply, roles, add_zero] at hle hone hdepth hqueued hcovered
    exact ⟨by omega, hdepth, fun hon => hqueued (by omega), fun hasleep => hcovered (by omega)⟩

/-- While the worker is in `run_workqueue` its task is nobody's business. -/
theorem Attended.sleep {task : TaskStruct} (hin : g.runDepth ≠ 0) (h : Attended g n) :
    Attended { g with worker := task } n := by
  have hle := h.le_one
  have hdepth := h.depth
  refine ⟨h.one, h.depth, h.queued, ?_⟩
  intro hasleep
  omega

/-- An item is added, and `more_work` is going to be woken. -/
theorem Attended.addTail {w : Nat} {l : List Nat} (h : Attended g (r + roles (.addTail w))) :
    Attended { g with worklist := l } (r + roles .wakeLock) := by
  obtain ⟨hone, hdepth, hqueued, -⟩ := h
  refine ⟨hone, hdepth, hqueued, ?_⟩
  intro _ _
  refine .inr ?_
  simp

/-- The worker is not on `more_work`, so it is not asleep. -/
theorem Attended.missed (hoff : g.moreWork = false) (h : Attended g (r + roles .wakeLock)) :
    Attended { g with moreLock := true } r := by
  obtain ⟨hone, hdepth, hqueued, -⟩ := h
  simp only [Pi.add_apply, roles, add_zero] at hone hdepth hqueued
  refine ⟨hone, hdepth, hqueued, ?_⟩
  intro hasleep
  have hon := hqueued (by omega)
  rw [hoff] at hon
  cases hon

/-- A token for the worker. -/
theorem Attended.token {task : TaskStruct} (htask : 0 < task.sleepLock)
    (hm : ∀ k, k ≠ .waking → m k = n k) (h : Attended g n) : Attended { g with worker := task } m := by
  obtain ⟨hone, hdepth, hqueued, -⟩ := h
  refine ⟨?_, ?_, ?_, fun _ _ => .inl htask⟩
  · rw [hm .off nofun, hm .on nofun, hm .asleep nofun, hm .inside nofun]
    exact hone
  · rw [hm .inside nofun]
    exact hdepth
  · rw [hm .on nofun, hm .asleep nofun]
    exact hqueued

/-! ## The list is attended to -/

theorem exec_attended (hbug : ∀ w, f = .loopBug w → (g.data w).wq = .cwq)
    (hs : exec g f a = some (g', new)) (h : Attended g (r + roles f)) :
    Attended g' (r + total roles new) := by
  cases f with
  | addTail w =>
      cases hs
      rw [total_cons]
      exact h.addTail.same rfl rfl rfl rfl rfl (fun k => by cases k <;> simp)
  | wakeLock =>
      simp only [exec] at hs
      split at hs <;> cases hs
      by_cases hq : g.moreWork = true
      · rw [if_pos hq]
        exact h.same rfl rfl rfl rfl rfl (fun k => by cases k <;> simp)
      · rw [if_neg hq]
        exact (h.missed (Bool.eq_false_iff.mpr hq)).same rfl rfl rfl rfl rfl
          (fun k => by cases k <;> simp)
  | wakeUp | processUp =>
      cases hs
      refine h.token (Nat.succ_pos _) (fun k hk => ?_)
      cases k <;> first | exact absurd rfl hk | simp
  | func w =>
      cases a with
      | go =>
          cases hs
          exact h.same rfl rfl rfl rfl rfl (fun k => by cases k <;> simp)
      | call c =>
          cases hs
          exact h.same rfl rfl rfl rfl rfl
            (fun k => by cases c <;> cases k <;> simp [Call.frame])
      | worker => cases hs
      | sleep task =>
          simp only [exec] at hs
          split at hs <;> cases hs
          rename_i hin
          exact (h.sleep hin).same rfl rfl rfl rfl rfl (fun k => by cases k <;> simp)
  | runDel w =>
      simp only [exec] at hs
      split at hs <;> cases hs
      · rename_i hmem
        exact h.step rfl rfl rfl (fun _ => List.ne_nil_of_mem hmem) (Nat.le_refl _)
          (fun k => by cases k <;> simp)
      · exact h.same rfl rfl rfl rfl rfl (fun k => by cases k <;> simp)
  | loopLock =>
      simp only [exec] at hs
      split at hs <;> cases hs
      rw [total_singleton]
      exact h.enter
  | loopNext =>
      simp only [exec] at hs
      split at hs <;> cases hs
      · exact h.same rfl rfl rfl rfl rfl (fun k => by cases k <;> simp)
      · rename_i w rest hlist
        exact h.step rfl rfl rfl (fun _ => by simp [hlist]) (Nat.le_refl _)
          (fun k => by cases k <;> simp)
  | loopBug w =>
      cases hs
      rw [if_pos (hbug w rfl)]
      exact h.same rfl rfl rfl rfl rfl (fun k => by cases k <;> simp)
  | loopEnd =>
      cases hs
      rw [total_singleton]
      exact h.leave
  | workerStart =>
      simp only [exec] at hs
      split at hs <;> cases hs
      rename_i hfree
      rw [total_singleton]
      exact Attended.start (by simpa using hfree) h
  | workerAdd =>
      simp only [exec] at hs
      split at hs <;> cases hs
      rw [total_singleton]
      exact h.add
  | workerTest =>
      cases hs
      by_cases hempty : g.worklist = []
      · rw [if_pos hempty, total_singleton]
        exact h.fallAsleep hempty
      · rw [if_neg hempty]
        exact h.same rfl rfl rfl rfl rfl (fun k => by cases k <;> simp)
  | workerSwitch =>
      simp only [exec] at hs
      split at hs <;> cases hs
      · rw [total_singleton]
        exact h.wake (.inl rfl)
      · exact h.same rfl rfl rfl rfl rfl (fun k => by cases k <;> simp)
      · exact (h.drop (.inr rfl)).same rfl rfl rfl rfl rfl (fun k => by cases k <;> simp)
  | workerDown =>
      simp only [exec] at hs
      split at hs <;> cases hs
      rw [total_singleton]
      exact h.wake (.inr rfl)
  | workerRemove =>
      simp only [exec] at hs
      split at hs <;> cases hs
      rw [total_singleton]
      exact h.remove
  | workerExit =>
      cases hs
      exact (h.drop (.inl rfl)).same rfl rfl rfl rfl rfl (fun k => by cases k <;> simp)
  | queueBug w | setBug w | schedPending w | schedEmpty w | schedWq w | runWq w | runPending w
  | autorel w | workerStop | workerRun =>
      cases hs
      refine h.same rfl rfl rfl rfl rfl (fun k => ?_)
      split <;> cases k <;> simp
  | _ =>
      simp only [exec] at hs
      (try split at hs) <;> cases hs <;>
        exact h.same rfl rfl rfl rfl rfl (fun k => by cases k <;> simp)

end

section
variable {c : Conf Shared (List Frame)}

/-- The worker finds the data of the item in order. -/
theorem loopBug_ok (h : machine.Reachable c) {w i : Nat} {rest : List Frame}
    (hp : c.pool[i]? = some (.loopBug w :: rest)) : (c.shared.data w).wq = .cwq := by
  have hle := le_census (w := fun f => places w f .relied) hp List.mem_cons_self
  have hone : places w (.loopBug w) .relied = 1 := if_pos rfl
  refine (account h w).wq ?_
  rw [census_apply]
  omega

theorem attended (h : machine.Reachable c) : Attended c.shared (census roles c) := by
  refine Code.balance (C := code) roles Attended ?_ ?_ ?_ h
  · intro c hc
    rw [Code.census_init (fun _ h => h) roles hc]
    obtain ⟨⟨-, -, -, hdepth, -, -, -⟩, -⟩ := hc
    constructor <;> simp [hdepth]
  · intro g a f r hcall hr
    cases a with
    | call c =>
        cases hcall
        exact hr.same rfl rfl rfl rfl rfl (fun k => by simp [-roles])
    | worker =>
        cases hcall
        exact hr.same rfl rfl rfl rfl rfl (fun k => by cases k <;> simp)
    | go => cases hcall
    | sleep task => cases hcall
  · intro c i a f rest g new r hreach _ hi _ hs hr
    refine exec_attended ?_ hs hr
    rintro w rfl
    exact loopBug_ok hreach hi

/-! ## What is taken off is run -/

/-- The item was taken off the list, and its function was not called yet. -/
def Frame.holds (w : Nat) : Frame → Bool
  | .runUnlock v | .loopUnlock v | .loopBug v | .autorel v | .release v | .start v => v = w
  | _ => false

/-- Nothing that other threads do is needed for thread `i` to call the function of `w`. -/
def Delivers (w i : Nat) (c : Conf Shared (List Frame)) : Prop :=
  ∃ n c' rest, machine.run c (List.replicate n (i, .go)) = some c' ∧
    c'.pool[i]? = some (.func w :: rest) ∧
    (c'.shared.hist w).ran = (c.shared.hist w).ran + 1

/-- One step on the way there. -/
theorem Delivers.step {w i : Nat} {f : Frame} {rest new : List Frame} {g : Shared}
    (hp : c.pool[i]? = some (f :: rest)) (hs : exec c.shared f .go = some (g, new))
    (hran : (g.hist w).ran = (c.shared.hist w).ran)
    (h : machine.Reachable ⟨g, c.pool.set i (new ++ rest)⟩ →
      Delivers w i ⟨g, c.pool.set i (new ++ rest)⟩)
    (hreach : machine.Reachable c) : Delivers w i c := by
  have hown : code.prog.step i c.shared (f :: rest) .go = some (g, new ++ rest) := by
    show (exec c.shared f .go).map _ = _
    rw [hs]
    rfl
  have hone := Prog.machine_run_cons (P := code.prog) hp hown
  obtain ⟨n, c', rest', hrun, hfunc, hran'⟩ := h (hreach.run [(i, .go)] (hone []))
  refine ⟨n + 1, c', rest', ?_, hfunc, hran' ▸ congrArg (· + 1) hran⟩
  rw [List.replicate_succ]
  exact (hone _).trans hrun

theorem getElem?_pool {i : Nat} {stack : List Frame} (hp : c.pool[i]? = some stack)
    (stack' : List Frame) : (c.pool.set i stack')[i]? = some stack' :=
  List.getElem?_set_self (List.getElem?_eq_some_iff.mp hp).1

theorem delivers_start {w i : Nat} {rest : List Frame} (hp : c.pool[i]? = some (.start w :: rest)) :
    Delivers w i c := by
  have hown : code.prog.step i c.shared (.start w :: rest) .go =
      some (c.shared.setHist w { c.shared.hist w with ran := (c.shared.hist w).ran + 1 },
        .func w :: rest) := rfl
  refine ⟨1, _, rest, Prog.machine_run_cons (P := code.prog) hp hown [], getElem?_pool hp _, ?_⟩
  simp [Shared.setHist]

theorem delivers_autorel {w i : Nat} {rest : List Frame}
    (hp : c.pool[i]? = some (.autorel w :: rest)) (h : machine.Reachable c) : Delivers w i c := by
  have hs : exec c.shared (.autorel w) .go = some (c.shared, [.release w]) := by
    rw [exec, (account h w).auto.1]
    rfl
  refine Delivers.step hp hs rfl (fun h' => ?_) h
  exact Delivers.step (getElem?_pool hp _) rfl rfl
    (fun _ => delivers_start (getElem?_pool (getElem?_pool hp _) _)) h'

theorem delivers_loopBug {w i : Nat} {rest : List Frame}
    (hp : c.pool[i]? = some (.loopBug w :: rest)) (h : machine.Reachable c) : Delivers w i c := by
  have hs : exec c.shared (.loopBug w) .go = some (c.shared, [.autorel w, .loopAgain]) := by
    rw [exec, loopBug_ok h hp]
    rfl
  exact Delivers.step hp hs rfl (delivers_autorel (getElem?_pool hp _)) h

/-- A call that has taken an item off the list runs its function. -/
theorem delivers {w i : Nat} {f : Frame} {rest : List Frame} (hf : f.holds w = true)
    (hp : c.pool[i]? = some (f :: rest)) (h : machine.Reachable c) : Delivers w i c := by
  cases f with
  | runUnlock v =>
      obtain rfl : v = w := of_decide_eq_true hf
      exact Delivers.step hp rfl rfl (delivers_autorel (getElem?_pool hp _)) h
  | loopUnlock v =>
      obtain rfl : v = w := of_decide_eq_true hf
      exact Delivers.step hp rfl rfl (delivers_loopBug (getElem?_pool hp _)) h
  | loopBug v =>
      obtain rfl : v = w := of_decide_eq_true hf
      exact delivers_loopBug hp h
  | autorel v =>
      obtain rfl : v = w := of_decide_eq_true hf
      exact delivers_autorel hp h
  | release v =>
      obtain rfl : v = w := of_decide_eq_true hf
      refine Delivers.step hp rfl (by simp [Shared.setData]) ?_ h
      exact fun _ => delivers_start (getElem?_pool hp _)
  | start v =>
      obtain rfl : v = w := of_decide_eq_true hf
      exact delivers_start hp
  | _ => cases hf

/-- The frames that calls leave behind hold no item. -/
theorem exec_tail {g g' : Shared} {f : Frame} {a : Choice} {new : List Frame} (w : Nat)
    (hs : exec g f a = some (g', new)) : ∀ f' ∈ new.tail, f'.holds w = false := by
  cases f with
  | func v =>
      cases a with
      | call c =>
          cases hs
          simp [Frame.holds]
      | sleep task =>
          simp only [exec] at hs
          split at hs <;> cases hs
          exact fun _ hmem => absurd hmem List.not_mem_nil
      | go =>
          cases hs
          exact fun _ hmem => absurd hmem List.not_mem_nil
      | worker => cases hs
  | _ =>
      simp only [exec] at hs
      (repeat' split at hs) <;> cases hs <;> simp [Frame.holds]

/-- So the frame that holds an item is on top. -/
theorem holds_top {w i : Nat} {stack : List Frame} {f : Frame} (hp : c.pool[i]? = some stack)
    (hmem : f ∈ stack) (hf : f.holds w = true) (h : machine.Reachable c) :
    ∃ rest, stack = f :: rest := by
  have hbelow := Code.below (C := code) (fun f => f.holds w = false)
    (fun stack hstart f' hf' => by rw [hstart] at hf'; cases hf')
    (fun _ _ _ _ _ hs => exec_tail w hs) h hp
  cases stack with
  | nil => cases hmem
  | cons top rest =>
      rcases List.mem_cons.mp hmem with rfl | hrest
      · exact ⟨rest, rfl⟩
      · rw [hbelow f hrest] at hf
        cases hf

/-! ## Delivery -/

/-- The number of threads that have taken `w` off the list and did not call its function yet. -/
def inHand (w : Nat) (c : Conf Shared (List Frame)) : Nat :=
  census (fun f => (f.holds w).toNat) c

theorem holds_toNat (w : Nat) (f : Frame) :
    (f.holds w).toNat = places w f .taken + places w f .ready := by
  cases f <;> simp [Frame.holds, Bool.toNat, Bool.cond_decide]

/-- A call of `queue_work` that has not returned. -/
def Frame.queueing : Frame → Bool
  | .queueTest _ | .queueBug _ | .queueLock _ | .setBug _ | .setRead _ | .setStore _ _
  | .addTail _ | .queueUnlock | .wakeLock | .wakeStore | .wakeUp | .wakeUnlock => true
  | _ => false

/-- There is work, nobody is queueing, and the worker is blocked. -/
structure Stuck (c : Conf Shared (List Frame)) : Prop where
  work : c.shared.worklist ≠ []
  finished : ∀ stack ∈ c.pool, ∀ f ∈ stack, f.queueing = false
  blocked : ∃ stack ∈ c.pool, stack.head? = some .workerDown
  noToken : c.shared.worker.sleepLock = 0

theorem not_stuck (h : machine.Reachable c) : ¬ Stuck c := by
  rintro ⟨hwork, hfinished, ⟨stack, hstack, hdown⟩, hzero⟩
  obtain ⟨i, hi⟩ := List.getElem?_of_mem hstack
  have hle := le_census (w := fun f => roles f .asleep) hi (List.mem_of_head? hdown)
  have hasleep : 0 < census roles c .asleep := by
    rw [census_apply]
    exact hle
  rcases (attended h).covered hasleep hwork with htoken | hwaking
  · omega
  · rw [census_apply] at hwaking
    obtain ⟨j, other, f, hj, hmem, hpos⟩ := exists_of_census_pos hwaking
    have hqueueing := hfinished other (List.mem_of_getElem? hj) f hmem
    cases f <;> simp [Frame.queueing] at hqueueing hpos

/-- What is promised about an item.  The `n`-th time it is taken off is for the `n`-th call of
`queue_work` that returns 1, and is followed by the `n`-th run of its function. -/
structure Delivered (w : Nat) (c : Conf Shared (List Frame)) : Prop where
  once : (c.shared.hist w).removed ≤ (c.shared.hist w).queued ∧
    (c.shared.hist w).queued ≤ (c.shared.hist w).removed + 1
  run : (c.shared.hist w).removed = (c.shared.hist w).ran + inHand w c
  soon : ∀ (i : Nat) stack f, c.pool[i]? = some stack → f ∈ stack → f.holds w = true →
    Delivers w i c

theorem delivered (h : machine.Reachable c) (w : Nat) : Delivered w c := by
  have hacc := account h w
  have hle := hacc.le_one
  have hhand : inHand w c = census (places w) c .taken + census (places w) c .ready := by
    rw [inHand, census_apply, census_apply, ← census_add]
    simp only [holds_toNat]
  refine ⟨?_, ?_, ?_⟩
  · have hqueued := hacc.queued
    omega
  · have hremoved := hacc.removed
    omega
  · intro i stack f hp hmem hf
    obtain ⟨rest, rfl⟩ := holds_top hp hmem hf h
    exact delivers hf hp h

/-- **Work is delivered.**  Whatever the interleaving of threads that queue items and run
scheduled ones, of the worker, and of work functions that do the same: a call of `queue_work`
that returns 1 is followed by one run of the function at most, no item is taken off the list
without being run, no `BUG_ON` is reached, and the worker does not sleep while there is
work. -/
theorem work_delivered (c : Conf Shared (List Frame)) (h : machine.Reachable c) :
    (∀ w, Delivered w c) ∧ (∀ stack ∈ c.pool, ∀ w, .bug w ∉ stack) ∧ ¬ Stuck c :=
  ⟨delivered h, fun stack hstack w => no_bug h w stack hstack, not_stuck h⟩

/-- The worker sleeps, is woken for item 0 and runs it; the function queues the item again, and
the worker has taken it off a second time. -/
theorem work_delivered_twice :
    ∃ c, machine.Reachable c ∧ c.pool = [[.loopUnlock 0], []] ∧ c.shared.hist 0 = ⟨2, 2, 1⟩ ∧
      (∀ w, Delivered w c) ∧ (∀ stack ∈ c.pool, ∀ w, .bug w ∉ stack) ∧ ¬ Stuck c := by
  have hinit : machine.Reachable ⟨⟨fun _ => ⟨.null, false, false⟩, false, [], 0, false, false,
      ⟨.running, 0⟩, false, false, fun _ => ⟨0, 0, 0⟩⟩, [[], []]⟩ :=
    .init ⟨⟨fun _ => ⟨rfl, rfl⟩, rfl, rfl, rfl, rfl, rfl, rfl⟩, by simp [code, Code.prog]⟩
  have hrun : (machine.run ⟨⟨fun _ => ⟨.null, false, false⟩, false, [], 0, false, false,
      ⟨.running, 0⟩, false, false, fun _ => ⟨0, 0, 0⟩⟩, [[], []]⟩
      (List.flatten [(0, .worker) :: List.replicate 6 (0, .go),
        (1, .call (.queueWork 0)) :: List.replicate 12 (1, .go), List.replicate 10 (0, .go),
        (0, .call (.queueWork 0)) :: List.replicate 13 (0, .go)])).map
      (fun c => (c.pool, c.shared.hist 0)) = some ([[.loopUnlock 0], []], ⟨2, 2, 1⟩) := by
    decide
  obtain ⟨c, hc, hat⟩ := Option.map_eq_some_iff.mp hrun
  obtain ⟨hpool, hhist⟩ := Prod.mk.inj hat
  have hreach := hinit.run _ hc
  exact ⟨c, hreach, hpool, hhist, work_delivered c hreach⟩

end

end LinuxDrivers.Kernel.WorkQueue
