/-
# `LinuxDrivers.Kernel.DelayedWork` — deleting timers, and delayed work

`del_timer` asks whether the timer is pending and deletes it in two steps.  If the
timer expires in between, its function runs *and* the caller is told that the timer
was deactivated.  `cancel_delayed_work` believes it:

    ret = del_timer_sync(&work->timer);
    if (ret) work_release(&work->work);

and clears the pending bit of a work item that the timer has just put on a work
list.  The item can then be queued a second time while it is on the list.

The machine has any number of threads that add, delete and modify timers, queue
and cancel delayed work, a timer thread that may run any pending timer at any time,
and workers.  `reported` collects the armings that a `del_timer` or `mod_timer` has
claimed to have deactivated.

**Proved here.**

    an arming that is both run and reported, and a queued work item
    about to be released                                              (`del_timer_races_expiry`)
    no expiry between the test and the deletion, nor a second deletion
      ⟹  every arming is resolved once; nothing queued is released   (`timer_resolved_once`)
-/
import LinuxDrivers.Kernel.Timer

namespace LinuxDrivers.Kernel.Timer

open LinuxDrivers.Lib

/-! ## The code -/

structure TimerList where
  ddeKitTimer : Option Nat
  expires : Word
  deriving DecidableEq, Repr

structure Shared where
  kit : Kit
  timers : TimerId → TimerList
  jiffies : Word
  /-- the `WORK_STRUCT_PENDING` bit of each delayed work -/
  pending : Nat → Bool
  /-- its `WORK_STRUCT_NOAUTOREL` bit -/
  noAutorel : Nat → Bool
  /-- `cwq->worklist` -/
  worklist : List Nat
  /-- the armings reported as deactivated -/
  reported : List Nat

namespace Shared

/-- `timer->dde_kit_timer = h` -/
def setHandle (g : Shared) (id : TimerId) (h : Option Nat) : Shared :=
  { g with timers := Function.update g.timers id { g.timers id with ddeKitTimer := h } }

/-- `timer->expires = expires` -/
def setExpires (g : Shared) (id : TimerId) (expires : Word) : Shared :=
  { g with timers := Function.update g.timers id { g.timers id with expires := expires } }

def setPending (g : Shared) (w : Nat) (b : Bool) : Shared :=
  { g with pending := Function.update g.pending w b }

/-- A call returns, and its result is positive because of the arming `r`. -/
def report (g : Shared) (r : Option Nat) : Shared :=
  { g with reported := r.toList ++ g.reported }

/-- `timer_pending` -/
def timerPending (g : Shared) (id : TimerId) : Bool :=
  (g.timers id).ddeKitTimer.any (ddeKitTimerPending g.kit)

end Shared

/-- Who called `del_timer`: a driver, `mod_timer` or `cancel_delayed_work`. -/
inductive DelOp where
  | del (n : Nat)
  | mod (n : Nat) (expires : Word)
  | cancel (w : Nat)
  deriving DecidableEq, Repr

def DelOp.id : DelOp → TimerId
  | .del n | .mod n _ => .plain n
  | .cancel w => .dwork w

/-- Where a thread stands.  `r` is the arming found pending, if any. -/
inductive Pc where
  | idle
  /-- `del_timer`, for the caller `op` -/
  | delTest (op : DelOp)
  | delPending (op : DelOp)
  | delDel (op : DelOp) (r : Option Nat)
  | delClear (op : DelOp) (r : Option Nat)
  /-- `add_timer`, or the end of `mod_timer` -/
  | setExpires (id : TimerId) (expires : Word) (r : Option Nat)
  | addArm (id : TimerId) (r : Option Nat)
  | addStore (id : TimerId) (h : Nat) (r : Option Nat)
  /-- `queue_work` -/
  | queueTest (w : Nat)
  | queueCheck (w : Nat)
  | queueAdd (w : Nat)
  /-- `queue_delayed_work` -/
  | delayTest (w : Nat) (delay : Word)
  | delayCheckTimer (w : Nat) (delay : Word)
  | delayCheckList (w : Nat) (delay : Word)
  /-- `delayed_work_timer_fn`, in the timer thread -/
  | timerFn (w : Nat)
  /-- `run_workqueue`, the item taken off the list -/
  | workRelease (w : Nat)
  | workFunc (w : Nat)
  /-- `cancel_delayed_work`, told that the timer was deactivated -/
  | cancelRelease (w : Nat)
  /-- stopped in a `BUG_ON` -/
  | bug
  deriving DecidableEq, Repr

inductive Choice where
  | go
  | addTimer (n : Nat) (expires : Word)
  | delTimer (n : Nat)
  | delTimerSync (n : Nat)
  | modTimer (n : Nat) (expires : Word)
  | queueWork (w : Nat)
  | queueDelayedWork (w : Nat) (delay : Word)
  | cancelDelayedWork (w : Nat)
  /-- the timer thread runs an expired timer -/
  | expire (h : Nat)
  /-- a worker takes the first item of the list -/
  | runWork
  /-- a `NOAUTOREL` work function releases its item -/
  | release
  | tick
  deriving DecidableEq, Repr

/-- What an idle thread does. -/
def issue (g : Shared) (a : Choice) : Option (Shared × Pc) :=
  match a with
  | .go | .release => none
  | .addTimer n expires => some (g, .setExpires (.plain n) expires none)
  | .delTimer n | .delTimerSync n => some (g, .delTest (.del n))
  | .modTimer n expires => some (g, .delTest (.mod n expires))
  | .queueWork w => some (g, .queueTest w)
  | .queueDelayedWork w delay =>
      some (g, if delay = 0 then .queueTest w else .delayTest w delay)
  | .cancelDelayedWork w => some (g, .delTest (.cancel w))
  | .expire h =>
      match ddeKitTimerExpire g.kit h with
      | none => none
      | some (.plain _, kit) => some ({ g with kit := kit }, .idle)
      | some (.dwork w, kit) => some ({ g with kit := kit }, .timerFn w)
  | .runWork =>
      match g.worklist with
      | [] => none
      | w :: rest => some ({ g with worklist := rest }, .workRelease w)
  | .tick => some ({ g with jiffies := g.jiffies + 1 }, .idle)

/-- `del_timer` returns `r` to its caller. -/
def delReturn (g : Shared) (r : Option Nat) : DelOp → Shared × Pc
  | .del _ => (g.report r, .idle)
  | .mod n expires => (g, .setExpires (.plain n) expires r)
  | .cancel w => (g.report r, if r.isSome then .cancelRelease w else .idle)

/-- One access of a thread. -/
def step (g : Shared) (pc : Pc) (a : Choice) : Option (Shared × Pc) :=
  match pc with
  | .idle => issue g a
  | .delTest op =>
      some (if (g.timers op.id).ddeKitTimer.isSome then (g, .delPending op)
        else delReturn g none op)
  | .delPending op =>
      some (g, .delDel op ((g.timers op.id).ddeKitTimer.filter (ddeKitTimerPending g.kit)))
  | .delDel op r =>
      match (g.timers op.id).ddeKitTimer with
      | none => some (g, .delClear op r)
      | some h => some ({ g with kit := ddeKitTimerDel g.kit h }, .delClear op r)
  | .delClear op r => some (delReturn (g.setHandle op.id none) r op)
  | .setExpires id expires r => some (g.setExpires id expires, .addArm id r)
  | .addArm id r =>
      -- the new timer may expire before its handle is stored
      some ({ g with kit := ddeKitTimerAdd g.kit id (g.timers id).expires },
        .addStore id g.kit.length r)
  | .addStore id h r => some ((g.setHandle id (some h)).report r, .idle)
  | .queueTest w =>
      if g.pending w then some (g, .idle) else some (g.setPending w true, .queueCheck w)
  | .queueCheck w => some (g, if w ∈ g.worklist then .bug else .queueAdd w)
  | .queueAdd w => some ({ g with worklist := g.worklist ++ [w] }, .idle)
  | .delayTest w delay =>
      if g.pending w then some (g, .idle)
      else some (g.setPending w true, .delayCheckTimer w delay)
  | .delayCheckTimer w delay =>
      some (g, if g.timerPending (.dwork w) then .bug else .delayCheckList w delay)
  | .delayCheckList w delay =>
      some (g, if w ∈ g.worklist then .bug
        else .setExpires (.dwork w) (g.jiffies + delay) none)
  | .timerFn w => some ({ g with worklist := g.worklist ++ [w] }, .idle)
  | .workRelease w =>
      if g.noAutorel w then some (g, .workFunc w) else some (g.setPending w false, .idle)
  | .workFunc w =>
      match a with
      | .release => some (g.setPending w false, .idle)
      | _ => some (g, .idle)
  | .cancelRelease w => some (g.setPending w false, .idle)
  | .bug => none

/-- Nothing armed, nothing queued. -/
def prog : Prog Shared Pc Choice where
  init g := g.kit = [] ∧ (∀ id, (g.timers id).ddeKitTimer = none) ∧ (∀ w, g.pending w = false) ∧
    g.worklist = [] ∧ g.reported = []
  start pc := pc = .idle
  step _ := step

def machine : Machine (Conf Shared Pc) (Nat × Choice) := prog.machine

/-- No arming is both run and reported as deactivated, and no cancel is about to
release a work item that is on the work list. -/
structure ResolvedOnce (c : Conf Shared Pc) : Prop where
  arming : ∀ h, Settled c.shared.kit h .fired → h ∉ c.shared.reported
  cancel : ∀ (i w : Nat), c.pool[i]? = some (.cancelRelease w) → w ∉ c.shared.worklist

/-- The condition: when `del_timer` deletes, the arming it has found pending is still
pending and still the timer's. -/
def stillPending (c : Conf Shared Pc) (ia : Nat × Choice) : Bool :=
  match c.pool[ia.1]? with
  | some (.delDel op (some h)) =>
      (c.shared.timers op.id).ddeKitTimer == some h && ddeKitTimerPending c.shared.kit h
  | _ => true

/-! ## What one access changes -/

section
variable {g g' : Shared} {pc pc' : Pc} {a : Choice}

/-- The kit changes by a new timer, by an expiry or by a deletion. -/
theorem step_kit (hs : step g pc a = some (g', pc')) :
    g'.kit = g.kit ∨ (∃ id expires, g'.kit = ddeKitTimerAdd g.kit id expires) ∨
      ∃ h st, st ≠ .pending ∧ g'.kit = settle g.kit h st := by
  cases pc with
  | idle =>
      cases a with
      | expire h =>
          simp only [step, issue] at hs
          split at hs
          · cases hs
          all_goals
            rename_i he
            cases hs
            exact .inr (.inr ⟨h, .fired, nofun, (ddeKitTimerExpire_some he).2⟩)
      | _ =>
          simp only [step, issue] at hs
          (try split at hs) <;> cases hs <;> exact .inl rfl
  | addArm id r =>
      cases hs
      exact .inr (.inl ⟨_, _, rfl⟩)
  | delDel op r =>
      simp only [step] at hs
      split at hs <;> cases hs
      · exact .inl rfl
      · exact .inr (.inr ⟨_, .deleted, nofun, rfl⟩)
  | delTest op =>
      simp only [step] at hs
      split at hs
      · cases hs; exact .inl rfl
      · cases op <;> cases hs <;> exact .inl rfl
  | delClear op r =>
      cases op <;> cases hs <;> exact .inl rfl
  | _ =>
      simp only [step] at hs
      (try split at hs) <;> cases hs <;> exact .inl rfl

/-- A deleted timer stays deleted. -/
theorem step_settled {h : Nat} (hs : step g pc a = some (g', pc'))
    (hd : Settled g.kit h .deleted) : Settled g'.kit h .deleted := by
  rcases step_kit hs with heq | ⟨id, expires, heq⟩ | ⟨h', st, _, heq⟩
  · rw [heq]
    exact hd
  · rw [heq]
    exact hd.add id expires
  · rw [heq]
    exact hd.settle (by decide) h' st

theorem step_owned {h : Nat} {id : TimerId} (hs : step g pc a = some (g', pc'))
    (ho : Owned g.kit h id) : Owned g'.kit h id := by
  rcases step_kit hs with heq | ⟨id', expires, heq⟩ | ⟨h', st, _, heq⟩
  · rw [heq]
    exact ho
  · rw [heq]
    exact ho.add id' expires
  · rw [heq]
    exact ho.settle h' st

/-- The arming a call has decided to report. -/
def Pc.reports : Pc → Option Nat
  | .delClear _ r | .setExpires _ _ r | .addArm _ r | .addStore _ _ r => r
  | _ => none

/-- A call decides to report an arming when it deletes. -/
theorem step_reports {h : Nat} (hs : step g pc a = some (g', pc'))
    (hr : pc'.reports = some h) : pc.reports = some h ∨ ∃ op, pc = .delDel op (some h) := by
  cases pc with
  | idle =>
      cases a <;> simp only [step, issue] at hs <;> (try split at hs) <;> cases hs <;> cases hr
  | delTest op =>
      simp only [step] at hs
      split at hs
      · cases hs; cases hr
      · cases op <;> cases hs <;> cases hr
  | delDel op r =>
      simp only [step] at hs
      split at hs <;> cases hs <;> exact .inr ⟨op, by rw [show r = some h from hr]⟩
  | delClear op r =>
      cases op with
      | del n => cases hs; cases hr
      | mod n expires => cases hs; exact .inl hr
      | cancel w =>
          simp only [step, delReturn] at hs
          split at hs <;> cases hs <;> cases hr
  | setExpires id expires r => cases hs; exact .inl hr
  | addArm id r => cases hs; exact .inl hr
  | _ =>
      simp only [step] at hs
      (try split at hs) <;> cases hs <;> cases hr

/-- A report is made by a call that has decided to make it. -/
theorem step_reported {h : Nat} (hs : step g pc a = some (g', pc')) (hr : h ∈ g'.reported) :
    h ∈ g.reported ∨ pc.reports = some h := by
  have hreport : ∀ (g : Shared) (r : Option Nat), h ∈ (g.report r).reported →
      h ∈ g.reported ∨ r = some h := by
    intro g r hmem
    rcases List.mem_append.mp hmem with hmem | hmem
    · exact .inr (Option.mem_toList.mp hmem)
    · exact .inl hmem
  cases pc with
  | idle =>
      cases a <;> simp only [step, issue] at hs <;> (try split at hs) <;> cases hs <;> exact .inl hr
  | delTest op =>
      simp only [step] at hs
      split at hs
      · cases hs; exact .inl hr
      · cases op <;> cases hs <;> exact .inl hr
  | delDel op r =>
      simp only [step] at hs
      split at hs <;> cases hs <;> exact .inl hr
  | delClear op r =>
      cases op with
      | del n => cases hs; exact hreport _ r hr
      | mod n expires => cases hs; exact .inl hr
      | cancel w => cases hs; exact hreport _ r hr
  | addStore id h' r => cases hs; exact hreport _ r hr
  | _ =>
      simp only [step] at hs
      (try split at hs) <;> cases hs <;> exact .inl hr

theorem setHandle_handle (g : Shared) (id id' : TimerId) (x : Option Nat) :
    ((g.setHandle id' x).timers id).ddeKitTimer =
      if id = id' then x else (g.timers id).ddeKitTimer := by
  by_cases hid : id = id'
  · subst hid
    simp [Shared.setHandle]
  · simp [Shared.setHandle, hid]

theorem setExpires_handle (g : Shared) (id id' : TimerId) (expires : Word) :
    ((g.setExpires id' expires).timers id).ddeKitTimer = (g.timers id).ddeKitTimer := by
  by_cases hid : id = id'
  · subst hid
    simp [Shared.setExpires]
  · simp [Shared.setExpires, hid]

theorem delReturn_timers (g : Shared) (r : Option Nat) (op : DelOp) :
    (delReturn g r op).1.timers = g.timers := by
  cases op <;> rfl

/-- A timer's handle is the one its `add_timer` got. -/
theorem step_handle {h : Nat} {id : TimerId} (hs : step g pc a = some (g', pc'))
    (hh : (g'.timers id).ddeKitTimer = some h) :
    (g.timers id).ddeKitTimer = some h ∨ ∃ r, pc = .addStore id h r := by
  cases pc with
  | idle =>
      cases a <;> simp only [step, issue] at hs <;> (try split at hs) <;> cases hs <;> exact .inl hh
  | delTest op =>
      simp only [step] at hs
      split at hs
      · cases hs; exact .inl hh
      · cases op <;> cases hs <;> exact .inl hh
  | delDel op r =>
      simp only [step] at hs
      split at hs <;> cases hs <;> exact .inl hh
  | delClear op r =>
      simp only [step, Option.some.injEq] at hs
      have htimers := delReturn_timers (g.setHandle op.id none) r op
      rw [hs] at htimers
      rw [htimers, setHandle_handle] at hh
      split at hh
      · cases hh
      · exact .inl hh
  | setExpires id' expires r =>
      cases hs
      rw [setExpires_handle] at hh
      exact .inl hh
  | addStore id' h' r =>
      cases hs
      change ((g.setHandle id' (some h')).timers id).ddeKitTimer = some h at hh
      rw [setHandle_handle] at hh
      split at hh
      · rename_i hid
        cases hh
        exact .inr ⟨r, by rw [hid]⟩
      · exact .inl hh
  | _ =>
      simp only [step] at hs
      (try split at hs) <;> cases hs <;> exact .inl hh

/-- `add_timer` has just made the timer whose handle it is going to store. -/
theorem step_to_addStore {h : Nat} {id : TimerId} {r : Option Nat}
    (hs : step g pc a = some (g', .addStore id h r)) : Owned g'.kit h id := by
  cases pc with
  | idle =>
      cases a <;> simp only [step, issue] at hs <;> (try split at hs) <;> cases hs
  | delTest op =>
      simp only [step] at hs
      split at hs
      · cases hs
      · cases op <;> cases hs
  | delClear op r =>
      cases op with
      | cancel w =>
          simp only [step, delReturn] at hs
          split at hs <;> cases hs
      | _ => cases hs
  | addArm id r =>
      cases hs
      exact owned_add _ _ _
  | _ =>
      simp only [step] at hs
      (try split at hs) <;> cases hs

end

/-! ## Reports and owners, in whole runs -/

section
variable {c : Conf Shared Pc}

/-- The handle of a timer is that of one of its own armings. -/
theorem handle_owned {ok : Conf Shared Pc → Nat × Choice → Prop} (h : machine.Reach ok c) :
    ∀ (id : TimerId) (n : Nat), (c.shared.timers id).ddeKitTimer = some n →
      Owned c.shared.kit n id := by
  refine Prog.always (P := prog)
    (fun g => ∀ id n, (g.timers id).ddeKitTimer = some n → Owned g.kit n id) ?_ ?_ h
  · intro c hc id n hn
    rw [hc.1.2.1 id] at hn
    cases hn
  · intro c i a pc g pc' hreach _ hp hs hI id n hn
    change step c.shared pc a = some (g, pc') at hs
    rcases step_handle hs hn with hn | ⟨r, rfl⟩
    · exact step_owned hs (hI id n hn)
    · have hstore := Prog.thread (P := prog)
        (fun _ g pc => ∀ id n r, pc = .addStore id n r → Owned g.kit n id)
        (fun c i pc hc hp id n r hpc => by
          rw [hc.2 pc (List.mem_of_getElem? hp)] at hpc
          cases hpc)
        (fun c i a pc g pc' _ _ _ hs _ id n r hpc => step_to_addStore (hpc ▸ hs))
        (fun c i j a pc q g q' _ _ _ _ _ hs hR id n r hpc => step_owned hs (hR id n r hpc))
        hreach i _ hp id n r rfl
      exact step_owned hs hstore

/-- What a call is going to report has been deleted. -/
theorem reports_deleted (h : machine.Reach (stillPending · ·) c) :
    ∀ (i : Nat) (pc : Pc), c.pool[i]? = some pc →
      ∀ n, pc.reports = some n → Settled c.shared.kit n .deleted := by
  refine Prog.thread (P := prog)
    (fun _ g pc => ∀ n, pc.reports = some n → Settled g.kit n .deleted) ?_ ?_ ?_ h
  · intro c i pc hc hp n hn
    rw [hc.2 pc (List.mem_of_getElem? hp)] at hn
    cases hn
  · intro c i a pc g pc' _ hok hp hs hR n hn
    rcases step_reports hs hn with hn | ⟨op, rfl⟩
    · exact step_settled hs (hR n hn)
    · -- the deletion itself: the arming is still pending, so it is the one deleted
      simp only [stillPending, hp, Bool.and_eq_true, beq_iff_eq] at hok
      simp only [prog, step, hok.1] at hs
      cases hs
      exact settle_pending .deleted hok.2
  · intro c i j a pc q g q' _ _ _ _ _ hs hR n hn
    exact step_settled hs (hR n hn)

theorem reported_deleted (h : machine.Reach (stillPending · ·) c) :
    ∀ n ∈ c.shared.reported, Settled c.shared.kit n .deleted := by
  refine Prog.always (P := prog) (fun g => ∀ n ∈ g.reported, Settled g.kit n .deleted) ?_ ?_ h
  · intro c hc n hn
    rw [hc.1.2.2.2.2] at hn
    cases hn
  · intro c i a pc g pc' hreach _ hp hs hI n hn
    rcases step_reported hs hn with hn | hn
    · exact step_settled hs (hI n hn)
    · exact step_settled hs (reports_deleted hreach i pc hp n hn)

/-! ## Tokens of a delayed work -/

/-- The pending bit of a delayed work stands for one token: held by a thread that
queues or arms, by a pending timer, by the work list, by a worker, or by a cancel
that has deleted the timer. -/
def token (w : Nat) : Pc → Nat
  | .queueCheck v | .queueAdd v | .delayCheckTimer v _ | .delayCheckList v _ | .timerFn v
  | .workRelease v | .workFunc v | .cancelRelease v | .delClear (.cancel v) (some _) =>
      if v = w then 1 else 0
  | .setExpires id _ _ | .addArm id _ => if id = .dwork w then 1 else 0
  | _ => 0

/-- There are not more tokens than the pending bit allows; `n` of them are held by
threads. -/
def Covers (w : Nat) (g : Shared) (n : Nat) : Prop :=
  armedTotal w g.kit + g.worklist.count w + n ≤ (g.pending w).toNat

/-- Steps that leave the bit alone and make no token. -/
theorem Covers.step {w : Nat} {g g' : Shared} {n m : Nat} (h : Covers w g n)
    (hp : g'.pending w = g.pending w)
    (hle : armedTotal w g'.kit + g'.worklist.count w + m ≤
      armedTotal w g.kit + g.worklist.count w + n) : Covers w g' m := by
  rw [Covers, hp]
  exact Nat.le_trans hle h

/-- Setting the bit, which was clear, makes one token. -/
theorem Covers.acquire {v w : Nat} {g : Shared} {r : Nat} (hfree : g.pending v = false)
    (h : Covers w g r) : Covers w (g.setPending v true) (r + if v = w then 1 else 0) := by
  by_cases hvw : v = w
  · subst hvw
    rw [Covers, hfree] at h
    change _ ≤ 0 at h
    show _ ≤ (Function.update g.pending v true v).toNat
    rw [Function.update_self, if_pos rfl]
    change armedTotal v g.kit + g.worklist.count v + (r + 1) ≤ 1
    omega
  · rw [if_neg hvw]
    exact h.step (Function.update_of_ne (Ne.symm hvw) _ _) (Nat.le_refl _)

/-- Whoever clears the bit gives up the one token there is. -/
theorem Covers.release {v w : Nat} {g : Shared} {r : Nat}
    (h : Covers w g (r + if v = w then 1 else 0)) : Covers w (g.setPending v false) r := by
  by_cases hvw : v = w
  · subst hvw
    rw [Covers, if_pos rfl] at h
    have hle := Bool.toNat_le (g.pending v)
    show _ ≤ (Function.update g.pending v false v).toNat
    rw [Function.update_self]
    change armedTotal v g.kit + g.worklist.count v + r ≤ 0
    omega
  · rw [if_neg hvw] at h
    exact h.step (Function.update_of_ne (Ne.symm hvw) _ _) (Nat.le_refl _)

/-- A timer of the delayed work fires or is deleted, and its token goes to the
thread that did it. -/
theorem Covers.settle {v w n : Nat} {expires : Word} {g : Shared} {st : Status} {r : Nat}
    (hst : st ≠ .pending) (hk : g.kit[n]? = some ⟨.dwork v, expires, .pending⟩)
    (h : Covers w g r) :
    Covers w { g with kit := Timer.settle g.kit n st } (r + if v = w then 1 else 0) := by
  have hsettle := armedTotal_settle (w := w) hst hk
  simp only [TimerId.dwork.injEq] at hsettle
  refine h.step rfl ?_
  show armedTotal w (Timer.settle g.kit n st) + g.worklist.count w + _ ≤ _
  omega

/-- Any other timer may be settled without ado. -/
theorem Covers.drop {w : Nat} {g : Shared} {st : Status} {r : Nat} (n : Nat) (hst : st ≠ .pending)
    (h : Covers w g r) : Covers w { g with kit := Timer.settle g.kit n st } r := by
  have hle := armedTotal_settle_le w g.kit n hst
  refine h.step rfl ?_
  show armedTotal w (Timer.settle g.kit n st) + g.worklist.count w + r ≤ _
  omega

/-- An item comes to the work list, or leaves it, with its token. -/
theorem Covers.enqueue {v w : Nat} {g : Shared} {r : Nat}
    (h : Covers w g (r + if v = w then 1 else 0)) :
    Covers w { g with worklist := g.worklist ++ [v] } r := by
  refine h.step rfl ?_
  show armedTotal w g.kit + (g.worklist ++ [v]).count w + r ≤ _
  rw [List.count_append, List.count_singleton]
  simp only [beq_iff_eq]
  omega

theorem Covers.dequeue {v w : Nat} {g : Shared} {rest : List Nat} {r : Nat}
    (hl : g.worklist = v :: rest) (h : Covers w g r) :
    Covers w { g with worklist := rest } (r + if v = w then 1 else 0) := by
  refine h.step rfl ?_
  show armedTotal w g.kit + rest.count w + _ ≤ _
  rw [hl, List.count_cons]
  simp only [beq_iff_eq]
  omega

theorem Covers.arm {w : Nat} {id : TimerId} {expires : Word} {g : Shared} {r : Nat}
    (h : Covers w g (r + if id = .dwork w then 1 else 0)) :
    Covers w { g with kit := ddeKitTimerAdd g.kit id expires } r := by
  refine h.step rfl ?_
  show armedTotal w (ddeKitTimerAdd g.kit id expires) + g.worklist.count w + r ≤ _
  rw [armedTotal_add]
  omega

/-- One access of any thread makes no token without setting the bit, and clears the
bit only with the token in its hands. -/
theorem step_covers {w : Nat} {g g' : Shared} {pc pc' : Pc} {a : Choice} {r : Nat}
    (hdel : ∀ op n, pc = .delDel op (some n) → (g.timers op.id).ddeKitTimer = some n ∧
      ∃ expires, g.kit[n]? = some ⟨op.id, expires, .pending⟩)
    (hs : step g pc a = some (g', pc')) (h : Covers w g (r + token w pc)) :
    Covers w g' (r + token w pc') := by
  cases pc with
  | idle =>
      cases a with
      | expire n =>
          simp only [step, issue] at hs
          split at hs
          · cases hs
          · rename_i he
            cases hs
            obtain ⟨_, rfl⟩ := ddeKitTimerExpire_some he
            exact Covers.drop n (by decide) h
          · rename_i v kit he
            cases hs
            obtain ⟨⟨expires, hk⟩, rfl⟩ := ddeKitTimerExpire_some he
            exact Covers.settle (by decide) hk h
      | runWork =>
          simp only [step, issue] at hs
          split at hs <;> cases hs
          rename_i v rest hl
          exact Covers.dequeue hl h
      | queueDelayedWork v delay =>
          cases hs
          split <;> exact h.step rfl (Nat.le_refl _)
      | _ =>
          cases hs <;> exact h.step rfl (Nat.le_refl _)
  | delTest op =>
      simp only [step] at hs
      split at hs
      · cases hs; exact h.step rfl (Nat.le_refl _)
      · cases op <;> cases hs <;> exact h.step rfl (Nat.le_refl _)
  | delDel op r₀ =>
      cases r₀ with
      | none =>
          have hzero : token w (.delClear op none) = 0 := by cases op <;> rfl
          simp only [step] at hs
          split at hs <;> cases hs <;> rw [hzero]
          · exact h
          · rename_i n _
            exact Covers.drop n (by decide) h
      | some n =>
          obtain ⟨hfield, expires, hk⟩ := hdel op n rfl
          simp only [step, hfield] at hs
          cases hs
          cases op with
          | cancel v => exact Covers.settle (by decide) hk h
          | del m => exact Covers.drop n (by decide) h
          | mod m expires => exact Covers.drop n (by decide) h
  | delClear op r₀ =>
      cases op <;> cases r₀ <;> cases hs <;> exact h.step rfl (Nat.le_refl _)
  | addArm id r₀ =>
      cases hs
      exact Covers.arm h
  | queueTest v | delayTest v delay =>
      simp only [step] at hs
      split at hs <;> cases hs
      · exact h.step rfl (Nat.le_refl _)
      · rename_i hfree
        exact Covers.acquire (by simpa using hfree) h
  | queueAdd v | timerFn v =>
      cases hs
      exact Covers.enqueue h
  | queueCheck v | delayCheckTimer v delay | delayCheckList v delay =>
      cases hs
      split <;> exact h.step rfl (by simp [token])
  | workRelease v =>
      simp only [step] at hs
      split at hs <;> cases hs
      · exact h.step rfl (Nat.le_refl _)
      · exact Covers.release h
  | workFunc v =>
      simp only [step] at hs
      split at hs <;> cases hs
      · exact Covers.release h
      · exact h.step rfl (by simp [token])
  | cancelRelease v =>
      cases hs
      exact Covers.release h
  | _ =>
      simp only [step] at hs
      cases hs <;> exact h.step rfl (Nat.le_refl _)

/-- In every run that meets the condition, the pending bit covers all tokens. -/
theorem covers (h : machine.Reach (stillPending · ·) c) (w : Nat) :
    Covers w c.shared (total (token w) c.pool) := by
  refine Prog.balance (P := prog) (token w) (Covers w) ?_ ?_ h
  · intro c hc
    have hzero : total (token w) c.pool = 0 :=
      total_eq_zero (fun pc hpc => by rw [hc.2 pc hpc]; rfl)
    rw [Covers, hzero, hc.1.1, hc.1.2.2.2.1]
    exact Nat.zero_le _
  · intro c i a pc g pc' r hreach hok hp _ hs hr
    refine step_covers ?_ hs hr
    rintro op n rfl
    simp only [stillPending, hp, Bool.and_eq_true, beq_iff_eq] at hok
    obtain ⟨owner, expires, hk⟩ := ddeKitTimerPending_iff.mp hok.2
    have howner := handle_owned hreach op.id n hok.1
    rw [Owned, hk] at howner
    obtain rfl : owner = op.id := Option.some.inj howner
    exact ⟨hok.1, expires, hk⟩

/-- **Every arming is resolved once, conditionally.**  In every run in which an
arming that `del_timer` has found pending is still pending, and still the timer's,
when it is deleted, no arming is both run and reported as deactivated, and
`cancel_delayed_work` releases no work item that is on the work list. -/
theorem timer_resolved_once (h : machine.Reach (stillPending · ·) c) : ResolvedOnce c := by
  constructor
  · intro n hfired hreported
    have hdeleted := reported_deleted h n hreported
    rw [Settled, hfired] at hdeleted
    cases hdeleted
  · intro i w hp hmem
    have hone : token w (.cancelRelease w) = 1 := if_pos rfl
    have hcount := List.count_pos_iff.mpr hmem
    have hle := le_total (token w) hp
    have hcov := covers h w
    have hbit := Bool.toNat_le (c.shared.pending w)
    rw [Covers] at hcov
    omega

/-- The initial state. -/
def nothingArmed : Shared where
  kit := []
  timers _ := ⟨none, 0⟩
  jiffies := 0
  pending _ := false
  noAutorel _ := false
  worklist := []
  reported := []

/-- Such a run: a delayed work is queued and cancelled before its timer expires. -/
theorem timer_resolved_once_cancelled :
    ∃ g, ResolvedOnce ⟨g, [.cancelRelease 3, .idle]⟩ ∧ g.reported = [0] := by
  have hinit : machine.Reach (stillPending · ·) ⟨nothingArmed, [.idle, .idle]⟩ :=
    .init ⟨⟨rfl, fun _ => rfl, fun _ => rfl, rfl, rfl⟩, by simp [prog]⟩
  exact ⟨_, timer_resolved_once (hinit.runOk
    (List.flatten [(1, .queueDelayedWork 3 10) :: List.replicate 6 (1, .go),
      (0, .cancelDelayedWork 3) :: List.replicate 4 (0, .go)]) rfl), rfl⟩

/-- **The expiry race.**  Thread 1 arms delayed work 3; thread 0 cancels it and has
found the timer pending when thread 2, the timer thread, runs it and puts the item
on the work list.  The cancel goes on: the deletion does nothing, the arming is
reported as deactivated although it was run, and the pending bit of the queued item
is about to be cleared. -/
theorem del_timer_races_expiry :
    ∃ c, machine.run ⟨nothingArmed, [.idle, .idle, .idle]⟩
        ((1, .queueDelayedWork 3 10) :: List.replicate 6 (1, .go) ++
         [(0, .cancelDelayedWork 3), (0, .go), (0, .go), (2, .expire 0), (2, .go),
          (0, .go), (0, .go)]) = some c ∧
      Settled c.shared.kit 0 .fired ∧ 0 ∈ c.shared.reported ∧
      c.pool[0]? = some (.cancelRelease 3) ∧ c.shared.worklist = [3] ∧ ¬ ResolvedOnce c := by
  refine ⟨_, rfl, rfl, List.mem_cons_self, rfl, rfl, fun h => ?_⟩
  exact h.arming 0 rfl List.mem_cons_self

end

end LinuxDrivers.Kernel.Timer
