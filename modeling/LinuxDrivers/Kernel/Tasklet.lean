/-
# `LinuxDrivers.Kernel.Tasklet` — the life cycle of a tasklet

A tasklet has two bits and a counter, and no lock of its own.  Who may do what
with it follows from who has set a bit:

    SCHED   set by a scheduling, it stands for one place of the tasklet: in the hands
            of the scheduler, on one of the two lists, on a list an executor has
            detached, or in the hands of an executor; a kill sets it to keep
            schedulers out and stands for no place
    RUN     set by the one executor that has the tasklet locked
    count   the disables that are not undone, and those still waiting for RUN

So the bits count places (`Fits`), for every tasklet, at every moment, whatever the
interleaving.  What the interface promises of scheduling and running follows: the
tasklet is in one place at most, its function runs in one thread at most and once
per scheduling at most, and the `BUG()` of the action functions is not reached.

The count is a word that anybody may move either way.  It counts the disables
(`Disables`) only as long as every enable undoes a disable and there are fewer than
2^32 of them; then the function does not run while the tasklet is disabled.  An
enable that comes too early lets it run.

**Proved here.**

    the account of one tasklet is kept by every access of every thread   (`exec_fits`)
    the life cycle, in every reachable state; and not in the function
    while disabled, if enables undo disables                             (`tasklet_lifecycle`)
    a run in which an enable comes before its disable                    (`enabled_too_early`)
    a kill returns with the tasklet out of use                           (`tasklet_kill_quiet`)
-/
import LinuxDrivers.Kernel.Softirq

namespace LinuxDrivers.Kernel.Softirq

open LinuxDrivers.Lib

/-! ## Where a tasklet can be -/

/-- The tasklet is on a list this frame has detached from its head, or has been
taken from that list and not yet run or put back. -/
@[simp] def detached (t : Nat) : Frame → Nat
  | .actionNext _ rest | .actionFunc _ _ rest | .actionUnlock _ _ rest
  | .requeueUnlock _ rest => rest.count t
  | .actionCount _ s rest | .actionClear _ s rest | .bug _ s rest | .actionBackOff _ s rest
  | .requeue _ s rest => (s :: rest).count t
  | _ => 0

/-- The frame has made a successful scheduling and not yet queued the tasklet. -/
@[simp] def queueing (t : Nat) : Frame → Nat
  | .enqueue _ s => if s = t then 1 else 0
  | _ => 0

/-- The frame is a kill that has the SCHED bit. -/
@[simp] def killing (t : Nat) : Frame → Nat
  | .killWait s | .killClear s => if s = t then 1 else 0
  | _ => 0

/-- The frame has the RUN bit and is not between its test of the count and the end of
the function. -/
@[simp] def locking (t : Nat) : Frame → Nat
  | .actionCount _ s _ | .actionUnlock _ s _ | .actionBackOff _ s _ => if s = t then 1 else 0
  | _ => 0

/-- The frame has the RUN bit and has found the count at zero. -/
@[simp] def running (t : Nat) : Frame → Nat
  | .actionClear _ s _ | .bug _ s _ | .actionFunc _ s _ => if s = t then 1 else 0
  | _ => 0

inductive Place where
  | detached
  | queueing
  | killing
  | locking
  | running

@[simp] def places (t : Nat) (f : Frame) : Place → Nat
  | .detached => detached t f
  | .queueing => queueing t f
  | .killing => killing t f
  | .locking => locking t f
  | .running => running t f

/-- A call begins with nothing in its hands. -/
@[simp] theorem places_frame (t : Nat) (c : Call) (k : Place) : places t c.frame k = 0 := by
  cases c <;> cases k <;> rfl

@[simp] theorem places_softirqVec (t h : Nat) (k : Place) : places t (softirqVec h) k = 0 :=
  weight_softirqVec (w := fun f => places t f k) (fun _ => by cases k <;> rfl)
    (fun _ => by cases k <;> rfl) h

/-- How often the tasklet is on the two lists. -/
def Shared.onLists (g : Shared) (t : Nat) : Nat := (g.list .low).count t + (g.list .hi).count t

/-- The account of one tasklet, `n` counting the frames it is in the hands of. -/
structure Fits (t : Nat) (g : Shared) (n : Place → Nat) : Prop where
  sched : g.onLists t + n .detached + n .queueing + n .killing = (g.tasklets t).sched.toNat
  run : n .locking + n .running = (g.tasklets t).run.toNat
  hist : (g.hist t).scheduled = (g.hist t).ran + g.onLists t + n .detached + n .queueing

/-- Steps that do nothing to the tasklet. -/
theorem Fits.step {t : Nat} {g g' : Shared} {n m : Place → Nat} (h : Fits t g n)
    (hl : g'.onLists t = g.onLists t) (ht : g'.tasklets t = g.tasklets t)
    (hh : g'.hist t = g.hist t) (hm : ∀ k, m k = n k) : Fits t g' m := by
  obtain rfl : m = n := funext hm
  exact ⟨by rw [hl, ht]; exact h.sched, by rw [ht]; exact h.run, by rw [hl, hh]; exact h.hist⟩

/-- The account is not about the count, nor about the disables. -/
theorem Fits.setCount {t : Nat} {g : Shared} {n : Place → Nat} (h : Fits t g n) (x : Word) :
    Fits t (g.setTasklet t { g.tasklets t with count := x }) n := by
  obtain ⟨hsched, hrun, hhist⟩ := h
  refine ⟨?_, ?_, hhist⟩
  · rw [setTasklet_same]
    exact hsched
  · rw [setTasklet_same]
    exact hrun

theorem Fits.setDisabled {t : Nat} {g : Shared} {n : Place → Nat} (h : Fits t g n) (d : Nat) :
    Fits t (g.setHist t { g.hist t with disabled := d }) n := by
  obtain ⟨hsched, hrun, hhist⟩ := h
  refine ⟨hsched, hrun, ?_⟩
  rw [setHist_same]
  exact hhist

theorem onLists_push (g : Shared) (v : Vec) (s t : Nat) :
    (g.setList v (s :: g.list v)).onLists t = g.onLists t + if s = t then 1 else 0 := by
  cases v <;> simp [Shared.onLists, Shared.setList, List.count_cons] <;> omega

theorem onLists_take (g : Shared) (v : Vec) (t : Nat) :
    (g.setList v []).onLists t + (g.list v).count t = g.onLists t := by
  cases v
  · simp [Shared.onLists, Shared.setList]
    omega
  · simp [Shared.onLists, Shared.setList]

/-! ## What each access does to the account of its own tasklet -/

section
variable {t : Nat} {g : Shared} {v : Vec} {rest : List Nat} {r : Place → Nat}

/-- A successful scheduling makes a place for the tasklet. -/
theorem Fits.schedule (hfree : (g.tasklets t).sched = false)
    (h : Fits t g (r + places t (.scheduleTest v t))) :
    Fits t ((g.setTasklet t { g.tasklets t with sched := true }).setHist t
      { g.hist t with scheduled := (g.hist t).scheduled + 1 }) (r + places t (.enqueue v t)) := by
  obtain ⟨hsched, hrun, hhist⟩ := h
  rw [hfree] at hsched
  constructor <;> simp [Shared.onLists, Shared.setTasklet, Shared.setHist] at * <;> omega

/-- A push moves the tasklet from the hands of a frame to a list. -/
theorem Fits.push {f : Frame} {new : List Frame} {s : Nat}
    (hplace : ∀ k, k = .detached ∨ k = .queueing ∨ total (places t) new k = places t f k)
    (hmove : places t f .detached + places t f .queueing =
      total (places t) new .detached + total (places t) new .queueing + if s = t then 1 else 0)
    (h : Fits t g (r + places t f)) :
    Fits t (g.setList v (s :: g.list v)) (r + total (places t) new) := by
  obtain ⟨hsched, hrun, hhist⟩ := h
  have hk := (hplace .killing).resolve_left nofun |>.resolve_left nofun
  have hl := (hplace .locking).resolve_left nofun |>.resolve_left nofun
  have hr := (hplace .running).resolve_left nofun |>.resolve_left nofun
  have hpush := onLists_push g v s t
  simp only [Pi.add_apply] at hsched hrun hhist
  constructor
  · rw [Pi.add_apply, Pi.add_apply, Pi.add_apply, hk]
    show _ = (g.tasklets t).sched.toNat
    omega
  · rw [Pi.add_apply, Pi.add_apply, hl, hr]
    exact hrun
  · rw [Pi.add_apply, Pi.add_apply]
    show (g.hist t).scheduled = (g.hist t).ran + _ + _ + _
    omega

/-- The executor detaches a list, with all its places. -/
theorem Fits.take (h : Fits t g (r + places t (.actionTake v))) :
    Fits t (g.setList v []) (r + places t (.actionNext v (g.list v))) := by
  obtain ⟨hsched, hrun, hhist⟩ := h
  have htake := onLists_take g v t
  constructor <;> simp at * <;> simp [Shared.setList] at * <;> omega

/-- A kill takes the SCHED bit without making a place. -/
theorem Fits.kill (hfree : (g.tasklets t).sched = false)
    (h : Fits t g (r + places t (.killTest t))) :
    Fits t (g.setTasklet t { g.tasklets t with sched := true }) (r + places t (.killWait t)) := by
  obtain ⟨hsched, hrun, hhist⟩ := h
  rw [hfree] at hsched
  constructor <;> simp [Shared.onLists, Shared.setTasklet] at * <;> omega

theorem Fits.killed (h : Fits t g (r + places t (.killClear t))) :
    Fits t (g.setTasklet t { g.tasklets t with sched := false }) r := by
  obtain ⟨hsched, hrun, hhist⟩ := h
  have hle := Bool.toNat_le (g.tasklets t).sched
  constructor <;> simp [Shared.onLists, Shared.setTasklet] at * <;> omega

theorem Fits.trylock (hfree : (g.tasklets t).run = false)
    (h : Fits t g (r + places t (.actionNext v (t :: rest)))) :
    Fits t (g.setTasklet t { g.tasklets t with run := true })
      (r + places t (.actionCount v t rest)) := by
  obtain ⟨hsched, hrun, hhist⟩ := h
  rw [hfree] at hrun
  constructor <;> simp [Shared.onLists, Shared.setTasklet] at * <;> omega

theorem Fits.enter (h : Fits t g (r + places t (.actionCount v t rest))) :
    Fits t g (r + places t (.actionClear v t rest)) := by
  obtain ⟨hsched, hrun, hhist⟩ := h
  constructor <;> simp at * <;> omega

/-- The executor gives up the place of the tasklet and runs its function. -/
theorem Fits.clear (h : Fits t g (r + places t (.actionClear v t rest))) :
    Fits t ((g.setTasklet t { g.tasklets t with sched := false }).setHist t
      { g.hist t with ran := (g.hist t).ran + 1 }) (r + places t (.actionFunc v t rest)) := by
  obtain ⟨hsched, hrun, hhist⟩ := h
  have hle := Bool.toNat_le (g.tasklets t).sched
  constructor <;> simp [Shared.onLists, Shared.setTasklet, Shared.setHist] at * <;> omega

/-- The function returns. -/
theorem Fits.leave (h : Fits t g (r + places t (.actionFunc v t rest))) :
    Fits t g (r + places t (.actionUnlock v t rest)) := by
  obtain ⟨hsched, hrun, hhist⟩ := h
  constructor <;> simp at * <;> omega

/-- A frame that has the RUN bit clears it and keeps its other places. -/
theorem Fits.unlock {f f' : Frame} (hf : places t f .locking = 1) (hf' : places t f' .locking = 0)
    (hplace : ∀ k, k = .locking ∨ places t f' k = places t f k)
    (h : Fits t g (r + places t f)) :
    Fits t (g.setTasklet t { g.tasklets t with run := false }) (r + places t f') := by
  obtain ⟨hsched, hrun, hhist⟩ := h
  have hle := Bool.toNat_le (g.tasklets t).run
  have hd := (hplace .detached).resolve_left nofun
  have hq := (hplace .queueing).resolve_left nofun
  have hk := (hplace .killing).resolve_left nofun
  have hr := (hplace .running).resolve_left nofun
  simp only [Pi.add_apply, hf] at hsched hrun hhist
  constructor
  all_goals
    simp only [Pi.add_apply, hf', hd, hq, hk, hr, setTasklet_same, Bool.toNat_false]
  · exact hsched
  · omega
  · exact hhist

end

/-! ## The account is kept -/

/-- The tasklet an access is about. -/
def Frame.subject : Frame → Option Nat
  | .scheduleTest _ s | .enqueue _ s | .disableInc s | .disableWait s | .enableDec s
  | .killTest s | .killYield s | .killWait s | .killClear s | .actionNext _ (s :: _)
  | .actionCount _ s _ | .actionClear _ s _ | .actionFunc _ s _ | .actionUnlock _ s _
  | .actionBackOff _ s _ | .requeue _ s _ => some s
  | _ => none

/-- Two tasklets do not share an account. -/
theorem exec_fits_other {t : Nat} {g g' : Shared} {f : Frame} {new : List Frame} {a : Choice}
    {r : Place → Nat} (hf : ∀ s, f.subject = some s → t ≠ s)
    (hs : exec g f a = some (g', new)) (h : Fits t g (r + places t f)) :
    Fits t g' (r + total (places t) new) := by
  cases f with
  | actionTake v =>
      simp only [exec] at hs
      split at hs <;> cases hs
      rw [total_singleton]
      exact h.take
  | actionNext v rest =>
      cases rest with
      | nil =>
          cases hs
          exact h.step rfl rfl rfl (fun k => by cases k <;> rfl)
      | cons s rest =>
          have hst := hf s rfl
          simp only [exec] at hs
          split at hs <;> cases hs <;> exact h.step rfl (by simp [Shared.setTasklet, hst]) rfl
            (fun k => by cases k <;> simp [Ne.symm hst])
  | enqueue v s | requeue v s =>
      have hst := hf s rfl
      have hpush := onLists_push g v s t
      rw [if_neg (Ne.symm hst)] at hpush
      simp only [exec] at hs
      split at hs <;> cases hs
      exact h.step hpush rfl rfl (fun k => by cases k <;> simp [Ne.symm hst])
  | scheduleTest v s | disableInc s | disableWait s | enableDec s | killTest s | killClear s
  | actionCount v s | actionClear v s | actionUnlock v s | actionBackOff v s =>
      have hst := hf s rfl
      simp only [exec] at hs
      (try split at hs) <;> cases hs <;> exact h.step rfl
        (by simp [Shared.setTasklet, Shared.setHist, hst])
        (by simp [Shared.setTasklet, Shared.setHist, hst])
        (fun k => by cases k <;> simp [Ne.symm hst])
  | actionFunc v s rest =>
      have hst := hf s rfl
      cases a with
      | go =>
          cases hs
          exact h.step rfl rfl rfl (fun k => by cases k <;> simp [Ne.symm hst])
      | call c =>
          cases hs
          exact h.step rfl rfl rfl (fun k => by simp [-places])
  | handler nr =>
      cases a with
      | go =>
          cases hs
          exact h.step rfl rfl rfl (fun k => by cases k <;> rfl)
      | call c =>
          cases hs
          exact h.step rfl rfl rfl (fun k => by simp [-places])
  | doBits retries p i =>
      simp only [exec] at hs
      split at hs
      · cases hs
        exact h.step rfl rfl rfl (fun k => by cases k <;> rfl)
      · split at hs <;> cases hs
        · refine h.step rfl rfl rfl (fun k => ?_)
          simp [-places]
          cases k <;> rfl
        · exact h.step rfl rfl rfl (fun k => by cases k <;> rfl)
  | _ =>
      simp only [exec] at hs
      (try split at hs) <;> cases hs <;> exact h.step rfl rfl rfl (fun k => by cases k <;> simp)

/-- One access of any frame keeps the account of every tasklet. -/
theorem exec_fits {t : Nat} {g g' : Shared} {f : Frame} {new : List Frame} {a : Choice}
    {r : Place → Nat} (hs : exec g f a = some (g', new)) (h : Fits t g (r + places t f)) :
    Fits t g' (r + total (places t) new) := by
  by_cases hf : f.subject = some t
  · cases f with
    | scheduleTest v s =>
        cases hf
        simp only [exec] at hs
        split at hs
        · cases hs
          exact h.step rfl rfl rfl (fun k => by cases k <;> rfl)
        · rename_i hfree
          cases hs
          rw [total_singleton]
          exact h.schedule (by simpa using hfree)
    | enqueue v s =>
        simp only [exec] at hs
        split at hs <;> cases hs
        exact h.push (fun k => by cases k <;> simp) (by simp)
    | requeue v s rest =>
        simp only [exec] at hs
        split at hs <;> cases hs
        have hpush : Fits t (g.setList v (s :: g.list v))
            (r + total (places t) [.raiseLoad v.nr, .requeueUnlock v rest]) :=
          h.push (fun k => by cases k <;> simp) (by simp [List.count_cons])
        exact hpush.step rfl rfl rfl (fun _ => rfl)
    | disableInc s =>
        cases hf
        cases hs
        exact (h.setCount _).step rfl rfl rfl (fun k => by cases k <;> rfl)
    | disableWait s =>
        cases hf
        simp only [exec] at hs
        split at hs <;> cases hs
        · exact h.step rfl rfl rfl (fun k => by cases k <;> rfl)
        · exact (h.setDisabled _).step rfl rfl rfl (fun k => by cases k <;> rfl)
    | enableDec s =>
        cases hf
        cases hs
        exact ((h.setCount _).setDisabled _).step rfl rfl rfl (fun k => by cases k <;> rfl)
    | killTest s =>
        cases hf
        simp only [exec] at hs
        split at hs
        · cases hs
          exact h.step rfl rfl rfl (fun k => by cases k <;> rfl)
        · rename_i hfree
          cases hs
          rw [total_singleton]
          exact h.kill (by simpa using hfree)
    | killYield s | killWait s =>
        simp only [exec] at hs
        split at hs <;> cases hs <;> exact h.step rfl rfl rfl (fun k => by cases k <;> rfl)
    | killClear s =>
        cases hf
        cases hs
        exact h.killed
    | actionNext v rest =>
        cases rest with
        | nil => cases hf
        | cons s rest =>
            cases hf
            simp only [exec] at hs
            split at hs
            · cases hs
              exact h.step rfl rfl rfl (fun k => by cases k <;> rfl)
            · rename_i hfree
              cases hs
              rw [total_singleton]
              exact h.trylock (by simpa using hfree)
    | actionCount v s rest =>
        cases hf
        simp only [exec] at hs
        split at hs
        · cases hs
          rw [total_singleton]
          exact h.enter
        · cases hs
          exact h.step rfl rfl rfl (fun k => by cases k <;> rfl)
    | actionClear v s rest =>
        cases hf
        simp only [exec] at hs
        split at hs
        · cases hs
          rw [total_singleton]
          exact h.clear
        · cases hs
          exact h.step rfl rfl rfl (fun k => by cases k <;> rfl)
    | actionFunc v s rest =>
        cases hf
        cases a with
        | go =>
            cases hs
            rw [total_singleton]
            exact h.leave
        | call c =>
            cases hs
            exact h.step rfl rfl rfl (fun k => by simp [-places])
    | actionUnlock v s rest =>
        cases hf
        cases hs
        rw [total_singleton]
        exact h.unlock (by simp) (by simp) (fun k => by cases k <;> simp)
    | actionBackOff v s rest =>
        cases hf
        cases hs
        rw [total_singleton]
        exact h.unlock (by simp) (by simp) (fun k => by cases k <;> simp)
    | _ => cases hf
  · exact exec_fits_other (fun s hsub hst => hf (hst ▸ hsub)) hs h

section
variable {c : Conf Shared (List Frame)}

/-- In every reachable state, every tasklet is accounted for. -/
theorem fits (h : machine.Reachable c) (t : Nat) : Fits t c.shared (census (places t) c) := by
  refine Code.balance (places t) (Fits t) ?_ ?_ ?_ h
  · intro c hc
    obtain ⟨hsched, hrun, _, hscheduled, hran⟩ := hc.1.2.2.2 t
    have hlists : c.shared.onLists t = 0 := by
      rw [Shared.onLists, (hc.1.2.2.1 .low).1, (hc.1.2.2.1 .hi).1]
      rfl
    have hzero : census (places t) c = 0 := by
      refine census_start ?_ hc
      funext k
      cases k <;> rfl
    rw [hzero]
    constructor <;> simp [hlists, hsched, hrun, hscheduled, hran]
  · intro g a f r hf hr
    cases a with
    | go => cases hf
    | call c =>
        cases hf
        exact hr.step rfl rfl rfl (fun k => by simp [-places])
  · intro c i a f rest g new r _ _ _ _ hs hr
    exact exec_fits hs hr

/-! ## The `BUG()` is not reached -/

def buggy : Frame → Nat
  | .bug _ _ _ => 1
  | _ => 0

theorem buggy_frame (c : Call) : buggy c.frame = 0 := by
  cases c <;> rfl

theorem buggy_softirqVec (h : Nat) : buggy (softirqVec h) = 0 :=
  weight_softirqVec (fun _ => rfl) (fun _ => rfl) h

/-- `BUG()` is reached only by an executor that finds the SCHED bit of a tasklet in
its hands clear. -/
theorem exec_buggy {g g' : Shared} {f : Frame} {new : List Frame} {a : Choice}
    (hf : ∀ v t rest, f = .actionClear v t rest → (g.tasklets t).sched = true)
    (hs : exec g f a = some (g', new)) (h : buggy f = 0) : total buggy new = 0 := by
  cases f with
  | actionClear v t rest =>
      simp only [exec, hf v t rest rfl, if_true] at hs
      cases hs
      rfl
  | actionNext v rest =>
      cases rest with
      | nil => cases hs; rfl
      | cons t rest =>
          simp only [exec] at hs
          split at hs <;> cases hs <;> rfl
  | actionFunc v t rest | handler nr =>
      cases a <;> cases hs
      · rfl
      · rw [total_cons, buggy_frame]
        rfl
  | doBits retries p i =>
      simp only [exec] at hs
      split at hs
      · cases hs; rfl
      · split at hs <;> cases hs
        · rw [total_cons, buggy_softirqVec]
          rfl
        · rfl
  | _ =>
      simp only [exec] at hs
      (try split at hs) <;> cases hs <;> rfl

/-- A tasklet in the hands of a frame has its SCHED bit set. -/
theorem sched_of_detached (h : machine.Reachable c) {i t : Nat} {stack : List Frame} {f : Frame}
    (hi : c.pool[i]? = some stack) (hf : f ∈ stack) (hd : 0 < detached t f) :
    (c.shared.tasklets t).sched = true := by
  have hsched := (fits h t).sched
  have hle : detached t f ≤ census (places t) c .detached := by
    rw [census_apply]
    exact le_census hi hf
  by_contra hclear
  rw [Bool.not_eq_true] at hclear
  rw [hclear] at hsched
  simp only [Bool.toNat_false] at hsched
  omega

theorem census_buggy (h : machine.Reachable c) : census buggy c = 0 := by
  refine Code.balance buggy (fun _ n => n = 0) ?_ ?_ ?_ h
  · intro c hc
    exact census_start rfl hc
  · intro g a f r hf hr
    cases a with
    | go => cases hf
    | call c =>
        cases hf
        rw [buggy_frame]
        exact hr
  · intro c i a f rest g new r hreach _ hp _ hs hr
    have hclear : ∀ v t rest', f = .actionClear v t rest' → (c.shared.tasklets t).sched = true := by
      intro v t rest' hf
      refine sched_of_detached hreach hp List.mem_cons_self ?_
      subst hf
      simp
    rw [exec_buggy hclear hs (by omega)]
    omega

/-! ## The life cycle -/

/-- The frame is inside the tasklet's function. -/
def inFunc (t : Nat) : Frame → Nat
  | .actionFunc _ s _ => if s = t then 1 else 0
  | _ => 0

theorem inFunc_le_running (t : Nat) (f : Frame) : inFunc t f ≤ running t f := by
  cases f <;> first | exact Nat.le_refl _ | exact Nat.zero_le _

/-- What the interface of tasklets promises, in one state. -/
structure Lifecycle (t : Nat) (c : Conf Shared (List Frame)) : Prop where
  /-- on at most one list and at most once, counting detached lists -/
  once : c.shared.onLists t + census (detached t) c ≤ 1
  /-- on a list only with the SCHED bit -/
  sched : 0 < c.shared.onLists t + census (detached t) c → (c.shared.tasklets t).sched = true
  /-- in its function at most once -/
  serial : census (inFunc t) c ≤ 1
  /-- schedulings and runs alternate, beginning with a scheduling -/
  alternate : (c.shared.hist t).ran ≤ (c.shared.hist t).scheduled ∧
    (c.shared.hist t).scheduled ≤ (c.shared.hist t).ran + 1
  /-- no executor stopped in `BUG()` -/
  noBug : ∀ (i : Nat) (stack : List Frame) (v : Vec) (rest : List Nat),
    c.pool[i]? = some stack → .bug v t rest ∉ stack

/-- The function does not run between the return of a `tasklet_disable` and the
`tasklet_enable` that undoes it. -/
def OffWhileDisabled (t : Nat) (c : Conf Shared (List Frame)) : Prop :=
  0 < (c.shared.hist t).disabled → census (inFunc t) c = 0

theorem lifecycle (h : machine.Reachable c) (t : Nat) : Lifecycle t c := by
  obtain ⟨hsched, hrun, hhist⟩ := fits h t
  have hdetached : census (places t) c .detached = census (detached t) c := census_apply _ _ _
  have hfunc : census (inFunc t) c ≤ census (places t) c .running := by
    rw [census_apply]
    exact census_le_census (inFunc_le_running t)
  have hsched1 := Bool.toNat_le (c.shared.tasklets t).sched
  have hrun1 := Bool.toNat_le (c.shared.tasklets t).run
  rw [hdetached] at hsched hhist
  refine ⟨by omega, ?_, by omega, ⟨by omega, by omega⟩, ?_⟩
  · intro hpos
    by_contra hclear
    rw [Bool.not_eq_true] at hclear
    rw [hclear, Bool.toNat_false] at hsched
    omega
  · intro i stack v rest hi hmem
    have hle : buggy (.bug v t rest) ≤ census buggy c := le_census hi hmem
    rw [census_buggy h] at hle
    exact absurd hle (Nat.not_succ_le_zero 0)

end

/-! ## Disabling -/

/-- The frame is a disable that waits for the RUN bit. -/
def waiting (t : Nat) : Frame → Nat
  | .disableWait s => if s = t then 1 else 0
  | _ => 0

/-- The disables that are not undone, and those that have not returned. -/
def outstanding (t : Nat) (c : Conf Shared (List Frame)) : Nat :=
  (c.shared.hist t).disabled + census (waiting t) c

/-- The condition: an enable undoes a disable that has returned, and there are never 2^32
disables at once. -/
def enablesMatch (t : Nat) (c : Conf Shared (List Frame)) (ia : Nat × Choice) : Bool :=
  match c.pool[ia.1]? with
  | some (.enableDec s :: _) => decide (s = t → 0 < (c.shared.hist t).disabled)
  | some (.disableInc s :: _) => decide (s = t → outstanding t c + 1 < 2 ^ 32)
  | _ => true

theorem waiting_frame (t : Nat) (k : Call) : waiting t k.frame = 0 := by
  cases k <;> rfl

theorem running_frame (t : Nat) (k : Call) : running t k.frame = 0 := by
  cases k <;> rfl

theorem waiting_softirqVec (t h : Nat) : waiting t (softirqVec h) = 0 :=
  weight_softirqVec (fun _ => rfl) (fun _ => rfl) h

theorem running_softirqVec (t h : Nat) : running t (softirqVec h) = 0 :=
  weight_softirqVec (fun _ => rfl) (fun _ => rfl) h

/-- Those that have to do with the disables: who waits in one, and who gets to the function. -/
def disabling (t : Nat) (f : Frame) : Bool → Nat
  | true => waiting t f
  | false => running t f

/-- What a step leaves of the disables: nothing happens to them. -/
structure Undisturbed (t : Nat) (g g' : Shared) (f : Frame) (new : List Frame) : Prop where
  count : (g'.tasklets t).count = (g.tasklets t).count
  disabled : (g'.hist t).disabled = (g.hist t).disabled
  waiting : total (waiting t) new = waiting t f
  running : total (running t) new ≤ running t f

/-- What a step can do to the disables of a tasklet, and who gets to run its function. -/
inductive Disabling (t : Nat) (g g' : Shared) : Frame → List Frame → Prop
  | none {f : Frame} {new : List Frame} : Undisturbed t g g' f new → Disabling t g g' f new
  | inc : (g'.tasklets t).count = (g.tasklets t).count + 1 →
      (g'.hist t).disabled = (g.hist t).disabled →
      Disabling t g g' (.disableInc t) [.disableWait t]
  | wait : (g.tasklets t).run = false → (g'.tasklets t).count = (g.tasklets t).count →
      (g'.hist t).disabled = (g.hist t).disabled + 1 → Disabling t g g' (.disableWait t) []
  | dec : (g'.tasklets t).count = (g.tasklets t).count - 1 →
      (g'.hist t).disabled = (g.hist t).disabled - 1 → Disabling t g g' (.enableDec t) []
  | enter (v : Vec) (rest : List Nat) : (g.tasklets t).count = 0 → g' = g →
      Disabling t g g' (.actionCount v t rest) [.actionClear v t rest]

theorem exec_disabling {t : Nat} {g g' : Shared} {f : Frame} {new : List Frame} {a : Choice}
    (hs : exec g f a = some (g', new)) : Disabling t g g' f new := by
  cases f with
  | disableInc s =>
      cases hs
      by_cases hst : s = t
      · subst hst
        exact .inc (by simp) rfl
      · exact .none ⟨by simp [Shared.setTasklet, Ne.symm hst], rfl, by simp [waiting, hst],
          by simp⟩
  | disableWait s =>
      simp only [exec] at hs
      split at hs <;> cases hs
      · exact .none ⟨rfl, rfl, by simp [waiting], by simp⟩
      · rename_i hfree
        by_cases hst : s = t
        · subst hst
          exact .wait (by simpa using hfree) rfl (by simp)
        · exact .none ⟨rfl, by simp [Shared.setHist, Ne.symm hst], by simp [waiting, hst], by simp⟩
  | enableDec s =>
      cases hs
      by_cases hst : s = t
      · subst hst
        exact .dec (by simp [Shared.setHist]) (by simp)
      · exact .none ⟨by simp [Shared.setTasklet, Shared.setHist, Ne.symm hst],
          by simp [Shared.setHist, Ne.symm hst, Shared.setTasklet], rfl, by simp⟩
  | actionCount v s rest =>
      simp only [exec] at hs
      split at hs <;> cases hs
      · rename_i hzero
        by_cases hst : s = t
        · subst hst
          exact .enter v rest hzero rfl
        · exact .none ⟨rfl, rfl, rfl, by simp [hst]⟩
      · exact .none ⟨rfl, rfl, rfl, by simp⟩
  | actionNext v rest =>
      cases rest with
      | nil =>
          cases hs
          exact .none ⟨rfl, rfl, rfl, Nat.zero_le _⟩
      | cons s rest =>
          simp only [exec] at hs
          by_cases hst : s = t
          · subst hst
            split at hs <;> cases hs <;>
              exact .none ⟨by simp, rfl, rfl, Nat.le_refl _⟩
          · split at hs <;> cases hs <;>
              exact .none ⟨by simp [Shared.setTasklet, Ne.symm hst], rfl, rfl, Nat.le_refl _⟩
  | actionFunc v s rest | handler nr =>
      cases a with
      | go =>
          cases hs
          exact .none ⟨rfl, rfl, rfl, by simp⟩
      | call k =>
          cases hs
          refine .none ⟨rfl, rfl, ?_, ?_⟩
          · rw [total_cons, waiting_frame]
            rfl
          · rw [total_cons, running_frame, total_singleton, Nat.zero_add]
  | doBits retries p i =>
      simp only [exec] at hs
      split at hs
      · cases hs
        exact .none ⟨rfl, rfl, rfl, Nat.le_refl _⟩
      · split at hs <;> cases hs
        · refine .none ⟨rfl, rfl, ?_, ?_⟩
          · rw [total_cons, waiting_softirqVec]
            rfl
          · rw [total_cons, running_softirqVec]
            exact Nat.le_refl _
        · exact .none ⟨rfl, rfl, rfl, Nat.le_refl _⟩
  | scheduleTest v s | killTest s | killClear s | actionClear v s | actionUnlock v s
  | actionBackOff v s =>
      simp only [exec] at hs
      by_cases hst : s = t
      · subst hst
        (try split at hs) <;> cases hs <;>
          exact .none ⟨by simp [Shared.setHist], by simp [Shared.setTasklet], rfl, by simp⟩
      · (try split at hs) <;> cases hs <;>
          exact .none ⟨by simp [Shared.setTasklet, Shared.setHist, Ne.symm hst],
            by simp [Shared.setTasklet, Shared.setHist, Ne.symm hst], rfl, by simp⟩
  | _ =>
      simp only [exec] at hs
      (try split at hs) <;> cases hs <;> exact .none ⟨rfl, rfl, rfl, Nat.le_refl _⟩

/-- The count counts the disables, `w` being those that wait for the RUN bit, and with a disable
nobody is on the way to the function; `n` is who is. -/
structure Disables (t : Nat) (g : Shared) (w n : Nat) : Prop where
  count : (g.tasklets t).count.toNat = (g.hist t).disabled + w
  off : 0 < (g.hist t).disabled → n = 0

section
variable {t : Nat} {g g' : Shared} {w n : Nat}

theorem Disables.inc (h : Disables t g w n) (hfew : (g.hist t).disabled + w + 1 < 2 ^ 32)
    (hcount : (g'.tasklets t).count = (g.tasklets t).count + 1)
    (hdisabled : (g'.hist t).disabled = (g.hist t).disabled) : Disables t g' (w + 1) n := by
  constructor
  · have hold := h.count
    rw [hcount, hdisabled,
      BitVec.toNat_add_of_lt (show (g.tasklets t).count.toNat + 1 < _ by omega)]
    show (g.tasklets t).count.toNat + 1 = _
    omega
  · rw [hdisabled]
    exact h.off

/-- A disable returns when nobody has the RUN bit, so nobody is on the way to the function. -/
theorem Disables.wait (h : Disables t g (w + 1) n) (hnone : n = 0)
    (hcount : (g'.tasklets t).count = (g.tasklets t).count)
    (hdisabled : (g'.hist t).disabled = (g.hist t).disabled + 1) : Disables t g' w n := by
  refine ⟨?_, fun _ => hnone⟩
  have hold := h.count
  rw [hcount, hdisabled]
  omega

theorem Disables.dec (h : Disables t g w n) (hpos : 0 < (g.hist t).disabled)
    (hcount : (g'.tasklets t).count = (g.tasklets t).count - 1)
    (hdisabled : (g'.hist t).disabled = (g.hist t).disabled - 1) : Disables t g' w n := by
  refine ⟨?_, fun _ => h.off hpos⟩
  have hold := h.count
  have hone : (1 : Word) ≤ (g.tasklets t).count := by
    rw [BitVec.le_def]
    show 1 ≤ _
    omega
  rw [hcount, hdisabled, BitVec.toNat_sub_of_le hone]
  show (g.tasklets t).count.toNat - 1 = _
  omega

/-- The count is zero, so no disable has returned. -/
theorem Disables.enter (h : Disables t g w n) (hzero : (g.tasklets t).count = 0) (m : Nat) :
    Disables t g w m := by
  refine ⟨h.count, fun hpos => ?_⟩
  have hold := h.count
  rw [hzero] at hold
  change 0 = _ at hold
  omega

end

section
variable {c : Conf Shared (List Frame)}

/-- In every state reached under the condition, the count counts the disables. -/
theorem disables {t : Nat} (h : machine.Reach (enablesMatch t · ·) c) :
    Disables t c.shared (census (waiting t) c) (census (running t) c) := by
  have hboth : ∀ c : Conf Shared (List Frame), census (disabling t) c true = census (waiting t) c ∧
      census (disabling t) c false = census (running t) c :=
    fun c => ⟨census_apply _ _ _, census_apply _ _ _⟩
  rw [← (hboth c).1, ← (hboth c).2]
  refine Code.balance (disabling t) (fun g n => Disables t g (n true) (n false)) ?_ ?_ ?_ h
  · intro c hc
    rw [show census (disabling t) c = 0 from census_start (by funext k; cases k <;> rfl) hc]
    exact ⟨(hc.1.2.2.2 t).2.2.1, fun _ => rfl⟩
  · intro g a f r hf hr
    cases a with
    | go => cases hf
    | call k =>
        cases hf
        rw [show disabling t k.frame = 0 by
          funext b
          cases b
          · exact running_frame t k
          · exact waiting_frame t k, add_zero]
        exact hr
  · intro c i a f rest g new r hreach hok hp hcensus hs hr
    have htotal : ∀ b, total (disabling t) new b = total (fun f => disabling t f b) new :=
      fun b => total_apply _ _ _
    cases exec_disabling (t := t) hs with
    | none hsame =>
        refine ⟨?_, ?_⟩
        · rw [hsame.count, hsame.disabled, hr.count]
          show _ + (r true + waiting t f) = _ + (r true + total (disabling t) new true)
          rw [htotal, ← hsame.waiting]
          rfl
        · intro hpos
          have hoff : r false + running t f = 0 := hr.off (hsame.disabled ▸ hpos)
          have hle := hsame.running
          show r false + total (disabling t) new false = 0
          rw [htotal]
          change r false + total (running t) new = 0
          omega
    | inc hcount hdisabled =>
        have hfew : outstanding t c + 1 < 2 ^ 32 := by
          simpa [enablesMatch, hp] using hok
        have hout : outstanding t c = (c.shared.hist t).disabled + r true := by
          rw [outstanding, ← (hboth c).1, hcensus]
          rfl
        have hnext := Disables.inc hr
          (show (c.shared.hist t).disabled + (r true + 0) + 1 < _ by omega) hcount hdisabled
        simpa [disabling, waiting] using hnext
    | wait hfree hcount hdisabled =>
        have hnone : r false = 0 := by
          have hrun := (fits hreach.reachable t).run
          have hrunning : census (running t) c = r false := by
            rw [← (hboth c).2, hcensus]
            rfl
          rw [hfree, Bool.toNat_false, census_apply, census_apply] at hrun
          change census (locking t) c + census (running t) c = 0 at hrun
          omega
        have hold : Disables t c.shared (r true + 1) (r false) := by
          simpa [disabling, waiting] using hr
        simpa using hold.wait hnone hcount hdisabled
    | dec hcount hdisabled =>
        have hpos : 0 < (c.shared.hist t).disabled := by
          simpa [enablesMatch, hp] using hok
        have hold : Disables t c.shared (r true) (r false) := hr
        simpa using hold.dec hpos hcount hdisabled
    | enter v rest' hzero hsame =>
        subst hsame
        have hold : Disables t c.shared (r true) (r false) := hr
        simpa [disabling, waiting] using hold.enter hzero (r false + 1)

/-- **The life cycle of a tasklet.**  Whatever the interleaving of any number of
threads that schedule, disable, enable, kill and execute tasklets, in every state
reached: each tasklet is in at most one place, on a list only with its SCHED bit
set, in its function at most once, each scheduling has at most one run, and no
executor is in `BUG()`.  And in every run in which the enables of the tasklet undo
disables that have returned, and there are never 2^32 of these, its function does not
run while it is disabled. -/
theorem tasklet_lifecycle (h : machine.Reachable c) (t : Nat) :
    Lifecycle t c ∧ (machine.Reach (enablesMatch t · ·) c → OffWhileDisabled t c) := by
  refine ⟨lifecycle h t, ?_⟩
  intro hmatch hpos
  have hoff := (disables hmatch).off hpos
  have hle : census (inFunc t) c ≤ census (running t) c := census_le_census (inFunc_le_running t)
  omega

/-- Such a run: tasklet 7 is scheduled and runs in thread 1 while thread 0 schedules it again and
disables it; the disable returns, and thread 1 comes to the tasklet once more. -/
theorem tasklet_lifecycle_rescheduled :
    ∃ c, machine.Reach (enablesMatch 7 · ·) c ∧ Lifecycle 7 c ∧ OffWhileDisabled 7 c ∧
      c.pool = [[], [.actionBackOff .low 7 []]] ∧ c.shared.hist 7 = ⟨2, 1, 1⟩ := by
  have hinit : machine.Reach (enablesMatch 7 · ·) ⟨afterInit, [[], []]⟩ :=
    .init ⟨afterInit_init, by simp [code, Code.prog]⟩
  have hrun : (machine.runOk (enablesMatch 7 · ·) ⟨afterInit, [[], []]⟩
      (List.flatten [(0, .call (.taskletSchedule 7)) :: List.replicate 5 (0, .go),
        (1, .call .taskletAction) :: List.replicate 4 (1, .go),
        (0, .call (.taskletSchedule 7)) :: List.replicate 5 (0, .go),
        [(0, .call (.taskletDisable 7)), (0, .go), (0, .go)],
        [(1, .go), (1, .go), (0, .go), (1, .go)],
        (1, .call .taskletAction) :: List.replicate 3 (1, .go)])).map
      (fun c => (c.pool, c.shared.hist 7)) =
      some ([[], [.actionBackOff .low 7 []]], ⟨2, 1, 1⟩) := by
    decide
  obtain ⟨c, hc, hfacts⟩ := Option.map_eq_some_iff.mp hrun
  obtain ⟨hpool, hhist⟩ := Prod.mk.injEq .. ▸ hfacts
  have hreach := hinit.runOk _ hc
  obtain ⟨hlife, hoff⟩ := tasklet_lifecycle hreach.reachable 7
  exact ⟨c, hreach, hlife, hoff hreach, hpool, hhist⟩

/-- **An enable that comes before its disable.**  Thread 0 enables tasklet 7, and then disables
it: the count is back at zero, and the function runs after the disable has returned. -/
theorem enabled_too_early : ∃ c, machine.Reachable c ∧ ¬ OffWhileDisabled 7 c := by
  have hinit : machine.Reachable ⟨afterInit, [[], []]⟩ :=
    .init ⟨afterInit_init, by simp [code, Code.prog]⟩
  have hrun : (machine.run ⟨afterInit, [[], []]⟩
      (List.flatten [[(0, .call (.taskletEnable 7)), (0, .go)],
        [(0, .call (.taskletDisable 7)), (0, .go), (0, .go)],
        (0, .call (.taskletSchedule 7)) :: List.replicate 5 (0, .go),
        (1, .call .taskletAction) :: List.replicate 4 (1, .go)])).map
      (fun c => ((c.shared.hist 7).disabled, census (inFunc 7) c)) = some (1, 1) := by
    decide
  obtain ⟨c, hc, hfacts⟩ := Option.map_eq_some_iff.mp hrun
  obtain ⟨hdisabled, hfunc⟩ := Prod.mk.injEq .. ▸ hfacts
  refine ⟨c, hinit.run _ hc, fun hoff => ?_⟩
  rw [hoff (by omega)] at hfunc
  cases hfunc

end

/-! ## Killing -/

/-- The frame is a kill about to clear the SCHED bit. -/
def killClearing (t : Nat) : Frame → Nat
  | .killClear s => if s = t then 1 else 0
  | _ => 0

theorem killClearing_le (t : Nat) (f : Frame) : killClearing t f ≤ killing t f := by
  cases f <;> first | exact Nat.le_refl _ | exact Nat.zero_le _

theorem killClearing_frame (t : Nat) (c : Call) : killClearing t c.frame = 0 := by
  cases c <;> rfl

theorem killClearing_softirqVec (t h : Nat) : killClearing t (softirqVec h) = 0 :=
  weight_softirqVec (fun _ => rfl) (fun _ => rfl) h

section
variable {t : Nat} {g g' : Shared} {f : Frame} {new : List Frame} {a : Choice}

/-- A kill gets that far only from its wait, with the RUN bit clear. -/
theorem exec_killClearing (hs : exec g f a = some (g', new)) :
    total (killClearing t) new ≤ killClearing t f ∨
      f = .killWait t ∧ (g'.tasklets t).run = false := by
  cases f with
  | killWait s =>
      simp only [exec] at hs
      split at hs <;> cases hs
      · exact .inl (Nat.le_refl _)
      · rename_i hfree
        by_cases hst : s = t
        · subst hst
          exact .inr ⟨rfl, by simpa using hfree⟩
        · exact .inl (by simp [killClearing, hst])
  | actionNext v rest =>
      left
      cases rest with
      | nil => cases hs; exact Nat.le_refl _
      | cons s rest =>
          simp only [exec] at hs
          split at hs <;> cases hs <;> exact Nat.le_refl _
  | actionFunc v s rest | handler nr =>
      left
      cases a <;> cases hs
      · exact Nat.le_refl _
      · rw [total_cons, killClearing_frame]
        exact Nat.le_refl _
  | doBits retries p i =>
      left
      simp only [exec] at hs
      split at hs
      · cases hs; exact Nat.le_refl _
      · split at hs <;> cases hs
        · rw [total_cons, killClearing_softirqVec]
          exact Nat.le_refl _
        · exact Nat.le_refl _
  | _ =>
      left
      simp only [exec] at hs
      (try split at hs) <;> cases hs <;> exact Nat.zero_le _

/-- The RUN bit is set by an executor, at a tasklet of the list in its hands. -/
theorem exec_run (hs : exec g f a = some (g', new)) (hrun : (g'.tasklets t).run = true) :
    (g.tasklets t).run = true ∨ ∃ v rest, f = .actionNext v (t :: rest) := by
  cases f with
  | actionNext v rest =>
      cases rest with
      | nil => cases hs; exact .inl hrun
      | cons s rest =>
          by_cases hst : s = t
          · subst hst
            exact .inr ⟨v, rest, rfl⟩
          · simp only [exec] at hs
            left
            split at hs <;> cases hs
            · exact hrun
            · simpa [Shared.setTasklet, Ne.symm hst] using hrun
  | actionFunc v s rest | handler nr =>
      left
      cases a <;> cases hs <;> exact hrun
  | doBits retries p i =>
      left
      simp only [exec] at hs
      split at hs
      · cases hs; exact hrun
      · split at hs <;> cases hs <;> exact hrun
  | actionUnlock v s rest | actionBackOff v s rest =>
      left
      cases hs
      by_cases hst : s = t
      · subst hst
        rw [setTasklet_same] at hrun
        cases hrun
      · simpa [Shared.setTasklet, Ne.symm hst] using hrun
  | scheduleTest v s | disableInc s | enableDec s | killTest s | killClear s | actionClear v s =>
      left
      simp only [exec] at hs
      by_cases hst : s = t
      · subst hst
        (try split at hs) <;> cases hs <;> simpa [Shared.setTasklet, Shared.setHist] using hrun
      · (try split at hs) <;> cases hs <;>
          simpa [Shared.setTasklet, Shared.setHist, Ne.symm hst] using hrun
  | _ =>
      left
      simp only [exec] at hs
      (try split at hs) <;> cases hs <;> exact hrun

end

section
variable {c : Conf Shared (List Frame)}

/-- From its wait to its end a kill has the SCHED bit, so no executor gets at the tasklet
and the RUN bit stays clear. -/
theorem run_of_killClearing (h : machine.Reachable c) (t : Nat) :
    0 < census (killClearing t) c → (c.shared.tasklets t).run = false := by
  refine Code.balance (killClearing t) (fun g n => 0 < n → (g.tasklets t).run = false) ?_ ?_ ?_ h
  · intro c hc _
    exact (hc.1.2.2.2 t).2.1
  · intro g a f r hf hr
    cases a with
    | go => cases hf
    | call c =>
        cases hf
        rw [killClearing_frame]
        exact hr
  · intro c i a f rest g new r hreach _ hp hcensus hs hr hpos
    have hs : exec c.shared f a = some (g, new) := hs
    by_contra hset
    rw [Bool.not_eq_false] at hset
    rcases exec_run hs hset with hrun | ⟨v, rest', rfl⟩
    · -- the bit was set before, so no kill was past its wait, and none gets there now
      have hnone : ¬ 0 < r + killClearing t f := by
        intro hold
        rw [hr hold] at hrun
        cases hrun
      rcases exec_killClearing (t := t) hs with hle | ⟨rfl, hfree⟩
      · omega
      · rw [hfree] at hset
        cases hset
    · -- the executor has a place of the tasklet, and a kill leaves none
      have hle : total (killClearing t) new ≤ killClearing t (.actionNext v (t :: rest')) := by
        rcases exec_killClearing (t := t) hs with hle | ⟨hf, -⟩
        · exact hle
        · cases hf
      have hkill : census (killClearing t) c ≤ census (places t) c .killing := by
        rw [census_apply]
        exact census_le_census (killClearing_le t)
      have hdetached : detached t (.actionNext v (t :: rest')) ≤ census (places t) c .detached := by
        rw [census_apply]
        exact le_census hp List.mem_cons_self
      have hplace : 0 < detached t (.actionNext v (t :: rest')) := by simp
      have hsched := (fits hreach t).sched
      have hbit := Bool.toNat_le (c.shared.tasklets t).sched
      omega

/-- The tasklet is out of use: on no list, in nobody's hands, and not in its function. -/
structure Quiet (t : Nat) (c : Conf Shared (List Frame)) : Prop where
  queued : c.shared.onLists t = 0
  detached : census (detached t) c = 0
  queueing : census (queueing t) c = 0
  func : census (inFunc t) c = 0

theorem quiet_of_killClearing (h : machine.Reachable c) {t : Nat}
    (hpos : 0 < census (killClearing t) c) : Quiet t c := by
  have hkill : census (killClearing t) c ≤ census (places t) c .killing := by
    rw [census_apply]
    exact census_le_census (killClearing_le t)
  have hfunc : census (inFunc t) c ≤ census (places t) c .running := by
    rw [census_apply]
    exact census_le_census (inFunc_le_running t)
  have hdetached : census (places t) c .detached = census (detached t) c := census_apply _ _ _
  have hqueueing : census (places t) c .queueing = census (queueing t) c := census_apply _ _ _
  obtain ⟨hsched, hrun, _⟩ := fits h t
  have hbit := Bool.toNat_le (c.shared.tasklets t).sched
  rw [run_of_killClearing h t hpos, Bool.toNat_false] at hrun
  exact ⟨by omega, by omega, by omega, by omega⟩

/-- **A kill leaves the tasklet alone.**  Whatever the interleaving: when `tasklet_kill` is about
to clear the SCHED bit, and when it has done so, the tasklet is on no list, queued or detached,
no scheduler is about to queue it, and no thread runs its function. -/
theorem tasklet_kill_quiet (h : machine.Reachable c) {i t : Nat} {rest : List Frame}
    {c' : Conf Shared (List Frame)} {a : Choice} (hi : c.pool[i]? = some (.killClear t :: rest))
    (hstep : machine.step c (i, a) = some c') :
    Quiet t c ∧ Quiet t c' ∧ (c'.shared.tasklets t).sched = false := by
  have hclearing : killClearing t (.killClear t) ≤ census (killClearing t) c :=
    le_census hi List.mem_cons_self
  have hquiet : Quiet t c := quiet_of_killClearing h (by simp [killClearing] at hclearing; omega)
  obtain ⟨g, new, hs, rfl⟩ := Code.machine_step_cons hi hstep
  cases hs
  have hgone : ∀ (w : Frame → Nat) (g : Shared), census w c = 0 →
      census w ⟨g, c.pool.set i ([] ++ rest)⟩ = 0 := by
    intro w g hw
    obtain ⟨r, hr, hset⟩ := census_set w hi
    rw [hset, total_nil]
    omega
  refine ⟨hquiet, ⟨hquiet.queued, ?_, ?_, ?_⟩, by simp⟩
  · exact hgone _ _ hquiet.detached
  · exact hgone _ _ hquiet.queueing
  · exact hgone _ _ hquiet.func

/-- Such a run: thread 0 executes tasklet 7 while thread 1 kills it. -/
theorem tasklet_kill_waits :
    ∃ g g', Quiet 7 ⟨g, [[.actionNext .low []], [.killClear 7]]⟩ ∧
      Quiet 7 ⟨g', [[.actionNext .low []], []]⟩ ∧ (g'.hist 7).ran = 1 := by
  have hinit : machine.Reachable ⟨afterInit, [[], []]⟩ :=
    .init ⟨afterInit_init, by simp [code, Code.prog]⟩
  obtain ⟨hbefore, hafter, -⟩ := tasklet_kill_quiet (hinit.run
    (List.flatten [(0, .call (.taskletSchedule 7)) :: List.replicate 5 (0, .go),
      -- the kill finds the tasklet scheduled, then running
      [(1, .call (.taskletKill 7)), (1, .go)],
      (0, .call .taskletAction) :: List.replicate 4 (0, .go),
      [(1, .go), (1, .go), (1, .go)],
      [(0, .go), (0, .go), (1, .go)]]) rfl) (i := 1) (a := .go) rfl rfl
  exact ⟨_, _, hbefore, hafter, rfl⟩

end

end LinuxDrivers.Kernel.Softirq
