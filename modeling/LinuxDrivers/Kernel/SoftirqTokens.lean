/-
# `LinuxDrivers.Kernel.SoftirqTokens` — the tokens of the softirq semaphore

Every raise puts a token into `softirq_sem`, and the softirq thread takes one per pass.
An executor that cannot run a tasklet, because it is disabled or running elsewhere, puts
it back on its list and raises the softirq of the list again:

    pass:    down;  up to ten rounds { clear pending;  run the actions }
    round:   take the list;  tasklet disabled: put it back, raise, up

So a round over a list with a disabled tasklet makes the softirq pending again, the
pass goes on to its tenth round, and puts ten tokens in for the one it has taken.  Nothing
stops this: once the calls of the other threads have left a token, and the softirq of a
list with a disabled tasklet pending, the tokens grow for ever.

**Proved here.**

    tokens ≤ raise and schedule calls + tasklets put back    (`tokens_le_calls_add_putBacks`)
    a list with a disabled tasklet, its softirq pending and a token: no bound   (`grows`)
    neither: no tasklet is put back                          (`cold_run`)
    when the calls leave a bounded number of tokens          (`tokens_bounded_iff`)
    one call after which there is no bound                   (`tokens_unbounded`)
-/
import LinuxDrivers.Kernel.Tasklet
import LinuxDrivers.Kernel.SoftirqPending

namespace LinuxDrivers.Kernel.Softirq

open LinuxDrivers.Lib

/-! ## What puts tokens in -/

/-- The calls that come to a token: raises and schedulings. -/
def Call.raises : Call → Bool
  | .raiseSoftirq _ | .taskletSchedule _ | .taskletHiSchedule _ | .ddeRaiseSoftirq => true
  | _ => false

def Choice.raises : Choice → Bool
  | .go => false
  | .call k => k.raises

/-- The frame is one that may call: a tasklet's function or another handler. -/
def Frame.mayCall : Frame → Bool
  | .actionFunc _ _ _ | .handler _ => true
  | _ => false

/-- 1 if the step is a raise or schedule call. -/
def raiseCalls (c : Conf Shared (List Frame)) (ia : Nat × Choice) : Nat :=
  match c.pool[ia.1]? with
  | some [] => ia.2.raises.toNat
  | some (f :: _) => (f.mayCall && ia.2.raises).toNat
  | none => 0

def Frame.putsBack : Frame → Bool
  | .requeue _ _ _ => true
  | _ => false

/-- 1 if the step puts a tasklet back on its list. -/
def putBacks (c : Conf Shared (List Frame)) (ia : Nat × Choice) : Nat :=
  match c.pool[ia.1]? with
  | some (f :: _) => f.putsBack.toNat
  | _ => 0

/-- The tokens a frame is going to put in. -/
def owing : Frame → Nat
  | .raiseLoad _ | .raiseStore _ _ | .raiseUp _ | .scheduleTest _ _ | .enqueue _ _ | .kitUp => 1
  | _ => 0

theorem owing_frame (k : Call) : owing k.frame = k.raises.toNat := by
  cases k <;> rfl

theorem owing_softirqVec (h : Nat) : owing (softirqVec h) = 0 :=
  weight_softirqVec (fun _ => rfl) (fun _ => rfl) h

/-- A step pays for the tokens it puts in and those it is going to. -/
theorem exec_owing {g g' : Shared} {f : Frame} {new : List Frame} {a : Choice}
    (hs : exec g f a = some (g', new)) :
    g'.softirqSem + total owing new ≤
      g.softirqSem + owing f + ((f.mayCall && a.raises).toNat + f.putsBack.toNat) := by
  cases f with
  | requeue v t rest =>
      simp only [exec] at hs
      split at hs <;> cases hs
      exact Nat.le_refl _
  | actionFunc v t rest | handler nr =>
      cases a with
      | go =>
          cases hs
          exact Nat.le_refl _
      | call k =>
          cases hs
          rw [total_cons, owing_frame]
          exact Nat.le_refl _
  | actionNext v rest =>
      cases rest with
      | nil =>
          cases hs
          exact Nat.le_refl _
      | cons t rest =>
          simp only [exec] at hs
          split at hs <;> cases hs <;> exact Nat.le_refl _
  | doBits retries p h =>
      simp only [exec] at hs
      split at hs
      · cases hs
        exact Nat.le_refl _
      · split at hs <;> cases hs
        · rw [total_cons, owing_softirqVec]
          exact Nat.le_refl _
        · exact Nat.le_refl _
  | threadDown =>
      simp only [exec] at hs
      split at hs <;> cases hs
      rename_i n hn
      rw [hn]
      exact Nat.le_succ n
  | scheduleTest v t =>
      simp only [exec] at hs
      split at hs <;> cases hs
      · exact Nat.le_succ _
      · exact Nat.le_refl _
  | _ =>
      simp only [exec] at hs
      (try split at hs) <;> cases hs <;> exact Nat.le_refl _

section
variable {c c' : Conf Shared (List Frame)} {as : List (Nat × Choice)}

/-- Each token is due to a call or to a tasklet put back. -/
theorem tokens_le_calls_add_putBacks (hinit : machine.init c) (hrun : machine.run c as = some c') :
    c'.shared.softirqSem ≤ machine.spent raiseCalls c as + machine.spent putBacks c as := by
  have hpotential : c'.shared.softirqSem + census owing c' ≤ c.shared.softirqSem + census owing c +
      machine.spent (fun c ia => raiseCalls c ia + putBacks c ia) c as := by
    refine Code.le_spent owing Shared.softirqSem ?_ ?_ hrun
    · intro c i a f hp hf
      cases a with
      | go => cases hf
      | call k =>
          cases hf
          rw [owing_frame]
          simp only [raiseCalls, hp]
          exact Nat.le_add_right _ _
    · intro c i a f rest g new hp hs
      have hpay := exec_owing hs
      simpa only [raiseCalls, putBacks, hp] using hpay
  have hstart : census owing c = 0 := census_start rfl hinit
  rw [Machine.spent_add, hstart, hinit.1.2.1] at hpotential
  omega

end

/-! ## The calls of the other threads -/

/-- The calls that execute. -/
def Call.executes : Call → Bool
  | .taskletAction | .taskletHiAction | .doSoftirq => true
  | _ => false

def Choice.executes : Choice → Bool
  | .go => false
  | .call k => k.executes

/-- Other threads make calls, none of them to execute, and all return; after that some tasklet is
scheduled and disabled.  Thread 0 is the softirq thread, and has not run yet. -/
structure WaitsDisabled (c₀ c : Conf Shared (List Frame)) (before : List (Nat × Choice)) :
    Prop where
  init : machine.init c₀
  threads : ∃ n, c₀.pool = [.threadDown] :: List.replicate n []
  others : ∀ ia ∈ before, ia.1 ≠ 0 ∧ ia.2.executes = false
  before : machine.run c₀ before = some c
  returned : c.pool = c₀.pool
  disabled : ∃ t, (c.shared.tasklets t).sched = true ∧ (c.shared.tasklets t).count ≠ 0

/-- A frame of such a call. -/
def Frame.calling : Frame → Bool
  | .raiseLoad _ | .raiseStore _ _ | .raiseUp _ | .scheduleTest _ _ | .enqueue _ _
  | .disableInc _ | .disableWait _ | .enableDec _ | .killTest _ | .killYield _ | .killWait _
  | .killClear _ | .kitUp => true
  | _ => false

theorem calling_frame {k : Call} (h : k.executes = false) : k.frame.calling = true := by
  cases k <;> first | rfl | cases h

theorem exec_calling {g g' : Shared} {f : Frame} {new : List Frame} {a : Choice}
    (hf : f.calling = true) (hs : exec g f a = some (g', new)) :
    ∀ f' ∈ new, f'.calling = true := by
  have hone : ∀ f : Frame, f.calling = true → ∀ f' ∈ [f], f'.calling = true := by
    intro f h f' hf'
    rw [List.mem_singleton.mp hf']
    exact h
  cases f with
  | raiseUp nr | enableDec t | killClear t | kitUp =>
      cases hs
      exact fun _ h => absurd h List.not_mem_nil
  | raiseLoad nr | raiseStore nr v | disableInc t =>
      cases hs
      exact hone _ rfl
  | scheduleTest v t | disableWait t =>
      simp only [exec] at hs
      split at hs <;> cases hs <;>
        first | exact hone _ rfl | exact fun _ h => absurd h List.not_mem_nil
  | enqueue v t | killTest t | killYield t | killWait t =>
      simp only [exec] at hs
      split at hs <;> cases hs <;> exact hone _ rfl
  | _ => cases hf

/-- The threads beside the softirq thread are in such calls, if they are in any. -/
def OthersCall (c : Conf Shared (List Frame)) : Prop :=
  ∀ i stack, i ≠ 0 → c.pool[i]? = some stack → ∀ f ∈ stack, f.calling = true

theorem OthersCall.step {c c' : Conf Shared (List Frame)} {ia : Nat × Choice}
    (h : OthersCall c) (hi : ia.1 ≠ 0) (ha : ia.2.executes = false)
    (hs : machine.step c ia = some c') : OthersCall c' ∧ putBacks c ia = 0 := by
  obtain ⟨stack, g, stack', hp, hstep, rfl⟩ := Prog.machine_step hs
  have hcalling := h ia.1 stack hi hp
  have hother : (∀ f ∈ stack', f.calling = true) → OthersCall ⟨g, c.pool.set ia.1 stack'⟩ := by
    intro hnew j q hj hq
    by_cases hij : ia.1 = j
    · subst hij
      rw [List.getElem?_set_self (List.getElem?_eq_some_iff.mp hp).1] at hq
      cases hq
      exact hnew
    · rw [List.getElem?_set_ne hij] at hq
      exact h j q hj hq
  cases stack with
  | nil =>
      refine ⟨hother ?_, by simp only [putBacks, hp]⟩
      obtain ⟨f, hf, hfg⟩ := Option.map_eq_some_iff.mp hstep
      cases hfg
      obtain ⟨i, a⟩ := ia
      cases a with
      | go => cases hf
      | call k =>
          cases hf
          intro f' hf'
          rw [List.mem_singleton.mp hf']
          exact calling_frame ha
  | cons f rest =>
      have hf := hcalling f List.mem_cons_self
      refine ⟨hother ?_, ?_⟩
      · obtain ⟨⟨g₁, new⟩, hx, hxg⟩ := Option.map_eq_some_iff.mp hstep
        cases hxg
        intro f' hf'
        rcases List.mem_append.mp hf' with hnew | hold
        · exact exec_calling hf hx f' hnew
        · exact hcalling f' (List.mem_cons_of_mem _ hold)
      · simp only [putBacks, hp]
        cases f <;> first | rfl | cases hf

/-- Nobody puts a tasklet back. -/
theorem OthersCall.putBacks {c c' : Conf Shared (List Frame)} {before : List (Nat × Choice)}
    (h : OthersCall c) (hothers : ∀ ia ∈ before, ia.1 ≠ 0 ∧ ia.2.executes = false)
    (hrun : machine.run c before = some c') : machine.spent putBacks c before = 0 := by
  induction before generalizing c with
  | nil => rfl
  | cons ia before ih =>
      simp only [Machine.run] at hrun
      split at hrun
      · rename_i d hd
        obtain ⟨hi, ha⟩ := hothers ia List.mem_cons_self
        obtain ⟨hnext, hnone⟩ := h.step hi ha hd
        have hrest := ih hnext (fun ia hia => hothers ia (List.mem_cons_of_mem _ hia)) hrun
        simp only [Machine.spent, hd, hnone, hrest]
      · cases hrun

/-- What the calls leave is at most a token each. -/
theorem WaitsDisabled.tokens_le {c₀ c : Conf Shared (List Frame)} {before : List (Nat × Choice)}
    (h : WaitsDisabled c₀ c before) : c.shared.softirqSem ≤ machine.spent raiseCalls c₀ before := by
  have hidle : OthersCall c₀ := by
    intro i stack hi hp f hf
    obtain ⟨n, hpool⟩ := h.threads
    rw [hpool] at hp
    cases i with
    | zero => exact absurd rfl hi
    | succ i =>
        rw [List.getElem?_cons_succ] at hp
        rw [List.eq_of_mem_replicate (List.mem_of_getElem? hp)] at hf
        exact absurd hf List.not_mem_nil
  have hle := tokens_le_calls_add_putBacks h.init h.before
  rw [hidle.putBacks h.others h.before] at hle
  exact hle

/-! ## The softirq thread alone -/

/-- The frame has the lock of the list. -/
def unlocking (v : Vec) : Frame → Nat
  | .requeueUnlock u _ => if u = v then 1 else 0
  | _ => 0

/-- A list is locked by a frame that is going to unlock it. -/
theorem census_unlocking {c : Conf Shared (List Frame)} (h : machine.Reachable c) (v : Vec) :
    census (unlocking v) c = (c.shared.lock v).toNat := by
  refine Code.balance (unlocking v) (fun g n => n = (g.lock v).toNat) ?_ ?_ ?_ h
  · intro c hc
    rw [census_start rfl hc, (hc.1.2.2.1 v).2]
    rfl
  · intro g a f r hf hr
    cases a with
    | go => cases hf
    | call k =>
        cases hf
        rw [show unlocking v k.frame = 0 by cases k <;> rfl, add_zero]
        exact hr
  · intro c i a f rest g new r _ _ _ _ hs hr
    generalize c.shared = g₀ at hs hr
    cases f with
    | requeue u s rest' =>
        simp only [code, exec] at hs
        split at hs <;> cases hs
        rename_i hfree
        rw [Bool.not_eq_true] at hfree
        by_cases huv : u = v
        · subst huv
          rw [hfree] at hr
          simp [unlocking, Shared.setLock, Shared.setList] at hr ⊢
          omega
        · simp [unlocking, Shared.setLock, Shared.setList, huv, Ne.symm huv] at hr ⊢
          exact hr
    | requeueUnlock u rest' =>
        cases hs
        by_cases huv : u = v
        · subst huv
          have hle := Bool.toNat_le (g₀.lock u)
          simp [unlocking, Shared.setLock] at hr ⊢
          omega
        · simp [unlocking, Shared.setLock, huv, Ne.symm huv] at hr ⊢
          exact hr
    | actionFunc u s rest' | handler nr =>
        cases a <;> cases hs
        · exact hr
        · rename_i k
          rw [total_cons, show unlocking v k.frame = 0 by cases k <;> rfl]
          exact hr
    | actionNext u rest' =>
        cases rest' with
        | nil =>
            cases hs
            exact hr
        | cons s rest' =>
            simp only [code, exec] at hs
            split at hs <;> cases hs <;> exact hr
    | doBits retries p i =>
        simp only [code, exec] at hs
        split at hs
        · cases hs
          exact hr
        · split at hs <;> cases hs
          · rw [total_cons, show unlocking v (softirqVec i) = 0 from
              weight_softirqVec (fun _ => rfl) (fun _ => rfl) i]
            exact hr
          · exact hr
    | _ =>
        simp only [code, exec] at hs
        (try split at hs) <;> cases hs <;> exact hr

section
variable {g g' : Shared} {stack : List Frame} {n : Nat}

/-- The other threads are idle. -/
def solo (g : Shared) (stack : List Frame) (n : Nat) : Conf Shared (List Frame) :=
  ⟨g, stack :: List.replicate n []⟩

theorem census_solo {M : Type} [AddCommMonoid M] (w : Frame → M) :
    census w (solo g stack n) = total w stack := by
  have hidle : total (total w) (List.replicate n []) = 0 := by
    apply total_eq_zero
    intro s hs
    rw [List.eq_of_mem_replicate hs]
    rfl
  rw [census, solo, total_cons, hidle, add_zero]

/-- The frames between two tasklets of a list have nothing in their hands. -/
def Frame.between : Frame → Bool
  | .actionTake _ | .doBits _ _ _ | .threadDown => true
  | _ => false

/-- What there is to know of the tasklets on the lists while no executor has one in its hands. -/
structure Calm (g : Shared) : Prop where
  lock : ∀ v, g.lock v = false
  run : ∀ t, (g.tasklets t).run = false
  sched : ∀ v, ∀ t ∈ g.list v, (g.tasklets t).sched = true
  nodup : ∀ v, (g.list v).Nodup

theorem calm (h : machine.Reachable (solo g stack n)) (hb : ∀ f ∈ stack, f.between = true) :
    Calm g := by
  have hzero : ∀ t, census (places t) (solo g stack n) = 0 := by
    intro t
    rw [census_solo]
    apply total_eq_zero
    intro f hf
    have hbetween := hb f hf
    funext k
    cases f with
    | actionTake | doBits | threadDown => cases k <;> rfl
    | _ => cases hbetween
  have hfits : ∀ t, g.onLists t = (g.tasklets t).sched.toNat ∧ (g.tasklets t).run.toNat = 0 := by
    intro t
    obtain ⟨hsched, hrun, _⟩ := fits h t
    rw [hzero t] at hsched hrun
    exact ⟨hsched, hrun.symm⟩
  have hcount : ∀ v t, (g.list v).count t ≤ g.onLists t := by
    intro v t
    cases v
    · exact Nat.le_add_right _ _
    · exact Nat.le_add_left _ _
  refine ⟨?_, ?_, ?_, ?_⟩
  · intro v
    have hunlock := census_unlocking h v
    rw [census_solo, total_eq_zero] at hunlock
    · have hfalse : (g.lock v).toNat = 0 := hunlock.symm
      simpa using hfalse
    · intro f hf
      have hbetween := hb f hf
      cases f <;> first | rfl | cases hbetween
  · intro t
    simpa using (hfits t).2
  · intro v t ht
    have hpos := List.count_pos_iff.mpr ht
    have hle := hcount v t
    have honce := (hfits t).1
    by_contra hclear
    rw [Bool.not_eq_true] at hclear
    rw [hclear, Bool.toNat_false] at honce
    omega
  · intro v
    rw [List.nodup_iff_count_le_one]
    intro t
    have hbit := Bool.toNat_le (g.tasklets t).sched
    have hle := hcount v t
    have honce := (hfits t).1
    omega

end

/-! ## Nothing to put back -/

/-- All tasklets of the list are enabled. -/
def Enabled (g : Shared) (l : List Nat) : Prop := ∀ t ∈ l, (g.tasklets t).count = 0

/-- A list whose softirq is pending has no disabled tasklet. -/
def Cool (g : Shared) : Prop := ∀ v, g.raised v = true → Enabled g (g.list v)

/-- The same of the softirqs in the copy, once the word is clear. -/
structure Copied (g : Shared) (p : Word) (h : Nat) : Prop where
  pending : g.pending = 0
  lists : ∀ v : Vec, h ≤ v.nr.val → p.getLsbD (v.nr.val - h) = true → Enabled g (g.list v)

/-- The action at the top has only enabled tasklets in its hands. -/
def Serves (g : Shared) : Frame → Prop
  | .handler _ | .bug _ _ _ => True
  | .actionTake v => Enabled g (g.list v)
  | .actionNext _ rest | .actionFunc _ _ rest | .actionUnlock _ _ rest => Enabled g rest
  | .actionCount _ t rest | .actionClear _ t rest => Enabled g (t :: rest)
  | _ => False

/-- Where the softirq thread is, if it never puts a tasklet back. -/
inductive Cold (g : Shared) : List Frame → Prop
  | down : Cool g → Cold g [.threadDown]
  | test : Cool g → Cold g [.doTest, .threadDown]
  | load (retries : Nat) : Cool g → Cold g [.doLoad retries, .threadDown]
  | clear (retries : Nat) : Cool g → Cold g [.doClear retries g.pending, .threadDown]
  | bits (retries : Nat) {p : Word} {h : Nat} : Copied g p h →
      Cold g [.doBits retries p h, .threadDown]
  | action {f : Frame} (retries : Nat) {p : Word} {h : Nat} : Serves g f → Copied g p h →
      Cold g [f, .doBits retries p h, .threadDown]
  | retry (retries : Nat) : g.pending = 0 → Cold g [.doRetry retries, .threadDown]

theorem cool_of_pending {g : Shared} (h : g.pending = 0) : Cool g := by
  intro v hv
  rw [Shared.raised, h] at hv
  simp at hv

/-- A pass over the bits of the copy does not see what the tasklets do. -/
theorem exec_count {g g' : Shared} {f : Frame} {new : List Frame} {a : Choice} (t : Nat)
    (hinc : f ≠ .disableInc t) (hdec : f ≠ .enableDec t) (hs : exec g f a = some (g', new)) :
    (g'.tasklets t).count = (g.tasklets t).count := by
  cases exec_disabling (t := t) hs with
  | none h => exact h.count
  | inc => exact absurd rfl hinc
  | wait _ h => exact h
  | dec => exact absurd rfl hdec
  | enter v rest _ h => rw [h]

section
variable {g g' : Shared} {f : Frame} {rest new : List Frame}

theorem Enabled.of_count {l : List Nat} (h : Enabled g l)
    (hcount : ∀ t, (g'.tasklets t).count = (g.tasklets t).count) : Enabled g' l := by
  intro t ht
  rw [hcount]
  exact h t ht

theorem Copied.step {p : Word} {h : Nat} (hc : Copied g p h) (hp : g'.pending = g.pending)
    (hcount : ∀ t, (g'.tasklets t).count = (g.tasklets t).count)
    (hlist : ∀ v, g'.list v = g.list v ∨ g'.list v = []) : Copied g' p h := by
  refine ⟨hp.trans hc.pending, ?_⟩
  intro v hv hbit
  rcases hlist v with hsame | hempty
  · rw [hsame]
    exact (hc.lists v hv hbit).of_count hcount
  · rw [hempty]
    exact fun t ht => absurd ht List.not_mem_nil

/-- The bits that are left. -/
theorem Copied.next {p : Word} {h : Nat} (hc : Copied g p h) : Copied g (p >>> 1) (h + 1) := by
  refine ⟨hc.pending, ?_⟩
  intro v hv hbit
  rw [getLsbD_shift p (by omega)] at hbit
  exact hc.lists v (by omega) hbit

/-- The action of the lowest bit. -/
theorem Copied.serves {p : Word} {h : Nat} (hc : Copied g p h) (hbit : p.getLsbD 0 = true) :
    Serves g (softirqVec h) := by
  have hlist : ∀ v : Vec, h = v.nr.val → Enabled g (g.list v) := by
    intro v hv
    refine hc.lists v (by omega) ?_
    rw [← hv, Nat.sub_self]
    exact hbit
  unfold softirqVec
  split
  · exact hlist .low ‹_›
  · split
    · exact hlist .hi ‹_›
    · trivial

/-- A step of an action over enabled tasklets, none of which runs elsewhere. -/
theorem serves_step (hserves : Serves g f)
    (hrun : ∀ v t rest, f = .actionNext v (t :: rest) → (g.tasklets t).run = false)
    (hs : exec g f .go = some (g', new)) :
    (new = [] ∨ ∃ f', new = [f'] ∧ Serves g' f') ∧ g'.softirqSem = g.softirqSem ∧
      g'.pending = g.pending ∧ (∀ t, (g'.tasklets t).count = (g.tasklets t).count) ∧
      ∀ v, g'.list v = g.list v ∨ g'.list v = [] := by
  have hcount : ∀ t, (g'.tasklets t).count = (g.tasklets t).count := by
    intro t
    refine exec_count t ?_ ?_ hs
    · rintro rfl
      exact hserves
    · rintro rfl
      exact hserves
  cases f with
  | handler nr =>
      cases hs
      exact ⟨.inl rfl, rfl, rfl, hcount, fun _ => .inl rfl⟩
  | bug v t rest => cases hs
  | actionTake v =>
      simp only [exec] at hs
      split at hs <;> cases hs
      refine ⟨.inr ⟨_, rfl, hserves⟩, rfl, rfl, hcount, fun u => ?_⟩
      by_cases huv : u = v
      · subst huv
        exact .inr (setList_same g u [])
      · exact .inl (setList_ne g v u [] huv)
  | actionNext v rest =>
      cases rest with
      | nil =>
          cases hs
          exact ⟨.inl rfl, rfl, rfl, hcount, fun _ => .inl rfl⟩
      | cons t rest =>
          simp only [exec, hrun v t rest rfl, Bool.false_eq_true, if_false] at hs
          cases hs
          exact ⟨.inr ⟨_, rfl, hserves.of_count hcount⟩, rfl, rfl, hcount, fun _ => .inl rfl⟩
  | actionCount v t rest =>
      have hzero : (g.tasklets t).count = 0 := hserves t List.mem_cons_self
      simp only [exec, if_pos hzero] at hs
      cases hs
      exact ⟨.inr ⟨_, rfl, hserves⟩, rfl, rfl, hcount, fun _ => .inl rfl⟩
  | actionClear v t rest =>
      simp only [exec] at hs
      split at hs <;> cases hs
      · refine ⟨.inr ⟨_, rfl, ?_⟩, rfl, rfl, hcount, fun _ => .inl rfl⟩
        exact Enabled.of_count (fun s hs => hserves s (List.mem_cons_of_mem _ hs)) hcount
      · exact ⟨.inr ⟨_, rfl, trivial⟩, rfl, rfl, hcount, fun _ => .inl rfl⟩
  | actionFunc v t rest =>
      cases hs
      exact ⟨.inr ⟨_, rfl, hserves⟩, rfl, rfl, hcount, fun _ => .inl rfl⟩
  | actionUnlock v t rest =>
      cases hs
      exact ⟨.inr ⟨_, rfl, Enabled.of_count hserves hcount⟩, rfl, rfl, hcount, fun _ => .inl rfl⟩
  | _ => exact absurd hserves id

/-- A step of the softirq thread that keeps it from putting anything back. -/
theorem cold_step (hcold : Cold g (f :: rest))
    (hrun : ∀ v t rest, f = .actionNext v (t :: rest) → (g.tasklets t).run = false)
    (hs : exec g f .go = some (g', new)) :
    Cold g' (new ++ rest) ∧ g'.softirqSem ≤ g.softirqSem := by
  generalize hstack : f :: rest = stack at hcold
  cases hcold with
  | down hcool =>
      cases hstack
      simp only [exec] at hs
      split at hs <;> cases hs
      rename_i k hk
      exact ⟨.test hcool, by rw [hk]; exact Nat.le_succ k⟩
  | test hcool =>
      cases hstack
      simp only [exec] at hs
      cases hs
      by_cases hzero : g.pending = 0
      · rw [if_pos hzero]
        exact ⟨.down hcool, Nat.le_refl _⟩
      · rw [if_neg hzero]
        exact ⟨.load _ hcool, Nat.le_refl _⟩
  | load retries hcool =>
      cases hstack
      cases hs
      exact ⟨.clear retries hcool, Nat.le_refl _⟩
  | clear retries hcool =>
      cases hstack
      cases hs
      refine ⟨.bits retries ⟨rfl, ?_⟩, Nat.le_refl _⟩
      intro v _ hbit
      exact hcool v hbit
  | @bits retries p h hcopied =>
      cases hstack
      simp only [exec] at hs
      split at hs
      · cases hs
        exact ⟨.retry retries hcopied.pending, Nat.le_refl _⟩
      · split at hs <;> cases hs
        · exact ⟨.action retries (hcopied.serves ‹_›) hcopied.next, Nat.le_refl _⟩
        · exact ⟨.bits retries hcopied.next, Nat.le_refl _⟩
  | @action _ retries p h hserves hcopied =>
      cases hstack
      obtain ⟨hnew, hsem, hpending, hcount, hlist⟩ := serves_step hserves hrun hs
      have hkept := hcopied.step hpending hcount hlist
      refine ⟨?_, Nat.le_of_eq hsem⟩
      rcases hnew with rfl | ⟨f', rfl, hserves'⟩
      · exact .bits retries hkept
      · exact .action retries hserves' hkept
  | retry retries hpending =>
      cases hstack
      simp only [exec] at hs
      cases hs
      rw [if_neg (fun hboth => hboth.1 hpending)]
      exact ⟨.down (cool_of_pending hpending), Nat.le_refl _⟩

end

/-- Nothing that is executed between two tasklets runs one. -/
theorem run_of_actionNext {g : Shared} {v : Vec} {t : Nat} {rest : List Nat} {retries h n : Nat}
    {p : Word} (hreach : machine.Reachable
      (solo g [.actionNext v (t :: rest), .doBits retries p h, .threadDown] n)) :
    (g.tasklets t).run = false := by
  have hrun := (fits hreach t).run
  rw [census_solo] at hrun
  have hzero : (g.tasklets t).run.toNat = 0 := hrun.symm
  simpa using hzero

/-- However long the softirq thread runs: from where it never puts anything back, it only takes
tokens. -/
theorem cold_run {g : Shared} {stack : List Frame} {n : Nat} {c' : Conf Shared (List Frame)}
    (hcold : Cold g stack) (hreach : machine.Reachable (solo g stack n)) (steps : Nat)
    (hrun : machine.run (solo g stack n) (List.replicate steps (0, .go)) = some c') :
    c'.shared.softirqSem ≤ g.softirqSem := by
  induction steps generalizing g stack with
  | zero =>
      cases hrun
      exact Nat.le_refl _
  | succ steps ih =>
      rw [List.replicate_succ, Machine.run] at hrun
      split at hrun
      · rename_i d hd
        cases stack with
        | nil => cases hcold
        | cons f rest =>
            obtain ⟨g', new, hs, rfl⟩ := Code.machine_step_cons rfl hd
            have hfree : ∀ v t rest', f = .actionNext v (t :: rest') →
                (g.tasklets t).run = false := by
              rintro v t rest' rfl
              cases hcold with
              | action retries _ _ => exact run_of_actionNext hreach
            obtain ⟨hcold', hle⟩ := cold_step hcold hfree hs
            have hnext : machine.Reachable (solo g' (new ++ rest) n) := .step _ hreach trivial hd
            exact (ih hcold' hnext hrun).trans hle
      · cases hrun

/-! ## A disabled tasklet comes back -/

/-- What an executor does with one tasklet of its list, or with several: it puts the disabled ones
back and raises the softirq of the list, and takes nothing from anywhere. -/
structure DealtWith (v : Vec) (l : List Nat) (g g' : Shared) : Prop where
  count : ∀ t, (g'.tasklets t).count = (g.tasklets t).count
  kept : ∀ u, ∀ t ∈ g.list u, t ∈ g'.list u
  raised : ∀ u, g.raised u = true → g'.raised u = true
  tokens : g.softirqSem ≤ g'.softirqSem
  back : ∀ t ∈ l, (g.tasklets t).count ≠ 0 →
    t ∈ g'.list v ∧ g'.raised v = true ∧ g.softirqSem < g'.softirqSem

theorem DealtWith.nil (v : Vec) (g : Shared) : DealtWith v [] g g :=
  ⟨fun _ => rfl, fun _ _ h => h, fun _ h => h, Nat.le_refl _,
    fun _ h => absurd h List.not_mem_nil⟩

theorem DealtWith.cons {v : Vec} {t : Nat} {l : List Nat} {g₀ g₁ g₂ : Shared}
    (h : DealtWith v [t] g₀ g₁) (h' : DealtWith v l g₁ g₂) : DealtWith v (t :: l) g₀ g₂ := by
  refine ⟨fun s => (h'.count s).trans (h.count s), fun u s hs => h'.kept u s (h.kept u s hs),
    fun u hu => h'.raised u (h.raised u hu), h.tokens.trans h'.tokens, ?_⟩
  intro s hs hcount
  rcases List.mem_cons.mp hs with rfl | hs
  · obtain ⟨hlist, hraised, htokens⟩ := h.back s List.mem_cons_self hcount
    exact ⟨h'.kept v s hlist, h'.raised v hraised, htokens.trans_le h'.tokens⟩
  · obtain ⟨hlist, hraised, htokens⟩ := h'.back s hs ((h.count s).symm ▸ hcount)
    exact ⟨hlist, hraised, h.tokens.trans_lt htokens⟩

/-- One tasklet of the list is dealt with; the others are as they were. -/
structure Passed (v : Vec) (t : Nat) (g g' : Shared) : Prop extends DealtWith v [t] g g' where
  lock : g'.lock = g.lock
  others : ∀ s, s ≠ t → g'.tasklets s = g.tasklets s

section
variable {g : Shared} {v : Vec} {t : Nat} {rest : List Nat} {stack : List Frame}
  {pool : List (List Frame)}

/-- An enabled tasklet: its function runs. -/
theorem run_enabled (hrun : (g.tasklets t).run = false) (hsched : (g.tasklets t).sched = true)
    (hcount : (g.tasklets t).count = 0) :
    ∃ g', code.Alone 0 .go ⟨g, (.actionNext v (t :: rest) :: stack) :: pool⟩
        ⟨g', (.actionNext v rest :: stack) :: pool⟩ ∧ Passed v t g g' := by
  apply Exists.intro
  constructor
  · refine .head (by simp only [code, exec, hrun]; rfl) ?_
    refine .head (by simp only [code, exec, setTasklet_same, if_pos hcount]; rfl) ?_
    refine .head (by simp only [code, exec, setTasklet_same, if_pos hsched]; rfl) ?_
    refine .head rfl ?_
    refine .head rfl (.of_eq rfl)
  · refine ⟨⟨?_, fun _ _ h => h, fun _ h => h, Nat.le_refl _, ?_⟩, rfl, ?_⟩
    · intro s
      by_cases hst : s = t
      · subst hst
        simp [Shared.setHist]
      · simp [Shared.setTasklet, Shared.setHist, hst]
    · intro s hs hne
      rw [List.mem_singleton.mp hs] at hne
      exact absurd hcount hne
    · intro s hst
      simp [Shared.setTasklet, Shared.setHist, hst]

/-- A disabled one: it is put back, and the softirq is raised under the lock of the list. -/
theorem put_back (hrun : (g.tasklets t).run = false) (hlock : g.lock v = false)
    (hcount : (g.tasklets t).count ≠ 0) :
    ∃ g', code.Alone 0 .go ⟨g, (.actionNext v (t :: rest) :: stack) :: pool⟩
        ⟨g', (.actionNext v rest :: stack) :: pool⟩ ∧ Passed v t g g' := by
  apply Exists.intro
  constructor
  · refine .head (by simp only [code, exec, hrun]; rfl) ?_
    refine .head (by simp only [code, exec, setTasklet_same, if_neg hcount]; rfl) ?_
    refine .head rfl ?_
    refine .head (by simp only [code, exec, Shared.setTasklet, hlock]; rfl) ?_
    refine .head rfl ?_
    refine .head rfl ?_
    refine .head rfl ?_
    refine .head rfl (.of_eq rfl)
  · have hbit : (g.pending ||| bit v.nr).getLsbD v.nr = true := by
      rw [BitVec.getLsbD_or, getLsbD_bit]
      simp
    refine ⟨⟨?_, ?_, ?_, Nat.le_succ _, ?_⟩, ?_, ?_⟩
    · intro s
      by_cases hst : s = t
      · subst hst
        simp [Shared.setLock, Shared.setList]
      · simp [Shared.setLock, Shared.setList, hst]
    · intro u s hs
      by_cases huv : u = v
      · subst huv
        simp [Shared.setLock, Shared.setList, hs]
      · simpa [Shared.setLock, Shared.setList, Shared.setTasklet, huv] using hs
    · intro u hu
      show (g.pending ||| bit v.nr).getLsbD u.nr = true
      rw [BitVec.getLsbD_or, show g.pending.getLsbD u.nr = true from hu]
      rfl
    · intro s hs _
      rw [List.mem_singleton.mp hs]
      refine ⟨?_, hbit, Nat.lt_succ_self _⟩
      simp [Shared.setLock, Shared.setList]
    · show Function.update (Function.update g.lock v true) v false = g.lock
      rw [Function.update_idem, ← hlock, Function.update_eq_self]
    · intro s hst
      simp [Shared.setLock, Shared.setList, hst]

theorem serve_list {l : List Nat} : ∀ {g : Shared}, g.lock v = false → l.Nodup →
    (∀ t ∈ l, (g.tasklets t).run = false ∧ (g.tasklets t).sched = true) →
    ∃ g', code.Alone 0 .go ⟨g, (.actionNext v l :: stack) :: pool⟩ ⟨g', stack :: pool⟩ ∧
      DealtWith v l g g' := by
  induction l with
  | nil =>
      intro g _ _ _
      exact ⟨g, .head rfl (.of_eq rfl), .nil v g⟩
  | cons t l ih =>
      intro g hlock hnodup hbits
      obtain ⟨hrun, hsched⟩ := hbits t List.mem_cons_self
      obtain ⟨g₁, hpass, hpassed⟩ : ∃ g₁, code.Alone 0 .go
          ⟨g, (.actionNext v (t :: l) :: stack) :: pool⟩
          ⟨g₁, (.actionNext v l :: stack) :: pool⟩ ∧ Passed v t g g₁ := by
        by_cases hcount : (g.tasklets t).count = 0
        · exact run_enabled hrun hsched hcount
        · exact put_back hrun hlock hcount
      obtain ⟨hnotin, hnodup'⟩ := List.nodup_cons.mp hnodup
      have hbits' : ∀ s ∈ l, (g₁.tasklets s).run = false ∧ (g₁.tasklets s).sched = true := by
        intro s hs
        rw [hpassed.others s (fun hst => hnotin (hst ▸ hs))]
        exact hbits s (List.mem_cons_of_mem _ hs)
      obtain ⟨g₂, hlist, hserved⟩ := ih (hpassed.lock ▸ hlock) hnodup' hbits'
      exact ⟨g₂, hpass.trans hlist, hpassed.toDealtWith.cons hserved⟩

end

/-! ## A round, a pass, and pass after pass -/

/-- Tasklet `t` is disabled and on the list. -/
structure Parked (v : Vec) (t : Nat) (g : Shared) : Prop where
  list : t ∈ g.list v
  count : (g.tasklets t).count ≠ 0

/-- The softirq of the list is in the copy from bit `h` on. -/
def InCopy (v : Vec) (p : Word) (h : Nat) : Prop :=
  h ≤ v.nr.val ∧ p.getLsbD (v.nr.val - h) = true

/-- What an action, or all that are left of a round, do for a parked tasklet. -/
structure Gains (v : Vec) (t : Nat) (due : Prop) (g g' : Shared) : Prop where
  parked : Parked v t g'
  raised : g.raised v = true ∨ due → g'.raised v = true
  tokens : g.softirqSem ≤ g'.softirqSem
  gain : due → g.softirqSem < g'.softirqSem

theorem Gains.trans {v : Vec} {t : Nat} {due due' all : Prop} {g₀ g₁ g₂ : Shared}
    (h : Gains v t due g₀ g₁) (h' : Gains v t due' g₁ g₂) (hall : all → due ∨ due') :
    Gains v t all g₀ g₂ := by
  refine ⟨h'.parked, ?_, h.tokens.trans h'.tokens, ?_⟩
  · rintro (hraised | hdue)
    · exact h'.raised (.inl (h.raised (.inl hraised)))
    · rcases hall hdue with hfirst | hsecond
      · exact h'.raised (.inl (h.raised (.inr hfirst)))
      · exact h'.raised (.inr hsecond)
  · intro hdue
    rcases hall hdue with hfirst | hsecond
    · exact (h.gain hfirst).trans_le h'.tokens
    · exact h.tokens.trans_lt (h'.gain hsecond)

section
variable {v : Vec} {t n : Nat} {g : Shared}

/-- The softirq thread gets from one stack to another, with some gain. -/
def Gets (v : Vec) (t n : Nat) (due : Prop) (g : Shared) (stack stack' : List Frame) : Prop :=
  ∃ g', code.Alone 0 .go (solo g stack n) (solo g' stack' n) ∧ Gains v t due g g'

theorem Gets.refl {due : Prop} {stack : List Frame} (h : Parked v t g) (hdue : ¬ due) :
    Gets v t n due g stack stack :=
  ⟨g, .of_eq rfl, h, fun hraised => hraised.resolve_right hdue, Nat.le_refl _,
    fun h => absurd h hdue⟩

/-- A step that does nothing but move on. -/
theorem Gets.skip {due : Prop} {f : Frame} {new rest stack' : List Frame}
    (hs : exec g f .go = some (g, new)) (h : Gets v t n due g (new ++ rest) stack') :
    Gets v t n due g (f :: rest) stack' := by
  obtain ⟨g', halone, hgains⟩ := h
  exact ⟨g', .head hs halone, hgains⟩

theorem Alone.reachable {c c' : Conf Shared (List Frame)} (h : code.Alone 0 .go c c')
    (hreach : machine.Reachable c) : machine.Reachable c' := by
  obtain ⟨steps, hrun⟩ := h
  exact hreach.run _ hrun

/-- The action of a list. -/
theorem gets_action {u : Vec} {retries h : Nat} {p : Word} (hparked : Parked v t g)
    (hreach : machine.Reachable
      (solo g [.actionTake u, .doBits retries p h, .threadDown] n)) :
    Gets v t n (u = v) g [.actionTake u, .doBits retries p h, .threadDown]
      [.doBits retries p h, .threadDown] := by
  have hcalm : Calm g := calm hreach (by simp [Frame.between])
  have hbits : ∀ s ∈ g.list u, ((g.setList u []).tasklets s).run = false ∧
      ((g.setList u []).tasklets s).sched = true :=
    fun s hs => ⟨hcalm.run s, hcalm.sched u s hs⟩
  obtain ⟨g', halone, hserved⟩ : ∃ g', code.Alone 0 .go
      (solo (g.setList u []) [.actionNext u (g.list u), .doBits retries p h, .threadDown] n)
      (solo g' [.doBits retries p h, .threadDown] n) ∧
      DealtWith u (g.list u) (g.setList u []) g' :=
    serve_list (hcalm.lock u) (hcalm.nodup u) hbits
  have htake : exec g (.actionTake u) .go = some (g.setList u [], [.actionNext u (g.list u)]) := by
    simp only [exec, hcalm.lock u]
    rfl
  refine ⟨g', .head htake halone, ?_⟩
  have hcount : (g'.tasklets t).count ≠ 0 := (hserved.count t).symm ▸ hparked.count
  by_cases huv : u = v
  · subst huv
    obtain ⟨hlist, hraised, htokens⟩ := hserved.back t hparked.list hparked.count
    exact ⟨⟨hlist, hcount⟩, fun _ => hraised, Nat.le_of_lt htokens, fun _ => htokens⟩
  · have hkept : t ∈ g'.list v := by
      refine hserved.kept v t ?_
      rw [setList_ne g u v [] (Ne.symm huv)]
      exact hparked.list
    refine ⟨⟨hkept, hcount⟩, ?_, hserved.tokens, fun h => absurd h huv⟩
    intro hraised
    exact hserved.raised v (hraised.resolve_right huv)

theorem Gets.trans {due due' all : Prop} {stack stack' stack'' : List Frame}
    (hreach : machine.Reachable (solo g stack n)) (h : Gets v t n due g stack stack')
    (h' : ∀ g', Parked v t g' → machine.Reachable (solo g' stack' n) →
      Gets v t n due' g' stack' stack'')
    (hall : all → due ∨ due') : Gets v t n all g stack stack'' := by
  obtain ⟨g₁, halone, hgains⟩ := h
  obtain ⟨g₂, halone', hgains'⟩ := h' g₁ hgains.parked (Alone.reachable halone hreach)
  exact ⟨g₂, halone.trans halone', hgains.trans hgains' hall⟩

theorem Gets.mono {due all : Prop} {stack stack' : List Frame} (h : Gets v t n due g stack stack')
    (hall : all → due) : Gets v t n all g stack stack' := by
  obtain ⟨g', halone, hgains⟩ := h
  exact ⟨g', halone, hgains.parked, fun h => hgains.raised (h.imp_right hall), hgains.tokens,
    fun h => hgains.gain (hall h)⟩

theorem Vec.nr_inj {u v : Vec} (h : u.nr.val = v.nr.val) : u = v := by
  cases u <;> cases v <;> first | rfl | exact absurd h (by decide)

/-- The action of a softirq. -/
theorem gets_softirqVec {retries h : Nat} {p : Word} {i : Nat} (hparked : Parked v t g)
    (hreach : machine.Reachable (solo g [softirqVec i, .doBits retries p h, .threadDown] n)) :
    Gets v t n (i = v.nr.val) g [softirqVec i, .doBits retries p h, .threadDown]
      [.doBits retries p h, .threadDown] := by
  unfold softirqVec at hreach ⊢
  split at hreach
  · rename_i hlow
    rw [if_pos hlow]
    exact (gets_action hparked hreach).mono (fun hi => Vec.nr_inj (hlow.symm.trans hi))
  · rename_i hlow
    rw [if_neg hlow]
    split at hreach
    · rename_i hhi
      rw [if_pos hhi]
      exact (gets_action hparked hreach).mono (fun hi => Vec.nr_inj (hhi.symm.trans hi))
    · rename_i hhi
      rw [if_neg hhi]
      refine .skip rfl (.refl hparked ?_)
      intro hi
      cases v with
      | low => exact hlow hi
      | hi => exact hhi hi

/-- What is left of a round. -/
theorem gets_bits {retries : Nat} (k : Nat) : ∀ {g : Shared} {p : Word} {h : Nat},
    p.toNat < 2 ^ k → Parked v t g →
    machine.Reachable (solo g [.doBits retries p h, .threadDown] n) →
    Gets v t n (InCopy v p h) g [.doBits retries p h, .threadDown]
      [.doRetry retries, .threadDown] := by
  have hdone : ∀ {g : Shared} {h : Nat}, Parked v t g →
      Gets v t n (InCopy v 0 h) g [.doBits retries 0 h, .threadDown]
        [.doRetry retries, .threadDown] := by
    intro g h hparked
    refine .skip rfl (.refl hparked ?_)
    rintro ⟨_, hbit⟩
    simp at hbit
  induction k with
  | zero =>
      intro g p h hp hparked _
      rw [show p = 0 from BitVec.eq_of_toNat_eq (by simpa using hp)]
      exact hdone hparked
  | succ k ih =>
      intro g p h hp hparked hreach
      by_cases hzero : p = 0
      · rw [hzero]
        exact hdone hparked
      · have hshift : (p >>> 1).toNat < 2 ^ k := by
          rw [BitVec.toNat_ushiftRight, Nat.shiftRight_eq_div_pow]
          omega
        -- the bit of the list is the lowest one, or among those that are left
        have hcopy : InCopy v p h → (p.getLsbD 0 = true ∧ h = v.nr.val) ∨
            InCopy v (p >>> 1) (h + 1) := by
          rintro ⟨hle, hbit⟩
          by_cases hnow : h = v.nr.val
          · rw [← hnow, Nat.sub_self] at hbit
            exact .inl ⟨hbit, hnow⟩
          · refine .inr ⟨by omega, ?_⟩
            rw [getLsbD_shift p (by omega)]
            exact hbit
        by_cases hlow : p.getLsbD 0 = true
        · have hs : code.exec g (.doBits retries p h) .go =
              some (g, [softirqVec h, .doBits retries (p >>> 1) (h + 1)]) := by
            simp only [code, exec, if_neg hzero, if_pos hlow]
          refine .skip hs ?_
          have hnext : machine.Reachable
              (solo g [softirqVec h, .doBits retries (p >>> 1) (h + 1), .threadDown] n) :=
            Alone.reachable (.head hs (.of_eq rfl)) hreach
          exact .trans hnext (gets_softirqVec hparked hnext)
            (fun g' hparked' hreach' => ih hshift hparked' hreach')
            (fun hdue => (hcopy hdue).imp_left And.right)
        · have hs : code.exec g (.doBits retries p h) .go =
              some (g, [.doBits retries (p >>> 1) (h + 1)]) := by
            simp only [code, exec, if_neg hzero, if_neg hlow]
          have hnext : machine.Reachable
              (solo g [.doBits retries (p >>> 1) (h + 1), .threadDown] n) :=
            Alone.reachable (.head hs (.of_eq rfl)) hreach
          refine .skip hs ((ih hshift hparked hnext).mono ?_)
          intro hdue
          exact (hcopy hdue).resolve_left (fun hnow => hlow hnow.1)

/-- A disabled tasklet is on the list, and the softirq of the list pending. -/
structure Hot (v : Vec) (t : Nat) (g : Shared) : Prop extends Parked v t g where
  raised : g.raised v = true

theorem Hot.pending (h : Hot v t g) : g.pending ≠ 0 := by
  intro hzero
  have hbit := h.raised
  rw [Shared.raised, hzero] at hbit
  simp at hbit

/-- A round puts a token in, and the softirq is pending again. -/
theorem round_hot {retries : Nat} (h : Hot v t g)
    (hreach : machine.Reachable (solo g [.doLoad retries, .threadDown] n)) :
    ∃ g', code.Alone 0 .go (solo g [.doLoad retries, .threadDown] n)
        (solo g' [.doRetry retries, .threadDown] n) ∧ Hot v t g' ∧
      g.softirqSem + 1 ≤ g'.softirqSem := by
  have hclear : code.Alone 0 .go (solo g [.doLoad retries, .threadDown] n)
      (solo { g with pending := 0 } [.doBits retries g.pending 0, .threadDown] n) :=
    .head rfl (.head rfl (.of_eq rfl))
  have hparked : Parked v t { g with pending := 0 } := ⟨h.list, h.count⟩
  obtain ⟨g', halone, hgains⟩ := gets_bits (v := v) (t := t) 32 g.pending.isLt hparked
    (Alone.reachable hclear hreach)
  have hdue : InCopy v g.pending 0 := ⟨Nat.zero_le _, h.raised⟩
  exact ⟨g', hclear.trans halone, ⟨hgains.parked, hgains.raised (.inr hdue)⟩, hgains.gain hdue⟩

/-- The rounds that are left of a pass. -/
theorem rounds_hot (retries : Nat) : ∀ {g : Shared}, Hot v t g →
    machine.Reachable (solo g [.doLoad (retries + 1), .threadDown] n) →
    ∃ g', code.Alone 0 .go (solo g [.doLoad (retries + 1), .threadDown] n)
        (solo g' [.threadDown] n) ∧ Hot v t g' ∧
      g.softirqSem + (retries + 1) ≤ g'.softirqSem := by
  induction retries with
  | zero =>
      intro g h hreach
      obtain ⟨g', hround, hhot, htokens⟩ := round_hot h hreach
      refine ⟨g', hround.trans (.head rfl (.of_eq ?_)), hhot, htokens⟩
      simp [solo]
  | succ retries ih =>
      intro g h hreach
      obtain ⟨g₁, hround, hhot, htokens⟩ := round_hot h hreach
      have hagain : exec g₁ (.doRetry (retries + 2)) .go = some (g₁, [.doLoad (retries + 1)]) := by
        simp only [exec, if_pos (show g₁.pending ≠ 0 ∧ retries + 2 - 1 ≠ 0 from
          ⟨hhot.pending, by omega⟩)]
        rfl
      have hnext : code.Alone 0 .go (solo g [.doLoad (retries + 2), .threadDown] n)
          (solo g₁ [.doLoad (retries + 1), .threadDown] n) :=
        hround.trans (.head hagain (.of_eq rfl))
      obtain ⟨g₂, hrest, hhot', htokens'⟩ := ih hhot (Alone.reachable hnext hreach)
      exact ⟨g₂, hnext.trans hrest, hhot', by omega⟩

/-- A pass: one token out, ten or more in. -/
theorem pass_hot (h : Hot v t g) (hpos : 0 < g.softirqSem)
    (hreach : machine.Reachable (solo g [.threadDown] n)) :
    ∃ g', code.Alone 0 .go (solo g [.threadDown] n) (solo g' [.threadDown] n) ∧ Hot v t g' ∧
      g.softirqSem + 9 ≤ g'.softirqSem := by
  obtain ⟨k, hk⟩ : ∃ k, g.softirqSem = k + 1 := ⟨g.softirqSem - 1, by omega⟩
  have hhot : Hot v t { g with softirqSem := k } := ⟨⟨h.list, h.count⟩, h.raised⟩
  have hstart : code.Alone 0 .go (solo g [.threadDown] n)
      (solo { g with softirqSem := k } [.doLoad maxSoftirqRetries, .threadDown] n) := by
    refine .head (by simp only [code, exec, hk]; rfl) ?_
    exact .head (by simp only [code, exec, if_neg h.pending]; rfl) (.of_eq rfl)
  obtain ⟨g', hrounds, hhot', htokens⟩ := rounds_hot 9 hhot (Alone.reachable hstart hreach)
  refine ⟨g', hstart.trans hrounds, hhot', ?_⟩
  change k + 10 ≤ _ at htokens
  omega

/-- Pass after pass, the tokens grow above every number. -/
theorem grows (bound : Nat) : ∀ {g : Shared}, Hot v t g → 0 < g.softirqSem →
    machine.Reachable (solo g [.threadDown] n) →
    ∃ g', code.Alone 0 .go (solo g [.threadDown] n) (solo g' [.threadDown] n) ∧
      g.softirqSem + bound ≤ g'.softirqSem := by
  induction bound with
  | zero =>
      intro g _ _ _
      exact ⟨g, .of_eq rfl, Nat.le_refl _⟩
  | succ bound ih =>
      intro g h hpos hreach
      obtain ⟨g₁, hpass, hhot, htokens⟩ := pass_hot h hpos hreach
      obtain ⟨g₂, hrest, htokens'⟩ := ih hhot (by omega) (Alone.reachable hpass hreach)
      exact ⟨g₂, hpass.trans hrest, by omega⟩

end

/-! ## When the tokens are bounded -/

/-- The tokens stay below the bound, however long the softirq thread runs. -/
def StaysBelow (c : Conf Shared (List Frame)) (bound : Nat) : Prop :=
  ∀ steps c', machine.run c (List.replicate steps (0, .go)) = some c' →
    c'.shared.softirqSem ≤ bound

/-- **When the tokens are bounded.**  Other threads make any number of raise and schedule calls, and
after that a scheduled tasklet is disabled.  However long the softirq thread runs then, the tokens
stay below a bound exactly if the calls have left no token, or no list with a disabled tasklet has
its softirq pending; and then there are never more tokens than calls. -/
theorem tokens_bounded_iff {c₀ c : Conf Shared (List Frame)} {before : List (Nat × Choice)}
    (h : WaitsDisabled c₀ c before) :
    ((∃ bound, StaysBelow c bound) ↔ c.shared.softirqSem = 0 ∨
        ∀ v, c.shared.raised v = true → ∀ t ∈ c.shared.list v, (c.shared.tasklets t).count = 0) ∧
      ((∃ bound, StaysBelow c bound) → StaysBelow c (machine.spent raiseCalls c₀ before)) := by
  obtain ⟨n, hpool⟩ := h.threads
  obtain ⟨g, pool⟩ := c
  have hpool : pool = [.threadDown] :: List.replicate n [] := h.returned.trans hpool
  subst hpool
  have hreach : machine.Reachable (solo g [.threadDown] n) :=
    Machine.Reachable.run (.init h.init) before h.before
  have hcalls : g.softirqSem ≤ machine.spent raiseCalls c₀ before := h.tokens_le
  have henough : (g.softirqSem = 0 ∨ Cool g) →
      StaysBelow (solo g [.threadDown] n) (machine.spent raiseCalls c₀ before) := by
    rintro (hzero | hcool) steps c' hrun
    · -- without a token there is no step
      cases steps with
      | zero =>
          cases hrun
          exact hcalls
      | succ steps =>
          rw [List.replicate_succ, Machine.run] at hrun
          split at hrun
          · rename_i d hd
            obtain ⟨_, _, hs, _⟩ := Code.machine_step_cons rfl hd
            simp [code, exec, solo, hzero] at hs
          · cases hrun
    · exact (cold_run (.down hcool) hreach steps hrun).trans hcalls
  have hneeded : (∃ bound, StaysBelow (solo g [.threadDown] n) bound) →
      g.softirqSem = 0 ∨ Cool g := by
    rintro ⟨bound, hbound⟩
    by_contra hnot
    obtain ⟨hpos, hhot⟩ := not_or.mp hnot
    simp only [Cool, Enabled, not_forall] at hhot
    obtain ⟨v, hraised, t, hlist, hcount⟩ := hhot
    obtain ⟨g', ⟨steps, hrun⟩, htokens⟩ :=
      grows (bound + 1) (⟨⟨hlist, hcount⟩, hraised⟩ : Hot v t g) (by omega) hreach
    have hle := hbound steps _ hrun
    change g'.softirqSem ≤ bound at hle
    omega
  exact ⟨⟨hneeded, fun hcond => ⟨_, henough hcond⟩⟩, fun hbounded => henough (hneeded hbounded)⟩

/-- All tasklets are declared as disabled. -/
def declaredDisabled : Shared :=
  { afterInit with tasklets := fun _ => ⟨false, false, 1⟩, hist := fun _ => ⟨0, 0, 1⟩ }

theorem declaredDisabled_init : code.init declaredDisabled :=
  ⟨rfl, rfl, fun _ => ⟨rfl, rfl⟩, fun _ => ⟨rfl, rfl, rfl, rfl, rfl⟩⟩

/-- Thread 2 raises softirq 3, and thread 1 schedules a disabled tasklet between the load and the
store: the bit of the tasklet's list is lost. -/
def scheduleBetween : List (Nat × Choice) :=
  (2, .call (.raiseSoftirq ⟨3, by decide⟩)) :: (2, .go) :: (1, .call (.taskletSchedule 7)) ::
    List.replicate 5 (1, .go) ++ [(2, .go), (2, .go)]

/-- The disabled tasklet is scheduled and nothing is pending for it: the two tokens of the two calls
are all there ever are. -/
theorem tokens_bounded_lost_bit : ∃ c,
    WaitsDisabled ⟨declaredDisabled, [[.threadDown], [], []]⟩ c scheduleBetween ∧
    c.shared.softirqSem = 2 ∧ StaysBelow c 2 := by
  have hrun : (machine.run ⟨declaredDisabled, [[.threadDown], [], []]⟩ scheduleBetween).map
      (fun c => (c.pool, c.shared.pending, c.shared.softirqSem, c.shared.tasklets 7)) =
      some ([[.threadDown], [], []], bit ⟨3, by decide⟩, 2, ⟨true, false, 1⟩) := rfl
  obtain ⟨c, hc, hfields⟩ := Option.map_eq_some_iff.mp hrun
  simp only [Prod.mk.injEq] at hfields
  obtain ⟨hpool, hpending, hsem, htasklet⟩ := hfields
  have hwaits : WaitsDisabled ⟨declaredDisabled, [[.threadDown], [], []]⟩ c scheduleBetween :=
    { init := ⟨declaredDisabled_init, by simp [code, Code.prog]⟩
      threads := ⟨2, rfl⟩
      others := by decide
      before := hc
      returned := hpool
      disabled := ⟨7, by rw [htasklet], by rw [htasklet]; decide⟩ }
  refine ⟨c, hwaits, hsem, ?_⟩
  have hbounded := tokens_bounded_iff hwaits
  have hspent : machine.spent raiseCalls ⟨declaredDisabled, [[.threadDown], [], []]⟩
      scheduleBetween = 2 := by decide
  rw [hspent] at hbounded
  apply hbounded.2
  apply hbounded.1.mpr
  right
  intro v hraised
  rw [Shared.raised, hpending] at hraised
  cases v <;> exact absurd hraised (by decide)

/-! ## No bound in the number of calls -/

/-- The tokens are bounded by the number of raise and schedule calls, by some function of it. -/
def TokensBounded : Prop :=
  ∃ bound : Nat → Nat, ∀ c₀ c before, WaitsDisabled c₀ c before →
    StaysBelow c (bound (machine.spent raiseCalls c₀ before))

/-- A disabled tasklet is scheduled once, by thread 1. -/
def scheduleOnce : List (Nat × Choice) :=
  (1, .call (.taskletSchedule 7)) :: List.replicate 5 (1, .go)

theorem scheduleOnce_hot :
    ∃ g, machine.run (solo declaredDisabled [.threadDown] 1) scheduleOnce =
      some (solo g [.threadDown] 1) ∧ Hot .low 7 g ∧ g.softirqSem = 1 ∧
    (g.tasklets 7).sched = true := by
  have hrun : (machine.run (solo declaredDisabled [.threadDown] 1) scheduleOnce).map (fun c =>
      (c.pool, c.shared.pending, c.shared.softirqSem, c.shared.list .low, c.shared.tasklets 7)) =
      some ([[.threadDown], []], bit Vec.low.nr, 1, [7], ⟨true, false, 1⟩) :=
    rfl
  obtain ⟨⟨g, pool⟩, hc, hfields⟩ := Option.map_eq_some_iff.mp hrun
  simp only [Prod.mk.injEq] at hfields
  obtain ⟨rfl, hpending, hsem, hlist, htasklet⟩ := hfields
  refine ⟨g, hc, ⟨⟨?_, ?_⟩, ?_⟩, hsem, ?_⟩
  · rw [hlist]
    exact List.mem_singleton_self 7
  · rw [htasklet]
    decide
  · rw [Shared.raised, hpending]
    decide
  · rw [htasklet]

/-- One call is enough: the tokens grow above every number, so none bounds them. -/
theorem tokens_unbounded : ¬ TokensBounded := by
  rintro ⟨bound, hbound⟩
  obtain ⟨g, hrun, hhot, hsem, hsched⟩ := scheduleOnce_hot
  have hinit : machine.init (solo declaredDisabled [.threadDown] 1) :=
    ⟨declaredDisabled_init, by simp [solo, code, Code.prog]⟩
  have hone :
      machine.spent raiseCalls (solo declaredDisabled [.threadDown] 1) scheduleOnce = 1 := by
    decide
  have hbelow := hbound _ _ scheduleOnce
    { init := hinit
      threads := ⟨1, rfl⟩
      others := by decide
      before := hrun
      returned := rfl
      disabled := ⟨7, hsched, hhot.count⟩ }
  obtain ⟨g', ⟨steps, halone⟩, htokens⟩ := grows (bound 1) hhot (by omega)
    (Machine.Reachable.run (.init hinit) scheduleOnce hrun)
  have hle := hbelow steps _ halone
  rw [hone] at hle
  change g'.softirqSem ≤ bound 1 at hle
  omega

end LinuxDrivers.Kernel.Softirq
