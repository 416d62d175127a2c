/-
# `LinuxDrivers.Kernel.LazyLock` — programs on a lock that is initialised when it is used

Wait queues, completions, semaphores and mutexes have a spin lock inside.  Set up by
a function (`init_waitqueue_head`, `init_completion`, `sema_init`, `mutex_init`), the lock
is initialised; declared by a macro (`DECLARE_WAIT_QUEUE_HEAD`, `DECLARE_COMPLETION`,
`DECLARE_MUTEX`, `DEFINE_MUTEX`), it has `need_init` set, and `spin_lock` and `spin_unlock`
begin with `COND_INIT_LOCK`:

    if ((l)->need_init) spin_lock_init(l);

A program on an initialised lock is one thing to reason about, and the accesses in front of
its lock operations are another.  `Locking` is a program on an initialised lock, with the
places where it calls the DDE kit; `Locking.lazy` is the same program with the accesses of
`COND_INIT_LOCK` in front of each of these calls.

**Proved here.**

    no re-initialisation under a holder  ⟹  what the program reaches is what it
    reaches on an initialised lock                              (`Locking.reach_base`)
    a lock initialised before is never initialised again        (`Locking.reach_initialised`)
-/
import LinuxDrivers.Kernel.SpinLock

namespace LinuxDrivers.Kernel.LazyLock

open LinuxDrivers.Lib LinuxDrivers.Kernel.SpinLock

/-! ## Programs on an initialised lock -/

/-- A program whose threads use one lock, taken exactly while one of them holds it. -/
structure Locking (σ π α : Type) where
  prog : Prog σ π α
  /-- the DDE kit lock is taken -/
  taken : σ → Bool
  setTaken : σ → Bool → σ
  /-- the thread's next access is `dde_kit_spin_lock_lock` or `dde_kit_spin_lock_unlock` -/
  calls : π → Bool
  /-- 1 for a thread between the two -/
  holds : π → Nat
  setTaken_self : ∀ g, setTaken g (taken g) = g
  total_holds : ∀ c, prog.machine.Reachable c → total holds c.pool = (taken c.shared).toNat

/-! ## With `COND_INIT_LOCK` -/

/-- The accesses of `spin_lock` and of `spin_unlock`. -/
inductive Access where
  /-- about to test `need_init` -/
  | test
  /-- saw `need_init` set; about to call `dde_kit_spin_lock_init` -/
  | reset
  /-- about to store `need_init = 0` -/
  | clear
  /-- about to call the DDE kit operation -/
  | kit
  deriving DecidableEq, Repr

structure Lazy (σ : Type) where
  base : σ
  needInit : Bool
  deriving DecidableEq

structure Thread (π : Type) where
  pc : π
  access : Access
  deriving DecidableEq, Repr

/-- The state of the program itself. -/
def base {σ π : Type} (c : Conf (Lazy σ) (Thread π)) : Conf σ π :=
  ⟨c.shared.base, c.pool.map (·.pc)⟩

namespace Locking

variable {σ π α : Type} (L : Locking σ π α)

/-- The lock as it is in memory. -/
def spinlockT (g : Lazy σ) : SpinlockT := ⟨L.taken g.base, g.needInit⟩

/-- One access of thread `i` of the program itself. -/
def baseStep (i : Nat) (g : Lazy σ) (t : Thread π) (a : α) : Option (Lazy σ × Thread π) :=
  (L.prog.step i g.base t.pc a).map fun r => (⟨r.1, g.needInit⟩, ⟨r.2, .test⟩)

/-- One access of thread `i`. -/
def step (i : Nat) (g : Lazy σ) (t : Thread π) (a : α) : Option (Lazy σ × Thread π) :=
  if L.calls t.pc then
    match t.access with
    | .test => some (g, ⟨t.pc, if (L.spinlockT g).needInit then .reset else .kit⟩)
    | .reset =>
        some (⟨L.setTaken g.base (ddeKitSpinLockInit (L.spinlockT g)).ddeKitSpinLock, g.needInit⟩,
          ⟨t.pc, .clear⟩)
    | .clear => some (⟨g.base, false⟩, ⟨t.pc, .kit⟩)
    | .kit => L.baseStep i g t a
  else L.baseStep i g t a

/-- The lock is not taken; it may have been initialised or not. -/
def lazy : Prog (Lazy σ) (Thread π) α where
  init g := L.prog.init g.base
  start t := L.prog.start t.pc ∧ t.access = .test
  step := L.step

def machine : Machine (Conf (Lazy σ) (Thread π)) (Nat × α) := L.lazy.machine

/-- The lock has been initialised before. -/
def initialised : Prog (Lazy σ) (Thread π) α :=
  { L.lazy with init := fun g => L.prog.init g.base ∧ g.needInit = false }

/-- The thread is about to initialise the lock. -/
def resets (t : Thread π) : Bool := L.calls t.pc && t.access == .reset

/-- The condition: `COND_INIT_LOCK` re-initialises the lock only while nobody holds it. -/
def noResetUnderHolder (c : Conf (Lazy σ) (Thread π)) (ia : Nat × α) : Bool :=
  match c.pool[ia.1]? with
  | some t => !L.resets t || c.pool.all (fun u => L.holds u.pc == 0)
  | none => true

/-- And the steps of the program itself meet a condition of their own. -/
def keeps (ok : Conf σ π → Nat × α → Prop) (c : Conf (Lazy σ) (Thread π)) (ia : Nat × α) : Prop :=
  L.noResetUnderHolder c ia = true ∧ ok (base c) ia

instance (ok : Conf σ π → Nat × α → Prop) [∀ c ia, Decidable (ok c ia)] (c) (ia) :
    Decidable (L.keeps ok c ia) :=
  inferInstanceAs (Decidable (_ ∧ _))

/-! ## The program itself makes the same step, or none -/

variable {L}

theorem baseStep_some {i : Nat} {g g' : Lazy σ} {t t' : Thread π} {a : α}
    (h : L.baseStep i g t a = some (g', t')) :
    L.prog.step i g.base t.pc a = some (g'.base, t'.pc) ∧ g'.needInit = g.needInit ∧
      t'.access = .test := by
  obtain ⟨⟨g₁, p₁⟩, hs, heq⟩ := Option.map_eq_some_iff.mp h
  cases heq
  exact ⟨hs, rfl, rfl⟩

/-- An access: of the program itself, or one that leaves it where it is. -/
theorem step_cases {i : Nat} {g g' : Lazy σ} {t t' : Thread π} {a : α}
    (h : L.step i g t a = some (g', t')) :
    L.baseStep i g t a = some (g', t') ∨
      t'.pc = t.pc ∧
        (g'.base = g.base ∨ L.resets t = true ∧ g'.base = L.setTaken g.base false) := by
  obtain ⟨pc, access⟩ := t
  simp only [step] at h
  split at h
  · rename_i hcalls
    cases access with
    | test | clear =>
        cases h
        exact .inr ⟨rfl, .inl rfl⟩
    | reset =>
        cases h
        exact .inr ⟨rfl, .inr ⟨by rw [resets, hcalls]; rfl, rfl⟩⟩
    | kit => exact .inl h
  · exact .inl h

theorem base_set (c : Conf (Lazy σ) (Thread π)) (g : Lazy σ) (i : Nat) (t : Thread π) :
    base ⟨g, c.pool.set i t⟩ = ⟨g.base, (base c).pool.set i t.pc⟩ := by
  simp only [base, List.map_set]

theorem base_getElem? {c : Conf (Lazy σ) (Thread π)} {i : Nat} {t : Thread π}
    (h : c.pool[i]? = some t) : (base c).pool[i]? = some t.pc := by
  simp only [base, List.getElem?_map, h, Option.map_some]

/-- Without a holder the lock is free, and initialising it changes nothing. -/
theorem setTaken_base {c : Conf (Lazy σ) (Thread π)} {ok : Conf σ π → Nat × α → Prop}
    (h : L.prog.machine.Reach ok (base c)) (hnone : ∀ u ∈ c.pool, L.holds u.pc = 0) :
    L.setTaken c.shared.base false = c.shared.base := by
  have hzero : total L.holds (base c).pool = 0 := by
    apply total_eq_zero
    intro p hp
    obtain ⟨u, hu, rfl⟩ := List.mem_map.mp hp
    exact hnone u hu
  have htaken := L.total_holds _ h.reachable
  rw [hzero] at htaken
  have hfree : L.taken c.shared.base = false := by
    cases hb : L.taken c.shared.base with
    | false => rfl
    | true =>
        simp only [base, hb] at htaken
        cases htaken
  have hself := L.setTaken_self c.shared.base
  rw [hfree] at hself
  exact hself

/-- **The program on a lazily initialised lock.**  As long as the lock is not re-initialised under
a holder, the program is in a state it reaches on an initialised lock. -/
theorem reach_base {ok : Conf σ π → Nat × α → Prop} {c : Conf (Lazy σ) (Thread π)}
    (h : L.machine.Reach (L.keeps ok) c) : L.prog.machine.Reach ok (base c) := by
  have hsim : ∃ b, L.prog.machine.Reach ok b ∧ b = base c := by
    refine Machine.Reach.simulates (fun c b => b = base c) ?_ ?_ h
    · intro c hc
      refine ⟨base c, ⟨hc.1, ?_⟩, rfl⟩
      intro p hp
      obtain ⟨t, ht, rfl⟩ := List.mem_map.mp hp
      exact (hc.2 t ht).1
    · rintro c ⟨i, a⟩ c' b _ hok hst hb rfl
      obtain ⟨t, g, t', ht, hs, rfl⟩ := Prog.machine_step hst
      have hp := base_getElem? ht
      rcases step_cases hs with hbase | ⟨hpc, hsame⟩
      · right
        obtain ⟨hstep, -, -⟩ := baseStep_some hbase
        refine ⟨(i, a), ⟨g.base, (base c).pool.set i t'.pc⟩, hok.2, ?_, (base_set c g i t').symm⟩
        have hbase : (base c).shared = c.shared.base := rfl
        simp only [Prog.machine, hp, hbase, hstep]
      · left
        have hshared : g.base = c.shared.base := by
          rcases hsame with hsame | ⟨hreset, hset⟩
          · exact hsame
          · have hnone := hok.1
            simp only [noResetUnderHolder, ht, hreset, Bool.not_true, Bool.false_or,
              List.all_eq_true, beq_iff_eq] at hnone
            rw [hset]
            exact setTaken_base hb hnone
        obtain ⟨hi, hat⟩ := List.getElem?_eq_some_iff.mp hp
        rw [base_set, hpc, hshared, ← hat, List.set_getElem_self]
        rfl
  obtain ⟨b, hb, rfl⟩ := hsim
  exact hb

/-- The lock is initialised, and nobody is about to initialise it. -/
structure Initialised (c : Conf (Lazy σ) (Thread π)) : Prop where
  needInit : c.shared.needInit = false
  access : ∀ t ∈ c.pool, t.access ≠ .reset

theorem Initialised.noReset {c : Conf (Lazy σ) (Thread π)} (h : Initialised c) (ia : Nat × α) :
    L.noResetUnderHolder c ia = true := by
  simp only [noResetUnderHolder]
  split
  · rename_i t ht
    have hne := h.access t (List.mem_of_getElem? ht)
    have hnot : L.resets t = false := by
      simp only [resets, Bool.and_eq_false_iff, beq_eq_false_iff_ne]
      exact .inr hne
    rw [hnot]
    rfl
  · rfl

theorem Initialised.step {c c' : Conf (Lazy σ) (Thread π)} {ia : Nat × α} (h : Initialised c)
    (hs : L.machine.step c ia = some c') : Initialised c' := by
  obtain ⟨t, g, t', ht, hstep, rfl⟩ := Prog.machine_step hs
  have hnext : g.needInit = false ∧ t'.access ≠ .reset := by
    change L.step ia.1 c.shared t ia.2 = some (g, t') at hstep
    have hbase : ∀ {g t'}, L.baseStep ia.1 c.shared t ia.2 = some (g, t') →
        g.needInit = false ∧ t'.access ≠ .reset := by
      intro g t' hb
      obtain ⟨-, hneed, hacc⟩ := baseStep_some hb
      exact ⟨hneed.trans h.needInit, by rw [hacc]; decide⟩
    simp only [Locking.step] at hstep
    split at hstep
    · split at hstep
      · cases hstep
        refine ⟨h.needInit, ?_⟩
        simp only [spinlockT, h.needInit]
        decide
      · cases hstep
        exact ⟨h.needInit, Access.noConfusion⟩
      · cases hstep
        exact ⟨rfl, Access.noConfusion⟩
      · exact hbase hstep
    · exact hbase hstep
  refine ⟨hnext.1, ?_⟩
  intro u hu
  rcases List.mem_or_eq_of_mem_set hu with hold | rfl
  · exact h.access u hold
  · exact hnext.2

/-- **A lock initialised before** is never initialised again, so every run meets the condition. -/
theorem reach_initialised {ok : Conf σ π → Nat × α → Prop} {c : Conf (Lazy σ) (Thread π)}
    (h : L.initialised.machine.Reach (fun c ia => ok (base c) ia) c) :
    L.machine.Reach (L.keeps ok) c := by
  have hboth : L.machine.Reach (L.keeps ok) c ∧ Initialised c := by
    induction h with
    | @init c hc =>
        refine ⟨.init ⟨hc.1.1, hc.2⟩, hc.1.2, ?_⟩
        intro t ht
        rw [(hc.2 t ht).2]
        exact Access.noConfusion
    | step ia _ hok hst ih =>
        obtain ⟨hreach, hinit⟩ := ih
        exact ⟨.step ia hreach ⟨hinit.noReset ia, hok⟩ hst, hinit.step hst⟩
  exact hboth.1

end Locking

end LinuxDrivers.Kernel.LazyLock
