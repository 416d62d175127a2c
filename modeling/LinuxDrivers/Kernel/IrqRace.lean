/-
# `LinuxDrivers.Kernel.IrqRace` — the interrupt-disable counter, between threads

`IrqFlags` runs the functions of `cli_sti.c` one after the other.  Their accesses to the counter are
atomic one by one, but enabling is many of them:

    raw_local_irq_disable      atomic_inc
    raw_local_irq_enable       i = atomic_read;  i times:  atomic_dec

So the counter may have changed between the read and the decrements, and two threads that enable at
the same time both bring it down by all of it.  Besides, it is an `int`, and 2^31 increments with
nothing in between make it negative by themselves.

**Proved here.**

    one thread at a time, these are the functions of `IrqFlags`  (`run_enable`)
    for which threads the counter stays at least 0               (`irq_counter_iff`)
-/
import LinuxDrivers.Kernel.IrqFlags
import LinuxDrivers.Lib.Interleave

namespace LinuxDrivers.Kernel.IrqRace

open LinuxDrivers.Lib
open LinuxDrivers.Kernel.IrqFlags

/-! ## The accesses, one at a time -/

structure Shared where
  /-- `_refcnt` -/
  refcnt : Word
  /-- history: how often interrupts were disabled -/
  disables : Nat
  deriving DecidableEq, Repr

/-- The decrements a thread still has to make; it is outside of both functions if there are none. -/
structure Point where
  left : Nat
  deriving DecidableEq, Repr

/-- The functions a thread may call. -/
inductive Call where
  | disable
  | enable
  deriving DecidableEq, Repr

inductive Action where
  | call (f : Call)
  | dec
  deriving DecidableEq, Repr

/-- One access of a thread.  Disabling is one, enabling is a read and then the decrements. -/
def step (g : Shared) : Point → Action → Option (Shared × Point)
  | ⟨0⟩, .call .disable => some (⟨rawLocalIrqDisable g.refcnt, g.disables + 1⟩, ⟨0⟩)
  | ⟨0⟩, .call .enable => some (g, ⟨(intOfWord g.refcnt).toNat⟩)
  | ⟨i + 1⟩, .dec => some ({ g with refcnt := g.refcnt - 1 }, ⟨i⟩)
  | _, _ => none

def prog : Prog Shared Point Action where
  init g := g = ⟨0, 0⟩
  start p := p = ⟨0⟩
  step _ := step

def machine : Machine (Conf Shared Point) (Nat × Action) := prog.machine

/-- Each thread calls only what it may. -/
def allowed (may : Nat → Call → Prop) (_ : Conf Shared Point) (ia : Nat × Action) : Prop :=
  ∀ f, ia.2 = .call f → may ia.1 f

/-- In every state that is reached with at most so many increments, the counter is not negative. -/
def NeverNegative (may : Nat → Call → Prop) (most : Nat) : Prop :=
  ∀ c, machine.Reach (allowed may) c → c.shared.disables ≤ most → 0 ≤ intOfWord c.shared.refcnt

/-! ## One thread at a time -/

theorem run_decs {i : Nat} (pool : List Point) (hi : i < pool.length) (k : Nat) (g : Shared) :
    machine.run ⟨g, pool.set i ⟨k⟩⟩ (List.replicate k (i, .dec)) =
      some ⟨{ g with refcnt := decLoop k g.refcnt }, pool.set i ⟨0⟩⟩ := by
  induction k generalizing g with
  | zero => rfl
  | succ k ih =>
      have hp : (pool.set i ⟨k + 1⟩)[i]? = some ⟨k + 1⟩ := List.getElem?_set_self hi
      rw [List.replicate_succ, machine, Prog.machine_run_cons hp rfl, List.set_set]
      exact ih _

/-- Without another thread in between, the accesses of `raw_local_irq_enable` are the function. -/
theorem run_enable {c : Conf Shared Point} {i : Nat} (hi : c.pool[i]? = some ⟨0⟩) :
    machine.run c ((i, .call .enable) ::
        List.replicate (intOfWord c.shared.refcnt).toNat (i, .dec)) =
      some { c with shared := { c.shared with refcnt := rawLocalIrqEnable c.shared.refcnt } } := by
  obtain ⟨hlt, hget⟩ := List.getElem?_eq_some_iff.mp hi
  rw [machine, Prog.machine_run_cons hi rfl]
  refine (run_decs c.pool hlt _ c.shared).trans ?_
  rw [← hget, List.set_getElem_self]
  rfl

/-! ## The counter stays at least 0 -/

/-- Only what is in the counter is taken from it: by one thread at a time, and before the counter
is full. -/
def Safe (may : Nat → Call → Prop) (most : Nat) : Prop :=
  most = 0 ∨ (∀ i j, may i .enable → may j .enable → i = j) ∧ most < 2 ^ 31

/-- What is known of the counter. -/
def Bounded (most : Nat) (g : Shared) : Prop := g.disables ≤ most → g.refcnt.toNat ≤ g.disables

/-- What is known of a thread: it takes no more from the counter than there is. -/
structure Covered (may : Nat → Call → Prop) (most i : Nat) (g : Shared) (p : Point) : Prop where
  enabler : p.left ≠ 0 → may i .enable
  left : g.disables ≤ most → p.left ≤ g.refcnt.toNat

section

variable {may : Nat → Call → Prop} {most i j : Nat} {g g' : Shared} {p p' q : Point} {a : Action}

theorem step_cases (hs : step g p a = some (g', p')) :
    (p.left = 0 ∧ a = .call .disable ∧ g' = ⟨g.refcnt + 1, g.disables + 1⟩ ∧ p'.left = 0) ∨
    (p.left = 0 ∧ a = .call .enable ∧ g' = g ∧ p'.left = (intOfWord g.refcnt).toNat) ∨
    (p.left = p'.left + 1 ∧ a = .dec ∧ g' = { g with refcnt := g.refcnt - 1 }) := by
  obtain ⟨left⟩ := p
  cases left with
  | zero =>
      cases a with
      | call f =>
          cases f with
          | disable =>
              cases hs
              exact .inl ⟨rfl, rfl, rfl, rfl⟩
          | enable =>
              cases hs
              exact .inr (.inl ⟨rfl, rfl, rfl, rfl⟩)
      | dec => cases hs
  | succ k =>
      cases a with
      | call f => cases hs
      | dec =>
          cases hs
          exact .inr (.inr ⟨rfl, rfl, rfl⟩)

theorem toNat_intOfWord_le (w : Word) : (intOfWord w).toNat ≤ w.toNat := by
  rw [intOfWord, BitVec.toInt_eq_toNat_cond]
  split <;> omega

theorem Safe.lt (h : Safe may most) : most < 2 ^ 31 := by
  rcases h with h0 | ⟨-, hlt⟩
  · rw [h0]
    exact Nat.two_pow_pos 31
  · exact hlt

theorem step_disable (hsafe : Safe may most) (hS : Bounded most g)
    (hle : g.disables + 1 ≤ most) : (g.refcnt + 1).toNat = g.refcnt.toNat + 1 := by
  have hroom := hsafe.lt
  have := hS (by omega)
  exact BitVec.toNat_add_of_lt (show g.refcnt.toNat + 1 < 2 ^ 32 by omega)

theorem step_dec (hp : p.left = p'.left + 1) (hR : Covered may most i g p)
    (hle : g.disables ≤ most) : (g.refcnt - 1).toNat = g.refcnt.toNat - 1 := by
  have := hR.left hle
  exact BitVec.toNat_sub_of_le (show (1 : Word) ≤ g.refcnt from
    BitVec.le_def.mpr (show 1 ≤ g.refcnt.toNat by omega))

/-- While a thread takes something from the counter, no other one does. -/
theorem step_dec_alone (hsafe : Safe may most) (hS : Bounded most g) (hp : p.left = p'.left + 1)
    (hR : Covered may most i g p) (hji : j ≠ i) (hq : Covered may most j g q)
    (hle : g.disables ≤ most) : q.left = 0 := by
  by_contra hne
  rcases hsafe with h0 | ⟨hone, -⟩
  · have := hS hle
    have := hR.left hle
    omega
  · exact hji (hone j i (hq.enabler hne) (hR.enabler (by omega)))

/-- What one access keeps: the bound, what is known of its thread and of every other one. -/
theorem step_keeps (hsafe : Safe may most) (hok : ∀ f, a = .call f → may i f)
    (hs : step g p a = some (g', p')) (hS : Bounded most g) (hR : Covered may most i g p) :
    Bounded most g' ∧ Covered may most i g' p' ∧
      ∀ j q, j ≠ i → Covered may most j g q → Covered may most j g' q := by
  rcases step_cases hs with ⟨hp, rfl, rfl, hp'⟩ | ⟨hp, rfl, rfl, hp'⟩ | ⟨hp, rfl, rfl⟩
  · have hgrow (hle : g.disables + 1 ≤ most) := step_disable hsafe hS hle
    refine ⟨?_, ⟨fun h => absurd hp' h, fun _ => hp'.trans_le (Nat.zero_le _)⟩, ?_⟩
    · intro hle
      have := hS (Nat.le_of_succ_le hle)
      rw [hgrow hle]
      exact Nat.succ_le_succ this
    · intro j q _ hq
      refine ⟨hq.enabler, ?_⟩
      intro hle
      rw [hgrow hle]
      exact Nat.le_succ_of_le (hq.left (Nat.le_of_succ_le hle))
  · refine ⟨hS, ⟨fun _ => hok _ rfl, fun _ => ?_⟩, fun _ _ _ hq => hq⟩
    rw [hp']
    exact toNat_intOfWord_le g'.refcnt
  · have hshrink (hle : g.disables ≤ most) := step_dec hp hR hle
    refine ⟨?_, ⟨fun _ => hR.enabler (by omega), ?_⟩, ?_⟩
    · intro hle
      have := hS hle
      rw [hshrink hle]
      exact (Nat.sub_le _ _).trans this
    · intro hle
      have := hR.left hle
      rw [hshrink hle]
      omega
    · intro j q hji hq
      refine ⟨hq.enabler, ?_⟩
      intro hle
      rw [step_dec_alone hsafe hS hp hR hji hq hle]
      exact Nat.zero_le _

/-- What every run keeps. -/
theorem reach_bounded (hsafe : Safe may most) {c : Conf Shared Point}
    (h : machine.Reach (allowed may) c) : Bounded most c.shared := by
  refine (Prog.rely (Bounded most) (Covered may most) ?_ ?_ h).1
  · intro c hc
    obtain ⟨hg, hpool⟩ := hc
    refine ⟨fun _ => ?_, fun i p hp => ?_⟩
    · rw [show c.shared = ⟨0, 0⟩ from hg]
      exact Nat.le_refl 0
    · rw [show p = ⟨0⟩ from hpool p (List.mem_of_getElem? hp)]
      exact ⟨fun h => absurd rfl h, fun _ => Nat.zero_le _⟩
  · intro c i a p g p' _ hok _ hs hS hR
    obtain ⟨hS', hR', hrest⟩ := step_keeps hsafe hok hs hS hR
    exact ⟨hS', hR', fun j q hji _ hq => hrest j q hji hq⟩

theorem neverNegative_of_safe (hsafe : Safe may most) : NeverNegative may most := by
  intro c hc hle
  have hcount := reach_bounded hsafe hc hle
  have hroom := hsafe.lt
  rw [intOfWord, BitVec.toInt_eq_toNat_of_lt (by omega)]
  exact Int.natCast_nonneg _

/-- Without a thread that disables, nothing is ever counted. -/
theorem neverNegative_of_no_disabler (hnone : ∀ i, ¬ may i .disable) :
    NeverNegative may most := by
  intro c hc _
  have hzero : c.shared.disables = 0 := by
    refine Prog.always (fun g => g.disables = 0) (fun c hc => ?_) ?_ hc
    · rw [show c.shared = ⟨0, 0⟩ from hc.1]
    · intro c i a p g p' _ hok _ hs h0
      rcases step_cases hs with ⟨_, rfl, _, _⟩ | ⟨_, _, rfl, _⟩ | ⟨_, _, rfl⟩
      · exact absurd (hok _ rfl) (hnone i)
      · exact h0
      · exact h0
  exact neverNegative_of_safe (.inl rfl) c hc (Nat.le_of_eq hzero)

/-! ## And where it does not -/

/-- Interrupts disabled any number of times. -/
theorem reach_disables {n : Nat} (hi : i < n) (hmay : may i .disable) (k : Nat) :
    machine.Reach (allowed may) ⟨⟨BitVec.ofNat 32 k, k⟩, List.replicate n ⟨0⟩⟩ := by
  induction k with
  | zero => exact .init ⟨rfl, fun p hp => List.eq_of_mem_replicate hp⟩
  | succ k ih =>
      have hok : allowed may ⟨⟨BitVec.ofNat 32 k, k⟩, List.replicate n ⟨0⟩⟩
          (i, .call .disable) := by
        intro f hf
        cases hf
        exact hmay
      have hp : (List.replicate n (⟨0⟩ : Point))[i]? = some ⟨0⟩ :=
        List.getElem?_replicate_of_lt hi
      have hnext := Prog.reach_step ih hok hp rfl
      rw [List.set_replicate_self] at hnext
      rw [BitVec.ofNat_add]
      exact hnext

/-- Two threads read the same 1, and both take it away. -/
theorem reach_minus_one {d : Nat} (hd : may d .disable) (hi : may i .enable)
    (hj : may j .enable) (hij : i ≠ j) :
    ∃ pool, machine.Reach (allowed may) ⟨⟨-1, 1⟩, pool⟩ := by
  have hcall (c : Conf Shared Point) {t : Nat} (ht : may t .enable) :
      allowed may c (t, .call .enable) := by
    intro f hf
    cases hf
    exact ht
  have hdec (c : Conf Shared Point) (t : Nat) : allowed may c (t, .dec) := fun f hf => by cases hf
  obtain ⟨n, hn⟩ : ∃ n, n = d + i + j + 1 := ⟨_, rfl⟩
  have hget {t : Nat} (ht : t < n) : (List.replicate n (⟨0⟩ : Point))[t]? = some ⟨0⟩ :=
    List.getElem?_replicate_of_lt ht
  have h1 := reach_disables (show d < n by omega) hd 1
  have h2 : machine.Reach (allowed may) ⟨⟨1, 1⟩, (List.replicate n ⟨0⟩).set i ⟨1⟩⟩ :=
    Prog.reach_step h1 (hcall _ hi) (hget (by omega)) rfl
  have h3 : machine.Reach (allowed may)
      ⟨⟨1, 1⟩, ((List.replicate n ⟨0⟩).set i ⟨1⟩).set j ⟨1⟩⟩ :=
    Prog.reach_step h2 (hcall _ hj)
      ((List.getElem?_set_ne hij).trans (hget (by omega))) rfl
  have h4 : machine.Reach (allowed may)
      ⟨⟨0, 1⟩, (((List.replicate n ⟨0⟩).set i ⟨1⟩).set j ⟨1⟩).set i ⟨0⟩⟩ :=
    Prog.reach_step h3 (hdec _ i) ((List.getElem?_set_ne hij.symm).trans
      (List.getElem?_set_self (by rw [List.length_replicate]; omega)))
      (show step ⟨1, 1⟩ ⟨1⟩ .dec = some (⟨0, 1⟩, ⟨0⟩) by decide)
  exact ⟨_, Prog.reach_step h4 (hdec _ j) ((List.getElem?_set_ne hij).trans
    (List.getElem?_set_self (by rw [List.length_set, List.length_replicate]; omega)))
    (show step ⟨0, 1⟩ ⟨1⟩ .dec = some (⟨-1, 1⟩, ⟨0⟩) by decide)⟩

theorem safe_of_neverNegative {d : Nat} (hd : may d .disable) (hmost : most ≠ 0)
    (h : NeverNegative may most) :
    (∀ i j, may i .enable → may j .enable → i = j) ∧ most < 2 ^ 31 := by
  constructor
  · intro i j hi hj
    by_contra hij
    obtain ⟨pool, hc⟩ := reach_minus_one hd hi hj hij
    exact absurd (h _ hc (show 1 ≤ most by omega)) (show ¬ 0 ≤ intOfWord (-1) by decide)
  · by_contra hfull
    have hc := reach_disables (Nat.lt_succ_self d) hd (2 ^ 31)
    exact absurd (h _ hc (show 2 ^ 31 ≤ most by omega))
      (show ¬ 0 ≤ intOfWord (BitVec.ofNat 32 (2 ^ 31)) by decide)

end

/-- Whatever threads there are and whatever each may call: with at most so many increments, the
counter is at least 0 in every state they can reach if and only if nobody disables interrupts, or
there is no increment to be taken away, or only one thread enables interrupts and the increments
fit into the counter. -/
theorem irq_counter_iff (may : Nat → Call → Prop) (most : Nat) :
    NeverNegative may most ↔
      (∀ i, ¬ may i .disable) ∨ most = 0 ∨
        (∀ i j, may i .enable → may j .enable → i = j) ∧ most < 2 ^ 31 := by
  constructor
  · intro h
    by_cases hnone : ∀ i, ¬ may i .disable
    · exact .inl hnone
    · push Not at hnone
      obtain ⟨d, hd⟩ := hnone
      by_cases hmost : most = 0
      · exact .inr (.inl hmost)
      · exact .inr (.inr (safe_of_neverNegative hd hmost h))
  · rintro (hnone | hsafe)
    · exact neverNegative_of_no_disabler hnone
    · exact neverNegative_of_safe hsafe

/-- One `raw_local_irq_disable` and two `raw_local_irq_enable`, in two threads: both read 1, both
decrement, and the counter is at -1. -/
theorem irq_counter_minus_one :
    machine.run ⟨⟨0, 0⟩, [⟨0⟩, ⟨0⟩]⟩ [(0, .call .disable), (0, .call .enable), (1, .call .enable),
        (0, .dec), (1, .dec)] = some ⟨⟨0xffffffff, 1⟩, [⟨0⟩, ⟨0⟩]⟩ ∧
      intOfWord 0xffffffff = -1 := by
  decide

end LinuxDrivers.Kernel.IrqRace
