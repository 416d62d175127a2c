/-
# `LinuxDrivers.Lib.Machine` — machines and their runs

A machine is a set of initial states and a partial step function: `step s a`
is the state after the action `a`, or `none` when `a` is not possible in `s`
(a blocked thread, a guard that fails).  A run is a list of actions, so a
concrete run can be evaluated; the states a machine can reach are collected by
an inductive predicate, so a property of all runs is an induction.

`Reach M ok` is reachability by runs every step of which meets the condition
`ok` on the state *before* the step.  With the condition that always holds it is
plain reachability; with another it says what a machine does as long as its
environment keeps to the condition.

`simulates` carries what one machine reaches over to another, which takes a step for it or
none.

`reach_iff` finds out under which disciplines all runs go well: those whose every step
meets the condition under which a single step does.

`spent` adds up what the steps of a run cost, and a potential bounds what they can come
to (`run_le_spent`).

The second half is about machines that have one step in every state, a function on
states: `Leads f s t` says that some number of steps leads from `s` to `t`.
-/
import Mathlib.Logic.Function.Iterate

namespace LinuxDrivers.Lib

/-- Initial states and a partial step function. -/
structure Machine (σ α : Type) where
  init : σ → Prop
  step : σ → α → Option σ

namespace Machine

variable {σ α : Type}

/-- The state after the actions of a run, if every one of them is possible. -/
def run (M : Machine σ α) : σ → List α → Option σ
  | s, [] => some s
  | s, a :: as =>
      match M.step s a with
      | some s' => M.run s' as
      | none => none

/-- The states reached by runs whose every step meets `ok`. -/
inductive Reach (M : Machine σ α) (ok : σ → α → Prop) : σ → Prop
  | init {s : σ} : M.init s → Reach M ok s
  | step {s s' : σ} (a : α) : Reach M ok s → ok s a → M.step s a = some s' → Reach M ok s'

/-- The states reached by any run. -/
def Reachable (M : Machine σ α) : σ → Prop := M.Reach (fun _ _ => True)

variable {M : Machine σ α} {ok : σ → α → Prop}

theorem run_cons {s s' : σ} {a : α} (h : M.step s a = some s') (as : List α) :
    M.run s (a :: as) = M.run s' as := by
  simp only [run, h]

theorem run_append {s s' : σ} {as : List α} (h : M.run s as = some s') (bs : List α) :
    M.run s (as ++ bs) = M.run s' bs := by
  induction as generalizing s with
  | nil =>
      cases h
      rfl
  | cons a as ih =>
      simp only [run] at h
      split at h
      · rename_i t ht
        rw [List.cons_append, run_cons ht]
        exact ih h
      · cases h

/-- What a run reaches under a condition, it reaches. -/
theorem Reach.reachable {s : σ} (h : M.Reach ok s) : M.Reachable s := by
  induction h with
  | init hs => exact .init hs
  | step a _ _ hstep ih => exact .step a ih trivial hstep

/-- Following a run from a state reached stays among the states reached. -/
theorem Reachable.run {s s' : σ} (h : M.Reachable s) (as : List α)
    (hr : M.run s as = some s') : M.Reachable s' := by
  induction as generalizing s with
  | nil =>
      cases hr
      exact h
  | cons a as ih =>
      simp only [Machine.run] at hr
      split at hr
      · rename_i t ht
        exact ih (.step a h trivial ht) hr
      · cases hr

/-- The state after a run, if every action is possible and meets the condition:
a computable certificate of reachability under the condition. -/
def runOk (M : Machine σ α) (ok : σ → α → Prop) [∀ s a, Decidable (ok s a)] :
    σ → List α → Option σ
  | s, [] => some s
  | s, a :: as =>
      if ok s a then
        match M.step s a with
        | some s' => M.runOk ok s' as
        | none => none
      else none

theorem Reach.runOk [∀ s a, Decidable (ok s a)] {s s' : σ} (h : M.Reach ok s) (as : List α)
    (hr : M.runOk ok s as = some s') : M.Reach ok s' := by
  induction as generalizing s with
  | nil =>
      cases hr
      exact h
  | cons a as ih =>
      simp only [Machine.runOk] at hr
      split at hr
      · rename_i hok
        split at hr
        · rename_i t ht
          exact ih (.step a h hok ht) hr
        · cases hr
      · cases hr

/-- The simulation rule.  `R` relates the states of two machines; for every step of the first, the
second has one that keeps them related, or they are related without one. -/
theorem Reach.simulates {τ β : Type} {N : Machine τ β} {ok' : τ → β → Prop} (R : σ → τ → Prop)
    (hinit : ∀ s, M.init s → ∃ t, N.init t ∧ R s t)
    (hstep : ∀ s a s' t, M.Reach ok s → ok s a → M.step s a = some s' → N.Reach ok' t → R s t →
      R s' t ∨ ∃ b t', ok' t b ∧ N.step t b = some t' ∧ R s' t')
    {s : σ} (h : M.Reach ok s) : ∃ t, N.Reach ok' t ∧ R s t := by
  induction h with
  | init hs =>
      obtain ⟨t, ht, hR⟩ := hinit _ hs
      exact ⟨t, .init ht, hR⟩
  | step a hreach hok hst ih =>
      obtain ⟨t, ht, hR⟩ := ih
      rcases hstep _ _ _ t hreach hok hst ht hR with hsame | ⟨b, t', hok', hst', hnext⟩
      · exact ⟨t, ht, hsame⟩
      · exact ⟨t', .step b ht hok' hst', hnext⟩

/-- The rule of exact conditions: if, in the states of an invariant, a step goes well exactly
under a condition, and the condition keeps the invariant, then the runs that keep to a discipline
all go well exactly if their steps all meet the condition. -/
theorem reach_iff {I good : σ → Prop} (hinit : ∀ s, M.init s → I s ∧ good s)
    (hgood : ∀ s a s', I s → M.step s a = some s' → (good s' ↔ ok s a))
    (hkeep : ∀ s a s', I s → M.step s a = some s' → ok s a → I s') (kept : σ → α → Prop) :
    (∀ s, M.Reach kept s → good s) ↔
      ∀ s a s', M.Reach kept s → kept s a → M.step s a = some s' → ok s a := by
  constructor
  · intro hall
    have hinv : ∀ s, M.Reach kept s → I s := by
      intro s hs
      induction hs with
      | init h => exact (hinit _ h).1
      | step a hreach hkept hstep ih =>
          have hnext := hall _ (.step a hreach hkept hstep)
          exact hkeep _ _ _ ih hstep ((hgood _ _ _ ih hstep).mp hnext)
    intro s a s' hs hkept hstep
    exact (hgood s a s' (hinv s hs) hstep).mp (hall s' (.step a hs hkept hstep))
  · intro hall
    have hboth : ∀ s, M.Reach kept s → I s ∧ good s := by
      intro s hs
      induction hs with
      | init h => exact hinit _ h
      | step a hreach hkept hstep ih =>
          have hok := hall _ _ _ hreach hkept hstep
          exact ⟨hkeep _ _ _ ih.1 hstep hok, (hgood _ _ _ ih.1 hstep).mpr hok⟩
    intro s hs
    exact (hboth s hs).2

/-- What the steps of a run cost together. -/
def spent (M : Machine σ α) (cost : σ → α → Nat) : σ → List α → Nat
  | _, [] => 0
  | s, a :: as =>
      match M.step s a with
      | some s' => cost s a + M.spent cost s' as
      | none => 0

theorem spent_add (cost cost' : σ → α → Nat) (s : σ) (as : List α) :
    M.spent (fun s a => cost s a + cost' s a) s as = M.spent cost s as + M.spent cost' s as := by
  induction as generalizing s with
  | nil => rfl
  | cons a as ih =>
      simp only [spent]
      split
      · rw [ih]
        omega
      · rfl

/-- The potential rule: if no step raises the potential by more than it costs, no run
does. -/
theorem run_le_spent {cost : σ → α → Nat} (potential : σ → Nat)
    (hstep : ∀ s a s', M.step s a = some s' → potential s' ≤ potential s + cost s a)
    {s s' : σ} {as : List α} (h : M.run s as = some s') :
    potential s' ≤ potential s + M.spent cost s as := by
  induction as generalizing s with
  | nil =>
      cases h
      exact Nat.le_refl _
  | cons a as ih =>
      simp only [run] at h
      split at h
      · rename_i t ht
        have hone := hstep s a t ht
        have hrest := ih h
        simp only [spent, ht]
        omega
      · cases h

end Machine

/-! ## Deterministic machines -/

/-- The steps of `f` lead from `s` to `t`. -/
def Leads {σ : Type} (f : σ → σ) (s t : σ) : Prop := ∃ n : Nat, f^[n] s = t

namespace Leads

variable {σ : Type} {f : σ → σ} {s t u : σ}

theorem refl (s : σ) : Leads f s s := ⟨0, rfl⟩

theorem trans (h : Leads f s t) (h' : Leads f t u) : Leads f s u := by
  obtain ⟨n, rfl⟩ := h
  obtain ⟨m, rfl⟩ := h'
  exact ⟨m + n, Function.iterate_add_apply f m n s⟩

/-- One step, then the rest. -/
theorem head (h : Leads f (f s) t) : Leads f s t := trans ⟨1, rfl⟩ h

/-- The invariant rule. -/
theorem invariant {I : σ → Prop} (hs : I s) (hstep : ∀ t, I t → I (f t)) (h : Leads f s t) :
    I t := by
  obtain ⟨n, rfl⟩ := h
  induction n with
  | zero => exact hs
  | succ n ih =>
      rw [Function.iterate_succ_apply']
      exact hstep _ ih

/-- On its way to a state of rest a machine passes every state it is led to. -/
theorem resume (hu : f u = u) (h : Leads f s u) (h' : Leads f s t) : Leads f t u := by
  obtain ⟨n, rfl⟩ := h
  obtain ⟨m, rfl⟩ := h'
  rcases Nat.le_total m n with hle | hle
  · obtain ⟨k, rfl⟩ := Nat.exists_eq_add_of_le' hle
    exact ⟨k, (Function.iterate_add_apply f k m s).symm⟩
  · obtain ⟨k, rfl⟩ := Nat.exists_eq_add_of_le' hle
    refine ⟨0, ?_⟩
    rw [Function.iterate_zero_apply, Function.iterate_add_apply, Function.iterate_fixed hu]

/-- It comes to rest in one state only. -/
theorem unique (ht : f t = t) (hu : f u = u) (h : Leads f s t) (h' : Leads f s u) : t = u := by
  obtain ⟨n, rfl⟩ := resume hu h' h
  rw [Function.iterate_fixed ht]

end Leads

end LinuxDrivers.Lib
