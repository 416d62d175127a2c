/-
# `LinuxDrivers.Lib.History` — sequences of calls

Code that is called, one call after the other, is a function `step` from a state and
a call to the next state.  `Along step p s as` says that `p` holds of every call of the
history `as`, in the state the call meets.

A component may do what is asked of it on some histories only.  `Along.iff_of_invariant`
finds out on which: if, in the states of an invariant, a single call goes well exactly
under a condition, and the condition keeps the invariant, then a whole history goes
well exactly if all its calls meet the condition.
-/
import Mathlib.Logic.Basic

namespace LinuxDrivers.Lib

variable {σ α : Type} {step : σ → α → σ} {legal good ok p : σ → α → Prop}

/-- Every call of the history has the property, in the state it meets. -/
def Along (step : σ → α → σ) (p : σ → α → Prop) : σ → List α → Prop
  | _, [] => True
  | s, a :: as => p s a ∧ Along step p (step s a) as

namespace Along

instance decidable [∀ s a, Decidable (p s a)] : ∀ (s : σ) (as : List α),
    Decidable (Along step p s as)
  | _, [] => .isTrue trivial
  | s, a :: as => @instDecidableAnd _ _ _ (decidable (step s a) as)

/-- The invariant rule: what the legal calls keep, and what gives the property of each
legal call, gives it of every call of a legal history. -/
theorem of_invariant {I : σ → Prop} (hgood : ∀ s a, I s → legal s a → good s a)
    (hkeep : ∀ s a, I s → legal s a → I (step s a)) :
    ∀ (as : List α) (s : σ), I s → Along step legal s as → Along step good s as := by
  intro as
  induction as with
  | nil =>
      intro s _ _
      trivial
  | cons a as ih =>
      intro s hI hlegal
      exact ⟨hgood s a hI hlegal.1, ih _ (hkeep s a hI hlegal.1) hlegal.2⟩

/-- The rule of exact conditions. -/
theorem iff_of_invariant {I : σ → Prop} (hgood : ∀ s a, I s → legal s a → (good s a ↔ ok s a))
    (hkeep : ∀ s a, I s → legal s a → ok s a → I (step s a)) :
    ∀ (as : List α) (s : σ), I s → Along step legal s as →
      (Along step good s as ↔ Along step ok s as) := by
  intro as
  induction as with
  | nil =>
      intro s _ _
      exact Iff.rfl
  | cons a as ih =>
      intro s hI hlegal
      -- once a call fails the condition, neither side holds of the history
      rw [Along, Along, hgood s a hI hlegal.1]
      refine and_congr_right ?_
      intro hok
      exact ih _ (hkeep s a hI hlegal.1 hok) hlegal.2

end Along

end LinuxDrivers.Lib
