/-
# `LinuxDrivers.Lib.Loop` — loops

A loop is its body: a function that says of each state whether there is another round, and with
which state, or with what the loop is left.

    loop body fuel s      runs it, for at most `fuel` rounds
    Ends body s r         it ends, with `r`

A loop with a constant for a condition, or a counter that wraps around, may not end.  So there are
three rules: what a loop that ends has reached (`Ends.rule`), that it ends if something decreases
(`Ends.of_measure`), and that it does not if there is always another round (`not_ends`).  If it
ends, then with one result (`Ends.unique`).
Nested loops are one loop here, over the variables of both.
-/
import Mathlib.Logic.Basic

namespace LinuxDrivers.Lib

variable {σ ρ : Type} {body : σ → σ ⊕ ρ} {I : σ → Prop} {Q : ρ → Prop} {s : σ} {r : ρ}

def loop (body : σ → σ ⊕ ρ) : Nat → σ → Option ρ
  | 0, _ => none
  | fuel + 1, s =>
      match body s with
      | .inl s' => loop body fuel s'
      | .inr r => some r

/-- The loop ends, with this result. -/
def Ends (body : σ → σ ⊕ ρ) (s : σ) (r : ρ) : Prop := ∃ fuel, loop body fuel s = some r

theorem Ends.exit (h : body s = .inr r) : Ends body s r := by
  refine ⟨1, ?_⟩
  rw [loop, h]

theorem Ends.next {s' : σ} (h : body s = .inl s') (hend : Ends body s' r) : Ends body s r := by
  obtain ⟨fuel, hfuel⟩ := hend
  refine ⟨fuel + 1, ?_⟩
  rw [loop, h]
  exact hfuel

/-- What holds of every round, and gives the result when the loop is left. -/
theorem Ends.rule (hnext : ∀ s s', I s → body s = .inl s' → I s')
    (hexit : ∀ s r, I s → body s = .inr r → Q r) (hI : I s) (h : Ends body s r) : Q r := by
  obtain ⟨fuel, hfuel⟩ := h
  induction fuel generalizing s with
  | zero => cases hfuel
  | succ fuel ih =>
      rw [loop] at hfuel
      cases hbody : body s with
      | inl s' =>
          rw [hbody] at hfuel
          exact ih (hnext s s' hI hbody) hfuel
      | inr r' =>
          rw [hbody] at hfuel
          cases hfuel
          exact hexit s r hI hbody

/-- A loop ends with one result. -/
theorem Ends.unique {r' : ρ} (h : Ends body s r) (h' : Ends body s r') : r = r' := by
  refine h.rule (I := fun s => Ends body s r') (Q := fun r => r = r') ?_ ?_ h'
  · rintro s s' ⟨fuel, hfuel⟩ hbody
    cases fuel with
    | zero => cases hfuel
    | succ fuel =>
        rw [loop, hbody] at hfuel
        exact ⟨fuel, hfuel⟩
  · rintro s r ⟨fuel, hfuel⟩ hbody
    cases fuel with
    | zero => cases hfuel
    | succ fuel =>
        rw [loop, hbody] at hfuel
        exact Option.some.inj hfuel

/-- A loop ends if each round brings a number down. -/
theorem Ends.of_measure (μ : σ → Nat) (hnext : ∀ s s', I s → body s = .inl s' → I s' ∧ μ s' < μ s)
    (hexit : ∀ s r, I s → body s = .inr r → Q r) (hI : I s) : ∃ r, Ends body s r ∧ Q r := by
  induction hμ : μ s using Nat.strongRecOn generalizing s with
  | _ n ih =>
      subst hμ
      cases hbody : body s with
      | inl s' =>
          obtain ⟨hI', hlt⟩ := hnext s s' hI hbody
          obtain ⟨r, hend, hQ⟩ := ih (μ s') hlt hI' rfl
          exact ⟨r, hend.next hbody, hQ⟩
      | inr r => exact ⟨r, .exit hbody, hexit s r hI hbody⟩

/-- A loop that always goes on does not end. -/
theorem not_ends (hnext : ∀ s, I s → ∃ s', body s = .inl s' ∧ I s') (hI : I s) :
    ¬ Ends body s r := by
  intro h
  refine h.rule (Q := fun _ => False) (I := I) ?_ ?_ hI
  · intro s s' hI hbody
    obtain ⟨s'', hs'', hI'⟩ := hnext s hI
    rw [hs''] at hbody
    cases hbody
    exact hI'
  · intro s r hI hbody
    obtain ⟨s', hs', _⟩ := hnext s hI
    rw [hs'] at hbody
    cases hbody

end LinuxDrivers.Lib
