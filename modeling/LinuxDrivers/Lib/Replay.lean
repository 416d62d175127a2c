/-
# `LinuxDrivers.Lib.Replay` — events that say what has changed

Code that tells others what has changed sends events, each with a key and the value the key has
now.  A listener that knows the values of before and applies the events in their order should know
the values of now:

    replay evs s        the values after the events, the last one for a key counts

It does if the events tell the difference: every event carries the value of now, and no key without
an event has changed (`Tells.replay`); in which order the events come, and whether one comes twice,
does not matter.
-/
import Mathlib.Logic.Function.Basic

namespace LinuxDrivers.Lib

variable {κ ν : Type} {s t : κ → ν} {evs : List (κ × ν)}

/-- The events tell the values of now, to one who knows those of before. -/
structure Tells (evs : List (κ × ν)) (s t : κ → ν) : Prop where
  now : ∀ e ∈ evs, e.2 = t e.1
  same : ∀ k, (∀ e ∈ evs, e.1 ≠ k) → s k = t k

theorem Tells.nil (s : κ → ν) : Tells [] s s :=
  ⟨fun _ he => absurd he List.not_mem_nil, fun _ _ => rfl⟩

variable [DecidableEq κ]

def replay (evs : List (κ × ν)) (s : κ → ν) : κ → ν :=
  evs.foldl (fun s e => Function.update s e.1 e.2) s

theorem replay_cons (e : κ × ν) (evs : List (κ × ν)) (s : κ → ν) :
    replay (e :: evs) s = replay evs (Function.update s e.1 e.2) := rfl

theorem replay_append (evs evs' : List (κ × ν)) (s : κ → ν) :
    replay (evs ++ evs') s = replay evs' (replay evs s) := List.foldl_append

theorem Tells.replay (h : Tells evs s t) : replay evs s = t := by
  induction evs generalizing s with
  | nil =>
      funext k
      exact h.same k (fun _ he => absurd he List.not_mem_nil)
  | cons e evs ih =>
      rw [replay_cons]
      refine ih ⟨fun e' he' => h.now e' (List.mem_cons_of_mem _ he'), ?_⟩
      intro k hk
      by_cases hkey : k = e.1
      · subst hkey
        rw [Function.update_self]
        exact h.now e List.mem_cons_self
      · rw [Function.update_of_ne hkey]
        refine h.same k ?_
        intro e' he'
        rcases List.mem_cons.mp he' with rfl | he'
        · exact Ne.symm hkey
        · exact hk e' he'

end LinuxDrivers.Lib
