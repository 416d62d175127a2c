/-
# `LinuxDrivers.Lib.Ring` — a queue in a ring of slots

A ring has `2 ^ k` slots, a head, where the next entry goes, and a tail, where the oldest entry is.
Both move on by one and a mask.  The ring is empty if they are the same, so one slot is always
free: an entry is refused if its head would come to the tail.

What the slots mean is `contents`, the entries from the tail to the head.  The other slots may hold
anything.
-/
import Mathlib.Logic.Function.Iterate
import Mathlib.Data.Nat.Bitwise

namespace LinuxDrivers.Lib

structure Ring (α : Type) (k : Nat) where
  slots : Fin (2 ^ k) → α
  head : Fin (2 ^ k)
  tail : Fin (2 ^ k)

namespace Ring

variable {α : Type} {k : Nat}

/-- The next slot, by a mask. -/
def next (i : Fin (2 ^ k)) : Fin (2 ^ k) :=
  ⟨(i.val + 1) &&& (2 ^ k - 1), by
    have hle := @Nat.and_le_right (i.val + 1) (2 ^ k - 1)
    have hpos := Nat.two_pow_pos k
    omega⟩

/-- The entry at the head, if there is a free slot left after it. -/
def push (r : Ring α k) (a : α) : Option (Ring α k) :=
  if next r.head = r.tail then none
  else some { r with slots := Function.update r.slots r.head a, head := next r.head }

/-- The oldest entry, in a ring that is not empty. -/
def oldest (r : Ring α k) : α := r.slots r.tail

def pop (r : Ring α k) : Ring α k := { r with tail := next r.tail }

def clear (r : Ring α k) : Ring α k := { r with tail := r.head }

/-- The entries of `d` slots from `i` on. -/
def walk (slots : Fin (2 ^ k) → α) : Fin (2 ^ k) → Nat → List α
  | _, 0 => []
  | i, d + 1 => slots i :: walk slots (next i) d

/-- How many slots there are from `i` up to `j`. -/
def between (i j : Fin (2 ^ k)) : Nat :=
  if i.val ≤ j.val then j.val - i.val else j.val + 2 ^ k - i.val

def contents (r : Ring α k) : List α := walk r.slots r.tail (between r.tail r.head)

/-! ## Positions -/

theorem next_val (i : Fin (2 ^ k)) :
    (next i).val = if i.val + 1 = 2 ^ k then 0 else i.val + 1 := by
  have hi := i.isLt
  show (i.val + 1) &&& (2 ^ k - 1) = _
  rw [Nat.and_two_pow_sub_one_eq_mod]
  split
  · rename_i hlast
    rw [hlast, Nat.mod_self]
  · exact Nat.mod_eq_of_lt (by omega)

theorem iterate_next_val (i : Fin (2 ^ k)) {d : Nat} (hd : d < 2 ^ k) :
    (next^[d] i).val = if i.val + d < 2 ^ k then i.val + d else i.val + d - 2 ^ k := by
  induction d with
  | zero =>
      have hi := i.isLt
      rw [Function.iterate_zero_apply, if_pos (by omega)]
      rfl
  | succ d ih =>
      have hi := i.isLt
      rw [Function.iterate_succ_apply', next_val, ih (by omega)]
      split <;> split <;> split <;> omega

theorem between_lt (i j : Fin (2 ^ k)) : between i j < 2 ^ k := by
  unfold between
  split <;> omega

theorem iterate_between (i j : Fin (2 ^ k)) : next^[between i j] i = j := by
  apply Fin.ext
  rw [iterate_next_val i (between_lt i j)]
  unfold between
  split <;> split <;> omega

theorem iterate_ne {i j : Fin (2 ^ k)} {d : Nat} (h : d < between i j) : next^[d] i ≠ j := by
  intro heq
  have hlt := between_lt i j
  have hval := congrArg Fin.val heq
  rw [iterate_next_val i (by omega)] at hval
  unfold between at h
  split at h <;> split at hval <;> omega

theorem between_eq_zero_iff (i j : Fin (2 ^ k)) : between i j = 0 ↔ j = i := by
  rw [Fin.ext_iff]
  unfold between
  split <;> omega

theorem between_next {i j : Fin (2 ^ k)} (h : next j ≠ i) :
    between i (next j) = between i j + 1 := by
  rw [Ne, Fin.ext_iff, next_val] at h
  unfold between
  rw [next_val]
  split at h
  · rename_i hlast
    rw [if_pos hlast]
    split <;> split <;> omega
  · rename_i hmore
    rw [if_neg hmore]
    split <;> split <;> omega

theorem between_of_ne {i j : Fin (2 ^ k)} (h : j ≠ i) :
    between i j = between (next i) j + 1 := by
  rw [Ne, Fin.ext_iff] at h
  unfold between
  rw [next_val]
  split <;> split <;> split <;> omega

/-! ## Entries -/

theorem length_walk (slots : Fin (2 ^ k) → α) (i : Fin (2 ^ k)) (d : Nat) :
    (walk slots i d).length = d := by
  induction d generalizing i with
  | zero => rfl
  | succ d ih => rw [walk, List.length_cons, ih]

theorem walk_succ (slots : Fin (2 ^ k) → α) (i : Fin (2 ^ k)) (d : Nat) :
    walk slots i (d + 1) = walk slots i d ++ [slots (next^[d] i)] := by
  induction d generalizing i with
  | zero => rfl
  | succ d ih =>
      rw [walk, ih (next i)]
      rfl

/-- A slot that is not walked over may hold anything. -/
theorem walk_update (slots : Fin (2 ^ k) → α) (j : Fin (2 ^ k)) (a : α) (i : Fin (2 ^ k)) (d : Nat)
    (h : ∀ e < d, next^[e] i ≠ j) : walk (Function.update slots j a) i d = walk slots i d := by
  induction d generalizing i with
  | zero => rfl
  | succ d ih =>
      have hfirst : Function.update slots j a i = slots i :=
        Function.update_of_ne (h 0 (by omega)) a slots
      have hrest := ih (next i) (fun e he => h (e + 1) (by omega))
      rw [walk, walk, hfirst, hrest]

theorem length_contents (r : Ring α k) : r.contents.length = between r.tail r.head :=
  length_walk _ _ _

theorem contents_eq_nil_iff (r : Ring α k) : r.contents = [] ↔ r.head = r.tail := by
  rw [← List.length_eq_zero_iff, length_contents]
  exact between_eq_zero_iff _ _

@[simp] theorem contents_clear (r : Ring α k) : r.clear.contents = [] :=
  (contents_eq_nil_iff _).mpr rfl

/-- An entry is refused exactly if all slots but one are used. -/
theorem push_eq_none_iff (r : Ring α k) (a : α) :
    r.push a = none ↔ r.contents.length + 1 = 2 ^ k := by
  rw [length_contents, push]
  split
  · rename_i hfull
    rw [Fin.ext_iff, next_val] at hfull
    simp only [true_iff]
    unfold between
    split <;> split at hfull <;> omega
  · rename_i hfree
    have hnext := between_next hfree
    have hlt := between_lt r.tail (next r.head)
    simp only [reduceCtorEq, false_iff]
    omega

theorem contents_push {r r' : Ring α k} {a : α} (h : r.push a = some r') :
    r'.contents = r.contents ++ [a] := by
  unfold push at h
  split at h
  · cases h
  · rename_i hfree
    cases h
    show walk (Function.update r.slots r.head a) r.tail (between r.tail (next r.head)) = _
    rw [between_next hfree, walk_succ, walk_update _ _ _ _ _ (fun _ => iterate_ne),
      iterate_between, Function.update_self]
    rfl

theorem contents_pop {r : Ring α k} (h : r.head ≠ r.tail) :
    r.contents = r.oldest :: r.pop.contents := by
  rw [contents, between_of_ne h]
  rfl

/-- An empty ring. -/
def empty (a : α) : Ring α k := ⟨fun _ => a, ⟨0, Nat.two_pow_pos k⟩, ⟨0, Nat.two_pow_pos k⟩⟩

end Ring

end LinuxDrivers.Lib
