/-
# `LinuxDrivers.Lib.SearchTree` — binary trees that are searched

A search tree is kept in an order that its nodes define: `higher a b` says that `b` belongs
to the right of `a`.  If the order is that of a key, and different values have different
keys, then the search by a key follows one path and still finds every value of the tree
(`search_eq_some`).

How a tree stays in order and in balance is the business of its insertion.  `Insertion` is
what a user may rely on: the value is added, nothing else is, and the order is kept.
-/
import Mathlib.Data.Tree.Basic
import Mathlib.Data.List.Pairwise
import Mathlib.Order.Lattice

namespace LinuxDrivers.Lib

variable {α κ : Type}

/-- The values of a tree, from left to right. -/
def values : BinaryTree α → List α
  | .nil => []
  | .node a l r => values l ++ a :: values r

@[simp] theorem mem_values_node {a b : α} {l r : BinaryTree α} :
    b ∈ values (.node a l r) ↔ b ∈ values l ∨ b = a ∨ b ∈ values r := by
  simp [values]

/-- At every node the higher values are on the right and the others on the left. -/
def Sorted (higher : α → α → Bool) : BinaryTree α → Prop
  | .nil => True
  | .node a l r =>
      (∀ b ∈ values l, higher a b = false) ∧ (∀ b ∈ values r, higher a b = true) ∧
        Sorted higher l ∧ Sorted higher r

/-- Of any two values one is the higher one. -/
def Separated (higher : α → α → Bool) (l : List α) : Prop :=
  l.Pairwise (fun a b => higher a b = true ∨ higher b a = true)

/-! ## Insertion -/

/-- What an insertion does with a value that differs from those in the tree. -/
structure Insertion (higher : α → α → Bool) (insert : BinaryTree α → α → BinaryTree α) :
    Prop where
  perm : ∀ t a, Sorted higher t → Separated higher (a :: values t) →
    (values (insert t a)).Perm (a :: values t)
  sorted : ∀ t a, Sorted higher t → Separated higher (a :: values t) → Sorted higher (insert t a)

section
variable {higher : α → α → Bool}

/-- The plain insertion, at the end of a path. -/
def insertLeaf (higher : α → α → Bool) : BinaryTree α → α → BinaryTree α
  | .nil, a => .node a .nil .nil
  | .node b l r, a =>
      if higher b a then .node b l (insertLeaf higher r a) else .node b (insertLeaf higher l a) r

theorem values_insertLeaf (a : α) :
    ∀ t : BinaryTree α, (values (insertLeaf higher t a)).Perm (a :: values t) := by
  intro t
  induction t with
  | nil => exact .refl _
  | node b l r ihl ihr =>
      rw [insertLeaf]
      split
      · refine .trans (.append_left _ (.cons _ ihr)) ?_
        refine .trans (.append_left _ (.swap _ _ _)) ?_
        exact List.perm_middle
      · exact .append_right _ ihl

theorem sorted_insertLeaf (a : α) :
    ∀ t : BinaryTree α, Sorted higher t → Sorted higher (insertLeaf higher t a) := by
  intro t
  induction t with
  | nil => exact fun _ => ⟨nofun, nofun, trivial, trivial⟩
  | node b l r ihl ihr =>
      rintro ⟨hleft, hright, hl, hr⟩
      rw [insertLeaf]
      split
      · rename_i hhigher
        refine ⟨hleft, ?_, hl, ihr hr⟩
        intro c hc
        rcases List.mem_cons.mp ((values_insertLeaf a r).mem_iff.mp hc) with rfl | hc
        · exact hhigher
        · exact hright c hc
      · rename_i hnot
        refine ⟨?_, hright, ihl hl, hr⟩
        intro c hc
        rcases List.mem_cons.mp ((values_insertLeaf a l).mem_iff.mp hc) with rfl | hc
        · exact Bool.eq_false_iff.mpr hnot
        · exact hleft c hc

theorem insertLeaf_insertion : Insertion higher (insertLeaf higher) where
  perm t a _ _ := values_insertLeaf a t
  sorted t a hsorted _ := sorted_insertLeaf a t hsorted

theorem Separated.perm {l l' : List α} (h : Separated higher l) (hp : l'.Perm l) :
    Separated higher l' :=
  (hp.pairwise_iff (fun hab => hab.symm)).mpr h

end

/-! ## Search -/

section
variable [LinearOrder κ] {key : α → κ} {higher : α → α → Bool}

def search (key : α → κ) (k : κ) : BinaryTree α → Option α
  | .nil => none
  | .node a l r =>
      if k = key a then some a else if key a < k then search key k r else search key k l

/-- What is found is in the tree and has the key. -/
theorem search_mem {k : κ} {a : α} :
    ∀ {t : BinaryTree α}, search key k t = some a → a ∈ values t ∧ key a = k := by
  intro t
  induction t with
  | nil => exact nofun
  | node b l r ihl ihr =>
      intro h
      rw [mem_values_node]
      rw [search] at h
      split at h
      · rename_i hk
        cases h
        exact ⟨.inr (.inl rfl), hk.symm⟩
      · split at h
        · exact ⟨.inr (.inr (ihr h).1), (ihr h).2⟩
        · exact ⟨.inl (ihl h).1, (ihl h).2⟩

variable (hkey : ∀ a b, higher a b = true ↔ key a < key b)
include hkey

/-- Keys tell the values apart. -/
theorem Separated.inj {l : List α} (h : Separated higher l) {a b : α} (ha : a ∈ l) (hb : b ∈ l)
    (heq : key a = key b) : a = b := by
  by_contra hne
  have hsymm : Std.Symm (fun a b => higher a b = true ∨ higher b a = true) :=
    ⟨fun _ _ hab => hab.symm⟩
  rcases h.forall ha hb hne with hab | hba
  · exact absurd ((hkey a b).mp hab) (heq ▸ lt_irrefl _)
  · exact absurd ((hkey b a).mp hba) (heq ▸ lt_irrefl _)

/-- The path of the search leads to every value of a sorted tree. -/
theorem search_of_mem {a : α} :
    ∀ {t : BinaryTree α}, Sorted higher t → Separated higher (values t) → a ∈ values t →
      search key (key a) t = some a := by
  intro t
  induction t with
  | nil => exact nofun
  | node b l r ihl ihr =>
      rintro ⟨hleft, hright, hl, hr⟩ hsep hmem
      obtain ⟨hsepl, hsepr, -⟩ := List.pairwise_append.mp hsep
      rw [search]
      by_cases hk : key a = key b
      · rw [if_pos hk, hsep.inj hkey hmem (by simp) hk]
      · rw [if_neg hk]
        rcases mem_values_node.mp hmem with hin | rfl | hin
        · have hnot : ¬ key b < key a := by
            rw [← hkey, hleft a hin]
            exact Bool.false_ne_true
          rw [if_neg hnot]
          exact ihl hl hsepl hin
        · exact absurd rfl hk
        · rw [if_pos ((hkey b a).mp (hright a hin))]
          exact ihr hr (List.pairwise_cons.mp hsepr).2 hin

theorem search_eq_some {t : BinaryTree α} (h : Sorted higher t)
    (hsep : Separated higher (values t)) {k : κ} {a : α} :
    search key k t = some a ↔ a ∈ values t ∧ key a = k := by
  constructor
  · exact search_mem
  · rintro ⟨hmem, rfl⟩
    exact search_of_mem hkey h hsep hmem

end

end LinuxDrivers.Lib
