/-
# `LinuxDrivers.Lib.Keyed` — lists searched by a key

Linked lists whose entries are told apart by one field: a search by the field finds the
entry, and an update of one entry leaves the fields, and the other entries, alone.
-/
import Mathlib.Data.List.Nodup

namespace LinuxDrivers.Lib

variable {α κ : Type} [DecidableEq κ] {key : α → κ} {l : List α}

/-- The search finds the entry with the key. -/
theorem find?_of_mem (hnodup : (l.map key).Nodup) {a : α} (ha : a ∈ l) :
    l.find? (key · == key a) = some a := by
  have hsome : (l.find? (key · == key a)).isSome = true := by
    rw [List.find?_isSome]
    exact ⟨a, ha, by simp⟩
  obtain ⟨b, hfind⟩ := Option.isSome_iff_exists.mp hsome
  have hkey : key b = key a := by simpa using List.find?_some hfind
  rw [hfind, List.inj_on_of_nodup_map hnodup (List.mem_of_find?_eq_some hfind) ha hkey]

theorem find?_key {k : κ} {a : α} (h : l.find? (key · == k) = some a) : a ∈ l ∧ key a = k :=
  ⟨List.mem_of_find?_eq_some h, by simpa using List.find?_some h⟩

theorem find?_key_none {k : κ} : l.find? (key · == k) = none ↔ ∀ a ∈ l, key a ≠ k := by
  simp [List.find?_eq_none]

/-! A table may have entries behind, `rest`, that are not in use.  They all have one key. -/

section

variable {rest : List α}

theorem find?_append_of_mem (hnodup : (l.map key).Nodup) {a : α} (ha : a ∈ l) :
    (l ++ rest).find? (key · == key a) = some a := by
  rw [List.find?_append, find?_of_mem hnodup ha]
  rfl

theorem find?_append_none {k : κ} (hl : ∀ a ∈ l, key a ≠ k) (hrest : ∀ a ∈ rest, key a ≠ k) :
    (l ++ rest).find? (key · == k) = none := by
  rw [List.find?_append, find?_key_none.mpr hl, find?_key_none.mpr hrest]
  rfl

/-- A search for the key of what is not in use finds it. -/
theorem find?_append_blank (key : α → κ) (blank : κ) (hl : ∀ a ∈ l, key a ≠ blank)
    (hrest : ∀ a ∈ rest, key a = blank) (hne : rest ≠ []) :
    ∃ a ∈ rest, (l ++ rest).find? (key · == blank) = some a := by
  obtain ⟨a, tail, rfl⟩ := List.exists_cons_of_ne_nil hne
  have ha : key a = blank := hrest a List.mem_cons_self
  refine ⟨a, List.mem_cons_self, ?_⟩
  rw [List.find?_append, find?_key_none.mpr hl, List.find?_cons_of_pos (by simp [ha])]
  rfl

end

/-- Taking out an entry with another key does not change what is found. -/
theorem find?_eraseP {p q : α → Bool} (h : ∀ a ∈ l, q a = true → p a = false) :
    (l.eraseP q).find? p = l.find? p := by
  induction l with
  | nil => rfl
  | cons a l ih =>
      cases hq : q a with
      | true =>
          have hp := h a List.mem_cons_self hq
          rw [List.eraseP_cons_of_pos hq, List.find?_cons_of_neg (by simp [hp])]
      | false =>
          rw [List.eraseP_cons_of_neg (by simp [hq]), List.find?_cons, List.find?_cons,
            ih (fun b hb => h b (List.mem_cons_of_mem _ hb))]

/-- The entries with the key are changed. -/
def updateKey (key : α → κ) (k : κ) (f : α → α) (l : List α) : List α :=
  l.map (fun a => if key a = k then f a else a)

/-- A field that `f` does not touch. -/
theorem map_updateKey {β : Type} {g : α → β} {k : κ} {f : α → α} (hf : ∀ a, g (f a) = g a)
    (l : List α) : (updateKey key k f l).map g = l.map g := by
  rw [updateKey, List.map_map]
  refine List.map_congr_left ?_
  intro a _
  show g (if key a = k then f a else a) = g a
  split
  · exact hf a
  · rfl

/-- An entry afterwards is one that was changed, or one with another key. -/
theorem mem_updateKey {k : κ} {f : α → α} {b : α} (hb : b ∈ updateKey key k f l) :
    (∃ a ∈ l, key a = k ∧ b = f a) ∨ b ∈ l ∧ key b ≠ k := by
  obtain ⟨a, ha, rfl⟩ := List.mem_map.mp hb
  by_cases hk : key a = k
  · exact .inl ⟨a, ha, hk, if_pos hk⟩
  · rw [if_neg hk]
    exact .inr ⟨ha, hk⟩

theorem mem_updateKey_of_mem (key : α → κ) (k : κ) (f : α → α) {a : α} (ha : a ∈ l) :
    (if key a = k then f a else a) ∈ updateKey key k f l :=
  List.mem_map_of_mem ha

end LinuxDrivers.Lib
