/-
# `LinuxDrivers.Lib.LinkedList` — circular doubly linked lists

Every node has two links.  The head of a list and its entries form a ring:

    next:  head → a₁ → a₂ → … → aₙ → head
    prev:  head → aₙ → … → a₂ → a₁ → head

and an entry that is on no list is linked to itself.  The two operations store a few links, at
nodes they have been told, and nothing checks that these are neighbours:

    link new prev next     puts the entry `new` between `prev` and `next`
    unlink e prev next     takes the entry `e` from between them

`Chain f n l m` says that following `f` from the node `n` meets the entries `l` and then `m`.  A
ring is two chains, one of them backwards; what is proved of one direction serves the other.

**Proved here.**

    an entry is on the list iff it is not linked to itself     (`Linked.mem_iff`)
    `link` behind the head puts the entry in front             (`Linked.link_front`)
    `unlink` from between its neighbours takes it off          (`Linked.unlink`)
-/
import Mathlib.Data.List.Nodup
import Mathlib.Logic.Function.Basic

namespace LinuxDrivers.Lib

/-- A node of a list: its head, or an entry. -/
inductive Node (α : Type) where
  | head
  | entry (a : α)
  deriving DecidableEq, Repr

/-- The links of all nodes. -/
structure Links (α : Type) where
  next : Node α → Node α
  prev : Node α → Node α

namespace Links

variable {α : Type} [DecidableEq α]

/-- Every node is linked to itself. -/
def alone : Links α := ⟨id, id⟩

/-- Links a node to itself. -/
def init (s : Links α) (n : Node α) : Links α :=
  ⟨Function.update s.next n n, Function.update s.prev n n⟩

/-- Puts an entry between two nodes. -/
def link (s : Links α) (new prev next : Node α) : Links α :=
  ⟨Function.update (Function.update s.next new next) prev new,
    Function.update (Function.update s.prev next new) new prev⟩

/-- Takes an entry from between two nodes. -/
def unlink (s : Links α) (e prev next : Node α) : Links α :=
  init ⟨Function.update s.next prev next, Function.update s.prev next prev⟩ e

end Links

/-! ## Chains -/

/-- Following `f` from `n` meets the entries of the list, and then `m`. -/
def Chain {α : Type} (f : Node α → Node α) : Node α → List α → Node α → Prop
  | n, [], m => n = m
  | n, a :: l, m => n = .entry a ∧ Chain f (f (.entry a)) l m

/-- The first node of a list that ends with its head. -/
def firstNode {α : Type} : List α → Node α
  | [] => .head
  | a :: _ => .entry a

theorem firstNode_ne {α : Type} {l : List α} {a : α} (h : a ∉ l) : firstNode l ≠ .entry a := by
  cases l with
  | nil =>
      intro heq
      cases heq
  | cons b l =>
      rintro ⟨⟩
      exact h List.mem_cons_self

namespace Chain

variable {α : Type} {f f' : Node α → Node α} {n n' m : Node α} {l xs ys : List α} {a : α}

theorem congr (h : Chain f n l m) (hf : ∀ b ∈ l, f' (.entry b) = f (.entry b)) :
    Chain f' n l m := by
  induction l generalizing n with
  | nil => exact h
  | cons b l ih =>
      refine ⟨h.1, ?_⟩
      rw [hf b List.mem_cons_self]
      exact ih h.2 (fun c hc => hf c (List.mem_cons_of_mem b hc))

theorem append_iff : Chain f n (xs ++ ys) m ↔ ∃ k, Chain f n xs k ∧ Chain f k ys m := by
  induction xs generalizing n with
  | nil =>
      constructor
      · intro h
        exact ⟨n, rfl, h⟩
      · rintro ⟨k, rfl, h⟩
        exact h
  | cons b xs ih =>
      constructor
      · rintro ⟨hn, h⟩
        obtain ⟨k, hxs, hys⟩ := ih.mp h
        exact ⟨k, ⟨hn, hxs⟩, hys⟩
      · rintro ⟨k, ⟨hn, hxs⟩, hys⟩
        exact ⟨hn, ih.mpr ⟨k, hxs, hys⟩⟩

/-- A chain to the head begins with the first of its entries. -/
theorem first (h : Chain f n l .head) : n = firstNode l := by
  cases l with
  | nil => exact h
  | cons a l => exact h.1

/-- The chain meets `a`, and goes on from there. -/
theorem at_entry (h : Chain f n (xs ++ a :: ys) m) :
    Chain f n xs (.entry a) ∧ Chain f (f (.entry a)) ys m := by
  obtain ⟨k, hxs, rfl, hys⟩ := append_iff.mp h
  exact ⟨hxs, hys⟩

variable [DecidableEq α]

/-- A chain from the head that is to end somewhere else: the link of its last node is changed. -/
theorem redirect (h : Chain f (f .head) xs n) (hnodup : xs.Nodup) (m : Node α) :
    Chain (Function.update f (firstNode xs.reverse) m)
      (Function.update f (firstNode xs.reverse) m .head) xs m := by
  rcases List.eq_nil_or_concat' xs with rfl | ⟨ys, b, rfl⟩
  · simp [Chain, firstNode]
  · obtain ⟨hys, -⟩ := at_entry h
    have hlast : firstNode (ys ++ [b]).reverse = Node.entry b := by simp [firstNode]
    rw [hlast, Function.update_of_ne (by simp)]
    refine append_iff.mpr ⟨.entry b, hys.congr ?_, rfl, ?_⟩
    · intro c hc
      have hne : c ≠ b := by
        rintro rfl
        exact (List.nodup_append.mp hnodup).2.2 c hc c (List.mem_singleton_self c) rfl
      rw [Function.update_of_ne (by simpa using hne)]
    · show Function.update f (Node.entry b) m (.entry b) = m
      exact Function.update_self ..

/-- An entry is put in between. -/
theorem insert (a : α) (xs ys : List α) (h : Chain f (f .head) (xs ++ ys) .head)
    (hnodup : (xs ++ ys).Nodup) (ha : a ∉ xs ++ ys) :
    Chain (Function.update (Function.update f (firstNode xs.reverse) (.entry a)) (.entry a)
        (firstNode ys))
      (Function.update (Function.update f (firstNode xs.reverse) (.entry a)) (.entry a)
        (firstNode ys) .head) (xs ++ a :: ys) .head := by
  obtain ⟨k, hxs, hys⟩ := append_iff.mp h
  obtain rfl := hys.first
  obtain ⟨hnx, -, hdisj⟩ := List.nodup_append.mp hnodup
  have hentry : ∀ b ∈ xs ++ ys, Node.entry b ≠ .entry a := by
    rintro b hb ⟨⟩
    exact ha hb
  refine append_iff.mpr ⟨.entry a, ?_, rfl, ?_⟩
  · rw [Function.update_of_ne (by simp)]
    refine (hxs.redirect hnx (.entry a)).congr ?_
    intro b hb
    rw [Function.update_of_ne (hentry b (List.mem_append_left ys hb))]
  · rw [Function.update_self]
    refine hys.congr ?_
    intro b hb
    rw [Function.update_of_ne (hentry b (List.mem_append_right xs hb)), Function.update_of_ne]
    exact (firstNode_ne (fun hx => hdisj b (List.mem_reverse.mp hx) b hb rfl)).symm

/-- An entry is taken out. -/
theorem bypass (h : Chain f (f .head) (xs ++ a :: ys) .head) (hnodup : (xs ++ a :: ys).Nodup) :
    Chain (Function.update (Function.update f (firstNode xs.reverse) (f (.entry a))) (.entry a)
        (.entry a))
      (Function.update (Function.update f (firstNode xs.reverse) (f (.entry a))) (.entry a)
        (.entry a) .head) (xs ++ ys) .head := by
  obtain ⟨hxs, hys⟩ := at_entry h
  obtain ⟨hnx, hny, hdisj⟩ := List.nodup_append.mp hnodup
  refine append_iff.mpr ⟨f (.entry a), ?_, ?_⟩
  · rw [Function.update_of_ne (by simp)]
    refine (hxs.redirect hnx (f (.entry a))).congr ?_
    intro b hb
    rw [Function.update_of_ne]
    rintro ⟨⟩
    exact hdisj a hb a List.mem_cons_self rfl
  · refine hys.congr ?_
    intro b hb
    rw [Function.update_of_ne, Function.update_of_ne]
    · exact (firstNode_ne (fun hx =>
        hdisj b (List.mem_reverse.mp hx) b (List.mem_cons_of_mem a hb) rfl)).symm
    · rintro ⟨⟩
      exact (List.nodup_cons.mp hny).1 hb

end Chain

/-! ## Linked lists -/

/-- The links are those of a list with these entries; entries that are not on it are linked to
themselves. -/
structure Linked {α : Type} (s : Links α) (l : List α) : Prop where
  nodup : l.Nodup
  next : Chain s.next (s.next .head) l .head
  prev : Chain s.prev (s.prev .head) l.reverse .head
  off : ∀ a, a ∉ l → s.next (.entry a) = .entry a ∧ s.prev (.entry a) = .entry a

namespace Linked

variable {α : Type} {s : Links α} {l xs ys : List α} {a : α}

theorem alone : Linked (Links.alone : Links α) [] :=
  ⟨List.nodup_nil, rfl, rfl, fun _ _ => ⟨rfl, rfl⟩⟩

/-- The neighbours of an entry. -/
theorem neighbours (h : Linked s (xs ++ a :: ys)) :
    s.prev (.entry a) = firstNode xs.reverse ∧ s.next (.entry a) = firstNode ys := by
  have hprev := h.prev
  rw [List.reverse_append, List.reverse_cons, List.append_assoc] at hprev
  exact ⟨(Chain.at_entry hprev).2.first, (Chain.at_entry h.next).2.first⟩

/-- An entry is on the list iff it is not linked to itself. -/
theorem mem_iff (h : Linked s l) : a ∈ l ↔ s.next (.entry a) ≠ .entry a := by
  constructor
  · intro ha
    obtain ⟨xs, ys, rfl⟩ := List.append_of_mem ha
    rw [h.neighbours.2]
    exact firstNode_ne (List.nodup_cons.mp (List.nodup_append.mp h.nodup).2.1).1
  · intro hne
    by_contra ha
    exact hne (h.off a ha).1

variable [DecidableEq α]

/-- An entry that is on no list is initialised. -/
theorem init_eq (h : Linked s l) (ha : a ∉ l) : s.init (.entry a) = s := by
  obtain ⟨hnext, hprev⟩ := h.off a ha
  have hn : Function.update s.next (.entry a) (.entry a) = s.next := by
    nth_rewrite 2 [← hnext]
    exact Function.update_eq_self ..
  have hp : Function.update s.prev (.entry a) (.entry a) = s.prev := by
    nth_rewrite 2 [← hprev]
    exact Function.update_eq_self ..
  rw [Links.init, hn, hp]

theorem link_front (h : Linked s l) (ha : a ∉ l) :
    Linked (s.link (.entry a) .head (s.next .head)) (a :: l) := by
  have hfirst := h.next.first
  refine ⟨List.nodup_cons.mpr ⟨ha, h.nodup⟩, ?_, ?_, ?_⟩
  · have hchain := Chain.insert a [] l h.next h.nodup ha
    rw [← hfirst] at hchain
    simp only [Links.link]
    rw [Function.update_comm (by simp)]
    exact hchain
  · have hchain := Chain.insert a l.reverse []
      (by rw [List.append_nil]; exact h.prev)
      (by rw [List.append_nil]; exact List.nodup_reverse.mpr h.nodup) (by simpa using ha)
    rw [List.reverse_reverse, ← hfirst] at hchain
    rw [List.reverse_cons]
    exact hchain
  · intro b hb
    have hba : Node.entry b ≠ .entry a := by
      rintro ⟨⟩
      exact hb List.mem_cons_self
    have hbl : b ∉ l := fun hmem => hb (List.mem_cons_of_mem a hmem)
    have hbf : Node.entry b ≠ s.next .head := by
      rw [hfirst]
      exact (firstNode_ne hbl).symm
    simp only [Links.link]
    rw [Function.update_of_ne (by simp), Function.update_of_ne hba, Function.update_of_ne hba,
      Function.update_of_ne hbf]
    exact h.off b hbl

theorem unlink (h : Linked s l) (ha : a ∈ l) :
    Linked (s.unlink (.entry a) (s.prev (.entry a)) (s.next (.entry a))) (l.erase a) := by
  obtain ⟨xs, ys, rfl⟩ := List.append_of_mem ha
  obtain ⟨hprev, hnext⟩ := h.neighbours
  obtain ⟨hnx, hny, hdisj⟩ := List.nodup_append.mp h.nodup
  have hax : a ∉ xs := fun hx => hdisj a hx a List.mem_cons_self rfl
  have herase : (xs ++ a :: ys).erase a = xs ++ ys := by
    rw [List.erase_append_right _ hax, List.erase_cons_head]
  rw [herase]
  refine ⟨?_, ?_, ?_, ?_⟩
  · rw [← herase]
    exact h.nodup.erase a
  · have hchain := Chain.bypass h.next h.nodup
    rw [← hprev] at hchain
    exact hchain
  · have hback : (xs ++ a :: ys).reverse = ys.reverse ++ a :: xs.reverse := by simp
    have hchain := Chain.bypass (hback ▸ h.prev) (hback ▸ List.nodup_reverse.mpr h.nodup)
    rw [List.reverse_reverse, ← hnext] at hchain
    rw [List.reverse_append]
    exact hchain
  · intro b hb
    simp only [Links.unlink, Links.init]
    by_cases hba : b = a
    · subst hba
      exact ⟨Function.update_self .., Function.update_self ..⟩
    · have hentry : Node.entry b ≠ .entry a := by simpa using hba
      have hbx : b ∉ xs := fun hx => hb (List.mem_append_left ys hx)
      have hby : b ∉ ys := fun hy => hb (List.mem_append_right xs hy)
      rw [Function.update_of_ne hentry, Function.update_of_ne hentry, hprev, hnext,
        Function.update_of_ne (firstNode_ne (by simpa using hbx)).symm,
        Function.update_of_ne (firstNode_ne hby).symm]
      exact h.off b (by simp [hbx, hby, hba])

end Linked

end LinuxDrivers.Lib
