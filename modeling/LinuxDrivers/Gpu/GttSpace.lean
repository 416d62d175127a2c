/-
# `LinuxDrivers.Gpu.GttSpace` — space in the graphics translation table

Two calls give an object its place: `drm_mm_search_free` finds free space and `drm_mm_get_block`
takes it.  Here the first one asks Genode's allocator, and gets a node; the second one makes a block
of the node, once.

    i915_gem_object_bind_to_gtt      refuses alignments the object's own does not divide
    drm_mm_search_free               alloc_aligned(size, log2(alignment))
    drm_mm_get_block                 a new node for the same addresses, unless the node is in use

The allocator wants a power of two, and `log2` rounds down.  And a block is a node as well, not in
use, so `drm_mm_get_block` makes another block of it, at the same addresses.

Of the allocator it is assumed that what it gives lies in the range, apart from what it gave
before, and is aligned as it was asked.

**Proved here.**

    for which alignments, and for which uses of blocks, every block is aligned, inside of the
    range and apart from the other ones             (`gtt_space_iff`)
-/
import LinuxDrivers.Basic
import LinuxDrivers.Lib.Machine

namespace LinuxDrivers.Gpu.GttSpace

open LinuxDrivers.Lib

/-! ## The alignment of an object -/

/-- The tests of `i915_gem_object_bind_to_gtt`: the alignment it looks for, or `-EINVAL`. -/
def bindAlignment (gttAlignment alignment : Word) : Option Word :=
  let alignment := if alignment = 0 then gttAlignment else alignment
  if alignment &&& (gttAlignment - 1) ≠ 0 then none else some alignment

/-! ## Nodes -/

/-- Where a node lies, and (history) the alignment it was asked for with. -/
structure Area where
  start : Word
  size : Word
  alignment : Word
  deriving DecidableEq, Repr

/-- `class Mm_node`.  A block has been made of another node: which one, is history. -/
structure MmNode where
  area : Area
  /-- `_used` -/
  used : Bool
  parent : Option Nat
  deriving DecidableEq, Repr

/-- `get_block` of the node with this index: the child, and the node afterwards. -/
def MmNode.getBlock (node : MmNode) (index : Nat) : Option (MmNode × MmNode) :=
  if node.used then none
  else some (⟨node.area, false, some index⟩, { node with used := true })

/-- `align_log2` in `search_free` -/
def alignLog2 (alignment : Word) : Nat :=
  if alignment ≠ 0 then Nat.log2 alignment.toNat else 0

/-- `search_free`, with the answer of the allocator. -/
def searchFree (size alignment : Word) (allocAligned : Nat → Option Word) : Option MmNode :=
  match allocAligned (alignLog2 alignment) with
  | none => none
  | some addr => some ⟨⟨addr, size, alignment⟩, false, none⟩

/-- `drm_mm`, with the range of the allocator and all the nodes there are. -/
structure Mm where
  start : Word
  size : Word
  nodes : List MmNode
  deriving DecidableEq, Repr

def drmMmInit (start size : Word) : Mm := ⟨start, size, []⟩

inductive Call where
  /-- an object with this alignment asks for another one, or 0 -/
  | searchFree (gttAlignment alignment size : Word) (allocAligned : Nat → Option Word)
  | getBlock (index : Nat)

def step (mm : Mm) : Call → Option Mm
  | .searchFree gttAlignment alignment size allocAligned =>
      match bindAlignment gttAlignment alignment with
      | none => some mm
      | some alignment =>
          match searchFree size alignment allocAligned with
          | none => some mm
          | some node => some { mm with nodes := mm.nodes ++ [node] }
  | .getBlock index =>
      match mm.nodes[index]? with
      | none => none
      | some node =>
          match node.getBlock index with
          | none => some mm
          | some (child, node) => some { mm with nodes := mm.nodes.set index node ++ [child] }

def machine : Machine Mm Call where
  init mm := ∃ start size, mm = drmMmInit start size
  step := step

/-! ## What it is for -/

/-- No address in both. -/
def Area.Apart (a b : Area) : Prop :=
  ∀ x, a.start.toNat ≤ x → x < a.start.toNat + a.size.toNat →
    b.start.toNat ≤ x → ¬ x < b.start.toNat + b.size.toNat

def Area.Inside (a : Area) (mm : Mm) : Prop :=
  mm.start.toNat ≤ a.start.toNat ∧
    a.start.toNat + a.size.toNat ≤ mm.start.toNat + mm.size.toNat

def Area.Aligned (a : Area) : Prop := a.alignment.toNat ∣ a.start.toNat

/-- What is assumed of the allocator's answer. -/
structure Conforms (mm : Mm) (size : Word) (alignLog2 : Nat) (addr : Word) : Prop where
  aligned : 2 ^ alignLog2 ∣ addr.toNat
  inside : Area.Inside ⟨addr, size, 0⟩ mm
  apart : ∀ (i : Nat) (node : MmNode), mm.nodes[i]? = some node → node.parent = none →
    Area.Apart ⟨addr, size, 0⟩ node.area

/-- The objects ask for alignments of these kinds, none of them 0, and the allocator conforms;
blocks are made of blocks only where `reuse` is the case. -/
def allowed (uses : Word → Word → Prop) (reuse : Prop) (mm : Mm) : Call → Prop
  | .searchFree gttAlignment alignment size allocAligned =>
      uses gttAlignment alignment ∧
        ∀ x, bindAlignment gttAlignment alignment = some x → x ≠ 0 ∧
          ∀ addr, allocAligned (alignLog2 x) = some addr → Conforms mm size (alignLog2 x) addr
  | .getBlock index => ∀ node, mm.nodes[index]? = some node → node.parent ≠ none → reuse

/-- Every block is aligned, inside of the range, and apart from the other blocks. -/
def Right (mm : Mm) : Prop :=
  ∀ (i : Nat) (node : MmNode), mm.nodes[i]? = some node → node.parent ≠ none →
    node.area.Aligned ∧ node.area.Inside mm ∧
      ∀ (j : Nat) (other : MmNode), j ≠ i → mm.nodes[j]? = some other → other.parent ≠ none →
        node.area.Apart other.area

/-! ## The invariant

The nodes the allocator gave are apart, and each of them has one block at most. -/

structure Inv (mm : Mm) : Prop where
  placed : ∀ (i : Nat) (node : MmNode), mm.nodes[i]? = some node → node.parent = none →
    node.area.Aligned ∧ node.area.Inside mm
  apart : ∀ (i j : Nat) (node other : MmNode), i ≠ j → mm.nodes[i]? = some node →
    mm.nodes[j]? = some other → node.parent = none → other.parent = none →
    node.area.Apart other.area
  parent : ∀ (i k : Nat) (node : MmNode), mm.nodes[i]? = some node → node.parent = some k →
    ∃ owner, mm.nodes[k]? = some owner ∧ owner.parent = none ∧ owner.used = true ∧
      owner.area = node.area
  unique : ∀ (i j k : Nat) (node other : MmNode), mm.nodes[i]? = some node →
    mm.nodes[j]? = some other → node.parent = some k → other.parent = some k → i = j

theorem Inv.right {mm : Mm} (h : Inv mm) : Right mm := by
  intro i node hi hne
  obtain ⟨k, hk⟩ := Option.ne_none_iff_exists'.mp hne
  obtain ⟨owner, howner, hnone, -, harea⟩ := h.parent i k node hi hk
  obtain ⟨haligned, hinside⟩ := h.placed k owner howner hnone
  rw [harea] at haligned hinside
  refine ⟨haligned, hinside, ?_⟩
  intro j other hji hj hne'
  obtain ⟨l, hl⟩ := Option.ne_none_iff_exists'.mp hne'
  obtain ⟨owner', howner', hnone', -, harea'⟩ := h.parent j l other hj hl
  have hkl : k ≠ l := by
    rintro rfl
    exact hji (h.unique j i k other node hj hi hl hk)
  have hapart := h.apart k l owner owner' hkl howner howner' hnone hnone'
  rw [harea, harea'] at hapart
  exact hapart

theorem Area.Apart.symm {a b : Area} (h : a.Apart b) : b.Apart a :=
  fun x hb hb' ha ha' => h x ha ha' hb hb'

theorem Area.not_apart_self {a : Area} (h : 0 < a.size.toNat) : ¬ a.Apart a :=
  fun hapart => hapart a.start.toNat (Nat.le_refl _) (Nat.lt_add_of_pos_right h) (Nat.le_refl _)
    (Nat.lt_add_of_pos_right h)

/-- What is found in a list with one more at its end. -/
theorem concat_cases {α : Type} {l : List α} {a b : α} {i : Nat} (h : (l ++ [a])[i]? = some b) :
    l[i]? = some b ∨ i = l.length ∧ b = a := by
  rcases Nat.lt_trichotomy i l.length with hlt | rfl | hgt
  · rw [List.getElem?_append_left hlt] at h
    exact .inl h
  · rw [List.getElem?_concat_length] at h
    exact .inr ⟨rfl, (Option.some.inj h).symm⟩
  · rw [List.getElem?_eq_none (by rw [List.length_append, List.length_singleton]; omega)] at h
    cases h

section

variable {mm : Mm}

/-- One more node from the allocator. -/
theorem Inv.search {node : MmNode} (h : Inv mm) (hnone : node.parent = none)
    (hplaced : node.area.Aligned ∧ node.area.Inside mm)
    (hapart : ∀ (i : Nat) (other : MmNode), mm.nodes[i]? = some other → other.parent = none →
      node.area.Apart other.area) : Inv { mm with nodes := mm.nodes ++ [node] } := by
  have hkeep {i : Nat} {other : MmNode} (hi : mm.nodes[i]? = some other) :
      (mm.nodes ++ [node])[i]? = some other :=
    (List.getElem?_append_left (List.getElem?_eq_some_iff.mp hi).1).trans hi
  refine ⟨?_, ?_, ?_, ?_⟩
  · intro i n hi hn
    rcases concat_cases hi with hold | ⟨rfl, rfl⟩
    · exact h.placed i n hold hn
    · exact hplaced
  · intro i j n m hij hi hj hn hm
    rcases concat_cases hi with hold | ⟨rfl, rfl⟩
    · rcases concat_cases hj with hold' | ⟨rfl, rfl⟩
      · exact h.apart i j n m hij hold hold' hn hm
      · exact (hapart i n hold hn).symm
    · rcases concat_cases hj with hold' | ⟨rfl, rfl⟩
      · exact hapart j m hold' hm
      · exact absurd rfl hij
  · intro i k n hi hn
    rcases concat_cases hi with hold | ⟨rfl, rfl⟩
    · obtain ⟨owner, howner, hrest⟩ := h.parent i k n hold hn
      exact ⟨owner, hkeep howner, hrest⟩
    · rw [hnone] at hn
      cases hn
  · intro i j k n m hi hj hn hm
    rcases concat_cases hi with hold | ⟨rfl, rfl⟩
    · rcases concat_cases hj with hold' | ⟨rfl, rfl⟩
      · exact h.unique i j k n m hold hold' hn hm
      · rw [hnone] at hm
        cases hm
    · rw [hnone] at hn
      cases hn

/-- What a node is after a block has been made of one: as before, or in use as well. -/
theorem getBlock_cases {index i : Nat} {node child n : MmNode}
    (h : (mm.nodes.set index { node with used := true } ++ [child])[i]? = some n)
    (hnode : mm.nodes[index]? = some node) :
    (∃ m, mm.nodes[i]? = some m ∧ n.area = m.area ∧ n.parent = m.parent) ∨
      i = mm.nodes.length ∧ n = child := by
  rcases concat_cases h with hold | ⟨hi, rfl⟩
  · left
    by_cases hindex : index = i
    · subst hindex
      rw [List.getElem?_set_self (List.getElem?_eq_some_iff.mp hnode).1] at hold
      cases hold
      exact ⟨node, hnode, rfl, rfl⟩
    · rw [List.getElem?_set_ne hindex] at hold
      exact ⟨n, hold, rfl, rfl⟩
  · right
    rw [List.length_set] at hi
    exact ⟨hi, rfl⟩

/-- And every node is still there. -/
theorem getBlock_keeps {index i : Nat} {node child m : MmNode}
    (hnode : mm.nodes[index]? = some node) (hm : mm.nodes[i]? = some m) :
    ∃ n, (mm.nodes.set index { node with used := true } ++ [child])[i]? = some n ∧
      n.area = m.area ∧ n.parent = m.parent ∧ (m.used = true ∨ i = index → n.used = true) := by
  have hlt := (List.getElem?_eq_some_iff.mp hm).1
  rw [List.getElem?_append_left (by rw [List.length_set]; exact hlt)]
  by_cases hindex : index = i
  · subst hindex
    rw [hm] at hnode
    cases hnode
    exact ⟨_, List.getElem?_set_self hlt, rfl, rfl, fun _ => rfl⟩
  · refine ⟨m, (List.getElem?_set_ne hindex).trans hm, rfl, rfl, ?_⟩
    rintro (hused | rfl)
    · exact hused
    · exact absurd rfl hindex

/-- One more block, of a node from the allocator that is not in use. -/
theorem Inv.block {node : MmNode} {index : Nat} (h : Inv mm)
    (hnode : mm.nodes[index]? = some node) (hnone : node.parent = none)
    (hunused : node.used = false) :
    Inv { mm with nodes := mm.nodes.set index { node with used := true } ++
      [⟨node.area, false, some index⟩] } := by
  refine ⟨?_, ?_, ?_, ?_⟩
  · intro i n hi hn
    rcases getBlock_cases hi hnode with ⟨m, hm, harea, hparent⟩ | ⟨_, rfl⟩
    · rw [harea]
      exact h.placed i m hm (hparent ▸ hn)
    · cases hn
  · intro i j n n' hij hi hj hn hn'
    rcases getBlock_cases hi hnode with ⟨m, hm, harea, hparent⟩ | ⟨_, rfl⟩
    · rcases getBlock_cases hj hnode with ⟨m', hm', harea', hparent'⟩ | ⟨_, rfl⟩
      · rw [harea, harea']
        exact h.apart i j m m' hij hm hm' (hparent ▸ hn) (hparent' ▸ hn')
      · cases hn'
    · cases hn
  · intro i k n hi hn
    rcases getBlock_cases hi hnode with ⟨m, hm, harea, hparent⟩ | ⟨_, rfl⟩
    · obtain ⟨owner, howner, hnone', hused, harea'⟩ := h.parent i k m hm (hparent ▸ hn)
      obtain ⟨owner', howner', harea'', hparent'', hused'⟩ := getBlock_keeps hnode howner
      exact ⟨owner', howner', hparent''.trans hnone', hused' (.inl hused),
        (harea''.trans harea').trans harea.symm⟩
    · cases hn
      obtain ⟨owner', howner', harea'', hparent'', hused'⟩ := getBlock_keeps hnode hnode
      exact ⟨owner', howner', hparent''.trans hnone, hused' (.inr rfl), harea''⟩
  · -- the node was not in use, so no block had been made of it
    have hfirst {i : Nat} {m : MmNode} (hm : mm.nodes[i]? = some m) : m.parent ≠ some index := by
      intro hparent
      obtain ⟨owner, howner, -, hused, -⟩ := h.parent i index m hm hparent
      rw [hnode] at howner
      cases howner
      rw [hunused] at hused
      cases hused
    intro i j k n n' hi hj hn hn'
    rcases getBlock_cases hi hnode with ⟨m, hm, _, hparent⟩ | ⟨rfl, rfl⟩
    · rcases getBlock_cases hj hnode with ⟨m', hm', _, hparent'⟩ | ⟨rfl, rfl⟩
      · exact h.unique i j k m m' hm hm' (hparent ▸ hn) (hparent' ▸ hn')
      · cases hn'
        exact absurd (hparent ▸ hn) (hfirst hm)
    · rcases getBlock_cases hj hnode with ⟨m', hm', _, hparent'⟩ | ⟨rfl, rfl⟩
      · cases hn
        exact absurd (hparent' ▸ hn') (hfirst hm')
      · rfl

end

/-! ## Every run -/

/-- Only powers of two are asked for, and no block is made of a block. -/
def Careful (uses : Word → Word → Prop) (reuse : Prop) : Prop :=
  ∀ gttAlignment alignment x, uses gttAlignment alignment →
    bindAlignment gttAlignment alignment = some x → x ≠ 0 → (∃ k, x.toNat = 2 ^ k) ∧ ¬ reuse

theorem alignLog2_pow {x : Word} {k : Nat} (hx : x ≠ 0) (h : x.toNat = 2 ^ k) :
    alignLog2 x = k := by
  rw [alignLog2, if_pos hx, h, Nat.log2_two_pow]

section

variable {uses : Word → Word → Prop} {reuse : Prop} {mm mm' : Mm}

theorem Inv.step {call : Call} (hcare : Careful uses reuse) (hok : allowed uses reuse mm call)
    (hstep : step mm call = some mm') (h : Inv mm) (hnodes : mm.nodes ≠ [] → ¬ reuse) :
    Inv mm' ∧ (mm'.nodes ≠ [] → ¬ reuse) := by
  cases call with
  | searchFree gttAlignment alignment size allocAligned =>
      obtain ⟨huse, hanswer⟩ := hok
      simp only [GttSpace.step, searchFree] at hstep
      cases hbind : bindAlignment gttAlignment alignment with
      | none =>
          rw [hbind] at hstep
          cases hstep
          exact ⟨h, hnodes⟩
      | some x =>
          obtain ⟨hx, hconforms⟩ := hanswer x hbind
          obtain ⟨⟨k, hk⟩, hreuse⟩ := hcare gttAlignment alignment x huse hbind hx
          simp only [hbind] at hstep
          cases haddr : allocAligned (alignLog2 x) with
          | none =>
              simp only [haddr] at hstep
              cases hstep
              exact ⟨h, hnodes⟩
          | some addr =>
              simp only [haddr] at hstep
              cases hstep
              have hc := hconforms addr haddr
              refine ⟨h.search rfl ⟨?_, hc.inside⟩ hc.apart, fun _ => hreuse⟩
              have haligned := hc.aligned
              rw [alignLog2_pow hx hk, ← hk] at haligned
              exact haligned
  | getBlock index =>
      simp only [GttSpace.step] at hstep
      cases hnode : mm.nodes[index]? with
      | none =>
          rw [hnode] at hstep
          cases hstep
      | some node =>
          have hreuse := hnodes (List.ne_nil_of_mem (List.mem_of_getElem? hnode))
          simp only [hnode, MmNode.getBlock] at hstep
          cases hused : node.used with
          | true =>
              simp only [hused, if_true] at hstep
              cases hstep
              exact ⟨h, hnodes⟩
          | false =>
              simp only [hused, Bool.false_eq_true, if_false] at hstep
              cases hstep
              have hnone : node.parent = none := by
                by_contra hne
                exact hreuse (hok node hnode hne)
              exact ⟨h.block hnode hnone hused, fun _ => hreuse⟩

theorem reach_inv (hcare : Careful uses reuse) (h : machine.Reach (allowed uses reuse) mm) :
    Inv mm ∧ (mm.nodes ≠ [] → ¬ reuse) := by
  induction h with
  | init hinit =>
      obtain ⟨start, size, rfl⟩ := hinit
      refine ⟨⟨?_, ?_, ?_, ?_⟩, fun hne => absurd rfl hne⟩
      · intro i node hi
        cases hi
      · intro i j node other _ hi
        cases hi
      · intro i k node hi
        cases hi
      · intro i j k node other hi
        cases hi
  | step call _ hok hstep ih => exact ih.1.step hcare hok hstep ih.2

/-! ## And where it does not -/

theorem toNat_alignLog2 {x : Word} (hx : x ≠ 0) :
    2 ^ alignLog2 x ≤ x.toNat ∧ (BitVec.ofNat 32 (2 ^ alignLog2 x)).toNat = 2 ^ alignLog2 x := by
  have hle : 2 ^ alignLog2 x ≤ x.toNat := by
    rw [alignLog2, if_pos hx]
    exact Nat.log2_self_le (fun h0 => hx (BitVec.eq_of_toNat_eq h0))
  have := x.isLt
  refine ⟨hle, ?_⟩
  rw [BitVec.toNat_ofNat, Nat.mod_eq_of_lt (by omega)]

/-- The allocator gives the first address it can: a range of one byte, with a block made of it. -/
theorem reach_block {gttAlignment alignment x : Word}
    (huse : uses gttAlignment alignment) (hbind : bindAlignment gttAlignment alignment = some x)
    (hx : x ≠ 0) :
    machine.Reach (allowed uses reuse) ⟨BitVec.ofNat 32 (2 ^ alignLog2 x), 1,
      [⟨⟨BitVec.ofNat 32 (2 ^ alignLog2 x), 1, x⟩, true, none⟩,
        ⟨⟨BitVec.ofNat 32 (2 ^ alignLog2 x), 1, x⟩, false, some 0⟩]⟩ := by
  obtain ⟨addr, haddr⟩ : ∃ addr, addr = BitVec.ofNat 32 (2 ^ alignLog2 x) := ⟨_, rfl⟩
  have hpow : addr.toNat = 2 ^ alignLog2 x := by
    rw [haddr]
    exact (toNat_alignLog2 hx).2
  rw [← haddr]
  have h1 : machine.Reach (allowed uses reuse) (drmMmInit addr 1) := .init ⟨addr, 1, rfl⟩
  have h2 : machine.Reach (allowed uses reuse) ⟨addr, 1, [⟨⟨addr, 1, x⟩, false, none⟩]⟩ := by
    refine .step (.searchFree gttAlignment alignment 1 (fun _ => some addr)) h1 ⟨huse, ?_⟩ ?_
    · intro y hy
      rw [hbind] at hy
      cases hy
      refine ⟨hx, ?_⟩
      intro answer hanswer
      cases hanswer
      refine ⟨?_, ⟨Nat.le_refl _, Nat.le_refl _⟩, ?_⟩
      · rw [hpow]
      · intro i node hi
        cases hi
    · simp only [machine, step, hbind]
      rfl
  refine .step (.getBlock 0) h2 ?_ rfl
  intro node hnode hne
  cases hnode
  exact absurd rfl hne

theorem careful_of_right (h : ∀ mm, machine.Reach (allowed uses reuse) mm → Right mm) :
    Careful uses reuse := by
  intro gttAlignment alignment x huse hbind hx
  obtain ⟨hlog, hpow⟩ := toNat_alignLog2 hx
  have hreach : machine.Reach (allowed uses reuse) _ := reach_block huse hbind hx
  constructor
  · -- an alignment that is not a power of two is larger than the one asked for
    refine ⟨alignLog2 x, ?_⟩
    obtain ⟨haligned, -⟩ := h _ hreach 1 _ rfl (by simp)
    have hdvd : x.toNat ∣ 2 ^ alignLog2 x := hpow ▸ haligned
    exact Nat.le_antisymm (Nat.le_of_dvd (Nat.two_pow_pos _) hdvd) hlog
  · intro hreuse
    have hagain : machine.Reach (allowed uses reuse) _ :=
      .step (.getBlock 1) hreach (fun _ _ _ => hreuse) rfl
    obtain ⟨-, -, hapart⟩ := h _ hagain 1 _ rfl (by simp)
    have hself : Area.Apart ⟨BitVec.ofNat 32 (2 ^ alignLog2 x), 1, x⟩
        ⟨BitVec.ofNat 32 (2 ^ alignLog2 x), 1, x⟩ := hapart 2 _ (by decide) rfl (by simp)
    exact Area.not_apart_self (show 0 < (1 : Word).toNat by decide) hself

end

/-- Whatever alignments the objects ask for, and whether blocks are made of blocks or not: after
every run of the two calls every block is aligned as it was asked for, inside of the range and
apart from all the others if and only if the alignments that are accepted are powers of two, and no
block is made of a block. -/
theorem gtt_space_iff (uses : Word → Word → Prop) (reuse : Prop) :
    (∀ mm, machine.Reach (allowed uses reuse) mm → Right mm) ↔
      ∀ gttAlignment alignment x, uses gttAlignment alignment →
        bindAlignment gttAlignment alignment = some x → x ≠ 0 →
          (∃ k, x.toNat = 2 ^ k) ∧ ¬ reuse :=
  ⟨careful_of_right, fun hcare _ h => (reach_inv hcare h).1.right⟩

/-- An object of alignment 4096 asks for 12288, gets space at 8192, and a block there.  Made of that
block, there is another one at the same place. -/
theorem gtt_space_misplaced :
    bindAlignment 4096 12288 = some 12288 ∧ alignLog2 12288 = 13 ∧
      machine.run (drmMmInit 4096 0x100000)
          [.searchFree 4096 12288 4096 (fun _ => some 8192), .getBlock 0, .getBlock 1] =
        some ⟨4096, 0x100000, [⟨⟨8192, 4096, 12288⟩, true, none⟩,
          ⟨⟨8192, 4096, 12288⟩, true, some 0⟩, ⟨⟨8192, 4096, 12288⟩, false, some 1⟩]⟩ ∧
      ¬ 12288 ∣ 8192 := by
  decide

end LinuxDrivers.Gpu.GttSpace
