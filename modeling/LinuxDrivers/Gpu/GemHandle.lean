/-
# `LinuxDrivers.Gpu.GemHandle` — the handles of the i915 driver

Every client of the GPU driver has its own table of buffer objects, an `Avl_tree` of
`Gem_object_handle`s that are ordered by their ids.  The ids count up from 1.

    drm_gem_handle_create     a new node under the next id, the id goes to `*handlep`
    drm_gem_object_lookup     the object of the node that `find_by_id` finds

An id is a `long` in the table, an `int` in the search and a `u32` outside.  `long` has
`w` bits here, 32 or more.

The tree itself is Genode's.  What is assumed of its `insert` is `Lib.Insertion`: it
keeps the nodes in the order of `higher`, and adds the new one.

**Proved here.**

    a lookup finds exactly the object whose creation gave the id to the same client
                                                        (`gem_handles_exact`)
-/
import LinuxDrivers.Basic
import LinuxDrivers.Lib.History
import LinuxDrivers.Lib.SearchTree

namespace LinuxDrivers.Gpu.GemHandle

open LinuxDrivers.Lib

variable {w : Nat} {O : Type}

/-! ## The code -/

/-- `Gem_object_handle`; `O` is what a `drm_gem_object *` points to. -/
structure GemObjectHandle (w : Nat) (O : Type) where
  id : BitVec w
  obj : O
  deriving DecidableEq, Repr

abbrev Tree (w : Nat) (O : Type) := BinaryTree (GemObjectHandle w O)

def GemObjectHandle.higher (h n1 : GemObjectHandle w O) : Bool := h.id.slt n1.id

/-- `find_by_id` of the node at the root: `child(true)` is the right subtree. -/
def findById (id : BitVec 32) : Tree w O → Option (GemObjectHandle w O)
  | .nil => none
  | .node h l r =>
      if id.signExtend w = h.id then some h
      else if h.id.slt (id.signExtend w) then findById id r else findById id l

/-- `Gpu_driver::Client` -/
structure Client (w : Nat) (O : Type) where
  gemObjectHandles : Tree w O
  idCnt : BitVec w

def Client.init : Client w O := ⟨.nil, 1⟩

section
variable (insert : Tree w O → GemObjectHandle w O → Tree w O)

/-- The heap gives the memory for the node, or the client stays as it was. -/
def Client.createBoHandle (client : Client w O) (obj : O) (memory : Bool) :
    Option (GemObjectHandle w O) × Client w O :=
  if memory then
    let handle : GemObjectHandle w O := ⟨client.idCnt, obj⟩
    (some handle, ⟨insert client.gemObjectHandles handle, client.idCnt + 1⟩)
  else (none, client)

def Client.lookupBoHandle (client : Client w O) (id : BitVec w) :
    Option (GemObjectHandle w O) :=
  findById (id.setWidth 32) client.gemObjectHandles

/-- Either the error, or what is stored in `*handlep` and the client afterwards. -/
def drmGemHandleCreate (filp : Option (Client w O)) (obj : O) (memory : Bool) :
    Except Int (BitVec 32 × Client w O) :=
  match filp with
  | none => .error (-1)
  | some client =>
      match client.createBoHandle insert obj memory with
      | (none, _) => .error (-2)
      | (some handle, client) => .ok (handle.id.setWidth 32, client)

def drmGemObjectLookup (filp : Option (Client w O)) (id : BitVec 32) : Option O :=
  match filp with
  | none => none
  | some client => (client.lookupBoHandle (id.setWidth w)).map (·.obj)

/-! ## Histories of calls -/

/-- The calls, with the number of the client, or `none` for a null pointer. -/
inductive Call (O : Type) where
  | create (filp : Option Nat) (obj : O) (memory : Bool)
  | lookup (filp : Option Nat) (id : BitVec 32)

structure State (w : Nat) (O : Type) where
  clients : Nat → Client w O
  /-- the client, the id it was given and the object it was given for -/
  given : List (Nat × BitVec 32 × O)

def State.init : State w O := ⟨fun _ => .init, []⟩

def step (s : State w O) : Call O → State w O
  | .create none _ _ => s
  | .create (some c) obj memory =>
      match drmGemHandleCreate insert (some (s.clients c)) obj memory with
      | .error _ => s
      | .ok (id, client) => ⟨Function.update s.clients c client, (c, id, obj) :: s.given⟩
  | .lookup _ _ => s

end

/-- No counter goes beyond 2³¹ - 1. -/
def counterFits (s : State w O) : Call O → Bool
  | .create (some c) _ true => (s.clients c).idCnt.toNat + 1 ≤ 2 ^ 31 - 1
  | _ => true

/-- A lookup returns an object exactly if the id was given to this client for it. -/
def Exact (s : State w O) : Call O → Prop
  | .lookup filp id => ∀ obj, drmGemObjectLookup (filp.map s.clients) id = some obj ↔
      ∃ c, filp = some c ∧ (c, id, obj) ∈ s.given
  | .create _ _ _ => True

/-! ## The search -/

theorem higher_iff (h n : GemObjectHandle w O) :
    h.higher n = true ↔ h.id.toInt < n.id.toInt :=
  BitVec.slt_iff_toInt_lt

/-- The search compares the ids as numbers, whatever the width they come in. -/
theorem findById_eq_search (hw : 32 ≤ w) (id : BitVec 32) :
    ∀ t : Tree w O, findById id t = search (·.id.toInt) id.toInt t := by
  intro t
  have hext : (id.signExtend w).toInt = id.toInt := BitVec.toInt_signExtend_of_le hw
  induction t with
  | nil => rfl
  | node h l r ihl ihr =>
      have heq : id.signExtend w = h.id ↔ id.toInt = h.id.toInt := by
        rw [← BitVec.toInt_inj, hext]
      have hlt : h.id.slt (id.signExtend w) = true ↔ h.id.toInt < id.toInt := by
        rw [BitVec.slt_iff_toInt_lt, hext]
      simp only [findById, search, heq, hlt, ihl, ihr]

/-- A small id is the same number inside and outside the table. -/
theorem toInt_eq_iff (hw : 32 ≤ w) {i : BitVec w} (hi : i.toNat < 2 ^ 31) (id : BitVec 32) :
    i.toInt = id.toInt ↔ i.setWidth 32 = id := by
  have hpow : 2 ^ 32 ≤ 2 ^ w := Nat.pow_le_pow_right (by decide) hw
  have hint : i.toInt = i.toNat := BitVec.toInt_eq_toNat_of_lt (by omega)
  have hnat : (i.setWidth 32).toNat = i.toNat := by
    rw [BitVec.toNat_setWidth, Nat.mod_eq_of_lt (by omega)]
  have hset : (i.setWidth 32).toInt = i.toNat := by
    rw [BitVec.toInt_eq_toNat_of_lt (by omega), hnat]
  rw [hint, ← hset, BitVec.toInt_inj]

/-! ## The invariant -/

/-- A client's table: in order, and with ids below the counter. -/
structure Client.Ordered (client : Client w O) : Prop where
  sorted : Sorted GemObjectHandle.higher client.gemObjectHandles
  separated : Separated GemObjectHandle.higher (values client.gemObjectHandles)
  counter : client.idCnt.toNat < 2 ^ 31
  below : ∀ h ∈ values client.gemObjectHandles, h.id.toNat < client.idCnt.toNat

/-- The tables hold what was given out. -/
structure Indexed (s : State w O) : Prop where
  ordered : ∀ c, (s.clients c).Ordered
  given : ∀ c id obj, (c, id, obj) ∈ s.given ↔
    ∃ h ∈ values (s.clients c).gemObjectHandles, h.id.setWidth 32 = id ∧ h.obj = obj

section
variable {insert : Tree w O → GemObjectHandle w O → Tree w O} {client : Client w O}
  {s : State w O}

theorem Client.Ordered.lookup (hc : client.Ordered) (hw : 32 ≤ w) (id : BitVec 32) (obj : O) :
    drmGemObjectLookup (some client) id = some obj ↔
      ∃ h ∈ values client.gemObjectHandles, h.id.setWidth 32 = id ∧ h.obj = obj := by
  have hback : (id.setWidth w).setWidth 32 = id := by
    rw [BitVec.setWidth_setWidth_of_le _ hw, BitVec.setWidth_eq]
  simp only [drmGemObjectLookup, Client.lookupBoHandle, hback, findById_eq_search hw,
    Option.map_eq_some_iff, search_eq_some higher_iff hc.sorted hc.separated]
  constructor
  · rintro ⟨h, ⟨hmem, hid⟩, hobj⟩
    have hsmall := (hc.below h hmem).trans hc.counter
    exact ⟨h, hmem, (toInt_eq_iff hw hsmall id).mp hid, hobj⟩
  · rintro ⟨h, hmem, hid, hobj⟩
    have hsmall := (hc.below h hmem).trans hc.counter
    exact ⟨h, ⟨hmem, (toInt_eq_iff hw hsmall id).mpr hid⟩, hobj⟩

/-- The next id is higher than all ids of the table. -/
theorem Client.Ordered.fresh (hc : client.Ordered) (hw : 32 ≤ w) (obj : O) :
    Separated GemObjectHandle.higher
      (⟨client.idCnt, obj⟩ :: values client.gemObjectHandles) := by
  refine List.pairwise_cons.mpr ⟨?_, hc.separated⟩
  intro h hmem
  right
  refine (higher_iff _ _).mpr ?_
  show h.id.toInt < client.idCnt.toInt
  have hpow : 2 ^ 32 ≤ 2 ^ w := Nat.pow_le_pow_right (by decide) hw
  have hbelow := hc.below h hmem
  have hcounter := hc.counter
  rw [BitVec.toInt_eq_toNat_of_lt (by omega), BitVec.toInt_eq_toNat_of_lt (by omega)]
  exact_mod_cast hbelow

variable (hinsert : Insertion GemObjectHandle.higher insert)
include hinsert

/-- The table after a creation. -/
theorem Client.Ordered.create (hc : client.Ordered) (hw : 32 ≤ w) (obj : O)
    (hfits : client.idCnt.toNat + 1 ≤ 2 ^ 31 - 1) :
    Client.Ordered
      ⟨insert client.gemObjectHandles ⟨client.idCnt, obj⟩, client.idCnt + 1⟩ := by
  have hpow : 2 ^ 32 ≤ 2 ^ w := Nat.pow_le_pow_right (by decide) hw
  have hperm := hinsert.perm _ _ hc.sorted (hc.fresh hw obj)
  have hone : (1 : BitVec w).toNat = 1 := BitVec.toNat_one (by omega)
  have hnext : (client.idCnt + 1).toNat = client.idCnt.toNat + 1 := by
    rw [BitVec.toNat_add_of_lt (by omega), hone]
  refine ⟨hinsert.sorted _ _ hc.sorted (hc.fresh hw obj), (hc.fresh hw obj).perm hperm, ?_, ?_⟩
  · show (client.idCnt + 1).toNat < 2 ^ 31
    omega
  · intro h hmem
    show h.id.toNat < (client.idCnt + 1).toNat
    rcases List.mem_cons.mp (hperm.mem_iff.mp hmem) with rfl | hin
    · exact hnext ▸ Nat.lt_succ_self _
    · exact hnext ▸ (hc.below h hin).trans (Nat.lt_succ_self _)

theorem Indexed.create (hs : Indexed s) (hw : 32 ≤ w) (c : Nat) (obj : O)
    (hfits : (s.clients c).idCnt.toNat + 1 ≤ 2 ^ 31 - 1) :
    Indexed (step insert s (.create (some c) obj true)) := by
  have hperm := hinsert.perm _ _ (hs.ordered c).sorted ((hs.ordered c).fresh hw obj)
  constructor
  · intro c'
    by_cases hc : c' = c
    · subst hc
      simp only [step, drmGemHandleCreate, Client.createBoHandle, if_true, Function.update_self]
      exact (hs.ordered c').create hinsert hw obj hfits
    · simp only [step, drmGemHandleCreate, Client.createBoHandle, if_true,
        Function.update_of_ne hc]
      exact hs.ordered c'
  · intro c' id obj'
    by_cases hc : c' = c
    · subst hc
      simp only [step, drmGemHandleCreate, Client.createBoHandle, if_true,
        Function.update_self, List.mem_cons, hs.given, hperm.mem_iff, Prod.mk.injEq, true_and]
      simp only [exists_eq_or_imp, eq_comm]
    · simp only [step, drmGemHandleCreate, Client.createBoHandle, if_true,
        Function.update_of_ne hc, List.mem_cons, hs.given, Prod.mk.injEq, hc, false_and, false_or]

theorem Indexed.step (hw : 32 ≤ w) (s : State w O) (call : Call O) (hs : Indexed s)
    (hfits : counterFits s call = true) : Indexed (step insert s call) := by
  cases call with
  | lookup filp id => exact hs
  | create filp obj memory =>
      cases filp with
      | none => exact hs
      | some c =>
          cases memory with
          | false => exact hs
          | true => exact hs.create hinsert hw c obj (of_decide_eq_true hfits)

end

theorem Client.Ordered.init : (Client.init : Client w O).Ordered where
  sorted := trivial
  separated := .nil
  counter := (Nat.mod_le 1 (2 ^ w)).trans_lt (by decide)
  below := nofun

theorem Indexed.init : Indexed (State.init : State w O) where
  ordered _ := .init
  given _ _ _ := by simp [State.init, Client.init, values]

theorem Indexed.exact (hw : 32 ≤ w) (s : State w O) (call : Call O) (hs : Indexed s) :
    Exact s call := by
  cases call with
  | create filp obj memory => trivial
  | lookup filp id =>
      intro obj
      cases filp with
      | none => simp [drmGemObjectLookup]
      | some c =>
          rw [Option.map_some, (hs.ordered c).lookup hw, ← hs.given]
          simp

/-! ## The result -/

/-- Along every history in which the counters stay below 2³¹, for any number of clients,
and for every tree that keeps the order of its nodes: a lookup gives the object for which
this client got the id, and nothing for every other id. -/
theorem gem_handles_exact (hw : 32 ≤ w) (insert : Tree w O → GemObjectHandle w O → Tree w O)
    (hinsert : Insertion GemObjectHandle.higher insert) (calls : List (Call O))
    (hfits : Along (step insert) (counterFits · ·) State.init calls) :
    Along (step insert) Exact State.init calls :=
  Along.of_invariant (I := Indexed) (fun s call hs _ => hs.exact hw s call)
    (fun s call hs hfits => hs.step hinsert hw s call hfits) calls _ .init hfits

/-- Two clients with one id each, and the same id stands for different objects. -/
theorem gem_handles_exact_two_clients :
    let calls : List (Call Char) :=
      [.create (some 0) 'a' true, .create (some 1) 'b' true, .lookup (some 0) 1,
        .lookup (some 1) 1, .lookup (some 1) 2]
    Along (step (w := 32) (insertLeaf GemObjectHandle.higher)) (counterFits · ·) State.init calls ∧
      Along (step (w := 32) (insertLeaf GemObjectHandle.higher)) Exact State.init calls :=
  ⟨by decide,
    gem_handles_exact (by decide) _ insertLeaf_insertion _ (by decide)⟩

end LinuxDrivers.Gpu.GemHandle
