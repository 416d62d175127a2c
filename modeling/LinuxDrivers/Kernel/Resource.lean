/-
# `LinuxDrivers.Kernel.Resource` — I/O memory regions

`res.c` asks the DDE kit for I/O memory and remembers what it was given, so that
`ioremap` can find the virtual address of a physical one:

    request_mem_region(start, n):  ask the kit;  refused            NULL
                                   add (start, va, n) to the list   1
    release_mem_region(start, n):  tell the kit
    ioremap(a):                    the first (pa, va, size) of the list with
                                     pa >= a  and  pa + size > a:   va + (a - pa)
                                   none                             NULL

The list only grows.  A released region is given back to the kit and stays on the list,
in front of everything that was requested before it.

The arguments are `resource_size_t`, 64 bits wide (`CONFIG_RESOURCES_64BIT`); the list
has the `unsigned long` and the `unsigned int` they are cut off to.

**Proved here.**

    the list is all that was ever granted, the last one first   (`after_memRegions`)
    when released memory is forgotten                           (`release_forgets_iff`)
    which addresses are translated                              (`ioremap_translates_iff`)
-/
import LinuxDrivers.Basic
import Mathlib.Data.List.Find

namespace LinuxDrivers.Kernel.Resource

/-! ## The code -/

/-- `resource_size_t` -/
abbrev ResourceSize := BitVec 64

/-- `struct dde_linux26_mem_region` -/
structure MemRegion where
  pa : Word
  va : Word
  size : Word
  deriving DecidableEq, Repr

/-- The test of `ioremap`. -/
def MemRegion.reaches (mreg : MemRegion) (physAddr : Word) : Bool :=
  decide (mreg.pa ≥ physAddr) && decide (mreg.pa + mreg.size > physAddr)

/-- `mreg->va + (phys_addr - mreg->pa)` -/
def MemRegion.translate (mreg : MemRegion) (physAddr : Word) : Word :=
  mreg.va + (physAddr - mreg.pa)

/-- The region `request_mem_region` notes; `list_add` puts it in front.  Without memory for
it the assertion stops the driver. -/
def newRegion (start n : ResourceSize) (va : Word) : MemRegion :=
  ⟨start.setWidth 32, va, n.setWidth 32⟩

/-- `kit` is the answer of `dde_kit_request_mem`: an error, or the virtual address.  The
value is `NULL` or 1. -/
def requestMemRegion (memRegions : List MemRegion) (start n : ResourceSize) (kit : Option Word) :
    List MemRegion × Word :=
  match kit with
  | none => (memRegions, 0)
  | some va => (newRegion start n va :: memRegions, 1)

/-- The region goes back to the kit, and the list stays as it is. -/
def releaseMemRegion (memRegions : List MemRegion) (_start _n : ResourceSize) : List MemRegion :=
  memRegions

/-- The region `ioremap` finds. -/
def lookup (memRegions : List MemRegion) (physAddr : Word) : Option MemRegion :=
  memRegions.find? (·.reaches physAddr)

/-- `size` is not looked at. -/
def ioremap (memRegions : List MemRegion) (physAddr _size : Word) : Word :=
  match lookup memRegions physAddr with
  | some mreg => mreg.translate physAddr
  | none => 0

/-! ## Histories -/

inductive Call where
  | request (start n : ResourceSize) (kit : Option Word)
  | release (start n : ResourceSize)
  | ioremap (physAddr size : Word)
  deriving DecidableEq, Repr

/-- A region as its user knows it. -/
structure Region where
  start : ResourceSize
  n : ResourceSize
  deriving DecidableEq, Repr

/-- The address is in the region, counted without wrap-around. -/
def Region.contains (r : Region) (physAddr : Word) : Prop :=
  r.start.toNat ≤ physAddr.toNat ∧ physAddr.toNat < r.start.toNat + r.n.toNat

instance (r : Region) (physAddr : Word) : Decidable (r.contains physAddr) :=
  inferInstanceAs (Decidable (_ ∧ _))

structure State where
  /-- `dde_linux26_mem_regions` -/
  memRegions : List MemRegion
  /-- history: the regions that were granted and not released since -/
  requested : List Region
  /-- history: the regions that were released -/
  released : List Region
  deriving DecidableEq, Repr

def empty : State := ⟨[], [], []⟩

def step (s : State) : Call → State
  | .request start n kit =>
      { s with
        memRegions := (requestMemRegion s.memRegions start n kit).1
        requested := if kit.isSome then ⟨start, n⟩ :: s.requested else s.requested }
  | .release start n =>
      { memRegions := releaseMemRegion s.memRegions start n
        requested := s.requested.erase ⟨start, n⟩
        released := if ⟨start, n⟩ ∈ s.requested then ⟨start, n⟩ :: s.released else s.released }
  | .ioremap _ _ => s

def after (calls : List Call) : State := calls.foldl step empty

/-! ## What releasing is for -/

/-- The address is in a region that was released and in none that is requested. -/
def Gone (s : State) (physAddr : Word) : Prop :=
  (∃ r ∈ s.released, r.contains physAddr) ∧ ∀ r ∈ s.requested, ¬ r.contains physAddr

instance (s : State) (physAddr : Word) : Decidable (Gone s physAddr) :=
  inferInstanceAs (Decidable (_ ∧ _))

/-- What is gone is not mapped. -/
def Forgotten (s : State) (physAddr size : Word) : Prop :=
  Gone s physAddr → ioremap s.memRegions physAddr size = 0

instance (s : State) (physAddr size : Word) : Decidable (Forgotten s physAddr size) :=
  inferInstanceAs (Decidable (_ → _))

/-- A region that is requested and released again leaves no trace. -/
def Traceless (s : State) (start n : ResourceSize) (kit : Option Word) (physAddr size : Word) :
    Prop :=
  ioremap (step (step s (.request start n kit)) (.release start n)).memRegions physAddr size =
    ioremap s.memRegions physAddr size

instance (s : State) (start n : ResourceSize) (kit : Option Word) (physAddr size : Word) :
    Decidable (Traceless s start n kit physAddr size) :=
  inferInstanceAs (Decidable (_ = _))

/-! ## The list -/

/-- The region a call adds to the list. -/
def Call.granted : Call → Option MemRegion
  | .request start n (some va) => some (newRegion start n va)
  | _ => none

/-- All that was ever granted, the last one first. -/
def granted (calls : List Call) : List MemRegion := (calls.filterMap (·.granted)).reverse

theorem step_memRegions (s : State) (call : Call) :
    (step s call).memRegions = call.granted.toList ++ s.memRegions := by
  cases call with
  | request start n kit => cases kit <;> rfl
  | release start n => rfl
  | ioremap physAddr size => rfl

theorem foldl_memRegions (calls : List Call) (s : State) :
    (calls.foldl step s).memRegions = granted calls ++ s.memRegions := by
  induction calls generalizing s with
  | nil => rfl
  | cons call calls ih =>
      rw [List.foldl_cons, ih, step_memRegions]
      cases hgrant : call.granted with
      | none => simp [granted, hgrant]
      | some mreg => simp [granted, hgrant]

/-- Nothing ever leaves the list. -/
theorem after_memRegions (calls : List Call) : (after calls).memRegions = granted calls := by
  rw [after, foldl_memRegions]
  exact List.append_nil _

/-- A new region answers for all the addresses it reaches, whatever was known of them. -/
theorem ioremap_cons (mreg : MemRegion) (memRegions : List MemRegion) (physAddr size : Word) :
    ioremap (mreg :: memRegions) physAddr size =
      if mreg.reaches physAddr then mreg.translate physAddr
      else ioremap memRegions physAddr size := by
  unfold ioremap lookup
  rw [List.find?_cons]
  cases hreach : mreg.reaches physAddr <;> rfl

/-! ## What is found, in terms of the history -/

/-- A region that was granted, with the virtual address of its base. -/
structure Mapping where
  region : Region
  va : Word
  deriving DecidableEq, Repr

/-- The regions a history was granted, whether they were released or not. -/
def mappings (calls : List Call) : List Mapping :=
  calls.filterMap (fun
    | .request start n (some va) => some ⟨⟨start, n⟩, va⟩
    | _ => none)

/-- The region starts at the address or behind it, and ends behind it.  Its start and its end are
cut off to 32 bits. -/
def Region.Reaches (r : Region) (physAddr : Word) : Prop :=
  physAddr.toNat ≤ r.start.toNat % 2 ^ 32 ∧
    physAddr.toNat < (r.start.toNat + r.n.toNat) % 2 ^ 32

instance (r : Region) (physAddr : Word) : Decidable (r.Reaches physAddr) :=
  inferInstanceAs (Decidable (_ ∧ _))

/-- The virtual address at the distance of the address from the start of the region. -/
def Mapping.at (f : Mapping) (physAddr : Word) : Word :=
  f.va + physAddr - BitVec.ofNat 32 f.region.start.toNat

/-- No region of the history reaches the address. -/
def Unreached (history : List Mapping) (physAddr : Word) : Prop :=
  ∀ f ∈ history, ¬ f.region.Reaches physAddr

/-- The last region of the history that reaches the address has it at this virtual address. -/
def LastAt (history : List Mapping) (physAddr va : Word) : Prop :=
  ∃ earlier f later, history = earlier ++ f :: later ∧ f.region.Reaches physAddr ∧
    (∀ g ∈ later, ¬ g.region.Reaches physAddr) ∧ f.at physAddr = va

theorem newRegion_reaches_iff (r : Region) (va physAddr : Word) :
    (newRegion r.start r.n va).reaches physAddr = true ↔ r.Reaches physAddr := by
  rw [MemRegion.reaches, Bool.and_eq_true, decide_eq_true_iff, decide_eq_true_iff]
  simp only [newRegion, ge_iff_le, gt_iff_lt, BitVec.le_def, BitVec.lt_def, BitVec.toNat_add,
    BitVec.toNat_setWidth, Region.Reaches]
  omega

theorem newRegion_translate (f : Mapping) (physAddr : Word) :
    (newRegion f.region.start f.region.n f.va).translate physAddr = f.at physAddr := by
  have hstart : f.region.start.setWidth 32 = BitVec.ofNat 32 f.region.start.toNat := by
    apply BitVec.eq_of_toNat_eq
    rw [BitVec.toNat_setWidth, BitVec.toNat_ofNat]
  show f.va + (physAddr - f.region.start.setWidth 32) = f.va + physAddr - _
  rw [hstart, BitVec.sub_eq_add_neg, BitVec.sub_eq_add_neg, BitVec.add_assoc]

theorem granted_eq_mappings (calls : List Call) :
    granted calls =
      (mappings calls).reverse.map (fun f => newRegion f.region.start f.region.n f.va) := by
  rw [granted, mappings, List.map_reverse, List.map_filterMap]
  congr 1
  refine List.filterMap_congr ?_
  intro call _
  cases call with
  | request start n kit => cases kit <;> rfl
  | release start n => rfl
  | ioremap physAddr size => rfl

/-- The region that is found is the last one of the history that reaches the address. -/
theorem lookup_granted (calls : List Call) (physAddr : Word) :
    lookup (granted calls) physAddr =
      ((mappings calls).reverse.find? (fun f => decide (f.region.Reaches physAddr))).map
        (fun f => newRegion f.region.start f.region.n f.va) := by
  rw [granted_eq_mappings, lookup, List.find?_map]
  congr 1
  refine List.find?_congr ?_
  intro f _
  exact Bool.eq_iff_iff.mpr ((newRegion_reaches_iff f.region f.va physAddr).trans
    (decide_eq_true_iff (p := f.region.Reaches physAddr)).symm)

/-- `ioremap`, over the history. -/
theorem ioremap_after_iff (calls : List Call) (physAddr size va : Word) :
    ioremap (after calls).memRegions physAddr size = va ↔
      Unreached (mappings calls) physAddr ∧ va = 0 ∨ LastAt (mappings calls) physAddr va := by
  have hnone_iff : (mappings calls).reverse.find? (fun f => decide (f.region.Reaches physAddr)) =
      none ↔ Unreached (mappings calls) physAddr := by
    simp [Unreached]
  rw [after_memRegions, ioremap, lookup_granted]
  cases hfind : (mappings calls).reverse.find? (fun f => decide (f.region.Reaches physAddr)) with
  | none =>
      have hunreached := hnone_iff.mp hfind
      constructor
      · intro h
        exact .inl ⟨hunreached, h.symm⟩
      · rintro (⟨_, rfl⟩ | ⟨earlier, f, later, hsplit, hreach, _⟩)
        · rfl
        · exact absurd hreach (hunreached f (by rw [hsplit]; simp))
  | some f =>
      obtain ⟨hreach, later, earlier, hsplit, hlater⟩ := List.find?_eq_some_iff_append.mp hfind
      have hsplit' : mappings calls = earlier.reverse ++ f :: later.reverse := by
        rw [← List.reverse_reverse (mappings calls), hsplit]
        simp
      show (newRegion f.region.start f.region.n f.va).translate physAddr = va ↔ _
      rw [newRegion_translate]
      constructor
      · intro h
        refine .inr ⟨earlier.reverse, f, later.reverse, hsplit', of_decide_eq_true hreach, ?_, h⟩
        intro g hg
        simpa using hlater g (List.mem_reverse.mp hg)
      · rintro (⟨hunreached, _⟩ | ⟨earlier', f', later', hsplit'', hreach', hlater', rfl⟩)
        · exact absurd (of_decide_eq_true hreach) (hunreached f (by rw [hsplit']; simp))
        · -- the last region that reaches the address is the one that is found
          have hfind' : (mappings calls).reverse.find?
              (fun f => decide (f.region.Reaches physAddr)) = some f' := by
            rw [List.find?_eq_some_iff_append]
            refine ⟨decide_eq_true hreach', later'.reverse, earlier'.reverse, ?_, ?_⟩
            · rw [hsplit'']
              simp
            · intro g hg
              simpa using hlater' g (List.mem_reverse.mp hg)
          rw [hfind'] at hfind
          cases hfind
          rfl

/-- **When released memory is forgotten.**  After any history: an address that is gone maps to
nothing exactly if no region of the whole history reaches it, released or not, or the last one that
does has it at the virtual address zero.  And a request and its release leave no trace at an address
exactly if the kit refuses, or the region does not reach the address, or has it where the last
region that reaches it had it, or at zero if there was none. -/
theorem release_forgets_iff (calls : List Call) (start n : ResourceSize) (kit : Option Word)
    (physAddr size : Word) :
    (Gone (after calls) physAddr →
      (ioremap (after calls).memRegions physAddr size = 0 ↔
        Unreached (mappings calls) physAddr ∨ LastAt (mappings calls) physAddr 0)) ∧
    (Traceless (after calls) start n kit physAddr size ↔
      ∀ va, kit = some va → (⟨start, n⟩ : Region).Reaches physAddr →
        Unreached (mappings calls) physAddr ∧ (⟨⟨start, n⟩, va⟩ : Mapping).at physAddr = 0 ∨
          LastAt (mappings calls) physAddr ((⟨⟨start, n⟩, va⟩ : Mapping).at physAddr)) := by
  constructor
  · intro _
    rw [ioremap_after_iff, and_iff_left rfl]
  · unfold Traceless
    cases kit with
    | none =>
        refine iff_of_true rfl ?_
        intro va hva
        cases hva
    | some va =>
        show ioremap (newRegion start n va :: (after calls).memRegions) physAddr size = _ ↔ _
        have hreaches := newRegion_reaches_iff ⟨start, n⟩ va physAddr
        have hat := newRegion_translate ⟨⟨start, n⟩, va⟩ physAddr
        rw [ioremap_cons]
        by_cases hreach : (⟨start, n⟩ : Region).Reaches physAddr
        · rw [if_pos (hreaches.mpr hreach), hat, eq_comm, ioremap_after_iff]
          constructor
          · rintro h _ ⟨⟩ _
            exact h
          · intro h
            exact h va rfl hreach
        · rw [if_neg (fun h => hreach (hreaches.mp h))]
          refine iff_of_true rfl ?_
          intro _ _ h
          exact absurd h hreach

/-- **Released memory stays mapped.**  One page is requested and released; its first address
is gone and still maps to where the page was, and before the request it did not. -/
theorem released_page_stays_mapped :
    let calls : List Call :=
      [.request 0xd0000000 0x1000 (some 0x40000000), .release 0xd0000000 0x1000]
    Gone (after calls) 0xd0000000 ∧ ¬ Forgotten (after calls) 0xd0000000 0x1000 ∧
      ¬ Traceless (after []) 0xd0000000 0x1000 (some 0x40000000) 0xd0000000 0x1000 := by
  decide

/-! ## What mapping is for -/

/-- The requests, in their order. -/
def requests (mappings : List Mapping) : List Call :=
  mappings.map (fun f => .request f.region.start f.region.n (some f.va))

/-- An address of a region is mapped to its offset from the base, and any other address to
nothing. -/
structure Translates (mappings : List Mapping) (physAddr size : Word) : Prop where
  inside : ∀ f ∈ mappings, f.region.contains physAddr →
    ioremap (after (requests mappings)).memRegions physAddr size =
      f.va + BitVec.ofNat 32 (physAddr.toNat - f.region.start.toNat)
  outside : (∀ f ∈ mappings, ¬ f.region.contains physAddr) →
    ioremap (after (requests mappings)).memRegions physAddr size = 0

/-- The region does not wrap around. -/
def Region.Fits (r : Region) : Prop := r.start.toNat + r.n.toNat ≤ 2 ^ 32

/-- No address is in both. -/
def Region.Apart (r q : Region) : Prop := ∀ physAddr, ¬ (r.contains physAddr ∧ q.contains physAddr)

/-- The region starts at the address or behind it, and is not the last of the address space. -/
def Region.Answers (r : Region) (physAddr : Word) : Prop :=
  physAddr.toNat ≤ r.start.toNat ∧ physAddr.toNat < r.start.toNat + r.n.toNat ∧
    r.start.toNat + r.n.toNat < 2 ^ 32

instance (r : Region) (physAddr : Word) : Decidable (r.Answers physAddr) :=
  inferInstanceAs (Decidable (_ ∧ _ ∧ _))

/-- The addresses that are translated: the base of a region, as long as no later request answers
for it, and what is in no region and below none. -/
def Translated (regions : List Region) (physAddr : Word) : Prop :=
  (∀ r ∈ regions, ¬ r.Answers physAddr ∧ ¬ r.contains physAddr) ∨
    ∃ earlier r later, regions = earlier ++ r :: later ∧ r.Answers physAddr ∧
      r.start.toNat = physAddr.toNat ∧ ∀ q ∈ later, ¬ q.Answers physAddr

/-- What `ioremap` tests. -/
theorem newRegion_reaches {r : Region} (hfits : r.Fits) (va physAddr : Word) :
    (newRegion r.start r.n va).reaches physAddr = true ↔ r.Answers physAddr := by
  have hphys := physAddr.isLt
  unfold Region.Fits at hfits
  rw [MemRegion.reaches, Bool.and_eq_true, decide_eq_true_iff, decide_eq_true_iff]
  simp only [newRegion, ge_iff_le, gt_iff_lt, BitVec.le_def, BitVec.lt_def, BitVec.toNat_add,
    BitVec.toNat_setWidth, Region.Answers]
  omega

theorem granted_requests (mappings : List Mapping) :
    granted (requests mappings) =
      mappings.reverse.map (fun f => newRegion f.region.start f.region.n f.va) := by
  rw [granted, requests, List.filterMap_map, List.map_reverse, ← List.filterMap_eq_map]
  rfl

/-- The last request that answers is the one that is found. -/
theorem lookup_requests {mappings : List Mapping} (hfits : ∀ f ∈ mappings, f.region.Fits)
    (physAddr : Word) :
    lookup (after (requests mappings)).memRegions physAddr =
      (mappings.reverse.find? (fun f => decide (f.region.Answers physAddr))).map
        (fun f => newRegion f.region.start f.region.n f.va) := by
  rw [after_memRegions, granted_requests, lookup, List.find?_map]
  congr 1
  refine List.find?_congr ?_
  intro f hf
  have hiff := newRegion_reaches (hfits f (List.mem_reverse.mp hf)) f.va physAddr
  exact Bool.eq_iff_iff.mpr (hiff.trans (decide_eq_true_iff (p := f.region.Answers physAddr)).symm)

theorem ioremap_of_find {mappings : List Mapping} (hfits : ∀ f ∈ mappings, f.region.Fits)
    {physAddr : Word} (size : Word) {f : Mapping}
    (hfind : mappings.reverse.find? (fun f => decide (f.region.Answers physAddr)) = some f) :
    ioremap (after (requests mappings)).memRegions physAddr size =
      f.va + (physAddr - f.region.start.setWidth 32) := by
  rw [ioremap, lookup_requests hfits, hfind]
  rfl

theorem ioremap_of_find_none {mappings : List Mapping} (hfits : ∀ f ∈ mappings, f.region.Fits)
    {physAddr : Word} (size : Word)
    (hfind : mappings.reverse.find? (fun f => decide (f.region.Answers physAddr)) = none) :
    ioremap (after (requests mappings)).memRegions physAddr size = 0 := by
  rw [ioremap, lookup_requests hfits, hfind]
  rfl

/-- At its base, a region that is found answers for itself. -/
theorem Translates.of_base {earlier later : List Mapping} {f : Mapping} {physAddr : Word}
    (size : Word) (hfits : ∀ g ∈ earlier ++ f :: later, g.region.Fits)
    (hapart : (earlier ++ f :: later).Pairwise (·.region.Apart ·.region))
    (hanswers : f.region.Answers physAddr) (hbase : f.region.start.toNat = physAddr.toNat)
    (hlater : ∀ g ∈ later, ¬ g.region.Answers physAddr) :
    Translates (earlier ++ f :: later) physAddr size := by
  have hcontains : f.region.contains physAddr := by
    unfold Region.Answers at hanswers
    unfold Region.contains
    omega
  have hfind : (earlier ++ f :: later).reverse.find? (fun g => decide (g.region.Answers physAddr)) =
      some f := by
    rw [List.find?_eq_some_iff_append]
    refine ⟨decide_eq_true hanswers, later.reverse, earlier.reverse, by simp, ?_⟩
    intro g hg
    simpa using hlater g (List.mem_reverse.mp hg)
  have hzero : physAddr - f.region.start.setWidth 32 = 0 := by
    have hstart : f.region.start.setWidth 32 = physAddr := by
      apply BitVec.eq_of_toNat_eq
      rw [BitVec.toNat_setWidth, hbase, Nat.mod_eq_of_lt physAddr.isLt]
    rw [hstart]
    exact BitVec.sub_self physAddr
  constructor
  · intro g hg hgc
    -- two regions with an address in common are one
    have hgf : g = f := by
      obtain ⟨_, hf, hbefore⟩ := List.pairwise_append.mp hapart
      rcases List.mem_append.mp hg with hge | hgl
      · exact absurd ⟨hgc, hcontains⟩ (hbefore g hge f List.mem_cons_self physAddr)
      · rcases List.mem_cons.mp hgl with rfl | hgl
        · rfl
        · exact absurd ⟨hcontains, hgc⟩ ((List.pairwise_cons.mp hf).1 g hgl physAddr)
    rw [ioremap_of_find hfits size hfind, hzero, hgf, hbase, Nat.sub_self]
    rfl
  · intro hout
    exact absurd hcontains (hout f (by simp))

theorem Translates.of_none {mappings : List Mapping} {physAddr : Word} (size : Word)
    (hfits : ∀ g ∈ mappings, g.region.Fits)
    (hnone : ∀ g ∈ mappings, ¬ g.region.Answers physAddr ∧ ¬ g.region.contains physAddr) :
    Translates mappings physAddr size := by
  have hfind : mappings.reverse.find? (fun g => decide (g.region.Answers physAddr)) = none := by
    rw [List.find?_eq_none]
    intro g hg
    simpa using (hnone g (List.mem_reverse.mp hg)).1
  exact ⟨fun g hg hgc => absurd hgc (hnone g hg).2, fun _ => ioremap_of_find_none hfits size hfind⟩

/-- The regions, with the address each is given. -/
def mapped (va : Region → Word) (regions : List Region) : List Mapping :=
  regions.map (fun r => ⟨r, va r⟩)

theorem find?_mapped (va : Region → Word) (regions : List Region) (physAddr : Word) :
    (mapped va regions).reverse.find? (fun f => decide (f.region.Answers physAddr)) =
      (regions.reverse.find? (fun r => decide (r.Answers physAddr))).map (fun r => ⟨r, va r⟩) := by
  rw [mapped, ← List.map_reverse, List.find?_map]
  rfl

theorem mapped_region (va : Region → Word) (regions : List Region) :
    (mapped va regions).map (·.region) = regions := by
  rw [mapped, List.map_map]
  exact List.map_id _

theorem mapped_fits {regions : List Region} (hfits : ∀ r ∈ regions, r.Fits) (va : Region → Word) :
    ∀ f ∈ mapped va regions, f.region.Fits := by
  intro f hf
  obtain ⟨r, hr, rfl⟩ := List.mem_map.mp hf
  exact hfits r hr

section

variable {regions : List Region} {physAddr size : Word} (hfits : ∀ r ∈ regions, r.Fits)
  (h : ∀ va, Translates (mapped va regions) physAddr size)

include hfits h

/-- Where nothing answers, there is nothing: an address of a region could be mapped to one, and is
mapped to zero. -/
theorem not_contains_of_find_none
    (hfind : regions.reverse.find? (fun r => decide (r.Answers physAddr)) = none) {r : Region}
    (hr : r ∈ regions) : ¬ r.contains physAddr := by
  intro hc
  let va : Region → Word := fun _ => 1 - BitVec.ofNat 32 (physAddr.toNat - r.start.toNat)
  have hin := (h va).inside ⟨r, va r⟩ (List.mem_map_of_mem hr) hc
  rw [ioremap_of_find_none (mapped_fits hfits va) size (by rw [find?_mapped, hfind]; rfl)] at hin
  simp [va] at hin

/-- What answers starts at the address: a region behind it would be given a base that maps the
address to somewhere else. -/
theorem start_of_find {m : Region}
    (hfind : regions.reverse.find? (fun r => decide (r.Answers physAddr)) = some m) :
    m.start.toNat = physAddr.toNat := by
  have hdecide := List.find?_some hfind
  have hm : m.Answers physAddr := of_decide_eq_true hdecide
  by_contra hne
  have hfound : ∀ va : Region → Word, ioremap (after (requests (mapped va regions))).memRegions
      physAddr size = va m + (physAddr - m.start.setWidth 32) := fun va =>
    ioremap_of_find (mapped_fits hfits va) size (by rw [find?_mapped, hfind]; rfl)
  by_cases hin : ∃ r ∈ regions, r.contains physAddr
  · obtain ⟨r, hr, hrc⟩ := hin
    have hrm : r ≠ m := by
      rintro rfl
      unfold Region.Answers at hm
      unfold Region.contains at hrc
      omega
    let va : Region → Word := fun q =>
      if q = m then BitVec.ofNat 32 (physAddr.toNat - r.start.toNat) + 1 -
        (physAddr - m.start.setWidth 32) else 0
    have hin := (h va).inside ⟨r, va r⟩ (List.mem_map_of_mem hr) hrc
    rw [hfound va] at hin
    simp [va, hrm] at hin
  · let va : Region → Word := fun _ => 1 - (physAddr - m.start.setWidth 32)
    have hnone : ∀ f ∈ mapped va regions, ¬ f.region.contains physAddr := by
      intro f hf hfc
      obtain ⟨r, hr, rfl⟩ := List.mem_map.mp hf
      exact hin ⟨r, hr, hfc⟩
    have hout := (h va).outside hnone
    rw [hfound va] at hout
    simp [va] at hout

end

/-- **Which addresses are translated.**  Regions that do not wrap around and have no address in
common are requested, one after the other.  Whatever virtual addresses they are given, an address
is translated, exactly if it is the base of a region that no later request answers for, or in no
region and below none. -/
theorem ioremap_translates_iff (regions : List Region) (hfits : ∀ r ∈ regions, r.Fits)
    (hapart : regions.Pairwise (·.Apart ·)) (physAddr size : Word) :
    (∀ mappings : List Mapping, mappings.map (·.region) = regions →
      Translates mappings physAddr size) ↔ Translated regions physAddr := by
  constructor
  · intro h
    have hmapped : ∀ va, Translates (mapped va regions) physAddr size :=
      fun va => h _ (mapped_region va regions)
    cases hfind : regions.reverse.find? (fun r => decide (r.Answers physAddr)) with
    | none =>
        left
        intro r hr
        have hanswers := List.find?_eq_none.mp hfind r (List.mem_reverse.mpr hr)
        exact ⟨by simpa using hanswers, not_contains_of_find_none hfits hmapped hfind hr⟩
    | some m =>
        right
        obtain ⟨hm, later, earlier, hsplit, hlater⟩ := List.find?_eq_some_iff_append.mp hfind
        refine ⟨earlier.reverse, m, later.reverse, ?_, of_decide_eq_true hm,
          start_of_find hfits hmapped hfind, ?_⟩
        · rw [← List.reverse_reverse regions, hsplit]
          simp
        · intro q hq
          simpa using hlater q (List.mem_reverse.mp hq)
  · intro htranslated mappings hmappings
    subst hmappings
    have hmfits : ∀ f ∈ mappings, f.region.Fits := fun f hf => hfits _ (List.mem_map_of_mem hf)
    rcases htranslated with hnone | ⟨earlier, r, later, hsplit, hanswers, hbase, hlater⟩
    · exact Translates.of_none size hmfits (fun f hf => hnone _ (List.mem_map_of_mem hf))
    · obtain ⟨before, rest, rfl, _, hrest⟩ := List.map_eq_append_iff.mp hsplit
      obtain ⟨f, behind, rfl, rfl, rfl⟩ := List.map_eq_cons_iff.mp hrest
      exact Translates.of_base size hmfits (List.pairwise_map.mp hapart) hanswers hbase
        (fun g hg => hlater _ (List.mem_map_of_mem hg))

/-- Two pages, the higher one requested first: the base of the lower one is translated. -/
theorem lower_page_base_translated :
    let high : Region := ⟨0xd0001000, 0x1000⟩
    let low : Region := ⟨0xd0000000, 0x1000⟩
    (∀ r ∈ [high, low], r.Fits) ∧ [high, low].Pairwise (·.Apart ·) ∧
      Translated [high, low] 0xd0000000 ∧
      ∀ mappings : List Mapping, mappings.map (·.region) = [high, low] →
        Translates mappings 0xd0000000 0x1000 := by
  intro high low
  have hfits : ∀ r ∈ [high, low], r.Fits := by
    unfold Region.Fits
    decide
  have hapart : [high, low].Pairwise (·.Apart ·) := by
    refine List.pairwise_pair.mpr ?_
    rintro physAddr ⟨hhigh, hlow⟩
    exact Nat.lt_irrefl _ (Nat.lt_of_lt_of_le hlow.2 hhigh.1)
  have htranslated : Translated [high, low] 0xd0000000 :=
    .inr ⟨[high], low, [], rfl, by decide, rfl, nofun⟩
  exact ⟨hfits, hapart, htranslated,
    (ioremap_translates_iff [high, low] hfits hapart _ _).mpr htranslated⟩

/-- **The second address of a page is not found**, and the address in front of it is taken for one
of the page. -/
theorem page_offset_not_translated :
    let mappings : List Mapping := [⟨⟨0xd0000000, 0x1000⟩, 0x40000000⟩]
    ioremap (after (requests mappings)).memRegions 0xd0000001 1 = 0 ∧
      ¬ Translates mappings 0xd0000001 1 ∧
      ioremap (after (requests mappings)).memRegions 0xcfffffff 1 = 0x3fffffff ∧
      ¬ Translates mappings 0xcfffffff 1 := by
  intro mappings
  refine ⟨rfl, ?_, rfl, ?_⟩
  · intro h
    exact absurd (h.inside _ List.mem_cons_self (by decide)) (by decide)
  · intro h
    exact absurd (h.outside (by decide)) (by decide)

end LinuxDrivers.Kernel.Resource
