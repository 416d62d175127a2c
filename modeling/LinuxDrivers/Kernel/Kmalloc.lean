/-
# `LinuxDrivers.Kernel.Kmalloc` — `kmalloc` and `kfree`

Each block `kmalloc` hands out has a hidden word in front that says where it came from:

          block                objp                       objp + size
            |  back pointer     |  the caller's bytes          |   unused ...
            |  (4 bytes)        |                              |

    __kmalloc(size)   size += 4;  find the first cache that is large enough;
                      none:  `dde_kit_large_malloc(size)`
                      the back pointer is the cache, or NULL;  objp = block + 4
    kfree(objp)       block = objp - 4;  the back pointer says which allocator gets it

The caches are made by `dde_linux26_kmalloc_init`.  Before, and wherever one could not be
made, there is none and the large allocator stands in.

The slab caches and the large allocator are the DDE kit's.  What they answer is part of a
call here: `NULL`, or the address of a block.  Addresses are numbers, since no block reaches
around the end of the address space.

**Proved here.**

    when a block is as large as was asked for, and zero  (`kmalloc_guarantee_iff`)
    `kfree` gives every block back to where it came from (`kfree_returns_to_origin`)
-/
import LinuxDrivers.Basic
import LinuxDrivers.Lib.History
import LinuxDrivers.Lib.Memory
import Mathlib.Data.List.Pairwise
import Mathlib.Data.List.Perm.Basic

namespace LinuxDrivers.Kernel.Kmalloc

open LinuxDrivers.Lib

/-! ## The caches -/

/-- The address of something that is there. -/
abbrev Address := { a : Word // a ≠ 0 }

/-- `struct kmem_cache`, known by its own address.  The caches of `kmalloc` have neither a
constructor nor a destructor. -/
structure KmemCache where
  addr : Address
  size : Word
  deriving DecidableEq

/-- `kmem_cache_create`; `kit` is the memory for the cache, unless that or the slab behind it
could not be had. -/
def kmemCacheCreate (size : Word) (kit : Option Address) : Option KmemCache :=
  kit.map (fun addr => ⟨addr, size⟩)

/-- `struct cache_sizes` -/
structure CacheSizes where
  csSize : Word
  csCachep : Option KmemCache
  deriving DecidableEq

def ulongMax : Word := 0xffffffff

/-- `malloc_sizes[]`, as it is linked: `linux/kmalloc_sizes.h` and an end mark. -/
def mallocSizes : List CacheSizes :=
  [32, 64, 128, 256, 512, 1024, 2048, ulongMax].map (fun size => ⟨size, none⟩)

/-- The loop would run on behind the end mark, but no size is above it. -/
def findCache : List CacheSizes → Word → Option KmemCache
  | [], _ => none
  | sizes :: rest, size => if size > sizes.csSize then findCache rest size else sizes.csCachep

/-- `dde_linux26_kmalloc_init`; `kit` answers for the cache of each size. -/
def kmallocInit (kit : Word → Option Address) : List CacheSizes → List CacheSizes
  | [] => []
  | sizes :: rest =>
      if sizes.csSize ≠ ulongMax then
        { sizes with csCachep := kmemCacheCreate sizes.csSize (kit sizes.csSize) } ::
          kmallocInit kit rest
      else sizes :: rest

/-! ## `__kmalloc` and `kfree` -/

/-- `__GFP_ZERO` -/
def gfpZero : Word := 0x8000

/-- Where a block comes from: the slab of the cache at this address, or
`dde_kit_large_malloc`. -/
inductive Allocator where
  | slab (cache : Address)
  | large
  deriving DecidableEq

def Allocator.of : Option KmemCache → Allocator
  | some cache => .slab cache.addr
  | none => .large

/-- The back pointer. -/
def Allocator.backPointer : Allocator → Word
  | .slab cache => cache
  | .large => 0

/-- A block that was handed out. -/
structure Allocation where
  origin : Allocator
  block : Nat
  /-- the size of the block -/
  bytes : Nat
  /-- the bytes the caller asked for -/
  size : Nat
  deriving DecidableEq

/-- The pointer the caller gets: `++p` -/
def Allocation.objp (a : Allocation) : Nat := a.block + 4

/-- The allocator gives blocks of the size of its cache, or of the size it is asked for. -/
def blockSize (cache : Option KmemCache) (size : Word) : Nat :=
  match cache with
  | some cache => cache.size.toNat
  | none => size.toNat

/-- `kmem_cache_alloc`, once the slab has given the block. -/
def kmemCacheAlloc (m : Memory Byte) (cache : KmemCache) (flags : Word) (block : Nat) :
    Memory Byte :=
  if flags &&& gfpZero ≠ 0 then m.write block cache.size.toNat (fun _ => 0) else m

/-- The block before the back pointer is stored. -/
def clearBlock (m : Memory Byte) (cache : Option KmemCache) (size flags : Word) (block : Nat) :
    Memory Byte :=
  match cache with
  | some cache => kmemCacheAlloc m cache flags block
  | none => if flags &&& gfpZero ≠ 0 then m.write block size.toNat (fun _ => 0) else m

/-- `__kmalloc`; `kit` is the answer of the allocator that is asked. -/
def kmalloc (sizes : List CacheSizes) (m : Memory Byte) (size flags : Word) (kit : Option Nat) :
    Option (Allocation × Memory Byte) :=
  -- add space for back-pointer
  let total := size + 4
  let cache := findCache sizes total
  match kit with
  | none => none
  | some block =>
      some (⟨.of cache, block, blockSize cache total, size.toNat⟩,
        (clearBlock m cache total flags block).storeWord block (Allocator.of cache).backPointer)

/-- `kfree`: which allocator is given which block. -/
def kfree (m : Memory Byte) (objp : Nat) : Option (Allocator × Nat) :=
  if objp = 0 then none
  else
    let p := objp - 4
    if h : m.loadWord p ≠ 0 then some (.slab ⟨m.loadWord p, h⟩, p) else some (.large, p)

/-! ## The table -/

/-- A cache has the size of its entry. -/
def Sized (sizes : List CacheSizes) : Prop :=
  ∀ e ∈ sizes, ∀ cache, e.csCachep = some cache → cache.size = e.csSize

theorem Sized.mallocSizes : Sized mallocSizes := by
  intro e he cache hcache
  obtain ⟨size, _, rfl⟩ := List.mem_map.mp he
  cases hcache

theorem Sized.kmallocInit {sizes : List CacheSizes} (h : Sized sizes)
    (kit : Word → Option Address) : Sized (kmallocInit kit sizes) := by
  induction sizes with
  | nil => exact h
  | cons e rest ih =>
      obtain ⟨_, hrest⟩ := List.forall_mem_cons.mp h
      rw [Kmalloc.kmallocInit]
      split
      · refine List.forall_mem_cons.mpr ⟨?_, ih hrest⟩
        intro cache hcache
        obtain ⟨addr, _, rfl⟩ := Option.map_eq_some_iff.mp hcache
        rfl
      · exact h

/-- A cache that is found has room. -/
theorem Sized.findCache {sizes : List CacheSizes} (h : Sized sizes) {size : Word}
    {cache : KmemCache} (hfind : findCache sizes size = some cache) : size ≤ cache.size := by
  induction sizes with
  | nil => cases hfind
  | cons e rest ih =>
      obtain ⟨he, hrest⟩ := List.forall_mem_cons.mp h
      rw [Kmalloc.findCache] at hfind
      split at hfind
      · exact ih hrest hfind
      · rename_i hle
        rw [he cache hfind]
        exact BitVec.not_lt.mp hle

theorem Sized.le_blockSize {sizes : List CacheSizes} (h : Sized sizes) (size : Word) :
    size.toNat ≤ blockSize (Kmalloc.findCache sizes size) size := by
  cases hfind : Kmalloc.findCache sizes size with
  | none => exact Nat.le_refl _
  | some cache => exact h.findCache hfind

/-! ## What the size promises -/

/-- A result that is not `NULL` has the bytes that were asked for, and they are zero if that was
asked for. -/
def Guarantee (size flags : Word) (result : Option (Allocation × Memory Byte)) : Prop :=
  ∀ a m, result = some (a, m) → a.objp + size.toNat ≤ a.block + a.bytes ∧
    (flags &&& gfpZero ≠ 0 → ∀ i < size.toNat, m (a.objp + i) = 0)

/-- The table after any number of initialisations. -/
def initialised (kits : List (Word → Option Address)) : List CacheSizes :=
  kits.foldl (fun sizes kit => kmallocInit kit sizes) mallocSizes

theorem Sized.initialised (kits : List (Word → Option Address)) : Sized (initialised kits) := by
  have hrun : ∀ (kits : List (Word → Option Address)) (sizes : List CacheSizes), Sized sizes →
      Sized (kits.foldl (fun sizes kit => Kmalloc.kmallocInit kit sizes) sizes) := by
    intro kits
    induction kits with
    | nil => exact fun _ h => h
    | cons kit kits ih => exact fun sizes h => ih _ (h.kmallocInit kit)
  exact hrun kits _ Sized.mallocSizes

theorem blockSize_lt (cache : Option KmemCache) (size : Word) : blockSize cache size < 2 ^ 32 := by
  cases cache with
  | none => exact size.isLt
  | some cache => exact cache.size.isLt

/-- Both paths clear the whole block. -/
theorem clearBlock_eq (m : Memory Byte) (cache : Option KmemCache) (size flags : Word)
    (block : Nat) : clearBlock m cache size flags block =
      if flags &&& gfpZero ≠ 0 then m.write block (blockSize cache size) (fun _ => 0) else m := by
  cases cache with
  | none => rfl
  | some cache => rfl

theorem add_header {size : Word} (h : size.toNat + 4 < 2 ^ 32) :
    (size + 4).toNat = size.toNat + 4 := BitVec.toNat_add_of_lt h

/-- **When a block is as large as was asked for.**  Whatever caches there are: a block that was
given is large enough, and zero if it is to be, exactly if the header can be added to its size. -/
theorem kmalloc_guarantee_iff (kits : List (Word → Option Address)) (m : Memory Byte)
    (size flags : Word) (kit : Option Nat) :
    Guarantee size flags (kmalloc (initialised kits) m size flags kit) ↔
      (kit.isSome = true → size.toNat + 4 < 2 ^ 32) := by
  cases kit with
  | none => exact iff_of_true (fun _ _ h => nomatch h) (fun h => nomatch h)
  | some block =>
      constructor
      · intro h _
        -- the block is smaller than the address space, whoever gave it
        have hroom := (h _ _ rfl).1
        have hlt := blockSize_lt (findCache (initialised kits) (size + 4)) (size + 4)
        simp only [Allocation.objp] at hroom
        omega
      · intro h a m' hk
        cases hk
        have hbytes := (Sized.initialised kits).le_blockSize (size + 4)
        rw [add_header (h rfl)] at hbytes
        constructor
        · show block + 4 + size.toNat ≤ block + blockSize _ _
          omega
        · intro hzero i hi
          show (clearBlock _ _ _ _ _).storeWord block _ (block + 4 + i) = 0
          rw [Memory.storeWord, Memory.write_outside _ (by omega), clearBlock_eq, if_pos hzero,
            Nat.add_assoc, Memory.write_inside _ (by omega)]

/-- **A size that wraps.**  A request for all but four bytes of the address space is answered with
a block of 32 bytes. -/
theorem kmalloc_wraps :
    let kit : Word → Option Address := fun _ => some ⟨0x100000, by decide⟩
    let result := kmalloc (initialised [kit]) (fun _ => 0) 0xfffffffc 0 (some 4096)
    result.map (·.1.bytes) = some 32 ∧ ¬ Guarantee 0xfffffffc 0 result := by
  intro kit result
  refine ⟨rfl, ?_⟩
  intro h
  have hroom := (h _ _ rfl).1
  revert hroom
  decide

/-! ## Histories -/

/-- The allocator and the block, as they are to meet again. -/
def Allocation.place (a : Allocation) : Allocator × Nat := (a.origin, a.block)

/-- Two blocks have no byte in common. -/
def Allocation.Apart (a b : Allocation) : Prop :=
  a.block + a.bytes ≤ b.block ∨ b.block + b.bytes ≤ a.block

instance (a b : Allocation) : Decidable (a.Apart b) := inferInstanceAs (Decidable (_ ∨ _))

instance : Std.Symm Allocation.Apart where
  symm _ _ h := h.symm

structure State where
  sizes : List CacheSizes
  memory : Memory Byte
  /-- history: what is allocated -/
  live : List Allocation
  /-- history: what was ever obtained, and what was handed back -/
  obtained : List (Allocator × Nat)
  returned : List (Allocator × Nat)

inductive Call where
  /-- `dde_linux26_kmalloc_init` -/
  | init (kit : Word → Option Address)
  | kmalloc (size flags : Word) (kit : Option Nat)
  | kfree (objp : Nat)
  /-- someone writes to memory -/
  | write (a n : Nat) (bytes : Nat → Byte)

def step (s : State) : Call → State
  | .init kit => { s with sizes := kmallocInit kit s.sizes }
  | .kmalloc size flags kit =>
      match kmalloc s.sizes s.memory size flags kit with
      | none => s
      | some (a, m) =>
          { s with memory := m, live := a :: s.live, obtained := a.place :: s.obtained }
  | .kfree objp =>
      { s with
        live := s.live.eraseP (·.objp == objp)
        returned := (kfree s.memory objp).toList ++ s.returned }
  | .write a n bytes => { s with memory := s.memory.write a n bytes }

/-- The driver starts with whatever is in memory. -/
def boot (m : Memory Byte) : State := ⟨mallocSizes, m, [], [], []⟩

/-- The header can be added to a size; a block that is given is apart from the others; only what is
allocated is freed; and callers write to the bytes they asked for, others not to the blocks. -/
def legal (s : State) : Call → Prop
  | .init _ => True
  | .kmalloc size flags kit => size.toNat + 4 < 2 ^ 32 ∧
      ∀ r ∈ kmalloc s.sizes s.memory size flags kit, ∀ b ∈ s.live, r.1.Apart b
  | .kfree objp => objp = 0 ∨ ∃ a ∈ s.live, a.objp = objp
  | .write x n _ => (∃ a ∈ s.live, a.objp ≤ x ∧ x + n ≤ a.objp + a.size) ∨
      ∀ a ∈ s.live, x + n ≤ a.block ∨ a.block + a.bytes ≤ x

instance : ∀ (s : State) (call : Call), Decidable (legal s call)
  | _, .init _ => .isTrue trivial
  | _, .kmalloc _ _ _ => inferInstanceAs (Decidable (_ ∧ _))
  | _, .kfree _ => inferInstanceAs (Decidable (_ ∨ _))
  | _, .write _ _ _ => inferInstanceAs (Decidable (_ ∨ _))

/-- Every block that was obtained is allocated or was handed back, and that once. -/
def Accounted (s : State) : Prop :=
  s.obtained.Perm (s.returned ++ s.live.map (·.place))

/-- A block is handed back when it is freed and at no other time: the one that is freed, to where
it was obtained from. -/
def HandsBack (s : State) (call : Call) : Prop :=
  Accounted (step s call) ∧
    match call with
    | .kfree objp =>
        (objp = 0 → (step s call).returned = s.returned) ∧
        ∀ a ∈ s.live, a.objp = objp → (step s call).returned = a.place :: s.returned ∧
          s.live.Perm (a :: (step s call).live)
    | _ => (step s call).returned = s.returned

/-! ## The back pointers -/

/-- Each block has room for its header, which is what it was set to, and the blocks do not touch
each other. -/
structure Marked (s : State) : Prop where
  sized : Sized s.sizes
  room : ∀ a ∈ s.live, a.size + 4 ≤ a.bytes
  mark : ∀ a ∈ s.live, s.memory.loadWord a.block = a.origin.backPointer
  apart : s.live.Pairwise (·.Apart ·)
  account : Accounted s

theorem Marked.boot (m : Memory Byte) : Marked (boot m) where
  sized := Sized.mallocSizes
  room := nofun
  mark := nofun
  apart := .nil
  account := .nil

/-- The back pointer leads back. -/
theorem kfree_objp {m : Memory Byte} {a : Allocation}
    (h : m.loadWord a.block = a.origin.backPointer) : kfree m a.objp = some a.place := by
  show (if a.block + 4 = 0 then none else _) = _
  rw [if_neg (by omega)]
  show (if h : m.loadWord a.block ≠ 0 then some (.slab ⟨m.loadWord a.block, h⟩, a.block)
    else some (.large, a.block)) = some (a.origin, a.block)
  cases horigin : a.origin with
  | large =>
      rw [horigin] at h
      have hnull : ¬ m.loadWord a.block ≠ 0 := not_not.mpr h
      rw [dif_neg hnull]
  | slab cache =>
      rw [horigin] at h
      have hne : m.loadWord a.block ≠ 0 := h ▸ cache.2
      rw [dif_pos hne]
      congr 3
      exact Subtype.ext h

variable {s : State}

/-- A pointer belongs to one block. -/
theorem Marked.unique (h : Marked s) {a b : Allocation} (ha : a ∈ s.live) (hb : b ∈ s.live)
    (hobjp : b.objp = a.objp) : b = a := by
  by_contra hne
  have hapart : b.Apart a := h.apart.forall hb ha hne
  have hra := h.room a ha
  have hrb := h.room b hb
  simp only [Allocation.objp] at hobjp
  unfold Allocation.Apart at hapart
  omega

/-- What is freed is taken out, and nothing else. -/
theorem Marked.freed (h : Marked s) {a : Allocation} (ha : a ∈ s.live) :
    s.live.Perm (a :: s.live.eraseP (·.objp == a.objp)) := by
  obtain ⟨b, l₁, l₂, _, hb, hlive, herase⟩ :=
    List.exists_of_eraseP (p := (·.objp == a.objp)) ha (beq_self_eq_true a.objp)
  have hbmem : b ∈ s.live := hlive ▸ List.mem_append_right _ List.mem_cons_self
  have hba := h.unique ha hbmem (eq_of_beq hb)
  rw [herase, hlive, hba]
  exact List.perm_middle

/-! ## What a call keeps -/

theorem Marked.init (h : Marked s) (kit : Word → Option Address) :
    Marked (step s (.init kit)) where
  sized := h.sized.kmallocInit kit
  room := h.room
  mark := h.mark
  apart := h.apart
  account := h.account

/-- A new block is marked, and clearing it leaves the marks of the others alone. -/
theorem Marked.kmalloc (h : Marked s) {size flags : Word} {kit : Option Nat}
    (hlegal : legal s (.kmalloc size flags kit)) : Marked (step s (.kmalloc size flags kit)) := by
  obtain ⟨hsize, hkit⟩ := hlegal
  cases kit with
  | none => exact h
  | some block =>
      have hapart := hkit _ rfl
      have hroom := h.sized.le_blockSize (size + 4)
      rw [add_header hsize] at hroom
      refine ⟨h.sized, List.forall_mem_cons.mpr ⟨hroom, h.room⟩,
        List.forall_mem_cons.mpr ⟨Memory.loadWord_storeWord _ _ _, ?_⟩, h.apart.cons hapart, ?_⟩
      · intro b hb
        have hrb := h.room b hb
        have hab := hapart b hb
        unfold Allocation.Apart at hab
        simp only at hab
        show ((clearBlock _ _ _ _ _).storeWord block _).loadWord b.block = _
        rw [Memory.storeWord, Memory.loadWord_write (by omega), clearBlock_eq]
        split
        · rw [Memory.loadWord_write (by omega)]
          exact h.mark b hb
        · exact h.mark b hb
      · exact (h.account.cons _).trans List.perm_middle.symm

theorem step_kfree_null (s : State) : step s (.kfree 0) = s := by
  have hlive : s.live.eraseP (·.objp == 0) = s.live := by
    refine List.eraseP_of_forall_not ?_
    intro a _
    simp [Allocation.objp]
  show { s with live := s.live.eraseP (·.objp == 0), returned := s.returned } = s
  rw [hlive]

theorem Marked.step_returned (h : Marked s) {a : Allocation} (ha : a ∈ s.live) :
    (step s (.kfree a.objp)).returned = a.place :: s.returned := by
  show (Kmalloc.kfree s.memory a.objp).toList ++ s.returned = _
  rw [kfree_objp (h.mark a ha)]
  rfl

theorem Marked.kfree (h : Marked s) {objp : Nat} (hlegal : legal s (.kfree objp)) :
    Marked (step s (.kfree objp)) := by
  rcases hlegal with rfl | ⟨a, ha, rfl⟩
  · rw [step_kfree_null]
    exact h
  · have hsub : (step s (.kfree a.objp)).live.Sublist s.live := List.eraseP_sublist
    refine ⟨h.sized, fun b hb => h.room b (hsub.mem hb), fun b hb => h.mark b (hsub.mem hb),
      h.apart.sublist hsub, ?_⟩
    -- the block moves from one side of the account to the other
    unfold Accounted
    rw [h.step_returned ha]
    have hlive := (h.freed ha).map (·.place)
    exact h.account.trans ((hlive.append_left s.returned).trans List.perm_middle)

/-- No write reaches a mark: callers write behind their own, and stay apart from the others. -/
theorem Marked.write (h : Marked s) {x n : Nat} {bytes : Nat → Byte}
    (hlegal : legal s (.write x n bytes)) : Marked (step s (.write x n bytes)) where
  sized := h.sized
  room := h.room
  mark := by
    intro b hb
    have hrb := h.room b hb
    have haway : b.block + 4 ≤ x ∨ x + n ≤ b.block := by
      rcases hlegal with ⟨a, ha, hlow, hhigh⟩ | hout
      · have hra := h.room a ha
        simp only [Allocation.objp] at hlow hhigh
        by_cases hab : b = a
        · subst hab
          exact .inl hlow
        · have hapart := h.apart.forall hb ha hab
          unfold Allocation.Apart at hapart
          omega
      · have := hout b hb
        omega
    show (s.memory.write x n bytes).loadWord b.block = _
    rw [Memory.loadWord_write haway, h.mark b hb]
  apart := h.apart
  account := h.account

theorem Marked.step (h : Marked s) {call : Call} (hlegal : legal s call) :
    Marked (step s call) := by
  cases call with
  | init kit => exact h.init kit
  | kmalloc size flags kit => exact h.kmalloc hlegal
  | kfree objp => exact h.kfree hlegal
  | write x n bytes => exact h.write hlegal

theorem Marked.handsBack (h : Marked s) {call : Call} (hlegal : legal s call) :
    HandsBack s call := by
  refine ⟨(h.step hlegal).account, ?_⟩
  cases call with
  | init kit => rfl
  | kmalloc size flags kit => cases kit <;> rfl
  | kfree objp =>
      constructor
      · rintro rfl
        rw [step_kfree_null]
      · rintro a ha rfl
        exact ⟨h.step_returned ha, h.freed ha⟩
  | write x n bytes => rfl

/-- **Memory goes back to where it came from.**  Along every history of allocations, frees, writes
and initialisations: what `kfree` is given goes back to the allocator it was obtained from, as the
block that was obtained, and no block goes back twice. -/
theorem kfree_returns_to_origin (m : Memory Byte) (calls : List Call)
    (hlegal : Along step legal (boot m) calls) : Along step HandsBack (boot m) calls :=
  Along.of_invariant (fun _ _ h hl => h.handsBack hl) (fun _ _ h hl => h.step hl) calls _
    (Marked.boot m) hlegal

/-- One block from before the initialisation, one for whose size there is no cache and one from a
cache, in memory that was not zero; the callers fill what they asked for. -/
theorem three_blocks_return :
    let kit : Word → Option Address := fun size =>
      if size = 64 then some ⟨0x100000, by decide⟩ else none
    let calls : List Call :=
      [.kmalloc 8 0 (some 4096), .init kit, .kmalloc 20 gfpZero (some 8192),
       .kmalloc 40 gfpZero (some 12288), .write 8196 20 (fun _ => 0xff),
       .write 12292 40 (fun _ => 0xff), .kfree 4100, .kfree 12292, .kfree 8196, .kfree 0]
    Along step legal (boot fun _ => 0xa5) calls ∧
      Along step HandsBack (boot fun _ => 0xa5) calls := by
  intro kit calls
  have hlegal : Along step legal (boot fun _ => 0xa5) calls := by decide
  exact ⟨hlegal, kfree_returns_to_origin _ calls hlegal⟩

end LinuxDrivers.Kernel.Kmalloc
