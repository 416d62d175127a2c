/-
# `LinuxDrivers.Gpu.LargeAlloc` — arrays for the graphics driver

In Linux, `drm_calloc_large` and `drm_malloc_ab` refuse a product that does not fit into `size_t`,
and the first one clears what it returns.  Here each of them is one call of the large allocator:

    drm_malloc_ab(nmemb, size)       kmalloc(nmemb * size)
    drm_calloc_large(nmemb, size)    dde_kit_large_malloc(nmemb * size)

So the product wraps around, and nothing is cleared.  The counts come from the client, as that of
the relocation entries of an execbuffer call.

**Proved here.**

    when the two give an array as large as it should be, and cleared   (`drm_array_iff`)
-/
import LinuxDrivers.Basic
import LinuxDrivers.Lib.Memory

namespace LinuxDrivers.Gpu.LargeAlloc

open LinuxDrivers.Lib

/-! ## The code -/

/-- What the large allocator hands out. -/
structure Block where
  addr : Word
  size : Nat
  deriving DecidableEq, Repr

/-- The address the large allocator has for so many bytes, if it has any. -/
abbrev Kit := Word → Option Word

def ddeKitLargeMalloc (kit : Kit) (size : Word) : Option Block :=
  (kit size).map (fun addr => ⟨addr, size.toNat⟩)

def kmalloc (kit : Kit) (size : Word) : Option Block := ddeKitLargeMalloc kit size

def drmCallocLarge (kit : Kit) (nmemb size : Word) : Option Block :=
  ddeKitLargeMalloc kit (nmemb * size)

def drmMallocAb (kit : Kit) (nmemb size : Word) : Option Block := kmalloc kit (nmemb * size)

/-! ## What they are for -/

/-- The result is `NULL`, or of so many bytes at least. -/
def LargeEnough (n : Nat) : Option Block → Prop
  | none => True
  | some block => n ≤ block.size

/-- The result is `NULL`, or all of it is zero in the memory. -/
def Cleared (m : Memory Byte) : Option Block → Prop
  | none => True
  | some block => ∀ i < block.size, m (block.addr.toNat + i) = 0

instance (n : Nat) (result : Option Block) : Decidable (LargeEnough n result) :=
  match result with
  | none => .isTrue trivial
  | some block => inferInstanceAs (Decidable (n ≤ block.size))

instance (m : Memory Byte) (result : Option Block) : Decidable (Cleared m result) :=
  match result with
  | none => .isTrue trivial
  | some block => inferInstanceAs (Decidable (∀ i < block.size, m (block.addr.toNat + i) = 0))

/-! ## When they do it -/

section

variable (kit : Kit) (nmemb size : Word)

theorem largeEnough_iff :
    LargeEnough (nmemb.toNat * size.toNat) (ddeKitLargeMalloc kit (nmemb * size)) ↔
      kit (nmemb * size) = none ∨ nmemb.toNat * size.toNat < 2 ^ 32 := by
  unfold ddeKitLargeMalloc
  cases kit (nmemb * size) with
  | none => exact ⟨fun _ => .inl rfl, fun _ => trivial⟩
  | some addr =>
      show nmemb.toNat * size.toNat ≤ (nmemb * size).toNat ↔ _
      rw [BitVec.toNat_mul]
      constructor
      · intro hle
        exact .inr (hle.trans_lt (Nat.mod_lt _ (by decide)))
      · rintro (hnone | hlt)
        · cases hnone
        · exact (Nat.mod_eq_of_lt hlt).ge

/-- Nothing is written, so only a block without bytes is cleared whatever the memory holds. -/
theorem cleared_iff :
    (∀ m, Cleared m (ddeKitLargeMalloc kit (nmemb * size))) ↔
      kit (nmemb * size) = none ∨ 2 ^ 32 ∣ nmemb.toNat * size.toNat := by
  unfold ddeKitLargeMalloc
  cases kit (nmemb * size) with
  | none => exact ⟨fun _ => .inl rfl, fun _ _ => trivial⟩
  | some addr =>
      show (∀ m : Memory Byte, ∀ i < (nmemb * size).toNat, m (addr.toNat + i) = 0) ↔ _
      rw [BitVec.toNat_mul]
      constructor
      · intro h
        right
        by_contra hne
        -- a heap full of ones
        have := h (fun _ => 1) 0 (Nat.pos_of_ne_zero (fun h0 => hne (Nat.dvd_of_mod_eq_zero h0)))
        exact absurd this (by decide)
      · rintro (hnone | hdvd) m i hi
        · cases hnone
        · rw [Nat.mod_eq_zero_of_dvd hdvd] at hi
          exact absurd hi (Nat.not_lt_zero i)

end

/-- `drm_malloc_ab` and `drm_calloc_large` give `NULL` or an array that is large enough if and only
if the allocator has nothing or the product fits into a word; what `drm_calloc_large` gives is zero
whatever was in the memory if and only if the allocator has nothing or the product wraps around
to 0. -/
theorem drm_array_iff (kit : Kit) (nmemb size : Word) :
    (LargeEnough (nmemb.toNat * size.toNat) (drmMallocAb kit nmemb size) ↔
      kit (nmemb * size) = none ∨ nmemb.toNat * size.toNat < 2 ^ 32) ∧
    (LargeEnough (nmemb.toNat * size.toNat) (drmCallocLarge kit nmemb size) ↔
      kit (nmemb * size) = none ∨ nmemb.toNat * size.toNat < 2 ^ 32) ∧
    ((∀ m, Cleared m (drmCallocLarge kit nmemb size)) ↔
      kit (nmemb * size) = none ∨ 2 ^ 32 ∣ nmemb.toNat * size.toNat) :=
  ⟨largeEnough_iff kit nmemb size, largeEnough_iff kit nmemb size, cleared_iff kit nmemb size⟩

/-- 65536 elements of 65536 bytes: both give an array of no bytes.  One element of 4 bytes, where
the heap has ones: `drm_calloc_large` leaves them. -/
theorem drm_array_wraps :
    drmMallocAb (fun _ => some 0x1000) 0x10000 0x10000 = some ⟨0x1000, 0⟩ ∧
      drmCallocLarge (fun _ => some 0x1000) 0x10000 0x10000 = some ⟨0x1000, 0⟩ ∧
      drmCallocLarge (fun _ => some 0x1000) 1 4 = some ⟨0x1000, 4⟩ ∧
      ¬ Cleared (fun _ => 1) (drmCallocLarge (fun _ => some 0x1000) 1 4) := by
  decide

end LinuxDrivers.Gpu.LargeAlloc
