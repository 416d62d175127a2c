/-
# `LinuxDrivers.Gpu.Bit17Copy` — the swizzled copy, with the emulated `ALIGN`

Where the memory controller swizzles by bit 17 of the physical address, a page with that bit set
has the two halves of every 128 bytes exchanged.  `slow_shmem_bit17_copy` copies between such a page
and one of the user, and cuts the copy at the ends of the cache lines:

    while (length > 0)
              cacheline_end = ALIGN(gpu_offset + 1, 64)
              this_length   = min(cacheline_end - gpu_offset, length)
              memcpy between gpu_offset ^ 64 and cpu_offset
              all three advance by this_length

`ALIGN` is to round up.  That of `lx_emul.h` adds the boundary, where it should add the boundary
less one, and so goes one boundary too far for what is aligned already.  Here that is the last
byte of a cache line: it and the whole next line are copied in one piece.

**Proved here.**

    the copy is right, in either direction, if it does not start with the last byte of a
    cache line, or is of that byte only                     (`slow_shmem_bit17_copy_iff`)
-/
import LinuxDrivers.Basic
import LinuxDrivers.Lib.Bits
import LinuxDrivers.Lib.Loop
import LinuxDrivers.Lib.Memory

namespace LinuxDrivers.Gpu.Bit17Copy

open LinuxDrivers.Lib

/-! ## The code

Offsets and lengths are of type `int`: here the words that hold them. -/

/-- `ALIGN` -/
def align (x boundary : Word) : Word := (x + boundary) &&& ~~~(boundary - 1)

/-- `min`, of `size_t`. -/
def minSize (a b : Word) : Word := if a < b then a else b

/-- `struct page`: `virt`, and the physical address `dde_kit_pgtab_get_physaddr` gives for it. -/
structure Page where
  virt : Word
  phys : Word

def pageToPhys (page : Page) : Word := page.phys

def kmapAtomic (page : Page) : Word := page.virt

/-- `ENOMEM` -/
def enomem : Int := 12

/-- `slow_shmem_copy` -/
def slowShmemCopy (dstPage : Page) (dstOffset : Word) (srcPage : Page) (srcOffset length : Word)
    (m : Memory Byte) : Int × Memory Byte :=
  let dstVaddr := kmapAtomic dstPage
  let srcVaddr := kmapAtomic srcPage
  if dstVaddr = 0 then (-enomem, m)
  else if srcVaddr = 0 then (-enomem, m)
  else (0, m.copy (dstVaddr + dstOffset).toNat (srcVaddr + srcOffset).toNat length.toNat)

/-- The variables of the loop, and the memory. -/
structure Vars where
  gpuOffset : Word
  cpuOffset : Word
  length : Word
  memory : Memory Byte

/-- `this_length`: up to `cacheline_end`, if there is as much. -/
def thisLength (gpuOffset length : Word) : Word :=
  let cachelineEnd := align (gpuOffset + 1) 64
  minSize (cachelineEnd - gpuOffset) length

/-- A round of the loop. -/
def body (isRead : Bool) (gpuVaddr cpuVaddr : Word) (v : Vars) : Vars ⊕ Memory Byte :=
  if 0 < intOfWord v.length then
    let thisLength := thisLength v.gpuOffset v.length
    let swizzledGpuOffset := v.gpuOffset ^^^ 64
    let cpu := (cpuVaddr + v.cpuOffset).toNat
    let gpu := (gpuVaddr + swizzledGpuOffset).toNat
    .inl
      { gpuOffset := v.gpuOffset + thisLength
        cpuOffset := v.cpuOffset + thisLength
        length := v.length - thisLength
        memory := if isRead then v.memory.copy cpu gpu thisLength.toNat
          else v.memory.copy gpu cpu thisLength.toNat }
  else .inr v.memory

/-- `slow_shmem_bit17_copy` -/
def slowShmemBit17Copy (fuel : Nat) (gpuPage : Page) (gpuOffset : Word) (cpuPage : Page)
    (cpuOffset length : Word) (isRead : Bool) (m : Memory Byte) : Option (Int × Memory Byte) :=
  if pageToPhys gpuPage &&& shl 1 17 = 0 then
    some (if isRead then slowShmemCopy cpuPage cpuOffset gpuPage gpuOffset length m
      else slowShmemCopy gpuPage gpuOffset cpuPage cpuOffset length m)
  else
    let gpuVaddr := kmapAtomic gpuPage
    let cpuVaddr := kmapAtomic cpuPage
    if gpuVaddr = 0 then some (-enomem, m)
    else if cpuVaddr = 0 then some (-enomem, m)
    else (loop (body isRead gpuVaddr cpuVaddr) fuel ⟨gpuOffset, cpuOffset, length, m⟩).map (0, ·)

/-! ## What it is for -/

/-- Where byte `x` of the page is. -/
def swizzle (x : Nat) : Nat := x ^^^ 64

/-- Where byte `k` goes, between `gpuOffset` in the page at `gpu` and the address `cpu`. -/
def dst (isRead : Bool) (gpu gpuOffset cpu k : Nat) : Nat :=
  if isRead then cpu + k else gpu + swizzle (gpuOffset + k)

/-- Where byte `k` comes from. -/
def src (isRead : Bool) (gpu gpuOffset cpu k : Nat) : Nat :=
  if isRead then gpu + swizzle (gpuOffset + k) else cpu + k

/-- Whatever is in the memory, the function succeeds and has moved `length` bytes, those of the page
swizzled. -/
def Copies (gpuPage : Page) (gpuOffset : Word) (cpuPage : Page) (cpuOffset length : Word)
    (isRead : Bool) : Prop :=
  let gpu := gpuPage.virt.toNat
  let cpu := (cpuPage.virt + cpuOffset).toNat
  ∀ m, ∃ fuel m',
    slowShmemBit17Copy fuel gpuPage gpuOffset cpuPage cpuOffset length isRead m = some (0, m') ∧
      Memory.Moved (dst isRead gpu gpuOffset.toNat cpu) (src isRead gpu gpuOffset.toNat cpu)
        length.toNat m m'

/-- Two pages are mapped, the first one with bit 17 set; the bytes to be copied are in it, and apart
from those of the other side. -/
structure Valid (gpuPage : Page) (gpuOffset : Word) (cpuPage : Page) (cpuOffset length : Word) :
    Prop where
  bit17 : gpuPage.phys.getLsbD 17 = true
  gpuMapped : gpuPage.virt ≠ 0
  cpuMapped : cpuPage.virt ≠ 0
  gpuEnd : gpuPage.virt.toNat + 4096 ≤ 2 ^ 32
  cpuEnd : (cpuPage.virt + cpuOffset).toNat + length.toNat ≤ 2 ^ 32
  inPage : gpuOffset.toNat + length.toNat ≤ 4096
  apart : gpuPage.virt.toNat + 4096 ≤ (cpuPage.virt + cpuOffset).toNat ∨
    (cpuPage.virt + cpuOffset).toNat + length.toNat ≤ gpuPage.virt.toNat

/-! ## Addresses -/

theorem swizzle_cases (x : Nat) :
    x / 64 % 2 = 0 ∧ swizzle x = x + 64 ∨ x / 64 % 2 = 1 ∧ swizzle x + 64 = x := by
  rcases Nat.even_or_odd (x / 64) with heven | hodd
  · exact .inl ⟨Nat.even_iff.1 heven, xor_two_pow_of_even (k := 6) heven⟩
  · exact .inr ⟨Nat.odd_iff.1 hodd, xor_two_pow_of_odd (k := 6) hodd⟩

theorem swizzle_lt {x : Nat} (hx : x < 4096) : swizzle x < 4096 := by
  rcases swizzle_cases x with ⟨_, h⟩ | ⟨_, h⟩ <;> omega

theorem swizzle_ne {x y : Nat} (h : x ≠ y) : swizzle x ≠ swizzle y := by
  rcases swizzle_cases x with ⟨_, hx⟩ | ⟨_, hx⟩ <;>
    rcases swizzle_cases y with ⟨_, hy⟩ | ⟨_, hy⟩ <;> omega

/-- Inside a cache line the bytes stay in order. -/
theorem swizzle_add {x k : Nat} (hk : x % 64 + k < 64) : swizzle (x + k) = swizzle x + k := by
  rcases swizzle_cases x with ⟨_, hx⟩ | ⟨_, hx⟩ <;>
    rcases swizzle_cases (x + k) with ⟨_, hy⟩ | ⟨_, hy⟩ <;> omega

section Places

variable {isRead : Bool} {gpu g cpu len i j : Nat}

theorem dst_ne_dst (hij : i ≠ j) : dst isRead gpu g cpu i ≠ dst isRead gpu g cpu j := by
  cases isRead with
  | true =>
      show cpu + i ≠ cpu + j
      omega
  | false =>
      have hne := swizzle_ne (show g + i ≠ g + j by omega)
      show gpu + swizzle (g + i) ≠ gpu + swizzle (g + j)
      omega

theorem dst_ne_src (hin : g + len ≤ 4096) (hapart : gpu + 4096 ≤ cpu ∨ cpu + len ≤ gpu)
    (hi : i < len) (hj : j < len) : dst isRead gpu g cpu i ≠ src isRead gpu g cpu j := by
  have hlti := swizzle_lt (show g + i < 4096 by omega)
  have hltj := swizzle_lt (show g + j < 4096 by omega)
  cases isRead with
  | true =>
      show cpu + i ≠ gpu + swizzle (g + j)
      omega
  | false =>
      show gpu + swizzle (g + i) ≠ cpu + j
      omega

theorem dst_add (n k : Nat) :
    dst isRead gpu (g + n) (cpu + n) k = dst isRead gpu g cpu (n + k) := by
  simp only [dst, Nat.add_assoc]

theorem src_add (n k : Nat) :
    src isRead gpu (g + n) (cpu + n) k = src isRead gpu g cpu (n + k) := by
  simp only [src, Nat.add_assoc]

/-- Inside a cache line, both sides are one piece. -/
theorem dst_of_line (hi : g % 64 + i < 64) :
    dst isRead gpu g cpu i = dst isRead gpu g cpu 0 + i := by
  have hline := swizzle_add hi
  cases isRead with
  | true => rfl
  | false =>
      show gpu + swizzle (g + i) = gpu + swizzle g + i
      omega

theorem src_of_line (hi : g % 64 + i < 64) :
    src isRead gpu g cpu i = src isRead gpu g cpu 0 + i := by
  have hline := swizzle_add hi
  cases isRead with
  | true =>
      show gpu + swizzle (g + i) = gpu + swizzle g + i
      omega
  | false => rfl

end Places

/-! ## A round -/

/-- The length up to `cacheline_end`. -/
def lineLength (g : Nat) : Nat := (g + 65) / 64 * 64 - g

theorem align_toNat {x : Word} (hx : x.toNat + 64 < 2 ^ 32) :
    (align x 64).toNat = (x.toNat + 64) / 64 * 64 := by
  have hsum : (x + 64).toNat = x.toNat + 64 := BitVec.toNat_add_of_lt hx
  have hmask : (64 : Word) - 1 = BitVec.ofNat 32 (2 ^ 6 - 1) := by decide
  rw [align, hmask, toNat_and_not_low _ (by omega), hsum]
  omega

theorem minSize_toNat (a b : Word) : (minSize a b).toNat = min a.toNat b.toNat := by
  unfold minSize
  split
  · rename_i h
    rw [BitVec.lt_def] at h
    omega
  · rename_i h
    rw [BitVec.lt_def] at h
    omega

theorem thisLength_toNat {gpuOffset : Word} (hg : gpuOffset.toNat < 4096) (length : Word) :
    (thisLength gpuOffset length).toNat = min (lineLength gpuOffset.toNat) length.toNat := by
  have hnext : (gpuOffset + 1).toNat = gpuOffset.toNat + 1 :=
    BitVec.toNat_add_of_lt (show gpuOffset.toNat + 1 < 2 ^ 32 by omega)
  have hend := align_toNat (x := gpuOffset + 1) (by omega)
  rw [hnext] at hend
  rw [thisLength, minSize_toNat, BitVec.toNat_sub_of_le, hend, lineLength]
  rw [BitVec.le_def, hend]
  omega

section Rounds

variable (isRead : Bool) {gpuVaddr cpuVaddr : Word} {g cpu len : Nat} {v : Vars}

/-- `len` bytes are left, from `g` in the page and the address `cpu` on. -/
structure At (cpuVaddr : Word) (g cpu len : Nat) (v : Vars) : Prop where
  gpuOffset : v.gpuOffset.toNat = g
  cpuOffset : cpuVaddr + v.cpuOffset = BitVec.ofNat 32 cpu
  length : v.length.toNat = len

/-- What of `Valid` a round needs. -/
structure Fits (gpuVaddr : Word) (g cpu len : Nat) : Prop where
  gpuEnd : gpuVaddr.toNat + 4096 ≤ 2 ^ 32
  cpuEnd : cpu + len ≤ 2 ^ 32
  inPage : g + len ≤ 4096
  apart : gpuVaddr.toNat + 4096 ≤ cpu ∨ cpu + len ≤ gpuVaddr.toNat

theorem Fits.advance (h : Fits gpuVaddr g cpu len) {n : Nat} (hn : n ≤ len) :
    Fits gpuVaddr (g + n) (cpu + n) (len - n) := by
  obtain ⟨hgpu, hcpu, hin, hapart⟩ := h
  constructor <;> omega

theorem body_exit (hat : At cpuVaddr g cpu 0 v) :
    body isRead gpuVaddr cpuVaddr v = .inr v.memory := by
  have hzero : v.length = 0 := BitVec.eq_of_toNat_eq hat.length
  rw [body, hzero]
  exact if_neg (by decide)

theorem body_next (hat : At cpuVaddr g cpu len v) (hfits : Fits gpuVaddr g cpu len)
    (hlen : 0 < len) {n : Nat} (hn : n = min (lineLength g) len) :
    ∃ v', body isRead gpuVaddr cpuVaddr v = .inl v' ∧ At cpuVaddr (g + n) (cpu + n) (len - n) v' ∧
      v'.memory = v.memory.copy (dst isRead gpuVaddr.toNat g cpu 0)
        (src isRead gpuVaddr.toNat g cpu 0) n := by
  obtain ⟨rfl, hcpu, rfl⟩ := hat
  obtain ⟨hgpuEnd, hcpuEnd, hin, hapart⟩ := hfits
  have hthis : (thisLength v.gpuOffset v.length).toNat = n := by
    rw [thisLength_toNat (by omega), hn]
  have hpos : 0 < intOfWord v.length := by
    rw [intOfWord, BitVec.toInt_eq_toNat_cond, if_pos (by omega)]
    omega
  have hswizzle : (v.gpuOffset ^^^ 64).toNat = swizzle v.gpuOffset.toNat := BitVec.toNat_xor ..
  have hlt := swizzle_lt (show v.gpuOffset.toNat < 4096 by omega)
  have hgpuAddr : (gpuVaddr + (v.gpuOffset ^^^ 64)).toNat =
      gpuVaddr.toNat + swizzle v.gpuOffset.toNat := by
    rw [BitVec.toNat_add_of_lt (by omega), hswizzle]
  have hcpuAddr : (cpuVaddr + v.cpuOffset).toNat = cpu := by
    rw [hcpu, BitVec.toNat_ofNat, Nat.mod_eq_of_lt (by omega)]
  refine ⟨_, if_pos hpos, ⟨?_, ?_, ?_⟩, ?_⟩
  · show (v.gpuOffset + thisLength v.gpuOffset v.length).toNat = _
    rw [BitVec.toNat_add_of_lt (by omega), hthis]
  · show cpuVaddr + (v.cpuOffset + thisLength v.gpuOffset v.length) = _
    rw [← BitVec.add_assoc, hcpu, BitVec.ofNat_add, ← hthis, BitVec.ofNat_toNat,
      BitVec.setWidth_eq]
  · show (v.length - thisLength v.gpuOffset v.length).toNat = _
    rw [BitVec.toNat_sub_of_le, hthis]
    rw [BitVec.le_def, hthis]
    omega
  · simp only [hgpuAddr, hcpuAddr, hthis]
    cases isRead <;> rfl

/-! ## A copy that is right -/

/-- It does not start with the last byte of a cache line, or there is nothing after that byte. -/
def Starts (g len : Nat) : Prop := g % 64 ≠ 63 ∨ len ≤ 1

/-- After a round, a cache line starts. -/
theorem starts_next {n : Nat} (hn : n = min (lineLength g) len) : Starts (g + n) (len - n) := by
  unfold Starts
  unfold lineLength at hn
  omega

/-- A round moves its piece of the copy. -/
theorem body_moved (hat : At cpuVaddr g cpu len v) (hfits : Fits gpuVaddr g cpu len)
    (hlen : 0 < len) (hstart : Starts g len) :
    ∃ n v', 0 < n ∧ n ≤ len ∧ body isRead gpuVaddr cpuVaddr v = .inl v' ∧
      At cpuVaddr (g + n) (cpu + n) (len - n) v' ∧ Starts (g + n) (len - n) ∧
      Memory.Moved (dst isRead gpuVaddr.toNat g cpu) (src isRead gpuVaddr.toNat g cpu) n
        v.memory v'.memory := by
  obtain ⟨v', hbody, hat', hmemory⟩ := body_next isRead hat hfits hlen rfl
  have hline : ∀ k < min (lineLength g) len, g % 64 + k < 64 := by
    intro k hk
    unfold Starts at hstart
    unfold lineLength at hk
    omega
  refine ⟨_, v', ?_, Nat.min_le_right _ _, hbody, hat', starts_next rfl, ?_⟩
  · unfold lineLength
    omega
  · rw [hmemory]
    exact (Memory.Moved.copy _ _ _).congr (fun k hk => dst_of_line (hline k hk))
      (fun k hk => src_of_line (hline k hk))

/-- The whole copy, round by round. -/
theorem ends_moved (hat : At cpuVaddr g cpu len v) (hfits : Fits gpuVaddr g cpu len)
    (hstart : Starts g len) :
    ∃ m', Ends (body isRead gpuVaddr cpuVaddr) v m' ∧
      Memory.Moved (dst isRead gpuVaddr.toNat g cpu) (src isRead gpuVaddr.toNat g cpu) len
        v.memory m' := by
  induction len using Nat.strongRecOn generalizing g cpu v with
  | _ len ih =>
      rcases Nat.eq_zero_or_pos len with rfl | hlen
      · exact ⟨v.memory, .exit (body_exit isRead hat), .refl⟩
      · obtain ⟨n, v', hpos, hle, hbody, hat', hstart', hpiece⟩ :=
          body_moved isRead hat hfits hlen hstart
        obtain ⟨m', hend, hrest⟩ := ih (len - n) (by omega) hat' (hfits.advance hle) hstart'
        refine ⟨m', hend.next hbody, ?_⟩
        have hrest' := hrest.congr (fun k _ => (dst_add n k).symm) (fun k _ => (src_add n k).symm)
        have hall := hpiece.append hrest'
          (fun i hi j hj => dst_ne_dst (by omega))
          (fun i hi j hj => dst_ne_src hfits.inPage hfits.apart (by omega) (by omega))
        rwa [Nat.add_sub_cancel' hle] at hall

/-! ## A copy that is not -/

/-- What goes to the place of the second byte, when the first one is the last of a cache line. -/
def secondSource (isRead : Bool) (gpu g : Nat) : Nat :=
  if isRead then gpu + swizzle g + 1 else gpu + swizzle (g + 1)

theorem secondSource_ne (hfits : Fits gpuVaddr g cpu len) (hlast : g % 64 = 63) (hlen : 2 ≤ len) :
    secondSource isRead gpuVaddr.toNat g ≠ src isRead gpuVaddr.toNat g cpu 1 := by
  obtain ⟨_, _, hin, hapart⟩ := hfits
  cases isRead with
  | true =>
      show gpuVaddr.toNat + swizzle g + 1 ≠ gpuVaddr.toNat + swizzle (g + 1)
      rcases swizzle_cases g with ⟨_, h⟩ | ⟨_, h⟩ <;>
        rcases swizzle_cases (g + 1) with ⟨_, h'⟩ | ⟨_, h'⟩ <;> omega
  | false =>
      have hlt := swizzle_lt (show g + 1 < 4096 by omega)
      show gpuVaddr.toNat + swizzle (g + 1) ≠ cpu + 1
      omega

/-- After a round from the last byte of a cache line. -/
theorem copy_second {n : Nat} (m : Memory Byte) (gpu : Nat) (hlast : g % 64 = 63) (hn : 2 ≤ n)
    (hn' : n ≤ 65) :
    m.copy (dst isRead gpu g cpu 0) (src isRead gpu g cpu 0) n (dst isRead gpu g cpu 1) =
      m (secondSource isRead gpu g) := by
  cases isRead with
  | true => exact Memory.write_inside m (show 1 < n by omega)
  | false =>
      refine Memory.write_outside m ?_
      show gpu + swizzle (g + 1) < gpu + swizzle g ∨ gpu + swizzle g + n ≤ gpu + swizzle (g + 1)
      rcases swizzle_cases g with ⟨_, h⟩ | ⟨_, h⟩ <;>
        rcases swizzle_cases (g + 1) with ⟨_, h'⟩ | ⟨_, h'⟩ <;> omega

/-- The later rounds leave it there. -/
theorem ends_second (hat : At cpuVaddr g cpu len v) (hfits : Fits gpuVaddr g cpu len)
    (hlast : g % 64 = 63) (hlen : 2 ≤ len) :
    ∃ m', Ends (body isRead gpuVaddr cpuVaddr) v m' ∧
      m' (dst isRead gpuVaddr.toNat g cpu 1) =
        v.memory (secondSource isRead gpuVaddr.toNat g) := by
  have hline : lineLength g = 65 := by
    unfold lineLength
    omega
  obtain ⟨v', hbody, hat', hmemory⟩ :=
    body_next isRead hat hfits (by omega) (n := min 65 len) (by rw [hline])
  obtain ⟨m', hend, hrest⟩ := ends_moved isRead hat'
    (hfits.advance (Nat.min_le_right 65 len)) (starts_next (by rw [hline]))
  refine ⟨m', hend.next hbody, ?_⟩
  rw [hrest.frame, hmemory]
  · exact copy_second isRead _ _ hlast (by omega) (by omega)
  · intro k _
    rw [dst_add]
    exact dst_ne_dst (by omega)

end Rounds

/-! ## The function -/

section Function

variable {gpuPage cpuPage : Page} {gpuOffset cpuOffset length : Word} {isRead : Bool}

theorem slowShmemBit17Copy_of_valid (hvalid : Valid gpuPage gpuOffset cpuPage cpuOffset length)
    (fuel : Nat) (m : Memory Byte) :
    slowShmemBit17Copy fuel gpuPage gpuOffset cpuPage cpuOffset length isRead m =
      (loop (body isRead gpuPage.virt cpuPage.virt) fuel
        ⟨gpuOffset, cpuOffset, length, m⟩).map (0, ·) := by
  have hbit : ¬ pageToPhys gpuPage &&& shl 1 17 = 0 := by
    intro hzero
    have hclear := (and_bit_eq_zero_iff gpuPage.phys (show 17 < 32 by omega)).1 hzero
    rw [hvalid.bit17] at hclear
    cases hclear
  rw [slowShmemBit17Copy, if_neg hbit]
  exact (if_neg hvalid.gpuMapped).trans (if_neg hvalid.cpuMapped)

theorem Valid.fits (hvalid : Valid gpuPage gpuOffset cpuPage cpuOffset length) :
    Fits gpuPage.virt gpuOffset.toNat (cpuPage.virt + cpuOffset).toNat length.toNat :=
  ⟨hvalid.gpuEnd, hvalid.cpuEnd, hvalid.inPage, hvalid.apart⟩

theorem at_start (cpuVaddr : Word) (m : Memory Byte) :
    At cpuVaddr gpuOffset.toNat (cpuVaddr + cpuOffset).toNat length.toNat
      ⟨gpuOffset, cpuOffset, length, m⟩ :=
  ⟨rfl, (BitVec.ofNat_toNat .. ▸ (BitVec.setWidth_eq _).symm), rfl⟩

/-- With bit 17 set, the bytes of the page are copied from and to where they are, unless the copy
starts with the last byte of a cache line and goes on. -/
theorem slow_shmem_bit17_copy_iff (hvalid : Valid gpuPage gpuOffset cpuPage cpuOffset length)
    (isRead : Bool) :
    Copies gpuPage gpuOffset cpuPage cpuOffset length isRead ↔
      gpuOffset.toNat % 64 ≠ 63 ∨ length.toNat ≤ 1 := by
  constructor
  · intro h
    by_contra hnot
    have hlast : gpuOffset.toNat % 64 = 63 := by omega
    have hlen : 2 ≤ length.toNat := by omega
    -- the memory that tells the second byte from what comes in its place
    let m : Memory Byte := fun x =>
      if x = src isRead gpuPage.virt.toNat gpuOffset.toNat (cpuPage.virt + cpuOffset).toNat 1 then 1
      else 0
    obtain ⟨fuel, m', hrun, hmoved⟩ := h m
    rw [slowShmemBit17Copy_of_valid hvalid, Option.map_eq_some_iff] at hrun
    obtain ⟨_, hloop, hm'⟩ := hrun
    cases hm'
    obtain ⟨m'', hend, hsecond⟩ :=
      ends_second isRead (at_start cpuPage.virt m) hvalid.fits hlast hlen
    have hbyte := hmoved.moved 1 (by omega)
    rw [Ends.unique ⟨fuel, hloop⟩ hend, hsecond] at hbyte
    have hzero : m (secondSource isRead gpuPage.virt.toNat gpuOffset.toNat) = 0 :=
      if_neg (secondSource_ne isRead hvalid.fits hlast hlen)
    exact absurd (hzero.symm.trans (hbyte.trans (if_pos rfl))) (by decide)
  · intro hstart m
    obtain ⟨m', ⟨fuel, hloop⟩, hmoved⟩ :=
      ends_moved isRead (at_start cpuPage.virt m) hvalid.fits hstart
    refine ⟨fuel, m', ?_, hmoved⟩
    rw [slowShmemBit17Copy_of_valid hvalid, hloop]
    rfl

end Function

/-- A page with bit 17 set, and one of the user. -/
def swizzledPage : Page := ⟨0x10000, 0x20000⟩

def userPage : Page := ⟨0x30000, 0x40000⟩

theorem line_start_copies :
    Copies swizzledPage 64 userPage 5 200 true ∧ Copies swizzledPage 64 userPage 5 200 false := by
  have hvalid : Valid swizzledPage 64 userPage 5 200 := by
    constructor <;> decide
  exact ⟨(slow_shmem_bit17_copy_iff hvalid true).2 (.inl (by decide)),
    (slow_shmem_bit17_copy_iff hvalid false).2 (.inl (by decide))⟩

/-- Two bytes from offset 63 on, with the low byte of each address in the memory.  The second one
is at offset 0 of the page; but byte 128 is read for it, and byte 128 is written. -/
theorem last_byte_runs_on :
    let m : Memory Byte := fun x => BitVec.ofNat 8 x
    (slowShmemBit17Copy 2 swizzledPage 63 userPage 5 2 true m).map
        (fun r => (r.1, r.2.read 0x30005 2)) = some (0, [127, 128]) ∧
      src true 0x10000 63 0x30005 1 = 0x10000 ∧ m 0x10000 = 0 ∧
      (slowShmemBit17Copy 2 swizzledPage 63 userPage 5 2 false m).map
        (fun r => (r.1, r.2 0x10000, r.2 0x10080)) = some (0, 0, 6) := by
  decide

end LinuxDrivers.Gpu.Bit17Copy
