/-
# `LinuxDrivers.Gpu.Bitmap` — bitmaps, as the GPU driver emulates them

The contributed AGP code takes its keys from a bitmap: the first bit that is zero is the next key,
and is set.  `lx_emul` has its own versions of the two functions:

    find_first_zero_bit(addr, size)
              max_long = size /= 32
              for (i = 0; i < max_long; i++)
                  for (j = 0, v = addr[i]; 32; j++)
                      if ((v & (1 << j)) == 0)  return i*32 + j
              return size
    __set_bit(nr, addr)
              addr[nr / 4] |= 1 << (nr & 31)

The condition of the inner loop is a constant, so only the first word is ever searched, and for ever
if all its bits are set.  Without a word to search, what is returned is the number of words.  And
`__set_bit` divides by the size of a word in bytes.

**Proved here.**

    when the first zero bit is found, which bits are set rightly, and how many keys come
    out of both before one comes twice                      (`bitmap_iff`)
-/
import LinuxDrivers.Basic
import LinuxDrivers.Lib.Bits
import LinuxDrivers.Lib.Loop
import Mathlib.Logic.Function.Basic
import Mathlib.Data.List.Nodup

namespace LinuxDrivers.Gpu.Bitmap

open LinuxDrivers.Lib

/-! ## The code -/

/-- The words from an address on. -/
abbrev Words := Nat → Word

/-- The two loops, over `i` and `j`. -/
def findBody (addr : Words) (maxLong : Word) (s : Word × Word) : Word × Word ⊕ Word :=
  if s.1 < maxLong then
    if addr s.1.toNat &&& shl 1 s.2 = 0 then .inr (s.1 * 32 + s.2) else .inl (s.1, s.2 + 1)
  else .inr maxLong

/-- `find_first_zero_bit`; `size_bits` is divided in place. -/
def findFirstZeroBit (fuel : Nat) (addr : Words) (sizeBits : Word) : Option Word :=
  loop (findBody addr (sizeBits / 32)) fuel (0, 0)

/-- `__set_bit` -/
def setBit (nr : Int) (addr : Words) : Words :=
  let i := (wordOfInt nr / 4).toNat
  Function.update addr i (addr i ||| shl 1 (wordOfInt nr &&& 31))

/-- `MAXKEY` -/
def maxKey : Nat := 4096 * 32

/-- `agp_get_key`: the key, and `key_list` afterwards. -/
def agpGetKey (fuel : Nat) (keyList : Words) : Option (Int × Words) :=
  (findFirstZeroBit fuel keyList (BitVec.ofNat 32 maxKey)).map (fun r =>
    let bit := intOfWord r
    if bit < maxKey then (bit, setBit bit keyList) else (-1, keyList))

/-- The keys of `n` calls. -/
def agpGetKeys (fuel : Nat) : Nat → Words → Option (List Int)
  | 0, _ => some []
  | n + 1, keyList =>
      (agpGetKey fuel keyList).bind (fun r => (agpGetKeys fuel n r.2).map (r.1 :: ·))

/-- `key_list` after the `memset` of `agp_backend_initialize`. -/
def emptyKeyList : Words := fun _ => 0

/-! ## What a bitmap is for -/

/-- Bit `k`. -/
def bit (addr : Words) (k : Nat) : Bool := (addr (k / 32)).getLsbD (k % 32)

/-- The smallest index of a zero bit, or the size. -/
def FirstZero (addr : Words) (size r : Nat) : Prop :=
  (∀ k < r, bit addr k = true) ∧ (r < size ∧ bit addr r = false ∨ r = size)

/-- The search ends, with the first zero bit. -/
def FindsFirstZero (addr : Words) (sizeBits : Word) : Prop :=
  ∃ fuel r, findFirstZeroBit fuel addr sizeBits = some r ∧ FirstZero addr sizeBits.toNat r.toNat

/-- Bit `nr` is set, and no other is changed. -/
def SetsBit (nr : Nat) (addr : Words) : Prop :=
  ∀ k, bit (setBit nr addr) k = (bit addr k || decide (k = nr))

/-- `n` calls give different keys below `MAXKEY`, and -1 when all are used. -/
def GivesKeys (n : Nat) : Prop :=
  ∃ fuel keys, agpGetKeys fuel n emptyKeyList = some keys ∧ (keys.take maxKey).Nodup ∧
    (∀ key ∈ keys.take maxKey, 0 ≤ key ∧ key < maxKey) ∧ ∀ key ∈ keys.drop maxKey, key = -1

/-! ## The search

Once there is a word to search, the search stays in it: `i` is 0 in every round. -/

theorem bit_of_lt {addr : Words} {k : Nat} (hk : k < 32) : bit addr k = (addr 0).getLsbD k := by
  rw [bit, Nat.div_eq_of_lt hk, Nat.mod_eq_of_lt hk]

theorem and_shl_eq_zero_iff (v j : Word) :
    v &&& shl 1 j = 0 ↔ v.getLsbD (j.toNat % 32) = false :=
  and_bit_eq_zero_iff v (Nat.mod_lt _ (by omega))

theorem findBody_zero {addr : Words} {maxLong : Word} (hmax : 0 < maxLong) (j : Word) :
    findBody addr maxLong (0, j) = if bit addr (j.toNat % 32) = false then .inr j
      else .inl (0, j + 1) := by
  have hiff := and_shl_eq_zero_iff (addr 0) j
  rw [← bit_of_lt (Nat.mod_lt _ (by omega))] at hiff
  rw [findBody, if_pos hmax]
  show (if addr 0 &&& shl 1 j = 0 then Sum.inr (0 * 32 + j) else .inl (0, j + 1)) = _
  by_cases hbit : bit addr (j.toNat % 32) = false
  · rw [if_pos hbit, if_pos (hiff.2 hbit)]
    simp
  · rw [if_neg hbit, if_neg (mt hiff.1 hbit)]

section Search

variable {addr : Words} {maxLong : Word} {k : Nat}

/-- `j` has not passed the first zero bit `k`. -/
def Before (k : Nat) (s : Word × Word) : Prop := s.1 = 0 ∧ s.2.toNat ≤ k

theorem findBody_next (hmax : 0 < maxLong) (hk : k < 32) (hclear : bit addr k = false)
    (s s' : Word × Word) (hs : Before k s) (hbody : findBody addr maxLong s = .inl s') :
    Before k s' ∧ k - s'.2.toNat < k - s.2.toNat := by
  obtain ⟨i, j⟩ := s
  obtain ⟨rfl, hj⟩ : i = 0 ∧ j.toNat ≤ k := hs
  rw [findBody_zero hmax, Nat.mod_eq_of_lt (show j.toNat < 32 by omega)] at hbody
  split at hbody
  · cases hbody
  · rename_i hset
    cases hbody
    have hne : j.toNat ≠ k := by
      intro h
      rw [h] at hset
      exact hset hclear
    have hsucc : (j + 1).toNat = j.toNat + 1 :=
      BitVec.toNat_add_of_lt (show j.toNat + 1 < 2 ^ 32 by omega)
    refine ⟨⟨rfl, ?_⟩, ?_⟩
    · show (j + 1).toNat ≤ k
      omega
    · show k - (j + 1).toNat < k - j.toNat
      omega

theorem findBody_exit (hmax : 0 < maxLong) (hk : k < 32) (hset : ∀ i < k, bit addr i = true)
    (s : Word × Word) (r : Word) (hs : Before k s) (hbody : findBody addr maxLong s = .inr r) :
    r.toNat = k := by
  obtain ⟨i, j⟩ := s
  obtain ⟨rfl, hj⟩ : i = 0 ∧ j.toNat ≤ k := hs
  rw [findBody_zero hmax, Nat.mod_eq_of_lt (show j.toNat < 32 by omega)] at hbody
  split at hbody
  · rename_i hclear
    cases hbody
    by_contra hne
    rw [hset r.toNat (by omega)] at hclear
    cases hclear
  · cases hbody

theorem before_start (k : Nat) : Before k (0, 0) := ⟨rfl, Nat.zero_le k⟩

/-- With a word to search, the search ends with its first zero bit, if there is one. -/
theorem findFirstZeroBit_ends {sizeBits : Word} (hmax : 0 < sizeBits / 32) (hk : k < 32)
    (hset : ∀ i < k, bit addr i = true) (hclear : bit addr k = false) :
    ∃ fuel r, findFirstZeroBit fuel addr sizeBits = some r ∧ r.toNat = k := by
  obtain ⟨r, ⟨fuel, hfuel⟩, hr⟩ := Ends.of_measure (I := Before k) (Q := fun r => r.toNat = k)
    (fun s => k - s.2.toNat) (findBody_next hmax hk hclear) (findBody_exit hmax hk hset)
    (before_start k)
  exact ⟨fuel, r, hfuel, hr⟩

theorem findFirstZeroBit_eq {fuel : Nat} {sizeBits r : Word} (hmax : 0 < sizeBits / 32)
    (hk : k < 32) (hset : ∀ i < k, bit addr i = true) (hclear : bit addr k = false)
    (h : findFirstZeroBit fuel addr sizeBits = some r) : r.toNat = k := by
  obtain ⟨fuel', r', h', hr'⟩ := findFirstZeroBit_ends hmax hk hset hclear
  rw [Ends.unique ⟨fuel, h⟩ ⟨fuel', h'⟩, hr']

/-- A word of ones is searched for ever. -/
theorem findFirstZeroBit_full {sizeBits : Word} (hmax : 0 < sizeBits / 32)
    (hfull : ∀ i < 32, bit addr i = true) (fuel : Nat) (r : Word) :
    findFirstZeroBit fuel addr sizeBits ≠ some r := by
  intro h
  refine not_ends (I := fun s : Word × Word => s.1 = 0) ?_ rfl ⟨fuel, h⟩
  rintro ⟨i, j⟩ hi
  obtain rfl : i = 0 := hi
  refine ⟨(0, j + 1), ?_, rfl⟩
  rw [findBody_zero hmax, if_neg]
  rw [hfull _ (Nat.mod_lt _ (by omega))]
  exact Bool.noConfusion

/-- Without a word to search, the result is zero. -/
theorem findFirstZeroBit_small {fuel : Nat} {sizeBits : Word} (hsize : sizeBits / 32 = 0) :
    findFirstZeroBit (fuel + 1) addr sizeBits = some 0 := by
  rw [findFirstZeroBit, hsize]
  rfl

end Search

theorem div_eq_zero_iff (sizeBits : Word) : sizeBits / 32 = 0 ↔ sizeBits.toNat < 32 := by
  rw [BitVec.toNat_inj.symm, BitVec.toNat_udiv]
  show sizeBits.toNat / 32 = 0 ↔ _
  omega

theorem findsFirstZero_small {addr : Words} {sizeBits : Word} (hsize : sizeBits.toNat < 32) :
    FindsFirstZero addr sizeBits ↔ sizeBits.toNat = 0 ∨ bit addr 0 = false := by
  have hzero := (div_eq_zero_iff sizeBits).2 hsize
  constructor
  · rintro ⟨fuel, r, hfind, _, hfirst⟩
    cases fuel with
    | zero => cases hfind
    | succ fuel =>
        rw [findFirstZeroBit_small hzero] at hfind
        cases hfind
        rcases hfirst with ⟨_, hclear⟩ | hend
        · exact .inr hclear
        · exact .inl hend.symm
  · intro h
    refine ⟨1, 0, findFirstZeroBit_small hzero, fun k hk => absurd hk (Nat.not_lt_zero k), ?_⟩
    show 0 < sizeBits.toNat ∧ bit addr 0 = false ∨ 0 = sizeBits.toNat
    rcases h with hend | hclear
    · exact .inr hend.symm
    · rcases Nat.eq_zero_or_pos sizeBits.toNat with hend | hpos
      · exact .inr hend.symm
      · exact .inl ⟨hpos, hclear⟩

theorem findsFirstZero_large {addr : Words} {sizeBits : Word} (hsize : 32 ≤ sizeBits.toNat) :
    FindsFirstZero addr sizeBits ↔ ∃ k < 32, bit addr k = false := by
  have hmax : 0 < sizeBits / 32 := by
    rw [BitVec.lt_def, BitVec.toNat_udiv]
    show 0 < sizeBits.toNat / 32
    omega
  constructor
  · rintro ⟨fuel, r, hfind, _⟩
    by_contra hnone
    refine findFirstZeroBit_full hmax (fun i hi => ?_) fuel r hfind
    by_contra hclear
    exact hnone ⟨i, hi, Bool.eq_false_iff.2 hclear⟩
  · intro h
    -- the first of them
    obtain ⟨hk, hclear⟩ := Nat.find_spec h
    have hset : ∀ i < Nat.find h, bit addr i = true := by
      intro i hi
      by_contra hclear
      exact Nat.find_min h hi ⟨hi.trans hk, Bool.eq_false_iff.2 hclear⟩
    obtain ⟨fuel, r, hfind, hr⟩ := findFirstZeroBit_ends hmax hk hset hclear
    refine ⟨fuel, r, hfind, ?_⟩
    rw [hr]
    exact ⟨hset, .inl ⟨hk.trans_le hsize, hclear⟩⟩

/-! ## Setting a bit -/

/-- The bit that is set. -/
def bitSet (nr : Nat) : Nat := nr / 4 * 32 + nr % 32

theorem bit_setBit {nr : Nat} (hnr : nr < 2 ^ 31) (addr : Words) (k : Nat) :
    bit (setBit nr addr) k = (bit addr k || decide (k = bitSet nr)) := by
  have hword : (wordOfInt nr).toNat = nr := by
    rw [wordOfInt, BitVec.ofInt_natCast, BitVec.toNat_ofNat]
    omega
  have hindex : (wordOfInt nr / 4).toNat = nr / 4 := by
    rw [BitVec.toNat_udiv, hword]
    rfl
  have hcount : (wordOfInt nr &&& 31).toNat = nr % 32 := by
    have hlow := toNat_and_low (k := 5) (wordOfInt nr) (by omega)
    rw [hword] at hlow
    exact hlow
  simp only [bit, setBit, hindex, shl, hcount, Nat.mod_mod]
  by_cases hk : k / 32 = nr / 4
  · rw [hk, Function.update_self, show (1 : Word) = 1#32 from rfl,
      getLsbD_or_bit _ (Nat.mod_lt _ (by omega))]
    congr 1
    exact decide_eq_decide.2 (by unfold bitSet; omega)
  · rw [Function.update_of_ne hk, decide_eq_false, Bool.or_false]
    unfold bitSet
    omega

theorem setsBit_iff {nr : Nat} (hnr : nr < 2 ^ 31) (addr : Words) :
    SetsBit nr addr ↔ nr < 4 ∨ bit addr nr = true ∧ bit addr (bitSet nr) = true := by
  have heq : bitSet nr = nr ↔ nr < 4 := by
    unfold bitSet
    omega
  simp only [SetsBit, bit_setBit hnr, ← heq]
  constructor
  · intro h
    by_cases hsame : bitSet nr = nr
    · exact .inl hsame
    · have hset := h (bitSet nr)
      have hnrset := h nr
      simp only [hsame, Ne.symm hsame, decide_true, decide_false, Bool.or_true, Bool.or_false]
        at hset hnrset
      exact .inr ⟨hnrset, hset.symm⟩
  · rintro (hsame | ⟨hnrset, hset⟩) k
    · rw [hsame]
    · by_cases hk : bit addr k = true
      · rw [hk, Bool.true_or, Bool.true_or]
      · have hne : k ≠ bitSet nr := by
          rintro rfl
          exact hk hset
        have hne' : k ≠ nr := by
          rintro rfl
          exact hk hnrset
        rw [decide_eq_false hne, decide_eq_false hne']

/-! ## The keys -/

/-- Of the first word, the lowest `k` bits are set. -/
def LowSet (k : Nat) (keyList : Words) : Prop := ∀ i < 32, bit keyList i = decide (i < k)

/-- The first keys are the bits in order; but bit 4 is in the first word, and never set there. -/
theorem agpGetKey_lowSet {fuel k : Nat} {keyList keyList' : Words} {key : Int} (hk : k ≤ 4)
    (hlow : LowSet k keyList) (h : agpGetKey fuel keyList = some (key, keyList')) :
    key = k ∧ LowSet (min (k + 1) 4) keyList' := by
  rw [agpGetKey, Option.map_eq_some_iff] at h
  obtain ⟨r, hfind, hr⟩ := h
  have hr' : r.toNat = k := by
    refine findFirstZeroBit_eq (by decide) (by omega) ?_ ?_ hfind
    · intro i hi
      rw [hlow i (by omega), decide_eq_true hi]
    · rw [hlow k (by omega), decide_eq_false (Nat.lt_irrefl k)]
  have hint : intOfWord r = k := by
    rw [intOfWord, BitVec.toInt_eq_toNat_cond, hr', if_pos (by omega)]
  have hlt : (k : Int) < maxKey := by
    unfold maxKey
    omega
  simp only [hint, if_pos hlt, Prod.mk.injEq] at hr
  obtain ⟨rfl, rfl⟩ := hr
  refine ⟨rfl, ?_⟩
  intro i hi
  rw [bit_setBit (by omega), hlow i hi, ← Bool.decide_or]
  exact decide_eq_decide.2 (by unfold bitSet; omega)

theorem agpGetKeys_lowSet {fuel : Nat} : ∀ {n k : Nat} {keyList : Words} {keys : List Int},
    k ≤ 4 → LowSet k keyList → agpGetKeys fuel n keyList = some keys →
      keys = (List.range n).map (fun i => ((min (k + i) 4 : Nat) : Int))
  | 0, _, _, keys, _, _, h => by
      cases h
      rfl
  | n + 1, k, keyList, keys, hk, hlow, h => by
      rw [agpGetKeys, Option.bind_eq_some_iff] at h
      obtain ⟨⟨key, keyList'⟩, hkey, hmap⟩ := h
      obtain ⟨rest, hrest, rfl⟩ := Option.map_eq_some_iff.1 hmap
      obtain ⟨rfl, hlow'⟩ := agpGetKey_lowSet hk hlow hkey
      rw [agpGetKeys_lowSet (Nat.min_le_right _ _) hlow' hrest, List.range_succ_eq_map,
        List.map_cons, List.map_map]
      congr 1
      · omega
      · refine List.map_congr_left (fun i _ => ?_)
        show ((min (min (k + 1) 4 + i) 4 : Nat) : Int) = ((min (k + (i + 1)) 4 : Nat) : Int)
        omega

theorem lowSet_emptyKeyList : LowSet 0 emptyKeyList := by
  intro i _
  simp [bit, emptyKeyList]

theorem givesKeys_iff (n : Nat) : GivesKeys n ↔ n ≤ 5 := by
  constructor
  · rintro ⟨fuel, keys, hkeys, hnodup, _⟩
    by_contra hn
    rw [agpGetKeys_lowSet (Nat.zero_le 4) lowSet_emptyKeyList hkeys, ← List.map_take,
      List.take_range] at hnodup
    -- the fifth key and the sixth are both 4
    have hmem : ∀ i < 6, i ∈ List.range (min maxKey n) := by
      intro i hi
      rw [List.mem_range, maxKey]
      omega
    have hsame := List.inj_on_of_nodup_map hnodup (hmem 4 (by omega)) (hmem 5 (by omega)) rfl
    omega
  · intro hn
    have hrun : ∀ m < 6, agpGetKeys 5 m emptyKeyList = some ((List.range m).map Int.ofNat) := by
      decide
    have hlength : ((List.range n).map Int.ofNat).length ≤ maxKey := by
      rw [List.length_map, List.length_range, maxKey]
      omega
    refine ⟨5, _, hrun n (by omega), ?_⟩
    rw [List.take_of_length_le hlength, List.drop_eq_nil_of_le hlength]
    refine ⟨List.nodup_range.map Int.ofNat_injective, ?_, by simp⟩
    intro key hkey
    obtain ⟨i, hi, rfl⟩ := List.mem_map.1 hkey
    rw [List.mem_range] at hi
    show 0 ≤ (i : Int) ∧ (i : Int) < maxKey
    unfold maxKey
    omega

/-! ## All three -/

/-- The first zero bit is found if it is in the first word, and the map has a word; a bit is set
rightly if it is one of the first four, or nothing is to be done; the sixth key is the fifth. -/
theorem bitmap_iff (addr : Words) (sizeBits : Word) (nr : Nat) (hnr : nr < 2 ^ 31) (n : Nat) :
    (FindsFirstZero addr sizeBits ↔
      if sizeBits.toNat < 32 then sizeBits.toNat = 0 ∨ bit addr 0 = false
      else ∃ k < 32, bit addr k = false) ∧
    (SetsBit nr addr ↔ nr < 4 ∨ bit addr nr = true ∧ bit addr (bitSet nr) = true) ∧
    (GivesKeys n ↔ n ≤ 5) := by
  refine ⟨?_, setsBit_iff hnr addr, givesKeys_iff n⟩
  by_cases hsize : sizeBits.toNat < 32
  · rw [if_pos hsize]
    exact findsFirstZero_small hsize
  · rw [if_neg hsize]
    exact findsFirstZero_large (Nat.le_of_not_lt hsize)

theorem bit_three_is_set :
    FindsFirstZero emptyKeyList 64 ∧ SetsBit 3 emptyKeyList ∧ GivesKeys 5 := by
  obtain ⟨hfind, hset, hkeys⟩ := bitmap_iff emptyKeyList 64 3 (by decide) 5
  exact ⟨hfind.2 ⟨0, by decide, by decide⟩, hset.2 (.inl (by decide)), hkeys.2 (by decide)⟩

/-- The first word full, the second empty. -/
def firstFull : Words := fun i => if i = 0 then BitVec.allOnes 32 else 0

/-- Key 4 is given twice: bit 36 is set for it.  And bit 32 of a map of 64 bits is not found. -/
theorem key_four_twice :
    agpGetKeys 5 6 emptyKeyList = some [0, 1, 2, 3, 4, 4] ∧
      bit (setBit 4 emptyKeyList) 4 = false ∧ bit (setBit 4 emptyKeyList) 36 = true ∧
      bit firstFull 32 = false ∧ ∀ fuel r, findFirstZeroBit fuel firstFull 64 ≠ some r := by
  refine ⟨by decide, by decide, by decide, by decide, ?_⟩
  exact findFirstZeroBit_full (by decide) (by decide)

end LinuxDrivers.Gpu.Bitmap
