/-
# `LinuxDrivers.Lib.Bits` — masks

Code takes addresses apart with masks.  A mask of the `k` lowest bits leaves the remainder by
`2 ^ k`, its complement the largest multiple of `2 ^ k` below.  A mask of one bit tests
that bit, sets it, or changes it: then what is below and above stays.
-/
import Mathlib.Data.BitVec
import Mathlib.Data.Nat.Bitwise

namespace LinuxDrivers.Lib

variable {w k : Nat}

theorem toNat_and_low (x : BitVec w) (hk : k ≤ w) :
    (x &&& BitVec.ofNat w (2 ^ k - 1)).toNat = x.toNat % 2 ^ k := by
  have hpow : 2 ^ k ≤ 2 ^ w := Nat.pow_le_pow_right (by omega) hk
  have hpos := Nat.two_pow_pos k
  rw [BitVec.toNat_and, BitVec.toNat_ofNat, Nat.mod_eq_of_lt (by omega),
    Nat.and_two_pow_sub_one_eq_mod]

/-- What a mask and its complement leave is the whole. -/
theorem toNat_and_not_add_and (x m : BitVec w) :
    (x &&& ~~~m).toNat + (x &&& m).toNat = x.toNat := by
  have hdisjoint : (x &&& ~~~m) &&& (x &&& m) = 0#w := by
    ext i hi
    simp only [BitVec.getElem_and, BitVec.getElem_not, BitVec.getElem_zero]
    cases x[i] <;> cases m[i] <;> rfl
  have hjoin : (x &&& ~~~m) ||| (x &&& m) = x := by
    ext i hi
    simp only [BitVec.getElem_or, BitVec.getElem_and, BitVec.getElem_not]
    cases x[i] <;> cases m[i] <;> rfl
  rw [← BitVec.toNat_add_of_and_eq_zero hdisjoint, BitVec.add_eq_or_of_and_eq_zero _ _ hdisjoint,
    hjoin]

theorem toNat_and_not_low (x : BitVec w) (hk : k ≤ w) :
    (x &&& ~~~BitVec.ofNat w (2 ^ k - 1)).toNat = x.toNat - x.toNat % 2 ^ k := by
  have hsum := toNat_and_not_add_and x (BitVec.ofNat w (2 ^ k - 1))
  rw [toNat_and_low x hk] at hsum
  omega

/-- The mask of the `k` lowest bits. -/
theorem getLsbD_low (hk : k < w) (i : Nat) : (1#w <<< k - 1#w).getLsbD i = decide (i < k) := by
  have hpow : 2 ^ k < 2 ^ w := Nat.pow_lt_pow_right (by omega) hk
  have hpos := Nat.two_pow_pos k
  have hone : 1 % 2 ^ w = 1 := Nat.mod_eq_of_lt (by omega)
  have htoNat : (1#w <<< k - 1#w).toNat = 2 ^ k - 1 := by
    rw [BitVec.toNat_sub_of_le, BitVec.toNat_shiftLeft, BitVec.toNat_ofNat, hone, Nat.one_shiftLeft,
      Nat.mod_eq_of_lt hpow]
    rw [BitVec.le_def, BitVec.toNat_shiftLeft, BitVec.toNat_ofNat, hone, Nat.one_shiftLeft,
      Nat.mod_eq_of_lt hpow]
    exact hpos
  rw [BitVec.getLsbD, htoNat, Nat.testBit_two_pow_sub_one]

/-! ## One bit -/

theorem and_bit_eq_zero_iff (x : BitVec w) (hk : k < w) :
    x &&& 1#w <<< k = 0#w ↔ x.getLsbD k = false := by
  rw [← BitVec.twoPow_eq, BitVec.and_twoPow]
  have hne : BitVec.twoPow w k ≠ 0#w := by
    intro hzero
    have hbit := congrArg (BitVec.getLsbD · k) hzero
    simp [hk] at hbit
  cases x.getLsbD k <;> simp [hne]

theorem getLsbD_or_bit (x : BitVec w) (hk : k < w) (i : Nat) :
    (x ||| 1#w <<< k).getLsbD i = (x.getLsbD i || decide (i = k)) := by
  rw [← BitVec.twoPow_eq, BitVec.getLsbD_or, BitVec.getLsbD_twoPow]
  simp [hk, eq_comm]

theorem xor_two_pow (x k : Nat) : x ^^^ 2 ^ k = 2 ^ k * (x / 2 ^ k ^^^ 1) + x % 2 ^ k := by
  have hpos := Nat.two_pow_pos k
  rw [← Nat.div_add_mod (x ^^^ 2 ^ k) (2 ^ k), Nat.xor_mod_two_pow, Nat.xor_div_two_pow,
    Nat.mod_self, Nat.div_self hpos, Nat.xor_zero]

theorem xor_two_pow_of_even {x : Nat} (h : Even (x / 2 ^ k)) : x ^^^ 2 ^ k = x + 2 ^ k := by
  have hsplit := Nat.div_add_mod x (2 ^ k)
  rw [xor_two_pow, Nat.xor_one_of_even h, Nat.mul_add, Nat.mul_one]
  omega

theorem xor_two_pow_of_odd {x : Nat} (h : Odd (x / 2 ^ k)) : (x ^^^ 2 ^ k) + 2 ^ k = x := by
  have hsplit := Nat.div_add_mod x (2 ^ k)
  have hpos : 0 < x / 2 ^ k := by
    obtain ⟨q, hq⟩ := h
    omega
  have hle : 2 ^ k ≤ 2 ^ k * (x / 2 ^ k) := Nat.le_mul_of_pos_right _ hpos
  rw [xor_two_pow, Nat.xor_one_of_odd h, Nat.mul_sub, Nat.mul_one]
  omega

end LinuxDrivers.Lib
