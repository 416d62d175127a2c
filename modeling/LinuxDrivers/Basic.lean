/-
# `LinuxDrivers.Basic` — machine words

The drivers are built for 32-bit x86 only (`asm/types.h` sets `BITS_PER_LONG`
to 32), so `unsigned long`, `size_t` and `unsigned int` are all one type of
32-bit words.  An `int` is an integer; the two conversions below are the ones C
applies between the two.  A shift by 32 or more is what the machine makes of it.
-/
import Mathlib.Data.BitVec

namespace LinuxDrivers

/-- `unsigned long`, `unsigned int`, `size_t`. -/
abbrev Word := BitVec 32

/-- The value of a word read as an `int`. -/
def intOfWord (w : Word) : Int := w.toInt

/-- The word an `int` is converted to. -/
def wordOfInt (i : Int) : Word := BitVec.ofInt 32 i

/-- The two conversions are inverse on words: nothing is lost between an
`unsigned long` and an `int` of the same width. -/
@[simp] theorem wordOfInt_intOfWord (w : Word) : wordOfInt (intOfWord w) = w :=
  BitVec.ofInt_toInt

/-- `<<` of the machine: of the count, x86 uses the low five bits only. -/
def shl (x count : Word) : Word := x <<< (count.toNat % 32)

theorem shl_toNat (x count : Word) :
    (shl x count).toNat = x.toNat * 2 ^ (count.toNat % 32) % 2 ^ 32 := by
  rw [shl, BitVec.toNat_shiftLeft, Nat.shiftLeft_eq]

end LinuxDrivers
