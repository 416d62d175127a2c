/-
# `LinuxDrivers.Lib.Memory` — memory, by address

A memory gives the contents of every address.  `memset`, `memcpy` and a plain store
differ in what they write only, so there is one operation `write` here, of `n` cells
from an address on, with what each cell is set to:

    memset(a, b, n)       m.write a n (fun _ => b)
    memcpy(d, s, n)       m.copy d s n
    a buffer is filled    m.store a bs
    *a = w                m.storeWord a w,  the four bytes of `w`

A proof needs what is inside the cells that are written, and that everything outside
stays.  `Moved` says it for a copy that is made in pieces.
-/
import Mathlib.Data.BitVec

namespace LinuxDrivers.Lib

abbrev Byte := BitVec 8

/-- The contents of each address. -/
abbrev Memory (β : Type) := Nat → β

namespace Memory

variable {β : Type} (m : Memory β) {a n x : Nat} {f : Nat → β}

/-- The `n` cells from `a` on are written, the `i`-th one with `f i`. -/
def write (m : Memory β) (a n : Nat) (f : Nat → β) : Memory β :=
  fun x => if a ≤ x ∧ x < a + n then f (x - a) else m x

theorem write_inside (h : x < n) : m.write a n f (a + x) = f x := by
  rw [write, if_pos ⟨Nat.le_add_right a x, Nat.add_lt_add_left h a⟩, Nat.add_sub_cancel_left]

theorem write_outside (h : x < a ∨ a + n ≤ x) : m.write a n f x = m x := by
  rw [write, if_neg]
  omega

/-! ## Copies -/

/-- `n` cells are copied, from `s` on to `d` on. -/
def copy (m : Memory β) (d s n : Nat) : Memory β := m.write d n (fun i => m (s + i))

/-- The cells `src k` have been moved to `dst k`, for all `k` below `n`, and nothing else. -/
structure Moved (dst src : Nat → Nat) (n : Nat) (m m' : Memory β) : Prop where
  moved : ∀ k < n, m' (dst k) = m (src k)
  frame : ∀ x, (∀ k < n, x ≠ dst k) → m' x = m x

variable {m} {dst src : Nat → Nat} {m' m'' : Memory β} {n' : Nat}

theorem Moved.refl : Moved dst src 0 m m :=
  ⟨fun k hk => absurd hk (Nat.not_lt_zero k), fun _ _ => rfl⟩

theorem Moved.copy (d s n : Nat) : Moved (d + ·) (s + ·) n m (m.copy d s n) := by
  constructor
  · intro k hk
    exact write_inside m hk
  · intro x hx
    refine write_outside m ?_
    by_contra hin
    exact hx (x - d) (by omega) (by omega)

/-- A piece more: what it reads and what it writes has not been written before. -/
theorem Moved.append (h : Moved dst src n m m')
    (h' : Moved (fun k => dst (n + k)) (fun k => src (n + k)) n' m' m'')
    (hdst : ∀ i < n, ∀ j < n', dst i ≠ dst (n + j))
    (hsrc : ∀ i < n, ∀ j < n', dst i ≠ src (n + j)) : Moved dst src (n + n') m m'' := by
  constructor
  · intro k hk
    rcases Nat.lt_or_ge k n with hlt | hge
    · rw [h'.frame _ (hdst k hlt), h.moved k hlt]
    · obtain ⟨j, rfl⟩ := Nat.exists_eq_add_of_le hge
      have hj : j < n' := by omega
      rw [h'.moved j hj]
      exact h.frame _ (fun i hi => (hsrc i hi j hj).symm)
  · intro x hx
    rw [h'.frame x (fun j hj => hx (n + j) (by omega)), h.frame x (fun i hi => hx i (by omega))]

theorem Moved.congr {dst' src' : Nat → Nat} (h : Moved dst src n m m')
    (hdst : ∀ k < n, dst' k = dst k) (hsrc : ∀ k < n, src' k = src k) :
    Moved dst' src' n m m' := by
  constructor
  · intro k hk
    rw [hdst k hk, hsrc k hk, h.moved k hk]
  · intro x hx
    exact h.frame x (fun k hk => hdst k hk ▸ hx k hk)

/-! ## Buffers -/

variable (m)

/-- The `n` cells from `a` on. -/
def read (m : Memory β) (a n : Nat) : List β := (List.range n).map (fun i => m (a + i))

theorem length_read (a n : Nat) : (m.read a n).length = n := by
  rw [read, List.length_map, List.length_range]

/-- The cells from `a` on are set to those of the list. -/
def store (m : Memory β) (a : Nat) (bs : List β) : Memory β :=
  m.write a bs.length (fun i => bs.getD i (m (a + i)))

theorem read_store (a : Nat) (bs : List β) : (m.store a bs).read a bs.length = bs := by
  refine List.ext_getElem (length_read _ a bs.length) ?_
  intro i _ hi
  simp only [read, List.getElem_map, List.getElem_range]
  rw [store, write_inside m hi]
  simp [hi]

/-! ## Words -/

/-- The `i`-th byte of a word, in the order of the memory. -/
def byteOf (w : BitVec 32) (i : Nat) : Byte := (w >>> (8 * i)).setWidth 8

def storeWord (m : Memory Byte) (a : Nat) (w : BitVec 32) : Memory Byte :=
  m.write a 4 (byteOf w)

def loadWord (m : Memory Byte) (a : Nat) : BitVec 32 :=
  m (a + 3) ++ m (a + 2) ++ m (a + 1) ++ m (a + 0)

/-- A word is its four bytes. -/
theorem loadWord_congr {m m' : Memory Byte} (h : ∀ i < 4, m (a + i) = m' (a + i)) :
    m.loadWord a = m'.loadWord a := by
  rw [loadWord, loadWord, h 3 (by omega), h 2 (by omega), h 1 (by omega), h 0 (by omega)]

/-- What is written elsewhere leaves the word alone. -/
theorem loadWord_write {m : Memory Byte} {a b n : Nat} {f : Nat → Byte}
    (h : a + 4 ≤ b ∨ b + n ≤ a) : (m.write b n f).loadWord a = m.loadWord a := by
  refine loadWord_congr ?_
  intro i hi
  exact write_outside m (by omega)

theorem bytes_append (w : BitVec 32) :
    byteOf w 3 ++ byteOf w 2 ++ byteOf w 1 ++ byteOf w 0 = w := by
  apply BitVec.eq_of_getLsbD_eq
  intro i hi
  simp only [BitVec.getLsbD_append, byteOf, BitVec.getLsbD_setWidth, BitVec.getLsbD_ushiftRight]
  grind

theorem loadWord_storeWord (m : Memory Byte) (a : Nat) (w : BitVec 32) :
    (m.storeWord a w).loadWord a = w := by
  unfold loadWord storeWord
  rw [write_inside _ (by omega), write_inside _ (by omega), write_inside _ (by omega),
    write_inside _ (by omega)]
  exact bytes_append w

end Memory

end LinuxDrivers.Lib
