/-
# `LinuxDrivers.Lib.BitStream` — the bits of a memory

Little-endian memory is a stream of bits: bit `k` is bit `k % 8` of byte `k / 8`, and a load of `n`
bytes from `a` on has the bits from `8 * a` on.  Code that packs fields of any width loads some
bytes, changes a window of their bits and stores them back; what it means is said by the bits alone:

    Window pos n f m m'      the `n` bits from `pos` on become `f`, all others stay

Windows that follow one another are one window (`Window.append`).
-/
import LinuxDrivers.Lib.Memory

namespace LinuxDrivers.Lib.Memory

/-- Bit `k` of the memory. -/
def bit (m : Memory Byte) (k : Nat) : Bool := (m (k / 8)).getLsbD (k % 8)

theorem bit_byte (m : Memory Byte) (a : Nat) {i : Nat} (h : i < 8) :
    m.bit (8 * a + i) = (m a).getLsbD i := by
  rw [bit, show (8 * a + i) / 8 = a by omega, show (8 * a + i) % 8 = i by omega]

theorem eq_of_bit {m m' : Memory Byte} {a : Nat} (h : ∀ i < 8, m.bit (8 * a + i) = m'.bit (8 * a + i)) :
    m a = m' a := by
  apply BitVec.eq_of_getLsbD_eq
  intro i hi
  rw [← bit_byte m a hi, ← bit_byte m' a hi, h i hi]

/-- The `n` bytes from `a` on as one value. -/
def load (m : Memory Byte) (a : Nat) : (n : Nat) → BitVec (8 * n)
  | 0 => 0#0
  | n + 1 => m.load (a + 1) n ++ m a

theorem getLsbD_load (m : Memory Byte) (a n i : Nat) :
    (m.load a n).getLsbD i = (decide (i < 8 * n) && m.bit (8 * a + i)) := by
  induction n generalizing a i with
  | zero => simp [load]
  | succ n ih =>
      show (m.load (a + 1) n ++ m a).getLsbD i = _
      rw [BitVec.getLsbD_append]
      by_cases hlow : i < 8
      · rw [if_pos hlow, bit_byte m a hlow, decide_eq_true (by omega), Bool.true_and]
      · rw [if_neg hlow, ih, show 8 * (a + 1) + (i - 8) = 8 * a + i by omega]
        congr 1
        exact decide_eq_decide.mpr (by omega)

/-- The bytes of a value, from `a` on. -/
def storeBits {w : Nat} (m : Memory Byte) (a n : Nat) (x : BitVec w) : Memory Byte :=
  m.write a n (fun i => (x >>> (8 * i)).setWidth 8)

/-- The `n` bits from `pos` on become `f`, all others stay. -/
structure Window (pos n : Nat) (f : Nat → Bool) (m m' : Memory Byte) : Prop where
  inside : ∀ i < n, m'.bit (pos + i) = f i
  outside : ∀ k, k < pos ∨ pos + n ≤ k → m'.bit k = m.bit k

variable {m m' m'' : Memory Byte} {pos n n' : Nat} {f f' : Nat → Bool}

theorem Window.storeBits {w : Nat} (m : Memory Byte) (a n : Nat) (x : BitVec w) :
    Window (8 * a) (8 * n) x.getLsbD m (m.storeBits a n x) := by
  constructor
  · intro i hi
    have hsplit : 8 * a + i = 8 * (a + i / 8) + i % 8 := by omega
    rw [hsplit, bit_byte _ _ (Nat.mod_lt i (by omega)), Memory.storeBits, write_inside m (by omega),
      BitVec.getLsbD_setWidth, BitVec.getLsbD_ushiftRight, Nat.div_add_mod,
      decide_eq_true (Nat.mod_lt i (by omega)), Bool.true_and]
  · intro k hk
    rw [bit, bit, Memory.storeBits, write_outside m (by omega)]

theorem Window.congr (h : Window pos n f m m') (hf : ∀ i < n, f i = f' i) :
    Window pos n f' m m' :=
  ⟨fun i hi => (h.inside i hi).trans (hf i hi), h.outside⟩

/-- The bits of a value that is `s` bits after the start of some bytes. -/
theorem getLsbD_load_shift (m : Memory Byte) (a : Nat) {k s i : Nat} (h : s + i < 8 * k) :
    (m.load a k >>> s).getLsbD i = m.bit (8 * a + s + i) := by
  rw [BitVec.getLsbD_ushiftRight, getLsbD_load, decide_eq_true h, Bool.true_and, Nat.add_assoc]

theorem Window.empty (pos : Nat) (f : Nat → Bool) (m : Memory Byte) : Window pos 0 f m m :=
  ⟨fun i hi => absurd hi (Nat.not_lt_zero i), fun _ _ => rfl⟩

/-- The bits around a window are written back as they were. -/
theorem Window.narrow {pos' : Nat} (h : Window pos' n' f' m m') (hpos : pos' ≤ pos)
    (hend : pos + n ≤ pos' + n') (hin : ∀ i < n, f' (pos - pos' + i) = f i)
    (hout : ∀ i < n', pos' + i < pos ∨ pos + n ≤ pos' + i → f' i = m.bit (pos' + i)) :
    Window pos n f m m' := by
  constructor
  · intro i hi
    rw [show pos + i = pos' + (pos - pos' + i) by omega, h.inside _ (by omega), hin i hi]
  · intro k hk
    by_cases hk' : k < pos' ∨ pos' + n' ≤ k
    · exact h.outside k hk'
    · obtain ⟨i, rfl⟩ := Nat.exists_eq_add_of_le (show pos' ≤ k by omega)
      rw [h.inside i (by omega), hout i (by omega) hk]

/-- Bytes are loaded, a window of their bits is replaced, and they are stored again. -/
theorem Window.replace (m : Memory Byte) (a : Nat) {k s : Nat} {mask value : BitVec (8 * k)}
    (hfits : s + n ≤ 8 * k) (hmask : ∀ i, mask.getLsbD i = decide (i < n))
    (hvalue : ∀ i, n ≤ i → value.getLsbD i = false) :
    Window (8 * a + s) n value.getLsbD m
      (m.storeBits a k (m.load a k &&& ~~~(mask <<< s) ||| value <<< s)) := by
  refine (Window.storeBits m a k _).narrow (by omega) (by omega) ?_ ?_
  · intro i hi
    have hin : s + i < 8 * k := by omega
    have hlow : ¬ s + i < s := by omega
    rw [Nat.add_sub_cancel_left, BitVec.getLsbD_or, BitVec.getLsbD_and, BitVec.getLsbD_not,
      BitVec.getLsbD_shiftLeft, BitVec.getLsbD_shiftLeft, Nat.add_sub_cancel_left, hmask]
    simp [hin, hlow, hi]
  · intro i hi hout
    rw [BitVec.getLsbD_or, BitVec.getLsbD_and, BitVec.getLsbD_not, getLsbD_load,
      BitVec.getLsbD_shiftLeft, BitVec.getLsbD_shiftLeft, hmask]
    by_cases hlow : i < s
    · simp [hi, hlow]
    · have hhigh : ¬ i - s < n := by omega
      simp [hi, hhigh, hvalue (i - s) (by omega)]

theorem Window.append (h : Window pos n f m m') (h' : Window (pos + n) n' f' m' m'') :
    Window pos (n + n') (fun k => if k < n then f k else f' (k - n)) m m'' := by
  constructor
  · intro i hi
    by_cases hfirst : i < n
    · rw [h'.outside _ (.inl (by omega)), h.inside i hfirst, if_pos hfirst]
    · rw [show pos + i = pos + n + (i - n) by omega, h'.inside _ (by omega), if_neg hfirst]
  · intro k hk
    rw [h'.outside k (by omega), h.outside k (by omega)]

/-- Windows of one width, one after the other. -/
theorem Window.each {write : Memory Byte → Nat → Memory Byte} {size : Nat} {f : Nat → Nat → Bool}
    (count : Nat)
    (h : ∀ m, ∀ i < count, Window (pos + i * size) size (f i) m (write m i)) (m : Memory Byte) :
    Window pos (count * size) (fun k => f (k / size) (k % size)) m
      ((List.range count).foldl write m) := by
  induction count with
  | zero =>
      rw [Nat.zero_mul]
      exact Window.empty _ _ _
  | succ count ih =>
      rw [List.range_succ, List.foldl_append, Nat.succ_mul]
      have hlast := h ((List.range count).foldl write m) count (Nat.lt_succ_self count)
      refine ((ih (fun m i hi => h m i (Nat.lt_succ_of_lt hi))).append hlast).congr ?_
      intro k hk
      by_cases hfirst : k < count * size
      · exact if_pos hfirst
      · obtain ⟨j, rfl⟩ := Nat.exists_eq_add_of_le (Nat.not_lt.mp hfirst)
        have hj : j < size := by omega
        have hdiv : (count * size + j) / size = count := by
          rw [Nat.add_comm, Nat.add_mul_div_right _ _ (by omega), Nat.div_eq_of_lt hj, Nat.zero_add]
        have hmod : (count * size + j) % size = j := by
          rw [Nat.add_comm, Nat.add_mul_mod_self_right, Nat.mod_eq_of_lt hj]
        rw [if_neg hfirst, Nat.add_sub_cancel_left, hdiv, hmod]

end LinuxDrivers.Lib.Memory
