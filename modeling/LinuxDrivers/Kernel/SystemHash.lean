/-
# `LinuxDrivers.Kernel.SystemHash` — `alloc_large_system_hash`

A hash table with a power of two of buckets is allocated in pages:

    log2qty = ilog2(numentries);  size = bucketsize << log2qty;
    do {
        the smallest order with  PAGE_SIZE << order >= size
        table = __get_free_pages(order)
    } while (!table && size > PAGE_SIZE && --log2qty);
    no table:  panic
    *_hash_shift = log2qty;  *_hash_mask = (1 << log2qty) - 1

Three things can go wrong.  The size is a word and may wrap around.  A size above 2^31 is above all
powers of two there are, so that the search for the order goes on for ever.  And with one entry
`log2qty` is zero from the start, and the retry goes on from 2^32 - 1.

**Proved here.**

    for which sizes, and which failures, the table is large enough   (`alloc_large_system_hash_iff`)
-/
import LinuxDrivers.Basic
import LinuxDrivers.Lib.Loop

namespace LinuxDrivers.Kernel.SystemHash

open LinuxDrivers.Lib

/-! ## The code -/

def pageShift : Word := 12

def pageSize : Word := 4096

/-- `ilog2`, of what is not zero -/
def ilog2 (n : Word) : Word := BitVec.ofNat 32 n.toNat.log2

/-- `__get_free_pages` asks for a block of this size. -/
def freePagesSize (order : Word) : Word := shl pageSize order

/-- The variables of the two loops. -/
structure Vars where
  log2qty : Word
  order : Word
  /-- history: how often an allocation has failed -/
  failures : Nat
  deriving DecidableEq, Repr

/-- What the loops are left with: the table, if there is one, and the size of its block. -/
structure Result where
  table : Option (Word × Word)
  log2qty : Word
  deriving DecidableEq, Repr

/-- One round of the inner loop, or the rest of the outer one.  `kit` answers the allocations, in
their order. -/
def body (kit : Nat → Option Word) (size : Word) (v : Vars) : Vars ⊕ Result :=
  if shl (shl 1 v.order) pageShift < size then .inl { v with order := v.order + 1 }
  else
    match kit v.failures with
    | some table => .inr ⟨some (table, freePagesSize v.order), v.log2qty⟩
    | none =>
        if size > pageSize then
          let log2qty := v.log2qty - 1
          if log2qty ≠ 0 then .inl ⟨log2qty, 0, v.failures + 1⟩ else .inr ⟨none, log2qty⟩
        else .inr ⟨none, v.log2qty⟩

/-- What the function ends with. -/
inductive Outcome where
  | panic (message : String)
  /-- the table, the size of its block, `*_hash_shift` and `*_hash_mask` -/
  | table (table blockSize hashShift hashMask : Word)
  deriving DecidableEq, Repr

def finish (tablename : String) (r : Result) : Outcome :=
  match r.table with
  | none => .panic ("Failed to allocate " ++ tablename ++ " hash table\n")
  | some (table, blockSize) => .table table blockSize r.log2qty (shl 1 r.log2qty - 1)

/-- `log2qty` before the loops -/
def initialLog2qty (numentries : Word) : Word :=
  ilog2 (if numentries = 0 then 1024 else numentries)

def initialSize (bucketsize numentries : Word) : Word :=
  shl bucketsize (initialLog2qty numentries)

def allocLargeSystemHash (fuel : Nat) (tablename : String) (bucketsize numentries : Word)
    (kit : Nat → Option Word) : Option Outcome :=
  (loop (body kit (initialSize bucketsize numentries)) fuel
    ⟨initialLog2qty numentries, 0, 0⟩).map (finish tablename)

/-! ## What the table is for -/

/-- The block has room for all the buckets, and the mask is that of their number. -/
def Outcome.Fits (bucketsize : Word) : Outcome → Prop
  | .panic _ => True
  | .table _ blockSize hashShift hashMask =>
      bucketsize.toNat * 2 ^ hashShift.toNat ≤ blockSize.toNat ∧
        hashMask.toNat = 2 ^ hashShift.toNat - 1

/-- With these answers to the allocations the function ends, and with a table that fits. -/
def Allocates (tablename : String) (bucketsize numentries : Word) (kit : Nat → Option Word) :
    Prop :=
  ∃ fuel out, allocLargeSystemHash fuel tablename bucketsize numentries kit = some out ∧
    out.Fits bucketsize

/-- The allocations there are if all of them fail.  A table of one page is asked for once; with
`log2qty` zero from the start, `--log2qty` comes back to zero after 2^32 of them. -/
def tries (size log2qty : Nat) : Nat :=
  if size ≤ 4096 then 1 else if log2qty = 0 then 2 ^ 32 else log2qty

/-- Allocation `k` is the first one that succeeds. -/
def FirstSuccess (kit : Nat → Option Word) (k : Nat) : Prop :=
  kit k ≠ none ∧ ∀ j < k, kit j = none

/-! ## Shifts -/

theorem initialLog2qty_lt (numentries : Word) : (initialLog2qty numentries).toNat < 32 := by
  have hlog : ∀ n : Word, (ilog2 n).toNat < 32 := by
    intro n
    rw [ilog2, BitVec.toNat_ofNat]
    by_cases hn : n.toNat = 0
    · rw [hn]
      decide
    · have := (Nat.log2_lt hn).mpr n.isLt
      omega
  exact hlog _

theorem initialSize_toNat (bucketsize numentries : Word) :
    (initialSize bucketsize numentries).toNat =
      bucketsize.toNat * 2 ^ (initialLog2qty numentries).toNat % 2 ^ 32 := by
  rw [initialSize, shl_toNat, Nat.mod_eq_of_lt (initialLog2qty_lt numentries)]

/-- The search compares with the size of the block that is then asked for. -/
theorem freePagesSize_eq (order : Word) : shl (shl 1 order) pageShift = freePagesSize order := by
  apply BitVec.eq_of_toNat_eq
  rw [freePagesSize, shl_toNat, shl_toNat, shl_toNat]
  have hall : ∀ k < 32, 1 * 2 ^ k % 2 ^ 32 * 2 ^ (12 % 32) % 2 ^ 32 = 4096 * 2 ^ k % 2 ^ 32 := by
    decide
  exact hall _ (Nat.mod_lt _ (by omega))

theorem freePagesSize_le (order : Word) : (freePagesSize order).toNat ≤ 2 ^ 31 := by
  rw [freePagesSize, shl_toNat]
  have hall : ∀ k < 32, 4096 * 2 ^ k % 2 ^ 32 ≤ 2 ^ 31 := by decide
  exact hall _ (Nat.mod_lt _ (by omega))

theorem freePagesSize_toNat {order : Word} (h : order.toNat ≤ 19) :
    (freePagesSize order).toNat = 4096 * 2 ^ order.toNat := by
  rw [freePagesSize, shl_toNat]
  have hall : ∀ k ≤ 19, 4096 * 2 ^ (k % 32) % 2 ^ 32 = 4096 * 2 ^ k := by decide
  exact hall _ h

theorem mask_toNat {shift : Word} (h : shift.toNat < 32) :
    (shl 1 shift - 1).toNat = 2 ^ shift.toNat - 1 := by
  have hshl : (shl 1 shift).toNat = 2 ^ shift.toNat := by
    rw [shl_toNat, Nat.mod_eq_of_lt h, show (1 : Word).toNat = 1 from rfl, Nat.one_mul]
    exact Nat.mod_eq_of_lt (Nat.pow_lt_pow_right (by omega) h)
  have hpos := Nat.two_pow_pos shift.toNat
  have hlt : 2 ^ shift.toNat < 2 ^ 32 := Nat.pow_lt_pow_right (by omega) h
  rw [BitVec.toNat_sub, hshl, show (1 : Word).toNat = 1 from rfl]
  omega

/-! ## One round -/

section

variable {kit : Nat → Option Word} {size : Word} {v v' : Vars} {r : Result}

/-- Another round: the order is too small, or the allocation has failed and there is still
something to lower. -/
theorem body_next (h : body kit size v = .inl v') :
    freePagesSize v.order < size ∧ v' = { v with order := v.order + 1 } ∨
    kit v.failures = none ∧ size > pageSize ∧ v.log2qty - 1 ≠ 0 ∧
      v' = ⟨v.log2qty - 1, 0, v.failures + 1⟩ := by
  rw [body, freePagesSize_eq] at h
  split at h
  · exact .inl ⟨‹_›, (Sum.inl.inj h).symm⟩
  · cases hkit : kit v.failures with
    | some table =>
        rw [hkit] at h
        cases h
    | none =>
        rw [hkit] at h
        dsimp only at h
        split at h
        · split at h
          · exact .inr ⟨rfl, ‹_›, ‹_›, (Sum.inl.inj h).symm⟩
          · cases h
        · cases h

/-- The loops are left with a block of the right size, or without one. -/
theorem body_exit (h : body kit size v = .inr r) :
    size ≤ freePagesSize v.order ∧
      ((∃ table, kit v.failures = some table ∧
          r = ⟨some (table, freePagesSize v.order), v.log2qty⟩) ∨
        kit v.failures = none ∧ r.table = none ∧ ¬ (size > pageSize ∧ v.log2qty - 1 ≠ 0)) := by
  rw [body, freePagesSize_eq] at h
  split at h
  · cases h
  · refine ⟨BitVec.not_lt.mp ‹_›, ?_⟩
    cases hkit : kit v.failures with
    | some table =>
        rw [hkit] at h
        exact .inl ⟨table, rfl, (Sum.inr.inj h).symm⟩
    | none =>
        rw [hkit] at h
        dsimp only at h
        refine .inr ⟨rfl, ?_⟩
        split at h
        · split at h
          · cases h
          · cases h
            exact ⟨rfl, fun hboth => absurd hboth.2 ‹_›⟩
        · cases h
          exact ⟨rfl, fun hboth => absurd hboth.1 ‹_›⟩

/-! ## Whole runs -/

/-- The smallest order whose block has the size. -/
structure BestOrder (size order : Nat) : Prop where
  room : size ≤ 4096 * 2 ^ order
  least : ∀ o < order, 4096 * 2 ^ o < size

/-- Where the loops are: allocations that have failed, one less in `log2qty` for each of them, and
orders that are too small. -/
structure Searching (kit : Nat → Option Word) (size log2qty : Word) (v : Vars) : Prop where
  order : v.order.toNat ≤ 19
  small : ∀ o < v.order.toNat, 4096 * 2 ^ o < size.toNat
  lowered : v.log2qty = log2qty - BitVec.ofNat 32 v.failures
  few : v.failures < tries size.toNat log2qty.toNat
  failed : ∀ j < v.failures, kit j = none

theorem tries_le (size log2qty : Word) : tries size.toNat log2qty.toNat ≤ 2 ^ 32 := by
  have hlog := log2qty.isLt
  rw [tries]
  split
  · omega
  · split <;> omega

/-- The rounds that can be left. -/
def roundsLeft (v : Vars) : Nat := (2 ^ 32 - v.failures) * 20 + (19 - v.order.toNat)

section
variable {log2qty : Word}

theorem Searching.start : Searching kit size log2qty ⟨log2qty, 0, 0⟩ := by
  refine ⟨Nat.zero_le _, ?_, ?_, ?_, ?_⟩
  · intro o ho
    exact absurd ho (Nat.not_lt_zero o)
  · exact (BitVec.sub_zero log2qty).symm
  · show 0 < tries size.toNat log2qty.toNat
    rw [tries]
    split
    · omega
    · split <;> omega
  · intro j hj
    exact absurd hj (Nat.not_lt_zero j)

theorem Searching.next_order (h : Searching kit size log2qty v) (hsize : size.toNat ≤ 2 ^ 31)
    (hsmall : freePagesSize v.order < size) :
    Searching kit size log2qty { v with order := v.order + 1 } ∧
      roundsLeft { v with order := v.order + 1 } < roundsLeft v := by
  have horder := h.order
  rw [BitVec.lt_def, freePagesSize_toNat horder] at hsmall
  have hlast : v.order.toNat ≠ 19 := by
    intro hlast
    rw [hlast] at hsmall
    omega
  have hadd : (v.order + 1).toNat = v.order.toNat + 1 :=
    BitVec.toNat_add_of_lt (show v.order.toNat + 1 < 2 ^ 32 by omega)
  refine ⟨⟨?_, ?_, h.lowered, h.few, h.failed⟩, ?_⟩
  · show (v.order + 1).toNat ≤ 19
    omega
  · intro o ho
    change o < (v.order + 1).toNat at ho
    by_cases hold : o < v.order.toNat
    · exact h.small o hold
    · rw [show o = v.order.toNat by omega]
      exact hsmall
  · show (2 ^ 32 - v.failures) * 20 + (19 - (v.order + 1).toNat) < (2 ^ 32 - v.failures) * 20 + _
    omega

/-- `log2qty` is one exactly at the last of the allocations of a table of more than a page. -/
theorem Searching.last (h : Searching kit size log2qty v) (hlarge : size > pageSize) :
    v.log2qty - 1 = 0 ↔ v.failures + 1 = tries size.toNat log2qty.toNat := by
  have hfew := h.few
  have hlog := log2qty.isLt
  have hpage : ¬ size.toNat ≤ 4096 := by
    rw [gt_iff_lt, BitVec.lt_def, show pageSize.toNat = 4096 from rfl] at hlarge
    omega
  rw [tries, if_neg hpage] at hfew ⊢
  have hsub : v.log2qty - 1 = log2qty - BitVec.ofNat 32 (v.failures + 1) := by
    rw [h.lowered, BitVec.ofNat_add, BitVec.sub_sub]
    rfl
  have hzero : v.log2qty - 1 = 0 ↔ (v.failures + 1) % 2 ^ 32 = log2qty.toNat := by
    rw [hsub, sub_eq_zero, ← BitVec.toNat_inj, BitVec.toNat_ofNat]
    exact eq_comm
  rw [hzero]
  split at hfew
  · rename_i hone
    rw [if_pos hone]
    omega
  · rename_i hone
    rw [if_neg hone]
    omega

theorem Searching.next_try (h : Searching kit size log2qty v) (hlarge : size > pageSize)
    (hne : v.log2qty - 1 ≠ 0) (hnone : kit v.failures = none) :
    Searching kit size log2qty ⟨v.log2qty - 1, 0, v.failures + 1⟩ ∧
      roundsLeft ⟨v.log2qty - 1, 0, v.failures + 1⟩ < roundsLeft v := by
  have hfew := h.few
  have hnot : v.failures + 1 ≠ tries size.toNat log2qty.toNat := fun hlast =>
    hne ((h.last hlarge).mpr hlast)
  refine ⟨⟨Nat.zero_le _, ?_, ?_, ?_, ?_⟩, ?_⟩
  · intro o ho
    exact absurd ho (Nat.not_lt_zero o)
  · show v.log2qty - 1 = log2qty - BitVec.ofNat 32 (v.failures + 1)
    rw [h.lowered, BitVec.ofNat_add, BitVec.sub_sub]
    rfl
  · show v.failures + 1 < _
    omega
  · intro j hj
    change j < v.failures + 1 at hj
    by_cases hold : j < v.failures
    · exact h.failed j hold
    · rw [show j = v.failures by omega]
      exact hnone
  · have hle := tries_le size log2qty
    show (2 ^ 32 - (v.failures + 1)) * 20 + (19 - (0 : Word).toNat) < (2 ^ 32 - v.failures) * 20 + _
    rw [show (0 : Word).toNat = 0 from rfl]
    omega

/-- What the loops leave: the block of the first allocation that succeeds, with one less in
`log2qty` for each one before; or nothing, all allocations having failed. -/
def Leaves (kit : Nat → Option Word) (size log2qty : Word) (r : Result) : Prop :=
  (∃ k table order, k < tries size.toNat log2qty.toNat ∧ FirstSuccess kit k ∧
      BestOrder size.toNat order ∧ order ≤ 19 ∧
      r = ⟨some (table, freePagesSize (BitVec.ofNat 32 order)),
        log2qty - BitVec.ofNat 32 k⟩) ∨
    (∀ k < tries size.toNat log2qty.toNat, kit k = none) ∧ r.table = none

theorem Searching.exit (h : Searching kit size log2qty v) (hexit : body kit size v = .inr r) :
    Leaves kit size log2qty r := by
  obtain ⟨hroom, ⟨table, hsome, rfl⟩ | ⟨hnone, htable, hstop⟩⟩ := body_exit hexit
  · left
    refine ⟨v.failures, table, v.order.toNat, h.few, ⟨?_, h.failed⟩, ⟨?_, h.small⟩, h.order, ?_⟩
    · rw [hsome]
      exact Option.some_ne_none _
    · rw [BitVec.le_def, freePagesSize_toNat h.order] at hroom
      exact hroom
    · rw [← h.lowered, BitVec.ofNat_toNat, BitVec.setWidth_eq]
  · right
    refine ⟨?_, htable⟩
    have hall : tries size.toNat log2qty.toNat ≤ v.failures + 1 := by
      by_cases hlarge : size > pageSize
      · have hlast : v.log2qty - 1 = 0 := by
          by_contra hne
          exact hstop ⟨hlarge, hne⟩
        exact Nat.le_of_eq ((h.last hlarge).mp hlast).symm
      · rw [gt_iff_lt, BitVec.lt_def, show pageSize.toNat = 4096 from rfl] at hlarge
        rw [tries, if_pos (by omega)]
        omega
    intro k hk
    by_cases hold : k < v.failures
    · exact h.failed k hold
    · rw [show k = v.failures by omega]
      exact hnone

end

/-- A size that is not above all powers of two: the loops end, whatever allocations fail. -/
theorem loops_end (kit : Nat → Option Word) (log2qty : Word) (hsize : size.toNat ≤ 2 ^ 31) :
    ∃ r, Ends (body kit size) ⟨log2qty, 0, 0⟩ r ∧ Leaves kit size log2qty r := by
  refine Ends.of_measure (I := Searching kit size log2qty) roundsLeft ?_ ?_ Searching.start
  · intro v v' h hnext
    rcases body_next hnext with ⟨hsmall, rfl⟩ | ⟨hnone, hlarge, hne, rfl⟩
    · exact h.next_order hsize hsmall
    · exact h.next_try hlarge hne hnone
  · exact fun v r h hexit => h.exit hexit

/-- A size above all powers of two: the search for the order goes on for ever. -/
theorem loops_run_on (hsize : 2 ^ 31 < size.toNat) (v : Vars) : ¬ Ends (body kit size) v r := by
  refine not_ends (I := fun _ => True) ?_ trivial
  intro v _
  have hsmall : shl (shl 1 v.order) pageShift < size := by
    rw [freePagesSize_eq, BitVec.lt_def]
    exact Nat.lt_of_le_of_lt (freePagesSize_le v.order) hsize
  exact ⟨{ v with order := v.order + 1 }, if_pos hsmall, trivial⟩

end

/-! ## The result -/

/-- The buckets that are left after `k` allocations have failed have room in a block of the size
rounded up, and no wrap-around has come between. -/
def Room (bucketsize size log2qty k : Nat) : Prop :=
  k ≤ log2qty ∧ ∀ order, size ≤ 4096 * 2 ^ order → bucketsize * 2 ^ (log2qty - k) ≤ 4096 * 2 ^ order

theorem sub_ofNat_toNat {log2qty : Word} {k : Nat} (hk : k ≤ log2qty.toNat) :
    (log2qty - BitVec.ofNat 32 k).toNat = log2qty.toNat - k := by
  have hlog := log2qty.isLt
  have hofNat : (BitVec.ofNat 32 k).toNat = k := by
    rw [BitVec.toNat_ofNat]
    omega
  rw [BitVec.toNat_sub_of_le (by rw [BitVec.le_def, hofNat]; exact hk), hofNat]

/-- Below zero, `log2qty` doubles the buckets at least once; there is no room for two of more than a
page in the block for one. -/
theorem no_room_below_zero {bucketsize order k : Nat} (hlarge : 4096 < bucketsize)
    (hbest : BestOrder bucketsize order) (hk : 0 < k) (hlt : k < 2 ^ 32) :
    ¬ bucketsize * 2 ^ (0 - BitVec.ofNat 32 k : Word).toNat ≤ 4096 * 2 ^ order := by
  intro hroom
  have hshift : 1 ≤ (0 - BitVec.ofNat 32 k : Word).toNat := by
    rw [BitVec.toNat_sub, BitVec.toNat_ofNat, show (0 : Word).toNat = 0 from rfl]
    omega
  have htwo : bucketsize * 2 ≤ bucketsize * 2 ^ (0 - BitVec.ofNat 32 k : Word).toNat :=
    Nat.mul_le_mul_left _ (Nat.pow_le_pow_right Nat.two_pos hshift)
  cases order with
  | zero => omega
  | succ order =>
      have hless := hbest.least order (Nat.lt_succ_self order)
      rw [Nat.pow_succ] at hroom
      omega

section
variable {tablename : String} {bucketsize numentries : Word} {kit : Nat → Option Word}

/-- The function does what its loops do, once the size is not above all powers of two. -/
theorem allocates_iff_leaves
    (hsize : (initialSize bucketsize numentries).toNat ≤ 2 ^ 31) :
    ∃ r, Leaves kit (initialSize bucketsize numentries) (initialLog2qty numentries) r ∧
      (Allocates tablename bucketsize numentries kit ↔ (finish tablename r).Fits bucketsize) := by
  obtain ⟨r, hend, hleaves⟩ := loops_end kit (initialLog2qty numentries) hsize
  refine ⟨r, hleaves, ?_, ?_⟩
  · rintro ⟨fuel, out, halloc, hfits⟩
    obtain ⟨r', hr', rfl⟩ := Option.map_eq_some_iff.mp halloc
    rw [hend.unique ⟨fuel, hr'⟩]
    exact hfits
  · intro hfits
    obtain ⟨fuel, hfuel⟩ := hend
    exact ⟨fuel, finish tablename r, by rw [allocLargeSystemHash, hfuel]; rfl, hfits⟩

/-- A size above all powers of two never gets a table. -/
theorem Allocates.size_le (h : Allocates tablename bucketsize numentries kit) :
    (initialSize bucketsize numentries).toNat ≤ 2 ^ 31 := by
  by_contra hlarge
  obtain ⟨fuel, out, halloc, _⟩ := h
  obtain ⟨r, hr, _⟩ := Option.map_eq_some_iff.mp halloc
  exact loops_run_on (by omega) _ ⟨fuel, hr⟩

/-- The table of allocation `k` fits exactly if there is room for what is left of the buckets. -/
theorem fits_iff_room {k order : Nat} {table : Word}
    (hk : k < tries (initialSize bucketsize numentries).toNat (initialLog2qty numentries).toNat)
    (hbest : BestOrder (initialSize bucketsize numentries).toNat order) (horder : order ≤ 19) :
    (finish tablename ⟨some (table, freePagesSize (BitVec.ofNat 32 order)),
        initialLog2qty numentries - BitVec.ofNat 32 k⟩).Fits bucketsize ↔
      Room bucketsize.toNat (initialSize bucketsize numentries).toNat
        (initialLog2qty numentries).toNat k := by
  have hlog := initialLog2qty_lt numentries
  have hblock : (freePagesSize (BitVec.ofNat 32 order)).toNat = 4096 * 2 ^ order := by
    have hofNat : (BitVec.ofNat 32 order).toNat = order := by
      rw [BitVec.toNat_ofNat]
      omega
    rw [freePagesSize_toNat (by omega), hofNat]
  constructor
  · rintro ⟨hroom, _⟩
    rw [hblock] at hroom
    by_cases hle : k ≤ (initialLog2qty numentries).toNat
    · refine ⟨hle, ?_⟩
      intro o ho
      rw [sub_ofNat_toNat hle] at hroom
      have hmin : order ≤ o := by
        by_contra hlt
        have := hbest.least o (by omega)
        omega
      exact hroom.trans (Nat.mul_le_mul_left _ (Nat.pow_le_pow_right (by omega) hmin))
    · -- only a single bucket of more than a page gets below zero
      exfalso
      rw [tries] at hk
      split at hk
      · omega
      · split at hk
        · rename_i hpage hzero
          have hone : (initialSize bucketsize numentries).toNat = bucketsize.toNat := by
            have hb := bucketsize.isLt
            rw [initialSize_toNat, hzero]
            omega
          rw [hone] at hpage hbest
          rw [show initialLog2qty numentries = 0 from BitVec.eq_of_toNat_eq hzero] at hroom
          exact no_room_below_zero (by omega) hbest (by omega) hk hroom
        · omega
  · rintro ⟨hle, hroom⟩
    have hshift := sub_ofNat_toNat hle
    refine ⟨?_, mask_toNat (hshift ▸ by omega)⟩
    rw [hshift, hblock]
    exact hroom order hbest.room

end

/-- **When the table is large enough.**  For all sizes and all patterns of allocation failures: the
function ends, and a table it ends with has room for the buckets its shift and mask stand for,
exactly if the size, as a word, is at most 2^31, and, where an allocation succeeds, `log2qty` has
not gone below zero by then and the buckets that are left fit into every block that the size fits
into. -/
theorem alloc_large_system_hash_iff (tablename : String) (bucketsize numentries : Word)
    (kit : Nat → Option Word) :
    Allocates tablename bucketsize numentries kit ↔
      (initialSize bucketsize numentries).toNat ≤ 2 ^ 31 ∧
        ∀ k, k < tries (initialSize bucketsize numentries).toNat
            (initialLog2qty numentries).toNat →
          FirstSuccess kit k →
            Room bucketsize.toNat (initialSize bucketsize numentries).toNat
              (initialLog2qty numentries).toNat k := by
  constructor
  · intro h
    refine ⟨h.size_le, ?_⟩
    obtain ⟨r, hleaves, hiff⟩ := allocates_iff_leaves h.size_le
    rintro k hk ⟨hsome, hfirst⟩
    rcases hleaves with ⟨k', table, order, hk', ⟨hsome', hfirst'⟩, hbest, horder, rfl⟩ | ⟨hall, _⟩
    · have hsame : k = k' := by
        rcases Nat.lt_trichotomy k k' with hlt | rfl | hlt
        · exact absurd (hfirst' k hlt) hsome
        · rfl
        · exact absurd (hfirst k' hlt) hsome'
      subst hsame
      exact (fits_iff_room hk hbest horder).mp (hiff.mp h)
    · exact absurd (hall k hk) hsome
  · rintro ⟨hsize, hroom⟩
    obtain ⟨r, hleaves, hiff⟩ := allocates_iff_leaves hsize
    apply hiff.mpr
    rcases hleaves with ⟨k, table, order, hk, hfirst, hbest, horder, rfl⟩ | ⟨_, hnone⟩
    · exact (fits_iff_room hk hbest horder).mpr (hroom k hk hfirst)
    · rw [finish, hnone]
      trivial

/-- **A table of one page for 64 K buckets of 64 K.**  And with one bucket of two pages, and one
allocation that fails, the shift is 2^32 - 1. -/
theorem system_hash_wraps :
    allocLargeSystemHash 1 "inode" 0x10000 0x10000 (fun _ => some 0x400000) =
        some (.table 0x400000 4096 16 0xffff) ∧
      ¬ Outcome.Fits 0x10000 (.table 0x400000 4096 16 0xffff) ∧
      allocLargeSystemHash 4 "inode" 0x2000 1 (fun i => if i = 0 then none else some 0x400000) =
        some (.table 0x400000 0x2000 0xffffffff 0x7fffffff) := by
  refine ⟨by decide, ?_, by decide⟩
  intro h
  exact absurd h.1 (by decide)

end LinuxDrivers.Kernel.SystemHash
