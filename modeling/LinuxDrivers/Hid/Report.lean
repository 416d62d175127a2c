/-
# `LinuxDrivers.Hid.Report` — the values of a report, and its bits

A field has values of up to 32 bits, and a report has the values of its fields packed into bits,
with no regard for the boundaries of bytes (`drivers/hid/hid-core.c`):

    extract        loads eight bytes and takes a value out of them
    implement      loads eight bytes, puts a value in, and stores them
    snto32         extends the sign of a value of `n` bits
    s32ton         the value of `n` bits, the closest one if there is none

`hid_set_field` sets a value of a field, `hid_output_report` writes all values of a report into a
buffer, and `hid_submit_out` sends the first bytes of it to the device.  What the device makes of
them is what `hid_input_field` makes of a report that comes from the device.

A shift by 32 is one by 0 here, so `s32ton` gives 0 for every value of 32 bits: of a signed field of
32 bits, no other value can be set.

The buffers of the driver are as large as the largest report (`hid_find_max_report`), but have at
least 64 bytes and at most 4096.  The number of an output report is not counted.  So there are
reports that do not fit, and they are written all the same.

**Proved here.**

    whatever has been set in a report that fits, the bytes that are sent carry all values of the
    report, and nothing outside of the buffer is changed               (`output_report_decodes`)
-/
import LinuxDrivers.Hid.Layout
import LinuxDrivers.Lib.Bits
import LinuxDrivers.Lib.BitStream

namespace LinuxDrivers.Hid

open LinuxDrivers.Lib

/-! ## Values and bits -/

/-- `1ULL << n`: of the count, the low six bits. -/
def shl64 (x : BitVec 64) (count : Word) : BitVec 64 := x <<< (count.toNat % 64)

/-- `>>` of a signed value. -/
def sar (x count : Word) : Word := x.sshiftRight (count.toNat % 32)

def snto32 (value n : Word) : Word :=
  if n = 8 then (value.setWidth 8).signExtend 32
  else if n = 16 then (value.setWidth 16).signExtend 32
  else if n = 32 then value
  else if value &&& shl 1#32 (n - 1) ≠ 0#32 then value ||| shl (-1#32) n else value

def s32ton (value n : Word) : Word :=
  let a := sar value (n - 1)
  if a ≠ 0#32 ∧ a ≠ -1#32 then
    if intOfWord value < 0 then shl 1#32 (n - 1) else shl 1#32 (n - 1) - 1#32
  else value &&& (shl 1#32 n - 1#32)

/-- `report` is the address of the first byte. -/
def extract (m : Memory Byte) (report : Nat) (offset n : Word) : Word :=
  let x : BitVec 64 := m.load (report + (offset >>> 3).toNat) 8
  ((x >>> (offset &&& 7).toNat) &&& (shl64 1 n - 1)).setWidth 32

def implement (m : Memory Byte) (report : Nat) (offset n value : Word) : Memory Byte :=
  let mask := shl64 1 n - 1
  let value : Word := (value.setWidth 64 &&& mask).setWidth 32
  let x : BitVec 64 := m.load (report + (offset >>> 3).toNat) 8
  let x := x &&& ~~~(mask <<< (offset &&& 7).toNat)
  let x := x ||| value.setWidth 64 <<< (offset &&& 7).toNat
  m.storeBits (report + (offset >>> 3).toNat) 8 x

/-! ## Fields and reports -/

def HidField.signed (f : HidField) : Bool := intOfWord f.logicalMinimum < 0

/-- The value of `hid_input_field`. -/
def fieldValue (m : Memory Byte) (f : HidField) (data n : Nat) : Word :=
  let x := extract m data (f.reportOffset + BitVec.ofNat 32 n * f.reportSize) f.reportSize
  if f.signed then snto32 x f.reportSize else x

/-- The value that `hid_output_field` hands to `implement`. -/
def HidField.encode (f : HidField) (value : Word) : Word :=
  if f.signed then s32ton value f.reportSize else value

def hidOutputField (f : HidField) (m : Memory Byte) (data : Nat) : Memory Byte :=
  (List.range f.reportCount.toNat).foldl (fun m n =>
    implement m data (f.reportOffset + BitVec.ofNat 32 n * f.reportSize) f.reportSize
      (f.encode (f.value.getD n 0))) m

/-- Where the fields are: after the number of the report, if it has one. -/
def HidReport.body (report : HidReport) (data : Nat) : Nat :=
  if 0 < report.id then data + 1 else data

def hidOutputReport (report : HidReport) (m : Memory Byte) (data : Nat) : Memory Byte :=
  let m := if 0 < report.id then m.store data [BitVec.ofNat 8 report.id] else m
  report.field.foldl (fun m f => hidOutputField f m (report.body data)) m

/-- `none` is the error of `hid_set_field`. -/
def hidSetField (f : HidField) (offset value : Word) : Option HidField :=
  if f.reportCount ≤ offset then none
  else if f.signed ∧ value ≠ snto32 (s32ton value f.reportSize) f.reportSize then none
  else some { f with value := f.value.set offset.toNat value }

/-- `((report->size - 1) >> 3) + 1`; of a report of no bits that is 2^29. -/
def HidReport.bytes (report : HidReport) : Word := (report.size - 1) >>> 3 + 1

/-- The `transfer_buffer_length` of `hid_submit_out`. -/
def transferLength (report : HidReport) : Word :=
  report.bytes + (if 0 < report.id then 1 else 0)

/-! ## Buffers -/

def hidMinBufferSize : Nat := 64
def hidMaxBufferSize : Nat := 4096

/-- The reports of a type. -/
def HidDevice.reportList (device : HidDevice) (type : ReportType) : List HidReport :=
  (List.range hidReportIds).filterMap (device.reportIdHash type)

/-- The number counts for reports of the input type only. -/
def hidFindMaxReport (device : HidDevice) (type : ReportType) (largest : Nat) : Nat :=
  (device.reportList type).foldl (fun largest report =>
    max largest (report.bytes.toNat + (if type = .input ∧ device.numbered type then 1 else 0)))
    largest

/-- `usbhid->bufsize`, the size of each of the three buffers. -/
def HidDevice.bufsize (device : HidDevice) : Nat :=
  min hidMaxBufferSize (hidFindMaxReport device .feature (hidFindMaxReport device .output
    (hidFindMaxReport device .input hidMinBufferSize)))

/-! ## The bits of a word -/

theorem bit_position (report : Nat) (offset : Word) :
    8 * (report + (offset >>> 3).toNat) + (offset &&& 7).toNat = 8 * report + offset.toNat ∧
      (offset &&& 7).toNat < 8 := by
  have hlow : (offset &&& 7).toNat = offset.toNat % 8 := toNat_and_low (k := 3) offset (by omega)
  rw [hlow, BitVec.toNat_ushiftRight, Nat.shiftRight_eq_div_pow]
  omega

theorem mask_bit {n : Word} (hn : n.toNat ≤ 32) (i : Nat) :
    (shl64 1 n - 1).getLsbD i = decide (i < n.toNat) := by
  rw [shl64, Nat.mod_eq_of_lt (by omega)]
  exact getLsbD_low (by omega) i

/-- A value is the bits from its position on. -/
theorem getLsbD_extract {n : Word} (hn : n.toNat ≤ 32) (m : Memory Byte) (report : Nat)
    (offset : Word) (i : Nat) :
    (extract m report offset n).getLsbD i =
      (decide (i < n.toNat) && m.bit (8 * report + offset.toNat + i)) := by
  obtain ⟨hpos, hoffset⟩ := bit_position report offset
  rw [extract, BitVec.getLsbD_setWidth, BitVec.getLsbD_and, mask_bit hn]
  by_cases hi : i < n.toNat
  · have hload : BitVec.getLsbD (w := 64)
        (m.load (report + (offset >>> 3).toNat) 8 >>> (offset &&& 7).toNat) i = _ :=
      Memory.getLsbD_load_shift m (report + (offset >>> 3).toNat) (k := 8) (by omega)
    rw [hload, hpos, decide_eq_true hi, decide_eq_true (show i < 32 by omega), Bool.and_true]
  · rw [decide_eq_false hi, Bool.and_false, Bool.and_false, Bool.false_and]

/-- The bits of a value are put in at its position, and all others stay. -/
theorem implement_window {n : Word} (hn : n.toNat ≤ 32) (m : Memory Byte) (report : Nat)
    (offset value : Word) :
    Memory.Window (8 * report + offset.toNat) n.toNat value.getLsbD m
      (implement m report offset n value) := by
  obtain ⟨hpos, hoffset⟩ := bit_position report offset
  have hbit : ∀ i, (((value.setWidth 64 &&& (shl64 1 n - 1)).setWidth 32).setWidth 64).getLsbD i =
      (decide (i < n.toNat) && value.getLsbD i) := by
    intro i
    rw [BitVec.getLsbD_setWidth, BitVec.getLsbD_setWidth, BitVec.getLsbD_and,
      BitVec.getLsbD_setWidth, mask_bit hn]
    by_cases hi : i < n.toNat
    · simp [hi, show i < 32 by omega, show i < 64 by omega]
    · simp [hi]
  rw [← hpos]
  refine (Memory.Window.replace m _ (k := 8) (by omega) (mask_bit hn) ?_).congr ?_
  · intro i hi
    rw [hbit, decide_eq_false (Nat.not_lt.mpr hi), Bool.false_and]
  · intro i hi
    rw [hbit, decide_eq_true hi, Bool.true_and]

theorem extract_eq {n : Word} (hn : n.toNat ≤ 32) {m : Memory Byte} {report : Nat} {offset x : Word}
    (hx : ∀ i, n.toNat ≤ i → x.getLsbD i = false)
    (h : ∀ i < n.toNat, m.bit (8 * report + offset.toNat + i) = x.getLsbD i) :
    extract m report offset n = x := by
  apply BitVec.eq_of_getLsbD_eq
  intro i _
  rw [getLsbD_extract hn]
  by_cases hi : i < n.toNat
  · rw [decide_eq_true hi, Bool.true_and, h i hi]
  · rw [decide_eq_false hi, Bool.false_and, hx i (Nat.not_lt.mp hi)]

/-! ## Signed values -/

section
variable {value n : Word}

theorem pred_toNat (hpos : 0 < n.toNat) : (n - 1).toNat = n.toNat - 1 :=
  BitVec.toNat_sub_of_le (by rw [BitVec.le_def]; exact hpos)

theorem shl_pred (x : Word) (hpos : 0 < n.toNat) (hn : n.toNat ≤ 32) :
    shl x (n - 1) = x <<< (n.toNat - 1) := by
  rw [shl, pred_toNat hpos, Nat.mod_eq_of_lt (by omega)]

theorem shl_lt (x : Word) (hn : n.toNat < 32) : shl x n = x <<< n.toNat := by
  rw [shl, Nat.mod_eq_of_lt hn]

theorem getLsbD_sar (hpos : 0 < n.toNat) (hn : n.toNat ≤ 32) {i : Nat} (hi : i < 32) :
    (sar value (n - 1)).getLsbD i = value.getLsbD (min (n.toNat - 1 + i) 31) := by
  rw [sar, pred_toNat hpos, Nat.mod_eq_of_lt (by omega), BitVec.getLsbD_sshiftRight,
    decide_eq_false (by omega), Bool.not_false, Bool.true_and]
  split
  · rw [Nat.min_eq_left (by omega)]
  · rw [Nat.min_eq_right (by omega), BitVec.msb_eq_getLsbD_last]

/-- All bits from the sign on are the same. -/
theorem sar_uniform_iff (hpos : 0 < n.toNat) (hn : n.toNat ≤ 32) :
    (sar value (n - 1) = 0#32 ∨ sar value (n - 1) = -1#32) ↔
      ∀ i, n.toNat - 1 ≤ i → i < 32 → value.getLsbD i = value.getLsbD (n.toNat - 1) := by
  constructor
  · intro h i hle hi
    have hbit : ∀ j, n.toNat - 1 ≤ j → j < 32 →
        value.getLsbD j = (sar value (n - 1)).getLsbD (j - (n.toNat - 1)) := by
      intro j hle hj
      rw [getLsbD_sar hpos hn (by omega), Nat.min_eq_left (by omega), Nat.add_sub_cancel' hle]
    rw [hbit i hle hi, hbit (n.toNat - 1) (Nat.le_refl _) (by omega)]
    rcases h with h | h
    · rw [h, BitVec.getLsbD_zero, BitVec.getLsbD_zero]
    · rw [h, BitVec.neg_one_eq_allOnes, BitVec.getLsbD_allOnes, BitVec.getLsbD_allOnes,
        decide_eq_true (by omega), decide_eq_true (by omega)]
  · intro h
    have hall : ∀ i < 32, (sar value (n - 1)).getLsbD i = value.getLsbD (n.toNat - 1) := by
      intro i hi
      rw [getLsbD_sar hpos hn hi]
      exact h _ (by omega) (by omega)
    cases hsign : value.getLsbD (n.toNat - 1) with
    | false =>
        refine .inl (BitVec.eq_of_getLsbD_eq ?_)
        intro i hi
        rw [hall i hi, hsign, BitVec.getLsbD_zero]
    | true =>
        refine .inr (BitVec.eq_of_getLsbD_eq ?_)
        intro i hi
        rw [hall i hi, hsign, BitVec.neg_one_eq_allOnes, BitVec.getLsbD_allOnes, decide_eq_true hi]

/-- The two sizes whose mask is empty. -/
theorem s32ton_edge (h : n = 0 ∨ n = 32) : s32ton value n = 0#32 := by
  have hsar : sar value (n - 1) = 0#32 ∨ sar value (n - 1) = -1#32 := by
    have hcount : sar value (n - 1) = sar value (32 - 1) := by
      rcases h with rfl | rfl <;> rfl
    rw [hcount]
    refine (sar_uniform_iff (by decide) (by decide)).mpr ?_
    intro i hle hi
    rw [show i = (32 : Word).toNat - 1 from Nat.le_antisymm (Nat.le_sub_one_of_lt hi) hle]
  have hmask : shl 1#32 n - 1#32 = 0#32 := by
    rcases h with rfl | rfl <;> rfl
  unfold s32ton
  rw [if_neg (by tauto), hmask]
  exact BitVec.and_zero

theorem s32ton_bits (value : Word) (hn : n.toNat ≤ 32) {i : Nat} (hi : n.toNat ≤ i) :
    (s32ton value n).getLsbD i = false := by
  rcases Nat.eq_zero_or_pos n.toNat with hzero | hpos
  · rw [s32ton_edge (.inl (BitVec.eq_of_toNat_eq hzero))]
    exact BitVec.getLsbD_zero
  · rcases Nat.lt_or_ge n.toNat 32 with hlt | hge
    · unfold s32ton
      dsimp only
      rw [shl_pred 1#32 hpos hn, shl_lt 1#32 hlt]
      split
      · split
        · have hone := getLsbD_or_bit 0#32 (k := n.toNat - 1) (by omega) i
          rw [BitVec.zero_or, BitVec.getLsbD_zero, decide_eq_false (by omega)] at hone
          exact hone
        · refine (getLsbD_low (by omega) i).trans (decide_eq_false (by omega))
      · rw [BitVec.getLsbD_and]
        have hlow : (1#32 <<< n.toNat - 1#32).getLsbD i = false :=
          (getLsbD_low hlt i).trans (decide_eq_false (by omega))
        rw [hlow, Bool.and_false]
    · exact BitVec.getLsbD_of_ge _ _ (by omega)

end

/-! ## Setting values -/

/-- A value that the bits of the field can carry. -/
def HidField.Fits (f : HidField) (value : Word) : Prop :=
  if f.signed then snto32 (s32ton value f.reportSize) f.reportSize = value
  else value.toNat < 2 ^ f.reportSize.toNat

/-- A value to set: of a field of the report, at an offset. -/
structure Setting where
  field : Nat
  offset : Word
  value : Word
  deriving DecidableEq, Repr

/-- A report after a call of `hid_set_field`. -/
def HidReport.set (report : HidReport) (s : Setting) : HidReport :=
  match report.field[s.field]? with
  | none => report
  | some f =>
      match hidSetField f s.offset s.value with
      | none => report
      | some f' => { report with field := report.field.set s.field f' }

theorem hidSetField_some {f f' : HidField} {offset value : Word}
    (h : hidSetField f offset value = some f') :
    f' = { f with value := f.value.set offset.toNat value } ∧
      (f.signed → snto32 (s32ton value f.reportSize) f.reportSize = value) := by
  unfold hidSetField at h
  split at h
  · cases h
  · split at h
    · cases h
    · rename_i hfits
      cases h
      refine ⟨rfl, ?_⟩
      intro hsigned
      by_contra hne
      exact hfits ⟨hsigned, Ne.symm hne⟩

theorem fits_zero (f : HidField) : f.Fits 0 := by
  have hton : s32ton 0#32 f.reportSize = 0#32 := by
    have hsar : sar 0#32 (f.reportSize - 1) = 0#32 := by
      rw [sar, BitVec.sshiftRight_eq_of_msb_false rfl, BitVec.zero_ushiftRight]
    unfold s32ton
    rw [hsar, if_neg (fun h => h.1 rfl), BitVec.zero_and]
  have hnto : snto32 0#32 f.reportSize = 0#32 := by
    unfold snto32
    rw [BitVec.zero_and, if_neg (not_not.mpr (Eq.refl 0#32))]
    split
    · rfl
    · split
      · rfl
      · rw [ite_self]
  unfold HidField.Fits
  split
  · show snto32 (s32ton 0#32 _) _ = 0#32
    rw [hton, hnto]
  · exact Nat.two_pow_pos _

/-- What calls of `hid_set_field` keep of a report, and that all values are carried. -/
structure Settled (base report : HidReport) : Prop where
  id : report.id = base.id
  size : report.size = base.size
  laid : LaidOut 0 report.field report.size.toNat
  fields : ∀ f ∈ report.field, f.reportSize.toNat ≤ 32 ∧ f.value.length = f.reportCount.toNat
  fits : ∀ f ∈ report.field, ∀ v ∈ f.value, f.Fits v
  shape : ∀ (i : Nat) (f : HidField), report.field[i]? = some f →
    ∃ f₀ : HidField, base.field[i]? = some f₀ ∧ f.signed = f₀.signed ∧ f.reportSize = f₀.reportSize

theorem LaidOut.set {start stop i : Nat} {fs : List HidField} {f f' : HidField}
    (h : LaidOut start fs stop) (hf : fs[i]? = some f) (hoffset : f'.reportOffset = f.reportOffset)
    (hbits : f'.bits = f.bits) : LaidOut start (fs.set i f') stop := by
  induction fs generalizing start i with
  | nil => exact h
  | cons g fs ih =>
      cases i with
      | zero =>
          cases hf
          exact ⟨hoffset ▸ h.1, by rw [hoffset, hbits]; exact h.2⟩
      | succ i => exact ⟨h.1, ih h.2 hf⟩

theorem Settled.refl {collections n : Nat} {report : HidReport}
    (h : ReportOk collections n report) : Settled report report where
  id := rfl
  size := rfl
  laid := h.laid
  fields := fun f hf => ⟨(h.fields f hf).size, (h.fields f hf).value⟩
  fits := by
    intro f hf v hv
    rw [h.fresh f hf v hv]
    exact fits_zero f
  shape := fun i f hf => ⟨f, hf, rfl, rfl⟩

/-- One call: a signed field checks the value, an unsigned one is trusted to get one that fits. -/
theorem Settled.set {base report : HidReport} (h : Settled base report) (s : Setting)
    (hfits : ∀ f₀, base.field[s.field]? = some f₀ → f₀.signed = false →
      s.value.toNat < 2 ^ f₀.reportSize.toNat) : Settled base (report.set s) := by
  unfold HidReport.set
  split
  · exact h
  · rename_i f hf
    split
    · exact h
    · rename_i f' hset
      obtain ⟨rfl, hsigned⟩ := hidSetField_some hset
      have hmem := List.mem_of_getElem? hf
      obtain ⟨hsize, hvalue⟩ := h.fields f hmem
      have hnew : ∀ v ∈ f.value.set s.offset.toNat s.value, f.Fits v := by
        intro v hv
        rcases List.mem_or_eq_of_mem_set hv with hold | rfl
        · exact h.fits f hmem v hold
        · unfold HidField.Fits
          split
          · rename_i hneg
            exact hsigned hneg
          · rename_i hneg
            obtain ⟨f₀, hf₀, hsign, hwidth⟩ := h.shape _ f hf
            rw [hwidth]
            exact hfits f₀ hf₀ (by rw [← hsign]; exact Bool.eq_false_iff.mpr hneg)
      refine ⟨h.id, h.size, h.laid.set hf rfl rfl, ?_, ?_, ?_⟩
      · intro g hg
        rcases List.mem_or_eq_of_mem_set hg with hold | rfl
        · exact h.fields g hold
        · exact ⟨hsize, by rw [List.length_set]; exact hvalue⟩
      · intro g hg
        rcases List.mem_or_eq_of_mem_set hg with hold | rfl
        · exact h.fits g hold
        · exact hnew
      · intro i g hg
        by_cases hi : s.field = i
        · subst hi
          rw [List.getElem?_set_self (List.getElem?_eq_some_iff.mp hf).1] at hg
          cases hg
          exact h.shape _ f hf
        · rw [List.getElem?_set_ne hi] at hg
          exact h.shape i g hg

theorem Settled.setAll {base report : HidReport} (h : Settled base report) {ss : List Setting}
    (hfits : ∀ s ∈ ss, ∀ f₀, base.field[s.field]? = some f₀ → f₀.signed = false →
      s.value.toNat < 2 ^ f₀.reportSize.toNat) : Settled base (ss.foldl HidReport.set report) := by
  induction ss generalizing report with
  | nil => exact h
  | cons s ss ih =>
      exact ih (h.set s (hfits s List.mem_cons_self))
        (fun s' hs' => hfits s' (List.mem_cons_of_mem _ hs'))

/-! ## Writing a report -/

theorem LaidOut.within {start stop : Nat} {fs : List HidField} {f : HidField}
    (h : LaidOut start fs stop) (hf : f ∈ fs) :
    start ≤ f.reportOffset.toNat ∧ f.reportOffset.toNat + f.bits ≤ stop := by
  induction fs generalizing start with
  | nil => cases hf
  | cons g fs ih =>
      rcases List.mem_cons.mp hf with rfl | hf
      · exact ⟨h.1, h.2.le⟩
      · obtain ⟨hge, hle⟩ := ih h.2 hf
        exact ⟨Nat.le_trans (Nat.le_trans h.1 (Nat.le_add_right _ _)) hge, hle⟩

/-- The position of a value does not wrap around. -/
theorem value_offset {f : HidField} {n : Nat} (hend : f.reportOffset.toNat + f.bits < 2 ^ 32)
    (hn : n < f.reportCount.toNat) :
    (f.reportOffset + BitVec.ofNat 32 n * f.reportSize).toNat =
      f.reportOffset.toNat + n * f.reportSize.toNat := by
  have hle : n * f.reportSize.toNat ≤ f.bits := by
    rw [HidField.bits, Nat.mul_comm]
    exact Nat.mul_le_mul_left _ (Nat.le_of_lt hn)
  have hlt : n < 2 ^ 32 := Nat.lt_trans hn f.reportCount.isLt
  have hofNat : (BitVec.ofNat 32 n).toNat = n := by
    rw [BitVec.toNat_ofNat, Nat.mod_eq_of_lt hlt]
  have hmul : (BitVec.ofNat 32 n * f.reportSize).toNat = n * f.reportSize.toNat := by
    rw [BitVec.toNat_mul_of_lt (by rw [hofNat]; omega), hofNat]
  rw [BitVec.toNat_add_of_lt (by rw [hmul]; omega), hmul]

theorem hidOutputField_window {f : HidField} (hsize : f.reportSize.toNat ≤ 32)
    (hend : f.reportOffset.toNat + f.bits < 2 ^ 32) (m : Memory Byte) (data : Nat) :
    Memory.Window (8 * data + f.reportOffset.toNat) f.bits
      (fun k => (f.encode (f.value.getD (k / f.reportSize.toNat) 0)).getLsbD
        (k % f.reportSize.toNat))
      m (hidOutputField f m data) := by
  rw [HidField.bits, Nat.mul_comm f.reportSize.toNat]
  refine Memory.Window.each (f := fun n => (f.encode (f.value.getD n 0)).getLsbD) _ ?_ m
  intro m n hn
  rw [Nat.add_assoc, ← value_offset hend hn]
  exact implement_window hsize m data _ _

/-- The fields do not disturb one another. -/
theorem output_fields {start stop : Nat} {fs : List HidField} (hlaid : LaidOut start fs stop)
    (hstop : stop < 2 ^ 32) (hsize : ∀ f ∈ fs, f.reportSize.toNat ≤ 32) (m : Memory Byte)
    (data : Nat) :
    (∀ f ∈ fs, ∀ i < f.bits,
      (fs.foldl (fun m f => hidOutputField f m data) m).bit
          (8 * data + f.reportOffset.toNat + i) =
        (f.encode (f.value.getD (i / f.reportSize.toNat) 0)).getLsbD (i % f.reportSize.toNat)) ∧
    ∀ k, k < 8 * data + start ∨ 8 * data + stop ≤ k →
      (fs.foldl (fun m f => hidOutputField f m data) m).bit k = m.bit k := by
  induction fs generalizing start m with
  | nil => exact ⟨fun _ hf => absurd hf List.not_mem_nil, fun _ _ => rfl⟩
  | cons f fs ih =>
      have hle := hlaid.2.le
      have hstart := hlaid.1
      have hfield := hidOutputField_window (hsize f List.mem_cons_self) (by omega) m data
      obtain ⟨hbits, hrest⟩ := ih hlaid.2 (fun g hg => hsize g (List.mem_cons_of_mem _ hg))
        (hidOutputField f m data)
      constructor
      · intro g hg i hi
        rcases List.mem_cons.mp hg with rfl | hg
        · refine (hrest _ (.inl (by omega))).trans (hfield.inside i hi)
        · exact hbits g hg i hi
      · intro k hk
        exact (hrest k (by omega)).trans (hfield.outside k (by omega))

theorem encode_bits {f : HidField} (hsize : f.reportSize.toNat ≤ 32) {v : Word} (h : f.Fits v)
    {i : Nat} (hi : f.reportSize.toNat ≤ i) : (f.encode v).getLsbD i = false := by
  unfold HidField.Fits at h
  unfold HidField.encode
  split
  · exact s32ton_bits _ hsize hi
  · rename_i hneg
    rw [if_neg hneg] at h
    exact Nat.testBit_lt_two_pow (Nat.lt_of_lt_of_le h (Nat.pow_le_pow_right (by decide) hi))

/-- A value is read from the bits that have been written for it. -/
theorem fieldValue_eq {f : HidField} (hsize : f.reportSize.toNat ≤ 32)
    (hend : f.reportOffset.toNat + f.bits < 2 ^ 32) {m : Memory Byte} {data n : Nat}
    (hn : n < f.reportCount.toNat) {v : Word} (hv : f.Fits v)
    (h : ∀ j < f.reportSize.toNat,
      m.bit (8 * data + f.reportOffset.toNat + (n * f.reportSize.toNat + j)) =
        (f.encode v).getLsbD j) : fieldValue m f data n = v := by
  have hextract : extract m data (f.reportOffset + BitVec.ofNat 32 n * f.reportSize) f.reportSize =
      f.encode v := by
    refine extract_eq hsize (fun i hi => encode_bits hsize hv hi) ?_
    intro j hj
    rw [value_offset hend hn, ← h j hj]
    congr 1
    omega
  unfold HidField.Fits at hv
  unfold HidField.encode at hextract
  simp only [fieldValue, hextract]
  split
  · rename_i hneg
    rw [if_pos hneg] at hv
    exact hv
  · rfl

theorem bytes_toNat {report : HidReport} (hsize : 0 < report.size.toNat) :
    report.bytes.toNat = (report.size.toNat - 1) / 8 + 1 := by
  have hlast : ((report.size - 1) >>> 3).toNat = (report.size.toNat - 1) / 8 := by
    rw [BitVec.toNat_ushiftRight, pred_toNat hsize, Nat.shiftRight_eq_div_pow]
  have hlt := report.size.isLt
  rw [HidReport.bytes, BitVec.toNat_add_of_lt, hlast]
  · rfl
  · rw [hlast]
    show _ + 1 < _
    omega

theorem bytes_of_no_bits {report : HidReport} (hsize : report.size.toNat = 0) :
    report.bytes.toNat = 2 ^ 29 := by
  have hzero : report.size = 0 := BitVec.eq_of_toNat_eq hsize
  rw [HidReport.bytes, hzero]
  rfl

theorem bytes_bounds (report : HidReport) :
    report.size.toNat ≤ 8 * report.bytes.toNat ∧ report.bytes.toNat ≤ 2 ^ 29 := by
  have hlt := report.size.isLt
  rcases Nat.eq_zero_or_pos report.size.toNat with hzero | hpos
  · rw [bytes_of_no_bits hzero]
    omega
  · rw [bytes_toNat hpos]
    omega

/-- The bytes that are sent have all bits of the report. -/
theorem transferLength_covers (report : HidReport) (data : Nat) :
    8 * report.body data + report.size.toNat ≤ 8 * (data + (transferLength report).toNat) := by
  obtain ⟨hcovers, hle⟩ := bytes_bounds report
  unfold transferLength HidReport.body
  split
  · rw [BitVec.toNat_add_of_lt]
    · show _ ≤ 8 * (data + (_ + 1))
      omega
    · show _ + 1 < _
      omega
  · rw [BitVec.toNat_add_of_lt]
    · show _ ≤ 8 * (data + (_ + 0))
      omega
    · show _ + 0 < _
      omega

theorem le_hidFindMaxReport (device : HidDevice) (type : ReportType) (largest : Nat) :
    largest ≤ hidFindMaxReport device type largest := by
  unfold hidFindMaxReport
  generalize device.reportList type = reports
  induction reports generalizing largest with
  | nil => exact Nat.le_refl _
  | cons report reports ih => exact Nat.le_trans (Nat.le_max_left _ _) (ih _)

/-- There is room for a packet. -/
theorem hidMinBufferSize_le_bufsize (device : HidDevice) : hidMinBufferSize ≤ device.bufsize := by
  refine Nat.le_min.mpr ⟨by decide, ?_⟩
  exact (le_hidFindMaxReport device .input _).trans
    ((le_hidFindMaxReport device .output _).trans (le_hidFindMaxReport device .feature _))

theorem body_ge (report : HidReport) (data : Nat) : data ≤ report.body data := by
  unfold HidReport.body
  split <;> omega

section
variable {base report : HidReport} (hset : Settled base report) (m : Memory Byte) (data : Nat)
include hset

/-- The fields are written over what is there after the number. -/
theorem Settled.output :
    (∀ f ∈ report.field, ∀ i < f.bits,
      (hidOutputReport report m data).bit (8 * report.body data + f.reportOffset.toNat + i) =
        (f.encode (f.value.getD (i / f.reportSize.toNat) 0)).getLsbD (i % f.reportSize.toNat)) ∧
    ∀ k, k < 8 * report.body data ∨ 8 * report.body data + report.size.toNat ≤ k →
      (hidOutputReport report m data).bit k =
        (if 0 < report.id then m.store data [BitVec.ofNat 8 report.id] else m).bit k :=
  output_fields hset.laid report.size.isLt (fun f hf => (hset.fields f hf).1)
    (if 0 < report.id then m.store data [BitVec.ofNat 8 report.id] else m) (report.body data)

/-- Nothing outside of the report changes. -/
theorem Settled.output_outside {k : Nat}
    (hk : k < 8 * data ∨ 8 * report.body data + report.size.toNat ≤ k) :
    (hidOutputReport report m data).bit k = m.bit k := by
  have hbody := body_ge report data
  refine ((hset.output m data).2 k (by omega)).trans ?_
  split
  · rename_i hpos
    rw [HidReport.body, if_pos hpos] at hk
    rw [Memory.bit, Memory.bit, Memory.store, Memory.write_outside]
    rw [List.length_singleton]
    omega
  · rfl

theorem Settled.output_number (hpos : 0 < report.id) :
    hidOutputReport report m data data = BitVec.ofNat 8 report.id := by
  have hfirst : (m.store data [BitVec.ofNat 8 report.id]) data = BitVec.ofNat 8 report.id :=
    Memory.write_inside m (x := 0) (n := 1) (by omega)
  rw [← hfirst]
  refine Memory.eq_of_bit ?_
  intro i hi
  have hbefore : 8 * data + i < 8 * report.body data := by
    rw [HidReport.body, if_pos hpos]
    omega
  refine ((hset.output m data).2 _ (.inl hbefore)).trans ?_
  rw [if_pos hpos]

/-- The bytes that are sent carry the values of every field. -/
theorem Settled.output_values {m' : Memory Byte} {f : HidField} (hf : f ∈ report.field)
    (hsent : ∀ x, data ≤ x → x < data + (transferLength report).toNat →
      m' x = hidOutputReport report m data x) :
    (List.range f.reportCount.toNat).map (fieldValue m' f (report.body data)) = f.value := by
  have hbody := body_ge report data
  have hcovers := transferLength_covers report data
  obtain ⟨hsize, hlength⟩ := hset.fields f hf
  obtain ⟨-, hend⟩ := hset.laid.within hf
  have hlt := report.size.isLt
  refine List.ext_getElem (by rw [List.length_map, List.length_range, hlength]) ?_
  intro n hn hn'
  rw [List.getElem_map, List.getElem_range]
  have hcount : n < f.reportCount.toNat := hlength ▸ hn'
  refine fieldValue_eq hsize (by omega) hcount (hset.fits f hf _ (List.getElem_mem hn')) ?_
  intro j hj
  -- the bit is one of the field, so there is a byte of the report that is sent with it
  have hin : n * f.reportSize.toNat + j < f.bits := by
    have hle : (n + 1) * f.reportSize.toNat ≤ f.reportCount.toNat * f.reportSize.toNat :=
      Nat.mul_le_mul_right _ hcount
    rw [HidField.bits, Nat.mul_comm f.reportSize.toNat]
    rw [Nat.succ_mul] at hle
    omega
  have hwritten := (hset.output m data).1 f hf _ hin
  have hdiv : (n * f.reportSize.toNat + j) / f.reportSize.toNat = n := by
    rw [Nat.add_comm, Nat.add_mul_div_right _ _ (by omega), Nat.div_eq_of_lt hj, Nat.zero_add]
  have hmod : (n * f.reportSize.toNat + j) % f.reportSize.toNat = j := by
    rw [Nat.add_comm, Nat.add_mul_mod_self_right, Nat.mod_eq_of_lt hj]
  rw [hdiv, hmod, List.getD_eq_getElem _ _ hn'] at hwritten
  rw [← hwritten, Memory.bit, hsent _ (by omega) (by omega)]
  rfl

end

/-- **What is sent carries what has been set.**  Take a report of a parsed device and set any of its
values, any number of times, where a value for an unsigned field has no more bits than the field.
Then write the report to the buffer, which has room for it, and send its first bytes: wherever these
bytes arrive, all fields are read with the values they have, and after the number of the report if
it has one.  In the memory of the sender, no bit outside of the report has changed, and so no byte
outside of the buffer. -/
theorem output_report_decodes (mem : Nat → Bool) (bytes : List Byte) (device : HidDevice)
    (hbytes : bytes.length ≤ hidMaxDescriptorSize) (hparse : hidParseReport mem bytes = .ok device)
    (type : ReportType) (id : Nat) (hid : id < hidReportIds) (base : HidReport)
    (hfound : device.reportIdHash type id = some base) (settings : List Setting)
    (hfits : ∀ s ∈ settings, ∀ f, base.field[s.field]? = some f → f.signed = false →
      s.value.toNat < 2 ^ f.reportSize.toNat)
    (report : HidReport) (hreport : report = settings.foldl HidReport.set base)
    (hroom : (transferLength report).toNat ≤ device.bufsize)
    (m m' : Memory Byte) (data : Nat)
    (hsent : ∀ x, data ≤ x → x < data + (transferLength report).toNat →
      m' x = hidOutputReport report m data x) :
    (∀ f ∈ report.field,
      (List.range f.reportCount.toNat).map (fieldValue m' f (report.body data)) = f.value) ∧
    (0 < id → (hidOutputReport report m data data).toNat = id) ∧
    (∀ k, k < 8 * data ∨ 8 * report.body data + report.size.toNat ≤ k →
      (hidOutputReport report m data).bit k = m.bit k) ∧
    ∀ x, x < data ∨ data + device.bufsize ≤ x → hidOutputReport report m data x = m x := by
  obtain ⟨hnumber, hok⟩ := parse_reportOk hbytes hparse hfound
  have hset : Settled base report := hreport ▸ (Settled.refl hok).setAll hfits
  have hcovers := transferLength_covers report data
  refine ⟨fun f hf => hset.output_values m data hf hsent, ?_,
    fun k hk => hset.output_outside m data hk, ?_⟩
  · intro hpos
    have hid' : report.id = id := hset.id.trans hnumber
    rw [hset.output_number m data (hid' ▸ hpos), hid', BitVec.toNat_ofNat]
    exact Nat.mod_eq_of_lt hid
  · intro x hx
    refine Memory.eq_of_bit ?_
    intro i hi
    exact hset.output_outside m data (by omega)

/-- The descriptor of three lamps. -/
def ledDescriptor : List Byte :=
  [0x05, 0x08, 0x15, 0x00, 0x25, 0x01, 0x19, 0x01, 0x29, 0x03, 0x95, 0x03, 0x75, 0x01, 0x91, 0x02]

/-- The second lamp is switched on. -/
theorem output_report_decodes_led :
    ∃ device base, hidParseReport (fun _ => true) ledDescriptor = .ok device ∧
      device.reportIdHash .output 0 = some base ∧
      ∀ f ∈ (base.set ⟨0, 1, 1⟩).field, (List.range f.reportCount.toNat).map
        (fieldValue (hidOutputReport (base.set ⟨0, 1, 1⟩) (fun _ => 0) 0) f
          ((base.set ⟨0, 1, 1⟩).body 0)) = f.value := by
  have haccepted : ((hidParseReport (fun _ => true) ledDescriptor).toOption.bind fun device =>
      (device.reportIdHash .output 0).map fun report =>
        (report.field[0]?.map HidField.reportSize, transferLength (report.set ⟨0, 1, 1⟩))) =
      some (some 1, 1) := by
    decide
  cases hparse : hidParseReport (fun _ => true) ledDescriptor with
  | error e =>
      rw [hparse] at haccepted
      cases haccepted
  | ok device =>
      rw [hparse] at haccepted
      obtain ⟨base, hfound, hbase⟩ := Option.map_eq_some_iff.mp haccepted
      obtain ⟨hfield, hlength⟩ := Prod.mk.inj hbase
      have hroom : (transferLength (base.set ⟨0, 1, 1⟩)).toNat ≤ device.bufsize := by
        rw [hlength]
        exact Nat.le_trans (by decide) (hidMinBufferSize_le_bufsize device)
      refine ⟨device, base, rfl, hfound, ?_⟩
      refine (output_report_decodes _ ledDescriptor device (by decide) hparse .output 0 (by decide)
        base hfound [⟨0, 1, 1⟩] ?_ _ rfl hroom (fun _ => 0) _ 0 (fun _ _ _ => rfl)).1
      intro s hs f hf _
      rw [List.mem_singleton.mp hs] at hf ⊢
      rw [hf, Option.map_some, Option.some.injEq] at hfield
      rw [hfield]
      decide

end LinuxDrivers.Hid
