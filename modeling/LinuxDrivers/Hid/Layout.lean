/-
# `LinuxDrivers.Hid.Layout` — the reports that the parser lays out

The fields of a report are added one after the other, each at the bit where the report ended: the
offset of a field is the size of the report before it, and the size grows by the values of the
field.  Sizes are words, so this is a layout only as long as they do not wrap around; the driver
takes no descriptor of more than 4096 bytes, and an item adds 32768 bits at most.

The invariant of the parser, `ParserOk n`, therefore counts the items it has handled.  Every item
keeps it, and a run of the items keeps it by `Framing.handle_invariant`.

**Proved here.**

    the reports of an accepted descriptor are laid out: the fields of a report follow one another
    in its bits, each within the bounds of the parser                       (`parse_laid_out`)

A usage points to its collection.  One that stands outside of all collections has the index 0 in its
place, also if there is no collection at all.
-/
import LinuxDrivers.Hid.Parser

namespace LinuxDrivers.Hid

open LinuxDrivers.Lib

variable {mem : Nat → Bool} {n : Nat} {p p' : HidParser} {item : ShortItem} {type : ReportType}
  {report : HidReport} {flags : Word} {fs : List HidField}

/-! ## Reports, and the parser after some items -/

def hidMaxDescriptorSize : Nat := 4096

/-- The bits of all values of a field. -/
def HidField.bits (f : HidField) : Nat := f.reportSize.toNat * f.reportCount.toNat

/-- The fields follow one another between two bits of the report. -/
def LaidOut : Nat → List HidField → Nat → Prop
  | start, [], stop => start ≤ stop
  | start, f :: fs, stop =>
      start ≤ f.reportOffset.toNat ∧ LaidOut (f.reportOffset.toNat + f.bits) fs stop

/-- A usage of a collection that there is, or with the index of those outside of all. -/
def HidUsage.Placed (collections : Nat) (u : HidUsage) : Prop :=
  u.collectionIndex < collections ∨ u.collectionIndex = 0

/-- A field within the bounds of the parser. -/
structure FieldOk (collections : Nat) (f : HidField) : Prop where
  size : f.reportSize.toNat ≤ 32
  count : f.reportCount.toNat ≤ hidMaxUsages
  range : intOfWord f.logicalMinimum ≤ intOfWord f.logicalMaximum
  usages : 0 < f.usage.length ∧ f.reportCount.toNat ≤ f.usage.length ∧
    f.usage.length ≤ hidMaxUsages
  value : f.value.length = f.reportCount.toNat
  collection : ∀ u ∈ f.usage, u.Placed collections

/-- A report after `n` items. -/
structure ReportOk (collections n : Nat) (report : HidReport) : Prop where
  fields : ∀ f ∈ report.field, FieldOk collections f
  fresh : ∀ f ∈ report.field, ∀ v ∈ f.value, v = 0
  few : report.field.length ≤ hidMaxFields
  laid : LaidOut 0 report.field report.size.toNat
  size : report.size.toNat ≤ 32 * hidMaxUsages * n

structure GlobalOk (g : HidGlobal) : Prop where
  size : g.reportSize.toNat ≤ 32
  count : g.reportCount.toNat ≤ hidMaxUsages

/-- The parser after `n` items. -/
structure ParserOk (n : Nat) (p : HidParser) : Prop where
  global : GlobalOk p.global
  saved : ∀ g ∈ p.globalStack, GlobalOk g
  usages : p.locals.usage.length ≤ hidMaxUsages
  usage : ∀ u ∈ p.locals.usage, u.Placed p.device.collection.length
  stack : ∀ k ∈ p.collectionStack, k < p.device.collection.length
  reports : ∀ type id report, p.device.reportIdHash type id = some report →
    report.id = id ∧ ReportOk p.device.collection.length n report

/-! ## What a later item keeps -/

theorem LaidOut.mono {start stop stop' : Nat} (h : LaidOut start fs stop) (hle : stop ≤ stop') :
    LaidOut start fs stop' := by
  induction fs generalizing start with
  | nil => exact Nat.le_trans h hle
  | cons f fs ih => exact ⟨h.1, ih h.2⟩

theorem LaidOut.le {start stop : Nat} (h : LaidOut start fs stop) : start ≤ stop := by
  induction fs generalizing start with
  | nil => exact h
  | cons f fs ih => exact Nat.le_trans (Nat.le_trans h.1 (Nat.le_add_right _ _)) (ih h.2)

theorem LaidOut.append {start stop : Nat} {f : HidField} (h : LaidOut start fs stop)
    (hf : f.reportOffset.toNat = stop) : LaidOut start (fs ++ [f]) (stop + f.bits) := by
  induction fs generalizing start with
  | nil => exact ⟨hf ▸ h, by rw [hf]; exact Nat.le_refl _⟩
  | cons g fs ih => exact ⟨h.1, ih h.2⟩

theorem HidUsage.Placed.mono {n m : Nat} {u : HidUsage} (h : u.Placed n) (hle : n ≤ m) :
    u.Placed m := by
  rcases h with hlt | hzero
  · exact .inl (Nat.lt_of_lt_of_le hlt hle)
  · exact .inr hzero

theorem FieldOk.mono {n m : Nat} {f : HidField} (h : FieldOk n f) (hle : n ≤ m) : FieldOk m f :=
  { h with collection := fun u hu => (h.collection u hu).mono hle }

theorem ReportOk.mono {k m n n' : Nat} (h : ReportOk k n report) (hk : k ≤ m) (hn : n ≤ n') :
    ReportOk m n' report :=
  { h with
    fields := fun f hf => (h.fields f hf).mono hk
    size := Nat.le_trans h.size (Nat.mul_le_mul_left _ hn) }

/-- Items that leave the reports and the collections alone. -/
theorem ParserOk.env (h : ParserOk n p) (hdevice : p'.device = p.device)
    (hglobal : GlobalOk p'.global) (hsaved : ∀ g ∈ p'.globalStack, GlobalOk g)
    (husages : p'.locals.usage.length ≤ hidMaxUsages)
    (husage : ∀ u ∈ p'.locals.usage, u.Placed p.device.collection.length)
    (hstack : ∀ k ∈ p'.collectionStack, k < p.device.collection.length) : ParserOk (n + 1) p' where
  global := hglobal
  saved := hsaved
  usages := husages
  usage := by rw [hdevice]; exact husage
  stack := by rw [hdevice]; exact hstack
  reports := by
    rw [hdevice]
    intro type id report hfound
    obtain ⟨hid, hreport⟩ := h.reports type id report hfound
    exact ⟨hid, hreport.mono (Nat.le_refl _) (Nat.le_succ n)⟩

theorem ParserOk.same (h : ParserOk n p) : ParserOk (n + 1) p :=
  h.env rfl h.global h.saved h.usages h.usage h.stack

/-! ## Local and global items -/

/-- The usage that is added belongs to the innermost collection. -/
theorem ParserOk.addUsage {usage : Word} (h : ParserOk n p) (hadd : hidAddUsage p usage = .ok p') :
    ParserOk n p' := by
  obtain ⟨hroom, rfl⟩ := hidAddUsage_ok hadd
  refine ⟨h.global, h.saved, ?_, ?_, h.stack, h.reports⟩
  · simp only [List.length_append, List.length_singleton]
    omega
  · intro u hu
    rcases List.mem_append.mp hu with hold | hnew
    · exact h.usage u hold
    · rw [List.mem_singleton.mp hnew]
      cases hstack : p.collectionStack with
      | nil => exact .inr rfl
      | cons k stack =>
          refine .inl (h.stack k ?_)
          rw [hstack]
          exact List.mem_cons_self

theorem hidParserLocal_parserOk (h : ParserOk n p) (hitem : hidParserLocal p item = .ok p') :
    ParserOk (n + 1) p' := by
  unfold hidParserLocal at hitem
  split at hitem
  · cases hitem
  · split at hitem
    · cases hitem
    · split at hitem
      · cases hitem
        exact h.same
      · exact (h.addUsage hitem).same
    · split at hitem <;> cases hitem
      · exact h.same
      · exact h.env rfl h.global h.saved h.usages h.usage h.stack
    · split at hitem
      · cases hitem
        exact h.same
      · exact (addUsages_invariant (ParserOk n) (fun _ _ _ hq hadd => hq.addUsage hadd) h
          hitem).same
    · cases hitem
      exact h.same

theorem hidParserGlobal_parserOk (h : ParserOk n p) (hitem : hidParserGlobal p item = .ok p') :
    ParserOk (n + 1) p' := by
  have hset : ∀ g, GlobalOk g → ParserOk (n + 1) { p with global := g } :=
    fun g hg => h.env rfl hg h.saved h.usages h.usage h.stack
  unfold hidParserGlobal at hitem
  cases htag : globalTag item.tag with
  | none =>
      rw [htag] at hitem
      cases hitem
  | some tag =>
      rw [htag] at hitem
      cases tag with
      | push =>
          simp only at hitem
          split at hitem <;> cases hitem
          refine h.env rfl h.global ?_ h.usages h.usage h.stack
          intro g hg
          rcases List.mem_cons.mp hg with rfl | hg
          · exact h.global
          · exact h.saved g hg
      | pop =>
          simp only at hitem
          split at hitem <;> cases hitem
          rename_i g stack hstack
          have hsaved := h.saved
          rw [hstack] at hsaved
          exact h.env rfl (hsaved g List.mem_cons_self)
            (fun g' hg' => hsaved g' (List.mem_cons_of_mem _ hg')) h.usages h.usage h.stack
      | reportSize =>
          simp only at hitem
          split at hitem <;> cases hitem
          rename_i hsize
          exact hset _ ⟨Nat.not_lt.mp hsize, h.global.count⟩
      | reportCount =>
          simp only at hitem
          split at hitem <;> cases hitem
          rename_i hcount
          exact hset _ ⟨h.global.size, Nat.not_lt.mp hcount⟩
      | reportId =>
          simp only at hitem
          split at hitem <;> cases hitem
          exact hset _ ⟨h.global.size, h.global.count⟩
      | _ =>
          cases hitem
          exact hset _ ⟨h.global.size, h.global.count⟩

/-! ## Main items -/

theorem setReport_hash {type t : ReportType} {report r : HidReport} {id : Nat}
    (h : (p.setReport type report).device.reportIdHash t id = some r) :
    (id = report.id ∧ r = report) ∨ p.device.reportIdHash t id = some r := by
  simp only [HidParser.setReport] at h
  by_cases ht : t = type
  · subst ht
    rw [Function.update_self] at h
    by_cases hid : id = report.id
    · subst hid
      rw [Function.update_self, Option.some.injEq] at h
      exact .inl ⟨rfl, h.symm⟩
    · rw [Function.update_of_ne hid] at h
      exact .inr h
  · rw [Function.update_of_ne ht] at h
    exact .inr h

theorem ParserOk.setReport (h : ParserOk n p)
    (hreport : ReportOk p.device.collection.length n report) :
    ParserOk n (p.setReport type report) :=
  { h with
    reports := by
      intro t id r hr
      rcases setReport_hash hr with ⟨rfl, rfl⟩ | hold
      · exact ⟨rfl, hreport⟩
      · exact h.reports t id r hold }

/-- The report of a data item is one of the table, or a new one. -/
theorem hidRegisterReport_parserOk {id : Word} (h : ParserOk n p)
    (hreg : hidRegisterReport mem p type id = .ok (report, p')) :
    ParserOk n p' ∧ ReportOk p.device.collection.length n report := by
  obtain ⟨hfound, rfl⟩ | ⟨rfl, numbered, rfl⟩ := hidRegisterReport_ok hreg
  · exact ⟨h, (h.reports type _ report hfound).2⟩
  · have hempty : ReportOk p.device.collection.length n ⟨id.toNat, [], 0⟩ :=
      ⟨fun _ hf => absurd hf List.not_mem_nil, fun _ hf => absurd hf List.not_mem_nil,
        Nat.zero_le _, Nat.le_refl _, Nat.zero_le _⟩
    have hdevice : ParserOk n
        { p with device := { p.device with numbered := numbered }, allocs := p.allocs + 1 } :=
      ⟨h.global, h.saved, h.usages, h.usage, h.stack, h.reports⟩
    exact ⟨hdevice.setReport hempty, hempty⟩

theorem usages_of_count (hcount : p.global.reportCount.toNat ≤ hidMaxUsages) :
    p.usages = max p.locals.usage.length p.global.reportCount.toNat := by
  have hint : intOfWord p.global.reportCount = p.global.reportCount.toNat := by
    refine BitVec.toInt_eq_toNat_of_lt ?_
    simp only [hidMaxUsages] at hcount
    omega
  rw [HidParser.usages, hint]
  omega

theorem usageTable_mem (husage : p.locals.usage ≠ []) {u : HidUsage} (hu : u ∈ p.usageTable) :
    u ∈ p.locals.usage := by
  obtain ⟨i, -, rfl⟩ := List.mem_map.mp hu
  have hpos := List.length_pos_iff.mpr husage
  have hindex : (if p.locals.usage.length ≤ i then p.locals.usage.length - 1 else i) <
      p.locals.usage.length := by
    split <;> omega
  rw [List.getD_eq_getElem?_getD, List.getElem?_eq_getElem hindex]
  exact List.getElem_mem hindex

/-- The field that a data item adds is within the bounds. -/
theorem newField_ok {flags offset : Word} (h : ParserOk n p) (husage : p.locals.usage ≠ [])
    (hrange : intOfWord p.global.logicalMinimum ≤ intOfWord p.global.logicalMaximum) :
    FieldOk p.device.collection.length (p.newField type flags offset) := by
  have hlength : p.usageTable.length = max p.locals.usage.length p.global.reportCount.toNat := by
    rw [HidParser.usageTable, List.length_map, List.length_range, usages_of_count h.global.count]
  have hpos := List.length_pos_iff.mpr husage
  refine ⟨h.global.size, h.global.count, hrange, ?_, List.length_replicate, ?_⟩
  · have husages := h.usages
    have hcount := h.global.count
    show 0 < p.usageTable.length ∧ p.global.reportCount.toNat ≤ p.usageTable.length ∧
      p.usageTable.length ≤ hidMaxUsages
    omega
  · intro u hu
    exact h.usage u (usageTable_mem husage hu)

/-- The size of a report does not wrap around before there are that many items. -/
theorem size_add {size : Word} (h : GlobalOk p.global) (hn : n < 131071)
    (hsize : size.toNat ≤ 32 * hidMaxUsages * n) :
    (size + p.global.reportSize * p.global.reportCount).toNat =
      size.toNat + p.global.reportSize.toNat * p.global.reportCount.toNat ∧
    size.toNat + p.global.reportSize.toNat * p.global.reportCount.toNat ≤
      32 * hidMaxUsages * (n + 1) := by
  have hprod : p.global.reportSize.toNat * p.global.reportCount.toNat ≤ 32 * hidMaxUsages :=
    Nat.mul_le_mul h.size h.count
  simp only [hidMaxUsages] at hprod hsize ⊢
  have hmul : (p.global.reportSize * p.global.reportCount).toNat =
      p.global.reportSize.toNat * p.global.reportCount.toNat :=
    BitVec.toNat_mul_of_lt (by omega)
  rw [BitVec.toNat_add_of_lt (by omega), hmul]
  omega

theorem SameEnv.newField {p q : HidParser} (h : SameEnv p q) (type : ReportType)
    (flags offset : Word) : q.newField type flags offset = p.newField type flags offset := by
  simp only [HidParser.newField, HidParser.usageTable, HidParser.usages, hidLookupCollection,
    h.global, h.locals, h.collectionStack, h.collection]

theorem Added.reportOk {report report' : HidReport} (hp : ParserOk n p) (hn : n < 131071)
    (hrange : intOfWord p.global.logicalMinimum ≤ intOfWord p.global.logicalMaximum)
    (h : ReportOk p.device.collection.length n report) (hadd : Added p type flags report report') :
    ReportOk p.device.collection.length (n + 1) report' := by
  obtain ⟨hsize, hle⟩ := size_add hp.global hn h.size
  cases hadd with
  | size =>
      refine ⟨h.fields, h.fresh, h.few, ?_, ?_⟩
      · refine h.laid.mono ?_
        rw [hsize]
        exact Nat.le_add_right _ _
      · rw [hsize]
        exact hle
  | field husage hroom q hq =>
      rw [hq.newField]
      refine ⟨?_, ?_, ?_, ?_, ?_⟩
      · intro f hf
        rcases List.mem_append.mp hf with hold | hnew
        · exact h.fields f hold
        · rw [List.mem_singleton.mp hnew]
          exact newField_ok hp husage hrange
      · intro f hf v hv
        rcases List.mem_append.mp hf with hold | hnew
        · exact h.fresh f hold v hv
        · rw [List.mem_singleton.mp hnew] at hv
          exact List.eq_of_mem_replicate hv
      · have hfew := h.few
        simp only [List.length_append, List.length_singleton]
        omega
      · show LaidOut 0 (report.field ++ [p.newField type flags report.size]) _
        rw [hsize]
        exact h.laid.append rfl
      · rw [hsize]
        exact hle

theorem hidAddField_parserOk (h : ParserOk n p) (hn : n < 131071)
    (hadd : hidAddField mem p type flags = .ok p') : ParserOk (n + 1) p' := by
  obtain ⟨report, p₁, report', hreg, hrange, hreport', allocs, rfl⟩ := hidAddField_ok hadd
  obtain ⟨hp₁, hreport⟩ := hidRegisterReport_parserOk h hreg
  have hok := hreport'.reportOk h hn hrange hreport
  have hcoll := (hidRegisterReport_sameEnv hreg).collection
  refine ParserOk.setReport ?_ ?_
  · exact hp₁.env rfl hp₁.global hp₁.saved hp₁.usages hp₁.usage hp₁.stack
  · show ReportOk p₁.device.collection.length _ _
    rw [hcoll]
    exact hok

/-- A collection more: everything that pointed to a collection still does. -/
theorem pushCollection_parserOk (h : ParserOk n p) (type : Word) :
    ParserOk (n + 1) (pushCollection p type) := by
  have hlength : (pushCollection p type).device.collection.length =
      p.device.collection.length + 1 := by
    simp [pushCollection]
  refine ⟨h.global, h.saved, h.usages, ?_, ?_, ?_⟩
  · intro u hu
    rw [hlength]
    exact (h.usage u hu).mono (Nat.le_succ _)
  · intro k hk
    rw [hlength]
    rcases List.mem_cons.mp hk with rfl | hold
    · exact Nat.lt_succ_self _
    · exact Nat.lt_succ_of_lt (h.stack k hold)
  · intro t id r hr
    obtain ⟨hid, hreport⟩ := h.reports t id r hr
    rw [hlength]
    exact ⟨hid, hreport.mono (Nat.le_succ _) (Nat.le_succ _)⟩

theorem openCollection_parserOk {type : Word} (h : ParserOk n p)
    (hopen : openCollection mem p type = .ok p') : ParserOk (n + 1) p' := by
  unfold openCollection at hopen
  split at hopen
  · cases hopen
  · split at hopen
    · cases hopen
    · rename_i p₁ hgrow
      cases hopen
      rcases growCollections_ok hgrow with rfl | rfl
      · exact pushCollection_parserOk h type
      · refine pushCollection_parserOk (n := n) ?_ type
        exact ⟨h.global, h.saved, h.usages, h.usage, h.stack, h.reports⟩

theorem closeCollection_parserOk (h : ParserOk n p) (hclose : closeCollection p = .ok p') :
    ParserOk (n + 1) p' := by
  unfold closeCollection at hclose
  split at hclose
  · cases hclose
  · rename_i k stack hstack
    cases hclose
    refine h.env rfl h.global h.saved h.usages h.usage ?_
    intro k' hk'
    refine h.stack k' ?_
    rw [hstack]
    exact List.mem_cons_of_mem _ hk'

theorem hidParserMain_parserOk (h : ParserOk n p) (hn : n < 131071)
    (hitem : hidParserMain mem p item = .ok p') : ParserOk (n + 1) p' := by
  unfold hidParserMain at hitem
  split at hitem
  · cases hitem
  · rename_i p₁ haction
    cases hitem
    have hp₁ : ParserOk (n + 1) p₁ := by
      unfold mainAction at haction
      split at haction
      · exact openCollection_parserOk h haction
      · exact closeCollection_parserOk h haction
      · exact hidAddField_parserOk h hn haction
      · cases haction
        exact h.same
    exact ⟨hp₁.global, hp₁.saved, Nat.zero_le _, fun _ hu => absurd hu List.not_mem_nil, hp₁.stack,
      hp₁.reports⟩

/-! ## The whole descriptor -/

theorem dispatch_parserOk (h : ParserOk n p) (hn : n < 131071)
    (hitem : dispatchType mem p item = .ok p') : ParserOk (n + 1) p' := by
  unfold dispatchType at hitem
  split at hitem
  · exact hidParserMain_parserOk h hn hitem
  · exact hidParserGlobal_parserOk h hitem
  · exact hidParserLocal_parserOk h hitem
  · cases hitem
    exact h.same

theorem parserOk_zero : ParserOk 0 .zero where
  global := ⟨Nat.zero_le _, Nat.zero_le _⟩
  saved := fun _ hg => absurd hg List.not_mem_nil
  usages := Nat.zero_le _
  usage := fun _ hu => absurd hu List.not_mem_nil
  stack := fun _ hk => absurd hk List.not_mem_nil
  reports := nofun

/-- What is known of the reports of a device. -/
theorem parse_reportOk {bytes : List Byte} {device : HidDevice}
    (hbytes : bytes.length ≤ hidMaxDescriptorSize) (h : hidParseReport mem bytes = .ok device)
    {type : ReportType} {id : Nat} {report : HidReport}
    (hfound : device.reportIdHash type id = some report) :
    report.id = id ∧ ReportOk device.collection.length bytes.length report := by
  obtain ⟨-, item, items, p, -, hstream, hhandle, -, -, rfl⟩ := (parse_ok_iff mem _ _).mp h
  have hitems : (item :: items).length ≤ bytes.length := by
    rw [hstream]
    exact Framing.length_le_stream _
  have hok : (item :: items).length < 131072 → ParserOk (item :: items).length p := by
    have hstep : ∀ n s t s', (n < 131072 → ParserOk n s) → dispatchType mem s t = .ok s' →
        n + 1 < 131072 → ParserOk (n + 1) s' :=
      fun n s t s' hI hstep hlt => dispatch_parserOk (hI (by omega)) (by omega) hstep
    have hinv := Framing.handle_invariant (fun n p => n < 131072 → ParserOk n p) hstep
      (fun _ => parserOk_zero) hhandle
    rw [Nat.zero_add] at hinv
    exact hinv
  simp only [hidMaxDescriptorSize] at hbytes
  obtain ⟨hid, hreport⟩ := (hok (by omega)).reports type id report hfound
  exact ⟨hid, hreport.mono (Nat.le_refl _) hitems⟩

/-- **The reports are laid out.**  In a device that was parsed from a descriptor of at most 4096
bytes, every report is in the table under its number; it has at most 64 fields; the fields take bits
of the report that follow one another and do not exceed its size, which did not wrap around; a field
has at most 1024 values of at most 32 bits, all of them 0, at least one usage and at least as many
as values, at most 1024 of them, and a logical range that is not empty; and each of its usages
points to a collection of the device or has the index 0. -/
theorem parse_laid_out (mem : Nat → Bool) (bytes : List Byte) (device : HidDevice)
    (hbytes : bytes.length ≤ hidMaxDescriptorSize) (h : hidParseReport mem bytes = .ok device) :
    ∀ type id report, device.reportIdHash type id = some report →
      report.id = id ∧ report.field.length ≤ hidMaxFields ∧
        LaidOut 0 report.field report.size.toNat ∧
        report.size.toNat ≤ 32 * hidMaxUsages * bytes.length ∧
        ∀ f ∈ report.field, FieldOk device.collection.length f ∧ ∀ v ∈ f.value, v = 0 := by
  intro type id report hfound
  obtain ⟨hid, hreport⟩ := parse_reportOk hbytes h hfound
  exact ⟨hid, hreport.few, hreport.laid, hreport.size,
    fun f hf => ⟨hreport.fields f hf, hreport.fresh f hf⟩⟩

theorem parse_laid_out_mouse :
    ∃ device report, hidParseReport (fun _ => true) mouseDescriptor = .ok device ∧
      device.reportIdHash .input 0 = some report ∧ report.field.length = 1 ∧
      report.size = 3 ∧ LaidOut 0 report.field report.size.toNat := by
  have haccepted : ((hidParseReport (fun _ => true) mouseDescriptor).toOption.bind fun device =>
      (device.reportIdHash .input 0).map fun report => (report.field.length, report.size)) =
      some (1, 3) := by
    decide
  cases hparse : hidParseReport (fun _ => true) mouseDescriptor with
  | error e =>
      rw [hparse] at haccepted
      cases haccepted
  | ok device =>
      rw [hparse] at haccepted
      obtain ⟨report, hfound, hreport⟩ := Option.map_eq_some_iff.mp haccepted
      obtain ⟨hfields, hsize⟩ := Prod.mk.inj hreport
      obtain ⟨-, -, hlaid, -⟩ := parse_laid_out _ mouseDescriptor device (by decide) hparse
        .input 0 report hfound
      exact ⟨device, report, rfl, hfound, hfields, hsize, hlaid⟩

end LinuxDrivers.Hid
