/-
# `LinuxDrivers.Hid.Input` — reports from the device

`hid_input_report` of `drivers/hid/hid-core.c` gets a report from the device, reads the values of
its fields and hands what is new to the layer above, value by value (`hid_process_event`).  There
are two kinds of fields:

    variable    each value belongs to a usage: the usage has that value now
    array       a value is the number of a usage that is active now, as the pressed keys of a
                keyboard; the driver compares with the values of before and tells which usages
                have been released (0) and which have been pressed (1)

If a keyboard cannot tell which keys are pressed it reports a usage for that, and the driver
ignores the field and keeps the values of before.  It also does if there is no memory.

A value of an array is used as an index without a check against the number of usages: the parser
does not compare the logical range with it.  And if fewer bytes came than the report has, the rest
of them is cleared, whether the buffer is that long or not: a report of no bits has 2^29 bytes for
the driver.  The model has `none` for an access outside of the table and for bytes cleared behind
the buffer.

**Proved here.**  If neither can happen (`input_reports_replay`):

    the events of any sequence of reports, applied to what the layer above knew before, give what
    the fields say now
    a field says what the last report with its number said, unless the driver ignored it
-/
import LinuxDrivers.Hid.Report
import LinuxDrivers.Lib.Replay

namespace LinuxDrivers.Hid

open LinuxDrivers.Lib

/-! ## Fields -/

def hidMainItemVariable : Word := 0x002
def hidUpKeyboard : Word := 0x00070000

def HidField.isVariable (f : HidField) : Bool := f.flags &&& hidMainItemVariable ≠ 0

def HidField.inRange (f : HidField) (v : Word) : Bool :=
  intOfWord f.logicalMinimum ≤ intOfWord v && intOfWord v ≤ intOfWord f.logicalMaximum

/-- `value - min`, the index into the table of usages. -/
def HidField.index (f : HidField) (v : Word) : Int := intOfWord (v - f.logicalMinimum)

/-- The usage of a value of an array, `none` if the table has no such entry. -/
def HidField.usageAt (f : HidField) (v : Word) : Option HidUsage :=
  if 0 ≤ f.index v then f.usage[(f.index v).toNat]? else none

/-- Why a field is not read to the end. -/
inductive Halt where
  | rollOver
  | outside
  deriving DecidableEq, Repr

/-- The first loop of `hid_input_field`. -/
def readValue (m : Memory Byte) (f : HidField) (data n : Nat) : Except Halt Word :=
  let v := fieldValue m f data n
  if f.isVariable = false ∧ f.inRange v then
    match f.usageAt v with
    | none => .error .outside
    | some u => if u.hid = hidUpKeyboard + 1 then .error .rollOver else .ok v
  else .ok v

def search : List Word → Word → Int
  | [], _ => -1
  | a :: array, value => if a = value then 0 else search array value

/-- The event for a value, if its usage counts and it is not among the others. -/
def changeEvent (f : HidField) (v : Word) (others : List Word) (now : Word) :
    Except Halt (List (Nat × Word)) :=
  if f.inRange v then
    match f.usageAt v with
    | none => .error .outside
    | some u =>
        if u.hid ≠ 0 ∧ search others v ≠ 0 then .ok [((f.index v).toNat, now)] else .ok []
  else .ok []

/-- The second loop. -/
def fieldEvents (f : HidField) (values : List Word) (n : Nat) : Except Halt (List (Nat × Word)) :=
  if f.isVariable then .ok [(n, values.getD n 0)]
  else do
    let released ← changeEvent f (f.value.getD n 0) values 0
    let pressed ← changeEvent f (values.getD n 0) f.value 1
    pure (released ++ pressed)

/-- The field with its values of now, and the events, by the index of the usage.  `alloc` tells
whether there is memory. -/
def hidInputField (alloc : Bool) (m : Memory Byte) (f : HidField) (data : Nat) :
    Option (HidField × List (Nat × Word)) :=
  if alloc then
    match (List.range f.reportCount.toNat).mapM (readValue m f data) with
    | .error .rollOver => some (f, [])
    | .error .outside => none
    | .ok values =>
        match (List.range f.reportCount.toNat).mapM (fieldEvents f values) with
        | .error _ => none
        | .ok events => some ({ f with value := values }, events.flatten)
  else some (f, [])

/-! ## Reports -/

/-- What the layer above knows values of. -/
structure Key where
  type : ReportType
  id : Nat
  field : Nat
  usage : Nat
  deriving DecidableEq, Repr

/-- The fields of a report from the `i`-th on. -/
def inputFields (alloc : Nat → Bool) (m : Memory Byte) (data : Nat) :
    Nat → List HidField → Option (List HidField × List ((Nat × Nat) × Word))
  | _, [] => some ([], [])
  | i, f :: fs => do
      let (f', events) ← hidInputField (alloc i) m f data
      let (fs', rest) ← inputFields alloc m data (i + 1) fs
      some (f' :: fs', events.map (fun e => ((i, e.1), e.2)) ++ rest)

/-- A report from the device: where its bytes are, and how many. -/
structure Arrival where
  type : ReportType
  m : Memory Byte
  data : Nat
  size : Nat
  alloc : Nat → Bool

section
variable (numbered : ReportType → Bool) (a : Arrival)

/-- If the reports are numbered, the first byte is the number. -/
def Arrival.number : Nat := if numbered a.type then (a.m a.data).toNat else 0

def Arrival.body : Nat := if numbered a.type then a.data + 1 else a.data

def Arrival.length : Nat := if numbered a.type then a.size - 1 else a.size

end

/-- The bytes that a report should have and that did not come are cleared, in a buffer that ends
at `stop`. -/
def clearRest (report : HidReport) (m : Memory Byte) (data size stop : Nat) :
    Option (Memory Byte) :=
  let rsize := report.bytes.toNat
  if size < rsize then
    if data + rsize ≤ stop then some (m.write (data + size) (rsize - size) (fun _ => 0)) else none
  else some m

def HidDevice.setReport (device : HidDevice) (type : ReportType) (n : Nat) (report : HidReport) :
    HidDevice :=
  { device with
    reportIdHash := Function.update device.reportIdHash type
      (Function.update (device.reportIdHash type) n (some report)) }

/-- What `hid_input_report` returns, the device and the events.  The bytes are at the beginning of
a buffer of `bufsize`. -/
def hidInputReport (bufsize : Nat) (device : HidDevice) (a : Arrival) :
    Option (Int × HidDevice × List (Key × Word)) :=
  if a.size = 0 then some (-1, device, [])
  else
    let n := a.number device.numbered
    let data := a.body device.numbered
    let size := a.length device.numbered
    match device.reportIdHash a.type n with
    | none => some (-1, device, [])
    | some report => do
        let m ← clearRest report a.m data size (a.data + bufsize)
        let (fields, events) ← inputFields a.alloc m data 0 report.field
        some (0, device.setReport a.type n { report with field := fields },
          events.map (fun e => (⟨a.type, n, e.1.1, e.1.2⟩, e.2)))

/-- The reports in the order they come. -/
def inputReports (bufsize : Nat) (device : HidDevice) :
    List Arrival → Option (HidDevice × List (Key × Word))
  | [] => some (device, [])
  | a :: as => do
      let (_, device', events) ← hidInputReport bufsize device a
      let (device'', rest) ← inputReports bufsize device' as
      some (device'', events ++ rest)

/-! ## What the fields say -/

/-- The value stands for the `k`-th usage, and the usage counts. -/
def HidField.Stands (f : HidField) (v : Word) (k : Nat) : Prop :=
  f.inRange v = true ∧ f.index v = k ∧ ∃ u ∈ f.usageAt v, u.hid ≠ 0

instance (f : HidField) (v : Word) (k : Nat) : Decidable (f.Stands v k) :=
  inferInstanceAs (Decidable (_ ∧ _ ∧ ∃ u ∈ f.usageAt v, u.hid ≠ 0))

/-- The values of the usages of a field: that of a variable, or whether a usage of an array is
active. -/
def HidField.reported (f : HidField) (k : Nat) : Word :=
  if f.isVariable then f.value.getD k 0 else if ∃ v ∈ f.value, f.Stands v k then 1 else 0

/-- The values of the fields from the `i`-th on. -/
def reportedFrom (i : Nat) (fs : List HidField) (p : Nat × Nat) : Word :=
  if i ≤ p.1 then (fs[p.1 - i]?).elim 0 (fun f => f.reported p.2) else 0

def HidDevice.reported (device : HidDevice) (key : Key) : Word :=
  (device.reportIdHash key.type key.id).elim 0
    (fun report => reportedFrom 0 report.field (key.field, key.usage))

def HidDevice.fieldAt (device : HidDevice) (type : ReportType) (id i : Nat) : Option HidField :=
  (device.reportIdHash type id).bind (fun report => report.field[i]?)

/-- The values of a field in the memory. -/
def fieldValues (m : Memory Byte) (f : HidField) (data : Nat) : List Word :=
  (List.range f.reportCount.toNat).map (fieldValue m f data)

/-- The bytes that came, and 0 for those that did not. -/
def Arrival.received (a : Arrival) (numbered : ReportType → Bool) : Memory Byte :=
  fun x => if x < a.body numbered + a.length numbered then a.m x else 0

/-- The values that a report has for a field. -/
def Arrival.carries (a : Arrival) (numbered : ReportType → Bool) (f : HidField) : List Word :=
  fieldValues (a.received numbered) f (a.body numbered)

/-- The report is one of this type and number, with at least a byte. -/
def Arrival.Of (a : Arrival) (numbered : ReportType → Bool) (type : ReportType) (id : Nat) : Prop :=
  0 < a.size ∧ type = a.type ∧ id = a.number numbered

/-- A value that says that the keyboard cannot tell. -/
def HidField.RollsOver (f : HidField) (v : Word) : Prop :=
  f.isVariable = false ∧ f.inRange v = true ∧ ∃ u ∈ f.usageAt v, u.hid = hidUpKeyboard + 1

/-- What the fields say after some reports: what the last report of their number said, if there was
memory for it and the keyboard could tell, and what they said before if there was none. -/
structure Said (arrivals : List Arrival) (device device' : HidDevice) : Prop where
  last : ∀ type id before a after, arrivals = before ++ a :: after →
    a.Of device.numbered type id → (∀ b ∈ after, ¬ b.Of device.numbered type id) →
    ∀ i f, device.fieldAt type id i = some f → a.alloc i = true →
      (∀ v ∈ a.carries device.numbered f, ¬ f.RollsOver v) →
      device'.fieldAt type id i = some { f with value := a.carries device.numbered f }
  none : ∀ type id, (∀ b ∈ arrivals, ¬ b.Of device.numbered type id) →
    ∀ i, device'.fieldAt type id i = device.fieldAt type id i

/-! ## Loops that may stop -/

section
variable {ε α β : Type} {g : α → Except ε β} {l : List α}

theorem mapM_ok {bs : List β} (h : l.mapM g = .ok bs) :
    List.Forall₂ (fun a b => g a = .ok b) l bs := by
  induction l generalizing bs with
  | nil =>
      cases h
      exact .nil
  | cons a l ih =>
      rw [List.mapM_cons] at h
      cases ha : g a with
      | error e =>
          rw [ha] at h
          cases h
      | ok b =>
          cases hl : l.mapM g with
          | error e =>
              rw [ha, hl] at h
              cases h
          | ok bs' =>
              rw [ha, hl] at h
              cases h
              exact .cons ha (ih hl)

/-- The results of a loop that counts, by their numbers. -/
theorem mapM_range_ok {g : Nat → Except ε β} {n : Nat} {bs : List β}
    (h : (List.range n).mapM g = .ok bs) :
    bs.length = n ∧ ∀ (k : Nat) (hk : k < bs.length), g k = .ok bs[k] := by
  obtain ⟨hlength, heach⟩ := List.forall₂_iff_get.mp (mapM_ok h)
  refine ⟨by rw [← hlength, List.length_range], fun k hk => ?_⟩
  have hround := heach k (by rw [hlength]; exact hk) hk
  rwa [List.get_eq_getElem, List.get_eq_getElem, List.getElem_range] at hround

theorem mapM_error {e : ε} (h : l.mapM g = .error e) : ∃ a ∈ l, g a = .error e := by
  induction l with
  | nil => cases h
  | cons a l ih =>
      rw [List.mapM_cons] at h
      cases ha : g a with
      | error e' =>
          rw [ha] at h
          cases h
          exact ⟨a, List.mem_cons_self, ha⟩
      | ok b =>
          cases hl : l.mapM g with
          | error e' =>
              rw [ha, hl] at h
              cases h
              obtain ⟨a', hmem, ha'⟩ := ih hl
              exact ⟨a', List.mem_cons_of_mem _ hmem, ha'⟩
          | ok bs =>
              rw [ha, hl] at h
              cases h

end

/-! ## One field -/

/-- There are as many values as the field counts, and the table of an array covers its range. -/
structure Ready (f : HidField) : Prop where
  value : f.value.length = f.reportCount.toNat
  usages : f.usage.length ≤ hidMaxUsages
  table : f.isVariable = false →
    intOfWord f.logicalMaximum - intOfWord f.logicalMinimum < f.usage.length

section
variable {f : HidField} {v v' : Word} {k : Nat}

theorem search_ne_zero_iff (array : List Word) (v : Word) : search array v ≠ 0 ↔ v ∉ array := by
  induction array with
  | nil => simp [search]
  | cons a array ih =>
      by_cases h : a = v
      · simp [search, h]
      · simp [search, h, ih, Ne.symm h]

theorem index_eq (h : Ready f) (harray : f.isVariable = false) (hv : f.inRange v = true) :
    f.index v = intOfWord v - intOfWord f.logicalMinimum ∧ 0 ≤ f.index v ∧
      f.index v < f.usage.length := by
  have htable := h.table harray
  have husages := h.usages
  simp only [HidField.inRange, Bool.and_eq_true, decide_eq_true_eq] at hv
  simp only [hidMaxUsages] at husages
  have hindex : f.index v = intOfWord v - intOfWord f.logicalMinimum := by
    simp only [HidField.index, intOfWord] at hv htable ⊢
    rw [BitVec.toInt_sub]
    exact Int.bmod_eq_of_le (by omega) (by omega)
  omega

theorem usageAt_some (h : Ready f) (harray : f.isVariable = false) (hv : f.inRange v = true) :
    ∃ u, f.usageAt v = some u := by
  obtain ⟨-, hge, hlt⟩ := index_eq h harray hv
  rw [HidField.usageAt, if_pos hge]
  exact ⟨_, List.getElem?_eq_getElem (by omega)⟩

/-- A usage has one value that stands for it. -/
theorem Stands.unique (h : Ready f) (harray : f.isVariable = false) (hv : f.Stands v k)
    (hv' : f.Stands v' k) : v = v' := by
  have hindex := (index_eq h harray hv.1).1
  have hindex' := (index_eq h harray hv'.1).1
  rw [hv.2.1] at hindex
  rw [hv'.2.1] at hindex'
  refine BitVec.eq_of_toInt_eq ?_
  simp only [intOfWord] at hindex hindex'
  omega

/-- The events for a value: one if it stands for a usage and is not among the others. -/
theorem changeEvent_ok (h : Ready f) (harray : f.isVariable = false) (v : Word)
    (others : List Word) (now : Word) :
    ∃ evs, changeEvent f v others now = .ok evs ∧
      ∀ e, e ∈ evs ↔ e.2 = now ∧ f.Stands v e.1 ∧ v ∉ others := by
  unfold changeEvent
  by_cases hv : f.inRange v = true
  · obtain ⟨u, hu⟩ := usageAt_some h harray hv
    obtain ⟨-, hge, -⟩ := index_eq h harray hv
    have hstands : ∀ k, f.Stands v k ↔ (f.index v).toNat = k ∧ u.hid ≠ 0 := by
      intro k
      constructor
      · rintro ⟨-, hk, u', hu', hne⟩
        rw [hu] at hu'
        cases hu'
        exact ⟨by omega, hne⟩
      · rintro ⟨hk, hne⟩
        exact ⟨hv, by omega, u, hu, hne⟩
    rw [if_pos hv, hu]
    simp only [search_ne_zero_iff]
    by_cases hnew : u.hid ≠ 0 ∧ v ∉ others
    · refine ⟨_, if_pos hnew, ?_⟩
      intro e
      rw [List.mem_singleton, hstands]
      constructor
      · rintro rfl
        exact ⟨rfl, ⟨rfl, hnew.1⟩, hnew.2⟩
      · rintro ⟨hnow, ⟨hk, -⟩, -⟩
        exact Prod.ext hk.symm hnow
    · refine ⟨_, if_neg hnew, ?_⟩
      intro e
      refine iff_of_false List.not_mem_nil ?_
      rintro ⟨-, hk, hnot⟩
      exact hnew ⟨((hstands _).mp hk).2, hnot⟩
  · refine ⟨[], if_neg hv, ?_⟩
    intro e
    refine iff_of_false List.not_mem_nil ?_
    rintro ⟨-, hk, -⟩
    exact hv hk.1

theorem fieldEvents_ok (h : Ready f) (harray : f.isVariable = false) (values : List Word)
    (n : Nat) :
    ∃ evs, fieldEvents f values n = .ok evs ∧
      ∀ e, e ∈ evs ↔
        (e.2 = 0 ∧ f.Stands (f.value.getD n 0) e.1 ∧ f.value.getD n 0 ∉ values) ∨
        (e.2 = 1 ∧ f.Stands (values.getD n 0) e.1 ∧ values.getD n 0 ∉ f.value) := by
  obtain ⟨released, hreleased, hmem⟩ :=
    changeEvent_ok h harray (f.value.getD n 0) values 0
  obtain ⟨pressed, hpressed, hmem'⟩ :=
    changeEvent_ok h harray (values.getD n 0) f.value 1
  refine ⟨released ++ pressed, ?_, ?_⟩
  · rw [fieldEvents, harray, hreleased, hpressed]
    rfl
  · intro e
    rw [List.mem_append, hmem, hmem']

theorem readValue_ok {m : Memory Byte} {data n : Nat} (h : readValue m f data n = .ok v) :
    v = fieldValue m f data n := by
  unfold readValue at h
  dsimp only at h
  split at h
  · split at h
    · cases h
    · split at h
      · cases h
      · exact (Except.ok.inj h).symm
  · exact (Except.ok.inj h).symm

theorem readValue_rollOver {m : Memory Byte} {data n : Nat}
    (h : readValue m f data n = .error .rollOver) : f.RollsOver (fieldValue m f data n) := by
  unfold readValue at h
  dsimp only at h
  split at h
  · rename_i hin
    split at h
    · cases h
    · rename_i u hu
      split at h
      · rename_i hroll
        exact ⟨hin.1, hin.2, u, hu, hroll⟩
      · cases h
  · cases h

theorem readValue_not_outside (h : Ready f) (m : Memory Byte) (data n : Nat) :
    readValue m f data n ≠ .error .outside := by
  unfold readValue
  dsimp only
  split
  · rename_i harray
    obtain ⟨u, hu⟩ := usageAt_some h harray.1 harray.2
    rw [hu]
    dsimp only
    split <;> nofun
  · nofun

end

theorem reported_array {f : HidField} (harray : f.isVariable = false) (k : Nat) :
    f.reported k = if ∃ v ∈ f.value, f.Stands v k then 1 else 0 := by
  rw [HidField.reported, harray]
  rfl

/-- The values of a field, by their numbers. -/
theorem mem_iff_getD {vs : List Word} {n : Nat} (h : vs.length = n) {v : Word} :
    v ∈ vs ↔ ∃ k < n, vs.getD k 0 = v := by
  subst h
  constructor
  · intro hv
    obtain ⟨k, hk, rfl⟩ := List.getElem_of_mem hv
    exact ⟨k, hk, List.getD_eq_getElem _ _ hk⟩
  · rintro ⟨k, hk, rfl⟩
    rw [List.getD_eq_getElem _ _ hk]
    exact List.getElem_mem _

section
variable {f : HidField} {values : List Word} {events : List (List (Nat × Word))} (h : Ready f)
  (hvalues : values.length = f.reportCount.toNat)
  (hevents : (List.range f.reportCount.toNat).mapM (fieldEvents f values) = .ok events)
include h hevents

/-- An event of an array is one of some round. -/
theorem mem_array_events (harray : f.isVariable = false) (e : Nat × Word) :
    e ∈ events.flatten ↔ ∃ n < f.reportCount.toNat,
      (e.2 = 0 ∧ f.Stands (f.value.getD n 0) e.1 ∧ f.value.getD n 0 ∉ values) ∨
      (e.2 = 1 ∧ f.Stands (values.getD n 0) e.1 ∧ values.getD n 0 ∉ f.value) := by
  obtain ⟨hlength, heach⟩ := mapM_range_ok hevents
  have hround : ∀ (n : Nat) (hn : n < events.length), e ∈ events[n] ↔
      (e.2 = 0 ∧ f.Stands (f.value.getD n 0) e.1 ∧ f.value.getD n 0 ∉ values) ∨
      (e.2 = 1 ∧ f.Stands (values.getD n 0) e.1 ∧ values.getD n 0 ∉ f.value) := by
    intro n hn
    obtain ⟨evs, hok, hspec⟩ := fieldEvents_ok h harray values n
    rw [Except.ok.inj ((heach n hn).symm.trans hok)]
    exact hspec e
  rw [List.mem_flatten]
  constructor
  · rintro ⟨evs, hevs, he⟩
    obtain ⟨n, hn, rfl⟩ := List.getElem_of_mem hevs
    exact ⟨n, by omega, (hround n hn).mp he⟩
  · rintro ⟨n, hn, he⟩
    exact ⟨_, List.getElem_mem _, (hround n (by omega)).mpr he⟩

include hvalues

/-- The events of an array: each usage that is not active any more, and each that is now. -/
theorem array_tells (harray : f.isVariable = false) :
    Tells events.flatten f.reported { f with value := values }.reported := by
  have hmem := mem_array_events h hevents harray
  constructor
  · intro e he
    rw [reported_array (f := { f with value := values }) harray]
    obtain ⟨n, hn, ⟨hnow, hstands, hnot⟩ | ⟨hnow, hstands, -⟩⟩ := (hmem e).mp he
    · rw [hnow, if_neg]
      rintro ⟨v, hv, hstands'⟩
      exact hnot (Stands.unique h harray hstands hstands' ▸ hv)
    · rw [hnow, if_pos ⟨_, (mem_iff_getD hvalues).mpr ⟨n, hn, rfl⟩, hstands⟩]
  · intro k hk
    rw [reported_array harray, reported_array (f := { f with value := values }) harray]
    have hiff : (∃ v ∈ f.value, f.Stands v k) ↔ ∃ v ∈ values, f.Stands v k := by
      constructor
      · rintro ⟨v, hv, hstands⟩
        refine ⟨v, ?_, hstands⟩
        by_contra hnot
        obtain ⟨n, hn, rfl⟩ := (mem_iff_getD h.value).mp hv
        exact hk (k, 0) ((hmem _).mpr ⟨n, hn, .inl ⟨rfl, hstands, hnot⟩⟩) rfl
      · rintro ⟨v, hv, hstands⟩
        refine ⟨v, ?_, hstands⟩
        by_contra hnot
        obtain ⟨n, hn, rfl⟩ := (mem_iff_getD hvalues).mp hv
        exact hk (k, 1) ((hmem _).mpr ⟨n, hn, .inr ⟨rfl, hstands, hnot⟩⟩) rfl
    exact if_congr hiff rfl rfl

/-- The events of a variable field: one for each value. -/
theorem variable_tells (hvariable : f.isVariable = true) :
    Tells events.flatten f.reported { f with value := values }.reported := by
  obtain ⟨hlength, heach⟩ := mapM_range_ok hevents
  have hround : ∀ (n : Nat) (hn : n < events.length), events[n] = [(n, values.getD n 0)] := by
    intro n hn
    have hok := heach n hn
    rw [fieldEvents, if_pos hvariable] at hok
    exact (Except.ok.inj hok).symm
  have hreported : ∀ (vs : List Word) (k : Nat),
      ({ f with value := vs } : HidField).reported k = vs.getD k 0 :=
    fun vs k => if_pos hvariable
  constructor
  · intro e he
    obtain ⟨evs, hevs, he⟩ := List.mem_flatten.mp he
    obtain ⟨n, hn, rfl⟩ := List.getElem_of_mem hevs
    rw [hround n hn, List.mem_singleton] at he
    rw [he, hreported]
  · intro k hk
    rw [hreported values, show f.reported k = f.value.getD k 0 from if_pos hvariable]
    by_cases hin : k < f.reportCount.toNat
    · refine absurd rfl (hk (k, values.getD k 0) ?_)
      refine List.mem_flatten.mpr ⟨events[k], List.getElem_mem _, ?_⟩
      rw [hround k (by omega)]
      exact List.mem_singleton_self _
    · rw [List.getD_eq_default _ _ (by rw [h.value]; omega),
        List.getD_eq_default _ _ (by rw [hvalues]; omega)]

end

/-- A field after a report: nothing but its values has changed, and these are the ones of the report
if there was memory and the keyboard could tell. -/
structure Renewed (alloc : Bool) (m : Memory Byte) (data : Nat) (f f' : HidField) : Prop where
  format : f' = { f with value := f'.value }
  ready : Ready f'
  values : alloc = true → (∀ v ∈ fieldValues m f data, ¬ f.RollsOver v) →
    f'.value = fieldValues m f data

theorem mapM_readValue {f : HidField} {m : Memory Byte} {data : Nat} {values : List Word}
    (h : (List.range f.reportCount.toNat).mapM (readValue m f data) = .ok values) :
    values = fieldValues m f data := by
  obtain ⟨hlength, heach⟩ := mapM_range_ok h
  refine List.ext_getElem (by rw [fieldValues, List.length_map, List.length_range, hlength]) ?_
  intro n hn hn'
  simp only [readValue_ok (heach n hn), fieldValues, List.getElem_map, List.getElem_range]

/-- The values are kept. -/
theorem Ready.renewed {f : HidField} (h : Ready f) {alloc : Bool} {m : Memory Byte} {data : Nat}
    (hkept : alloc = true → ∃ v ∈ fieldValues m f data, f.RollsOver v) :
    Renewed alloc m data f f where
  format := rfl
  ready := h
  values := by
    intro halloc hno
    obtain ⟨v, hv, hroll⟩ := hkept halloc
    exact absurd hroll (hno v hv)

/-- **One field.**  It is read without an access outside of the table of usages, and its events
tell what has changed. -/
theorem hidInputField_spec {f : HidField} (h : Ready f) (alloc : Bool) (m : Memory Byte)
    (data : Nat) :
    ∃ f' evs, hidInputField alloc m f data = some (f', evs) ∧ Renewed alloc m data f f' ∧
      Tells evs f.reported f'.reported := by
  unfold hidInputField
  split
  · cases hvalues : (List.range f.reportCount.toNat).mapM (readValue m f data) with
    | error e =>
        obtain ⟨n, hn, hstop⟩ := mapM_error hvalues
        cases e with
        | rollOver =>
            have hroll : ∃ v ∈ fieldValues m f data, f.RollsOver v :=
              ⟨_, List.mem_map_of_mem hn, readValue_rollOver hstop⟩
            exact ⟨f, [], rfl, h.renewed (fun _ => hroll), Tells.nil _⟩
        | outside => exact absurd hstop (readValue_not_outside h m data n)
    | ok values =>
        have hlength : values.length = f.reportCount.toNat := by
          exact (mapM_range_ok hvalues).1
        cases hevents : (List.range f.reportCount.toNat).mapM (fieldEvents f values) with
        | error e =>
            obtain ⟨n, -, hn⟩ := mapM_error hevents
            cases hkind : f.isVariable with
            | true =>
                rw [fieldEvents, if_pos hkind] at hn
                cases hn
            | false =>
                obtain ⟨evs, hok, -⟩ := fieldEvents_ok h hkind values n
                rw [hok] at hn
                cases hn
        | ok events =>
            have hready : Ready { f with value := values } := ⟨hlength, h.usages, h.table⟩
            refine ⟨{ f with value := values }, events.flatten, ?_,
              ⟨rfl, hready, fun _ _ => mapM_readValue hvalues⟩, ?_⟩
            · simp only [hevents]
            · cases hkind : f.isVariable with
              | true => exact variable_tells h hlength hevents hkind
              | false => exact array_tells h hlength hevents hkind
  · rename_i hno
    exact ⟨f, [], rfl, h.renewed (fun halloc => absurd halloc hno), Tells.nil _⟩

/-! ## Reports -/

theorem reportedFrom_cons_self (i : Nat) (f : HidField) (fs : List HidField) (k : Nat) :
    reportedFrom i (f :: fs) (i, k) = f.reported k := by
  simp [reportedFrom]

theorem reportedFrom_cons_of_lt {i : Nat} {f : HidField} {fs : List HidField} {p : Nat × Nat}
    (h : i < p.1) : reportedFrom i (f :: fs) p = reportedFrom (i + 1) fs p := by
  rw [reportedFrom, reportedFrom, if_pos (Nat.le_of_lt h), if_pos (Nat.succ_le_of_lt h),
    show p.1 - i = p.1 - (i + 1) + 1 by omega, List.getElem?_cons_succ]

theorem inputFields_spec {fs : List HidField} (h : ∀ f ∈ fs, Ready f) (alloc : Nat → Bool)
    (m : Memory Byte) (data i : Nat) :
    ∃ fs' evs, inputFields alloc m data i fs = some (fs', evs) ∧ fs'.length = fs.length ∧
      (∀ j f f', fs[j]? = some f → fs'[j]? = some f' → Renewed (alloc (i + j)) m data f f') ∧
      (∀ e ∈ evs, i ≤ e.1.1) ∧ Tells evs (reportedFrom i fs) (reportedFrom i fs') := by
  induction fs generalizing i with
  | nil => exact ⟨[], [], rfl, rfl, nofun, fun _ he => absurd he List.not_mem_nil, Tells.nil _⟩
  | cons f fs ih =>
      obtain ⟨f', evs, hfield, hrenewed, htells⟩ :=
        hidInputField_spec (h f List.mem_cons_self) (alloc i) m data
      obtain ⟨fs', rest, hrest, hlength, hothers, hfrom, htells'⟩ :=
        ih (fun g hg => h g (List.mem_cons_of_mem _ hg)) (i + 1)
      refine ⟨f' :: fs', evs.map (fun e => ((i, e.1), e.2)) ++ rest, ?_, ?_, ?_, ?_, ?_, ?_⟩
      · rw [inputFields, hfield, hrest]
        rfl
      · rw [List.length_cons, List.length_cons, hlength]
      · intro j g g' hg hg'
        cases j with
        | zero =>
            cases hg
            cases hg'
            exact hrenewed
        | succ j =>
            rw [show i + (j + 1) = i + 1 + j by omega]
            exact hothers j g g' hg hg'
      · intro e he
        rcases List.mem_append.mp he with he | he
        · obtain ⟨e', -, rfl⟩ := List.mem_map.mp he
          exact Nat.le_refl i
        · exact Nat.le_of_succ_le (hfrom e he)
      · intro e he
        rcases List.mem_append.mp he with he | he
        · obtain ⟨e', he', rfl⟩ := List.mem_map.mp he
          rw [reportedFrom_cons_self]
          exact htells.now e' he'
        · rw [reportedFrom_cons_of_lt (hfrom e he)]
          exact htells'.now e he
      · rintro ⟨j, k⟩ hk
        rcases Nat.lt_trichotomy i j with hlt | rfl | hgt
        · rw [reportedFrom_cons_of_lt hlt, reportedFrom_cons_of_lt hlt]
          exact htells'.same _ (fun e he => hk e (List.mem_append_right _ he))
        · rw [reportedFrom_cons_self, reportedFrom_cons_self]
          refine htells.same k ?_
          intro e he heq
          refine hk ((i, e.1), e.2) (List.mem_append_left _ (List.mem_map.mpr ⟨e, he, rfl⟩)) ?_
          rw [heq]
        · rw [reportedFrom, reportedFrom, if_neg (by simpa using hgt), if_neg (by simpa using hgt)]

/-- If the buffer is long enough, the bytes of the report are those that came, and 0. -/
theorem clearRest_spec {report : HidReport} {data stop : Nat}
    (h : data + report.bytes.toNat ≤ stop) (m : Memory Byte) (size : Nat) :
    ∃ m', clearRest report m data size stop = some m' ∧
      ∀ x, data ≤ x → x < data + report.bytes.toNat →
        m' x = if x < data + size then m x else 0 := by
  unfold clearRest
  dsimp only
  rw [if_pos h]
  split
  · refine ⟨_, rfl, ?_⟩
    intro x hge hlt
    split
    · exact Memory.write_outside m (.inl (by omega))
    · obtain ⟨y, rfl⟩ := Nat.exists_eq_add_of_le (show data + size ≤ x by omega)
      exact Memory.write_inside m (by omega)
  · refine ⟨m, rfl, ?_⟩
    intro x _ hlt
    rw [if_pos (by omega)]

/-- The values of a field depend on nothing but the bits of the report. -/
theorem fieldValues_congr {f : HidField} {m m' : Memory Byte} {data stop : Nat}
    (hsize : f.reportSize.toNat ≤ 32) (hwithin : f.reportOffset.toNat + f.bits ≤ stop)
    (hstop : stop < 2 ^ 32)
    (h : ∀ k, 8 * data ≤ k → k < 8 * data + stop → m.bit k = m'.bit k) :
    fieldValues m f data = fieldValues m' f data := by
  refine List.map_congr_left ?_
  intro n hn
  have hcount := List.mem_range.mp hn
  have hextract : extract m data (f.reportOffset + BitVec.ofNat 32 n * f.reportSize) f.reportSize =
      extract m' data (f.reportOffset + BitVec.ofNat 32 n * f.reportSize) f.reportSize := by
    apply BitVec.eq_of_getLsbD_eq
    intro i _
    rw [getLsbD_extract hsize, getLsbD_extract hsize, value_offset (by omega) hcount]
    by_cases hi : i < f.reportSize.toNat
    · have hle : (n + 1) * f.reportSize.toNat ≤ f.bits := by
        rw [HidField.bits, Nat.mul_comm]
        exact Nat.mul_le_mul_left _ hcount
      rw [Nat.succ_mul] at hle
      rw [h _ (by omega) (by omega)]
    · rw [decide_eq_false hi, Bool.false_and, Bool.false_and]
  simp only [fieldValue, hextract]

theorem setReport_same (device : HidDevice) (type : ReportType) (n : Nat) (report : HidReport) :
    (device.setReport type n report).reportIdHash type n = some report := by
  simp only [HidDevice.setReport, Function.update_self]

theorem setReport_other {device : HidDevice} {type type' : ReportType} {n n' : Nat}
    {report : HidReport} (h : ¬ (type' = type ∧ n' = n)) :
    (device.setReport type n report).reportIdHash type' n' = device.reportIdHash type' n' := by
  simp only [HidDevice.setReport]
  by_cases htype : type' = type
  · rw [htype, Function.update_self, Function.update_of_ne (fun hn => h ⟨htype, hn⟩)]
  · rw [Function.update_of_ne htype]

theorem fieldAt_setReport_same (device : HidDevice) (type : ReportType) (n i : Nat)
    (report : HidReport) :
    (device.setReport type n report).fieldAt type n i = report.field[i]? := by
  rw [HidDevice.fieldAt, setReport_same]
  rfl

theorem fieldAt_setReport_other {device : HidDevice} {type type' : ReportType} {n n' : Nat}
    {report : HidReport} (h : ¬ (type' = type ∧ n' = n)) (i : Nat) :
    (device.setReport type n report).fieldAt type' n' i = device.fieldAt type' n' i := by
  rw [HidDevice.fieldAt, HidDevice.fieldAt, setReport_other h]

/-- A report whose fields can be read, and that has room in a buffer behind its number. -/
structure ReportReady (bufsize number : Nat) (report : HidReport) : Prop where
  fields : ∀ f ∈ report.field, Ready f
  laid : ∀ f ∈ report.field,
    f.reportSize.toNat ≤ 32 ∧ f.reportOffset.toNat + f.bits ≤ report.size.toNat
  room : number + report.bytes.toNat ≤ bufsize

def DeviceReady (bufsize : Nat) (device : HidDevice) : Prop :=
  ∀ type id report, device.reportIdHash type id = some report →
    ReportReady bufsize (if device.numbered type then 1 else 0) report

/-- Nothing but values has changed. -/
structure SameFormat (device device' : HidDevice) : Prop where
  numbered : device'.numbered = device.numbered
  fields : ∀ type id i f, device.fieldAt type id i = some f →
    ∃ values, device'.fieldAt type id i = some { f with value := values }

theorem SameFormat.refl (device : HidDevice) : SameFormat device device :=
  ⟨rfl, fun _ _ _ f hf => ⟨f.value, hf⟩⟩

section
variable {bufsize : Nat} {device : HidDevice} {a : Arrival}

/-- The fields of a report that came are renewed from the bytes that came. -/
theorem inputFields_received {report : HidReport}
    (h : ReportReady bufsize (if device.numbered a.type then 1 else 0) report) :
    ∃ m fields evs, clearRest report a.m (a.body device.numbered) (a.length device.numbered)
        (a.data + bufsize) = some m ∧
      inputFields a.alloc m (a.body device.numbered) 0 report.field = some (fields, evs) ∧
      fields.length = report.field.length ∧
      (∀ i f f', report.field[i]? = some f → fields[i]? = some f' →
        Renewed (a.alloc i) (a.received device.numbered) (a.body device.numbered) f f') ∧
      Tells evs (reportedFrom 0 report.field) (reportedFrom 0 fields) := by
  have hstop : a.body device.numbered + report.bytes.toNat ≤ a.data + bufsize := by
    have hroom := h.room
    unfold Arrival.body
    split
    · rename_i hnumbered
      rw [if_pos hnumbered] at hroom
      omega
    · omega
  obtain ⟨m, hm, hbytes⟩ := clearRest_spec hstop a.m (a.length device.numbered)
  obtain ⟨fields, evs, hfields, hlength, hrenewed, -, htells⟩ :=
    inputFields_spec h.fields a.alloc m (a.body device.numbered) 0
  refine ⟨m, fields, evs, hm, hfields, hlength, ?_, htells⟩
  intro i f f' hf hf'
  have hkeeps := hrenewed i f f' hf hf'
  rw [Nat.zero_add] at hkeeps
  obtain ⟨hsize, hwithin⟩ := h.laid f (List.mem_of_getElem? hf)
  -- the field lies in the bytes of the report, and there the memory has what came
  have hsame : fieldValues m f (a.body device.numbered) =
      fieldValues (a.received device.numbered) f (a.body device.numbered) := by
    refine fieldValues_congr hsize hwithin report.size.isLt ?_
    intro k hge hlt
    have hcovers := (bytes_bounds report).1
    rw [Memory.bit, Memory.bit, hbytes _ (by omega) (by omega)]
    rfl
  refine ⟨hkeeps.format, hkeeps.ready, ?_⟩
  rw [← hsame]
  exact hkeeps.values

/-- What one report changes. -/
structure Taken (a : Arrival) (device device' : HidDevice) : Prop where
  values : ∀ type id, a.Of device.numbered type id → ∀ i f, device.fieldAt type id i = some f →
    a.alloc i = true → (∀ v ∈ a.carries device.numbered f, ¬ f.RollsOver v) →
    device'.fieldAt type id i = some { f with value := a.carries device.numbered f }
  others : ∀ type id, ¬ a.Of device.numbered type id →
    ∀ i, device'.fieldAt type id i = device.fieldAt type id i

/-- An empty report, or one that the device does not have. -/
theorem Taken.ignored
    (h : a.size = 0 ∨ device.reportIdHash a.type (a.number device.numbered) = none) :
    Taken a device device := by
  refine ⟨?_, fun _ _ _ _ => rfl⟩
  rintro type id ⟨hpos, rfl, rfl⟩ i f hf
  rcases h with hzero | hnone
  · exact absurd hzero (Nat.ne_of_gt hpos)
  · rw [HidDevice.fieldAt, hnone] at hf
    cases hf

section
variable {report : HidReport} {fields : List HidField}
  (hfound : device.reportIdHash a.type (a.number device.numbered) = some report)
  (hlength : fields.length = report.field.length)
  (hrenewed : ∀ i f f', report.field[i]? = some f → fields[i]? = some f' →
    Renewed (a.alloc i) (a.received device.numbered) (a.body device.numbered) f f')
include hfound hlength hrenewed

theorem fieldAt_renewed {i : Nat} {f : HidField}
    (hf : device.fieldAt a.type (a.number device.numbered) i = some f) :
    ∃ f', (device.setReport a.type (a.number device.numbered)
        { report with field := fields }).fieldAt a.type (a.number device.numbered) i = some f' ∧
      Renewed (a.alloc i) (a.received device.numbered) (a.body device.numbered) f f' := by
  have hf' : report.field[i]? = some f := by
    rw [HidDevice.fieldAt, hfound] at hf
    exact hf
  have hi : i < fields.length := by
    rw [hlength]
    exact (List.getElem?_eq_some_iff.mp hf').1
  refine ⟨fields[i], ?_, hrenewed i f _ hf' (List.getElem?_eq_getElem hi)⟩
  rw [fieldAt_setReport_same]
  exact List.getElem?_eq_getElem hi

theorem taken_renewed (hsize : a.size ≠ 0) :
    SameFormat device
        (device.setReport a.type (a.number device.numbered) { report with field := fields }) ∧
      Taken a device
        (device.setReport a.type (a.number device.numbered) { report with field := fields }) := by
  refine ⟨⟨rfl, ?_⟩, ?_, ?_⟩
  · intro type id i f hf
    by_cases hkey : type = a.type ∧ id = a.number device.numbered
    · obtain ⟨rfl, rfl⟩ := hkey
      obtain ⟨f', hf', hkeeps⟩ := fieldAt_renewed hfound hlength hrenewed hf
      exact ⟨f'.value, hf'.trans (congrArg some hkeeps.format)⟩
    · exact ⟨f.value, (fieldAt_setReport_other hkey i).trans hf⟩
  · rintro type id ⟨-, rfl, rfl⟩ i f hf halloc hno
    obtain ⟨f', hf', hkeeps⟩ := fieldAt_renewed hfound hlength hrenewed hf
    rw [hf', hkeeps.format, hkeeps.values halloc hno]
    rfl
  · intro type id hother i
    refine fieldAt_setReport_other ?_ i
    rintro ⟨htype, hid⟩
    exact hother ⟨Nat.pos_of_ne_zero hsize, htype, hid⟩

theorem deviceReady_renewed (h : DeviceReady bufsize device) :
    DeviceReady bufsize
      (device.setReport a.type (a.number device.numbered) { report with field := fields }) := by
  intro type id r hr
  by_cases hkey : type = a.type ∧ id = a.number device.numbered
  · obtain ⟨rfl, rfl⟩ := hkey
    rw [setReport_same] at hr
    cases hr
    have hbefore := h _ _ _ hfound
    have hold : ∀ f' ∈ fields,
        ∃ f ∈ report.field, f' = { f with value := f'.value } ∧ Ready f' := by
      intro f' hf'
      obtain ⟨i, hi, rfl⟩ := List.getElem_of_mem hf'
      have hkeeps := hrenewed i _ _ (List.getElem?_eq_getElem (hlength ▸ hi))
        (List.getElem?_eq_getElem hi)
      exact ⟨_, List.getElem_mem _, hkeeps.format, hkeeps.ready⟩
    refine ⟨?_, ?_, hbefore.room⟩
    · intro f' hf'
      obtain ⟨-, -, -, hready⟩ := hold f' hf'
      exact hready
    · intro f' hf'
      obtain ⟨f, hf, hformat, -⟩ := hold f' hf'
      rw [hformat]
      exact hbefore.laid f hf
  · rw [setReport_other hkey] at hr
    exact h type id r hr

end

/-- The events of a report are about its own fields. -/
theorem tells_setReport {n : Nat} {type : ReportType} {report : HidReport} {fields : List HidField}
    {evs : List ((Nat × Nat) × Word)} (hfound : device.reportIdHash type n = some report)
    (h : Tells evs (reportedFrom 0 report.field) (reportedFrom 0 fields)) :
    Tells (evs.map (fun e => ((⟨type, n, e.1.1, e.1.2⟩ : Key), e.2))) device.reported
      (device.setReport type n { report with field := fields }).reported := by
  have hsame : ∀ key : Key, key.type = type → key.id = n →
      (device.setReport type n { report with field := fields }).reported key =
        reportedFrom 0 fields (key.field, key.usage) := by
    rintro key htype hid
    rw [HidDevice.reported, htype, hid, setReport_same]
    rfl
  constructor
  · intro e he
    obtain ⟨e', he', rfl⟩ := List.mem_map.mp he
    rw [hsame _ rfl rfl]
    exact h.now e' he'
  · rintro key hk
    by_cases hkey : key.type = type ∧ key.id = n
    · rw [hsame key hkey.1 hkey.2, HidDevice.reported, hkey.1, hkey.2, hfound]
      refine h.same (key.field, key.usage) ?_
      intro e he heq
      refine hk _ (List.mem_map.mpr ⟨e, he, rfl⟩) ?_
      rw [heq]
      obtain ⟨type, id, field, usage⟩ := key
      obtain ⟨rfl, rfl⟩ := hkey
      rfl
    · rw [HidDevice.reported, HidDevice.reported, setReport_other hkey]

/-- **One report.**  It is read, its events tell what has changed, and its fields say what it
said. -/
theorem hidInputReport_spec (h : DeviceReady bufsize device) (a : Arrival) :
    ∃ ret device' evs, hidInputReport bufsize device a = some (ret, device', evs) ∧
      DeviceReady bufsize device' ∧ Tells evs device.reported device'.reported ∧
      SameFormat device device' ∧ Taken a device device' := by
  unfold hidInputReport
  split
  · rename_i hzero
    exact ⟨_, _, _, rfl, h, Tells.nil _, .refl device, .ignored (.inl hzero)⟩
  · rename_i hsize
    dsimp only
    cases hfound : device.reportIdHash a.type (a.number device.numbered) with
    | none => exact ⟨_, _, _, rfl, h, Tells.nil _, .refl device, .ignored (.inr hfound)⟩
    | some report =>
        obtain ⟨m, fields, evs, hm, hfields, hlength, hrenewed, htells⟩ :=
          inputFields_received (h _ _ _ hfound)
        obtain ⟨hformat, htaken⟩ := taken_renewed hfound hlength hrenewed hsize
        refine ⟨0, _, _, ?_, deviceReady_renewed hfound hlength hrenewed h,
          tells_setReport hfound htells, hformat, htaken⟩
        show (clearRest _ _ _ _ _).bind _ = _
        rw [hm]
        show (inputFields _ _ _ _ _).bind _ = _
        rw [hfields]
        rfl

end

/-- The reports one after the other: `before`, the last one of a number, and `after`. -/
theorem Said.cons {a : Arrival} {as : List Arrival} {device device₁ device' : HidDevice}
    (hformat : SameFormat device device₁) (htaken : Taken a device device₁)
    (hsaid : Said as device₁ device') : Said (a :: as) device device' := by
  obtain ⟨hlast, hnone⟩ := hsaid
  rw [hformat.numbered] at hlast hnone
  constructor
  · intro type id before b after hsplit hof hafter i f hf halloc hno
    cases before with
    | nil =>
        obtain ⟨rfl, rfl⟩ := List.cons.inj hsplit
        rw [hnone type id hafter i]
        exact htaken.values type id hof i f hf halloc hno
    | cons c before =>
        obtain ⟨rfl, rfl⟩ := List.cons.inj hsplit
        obtain ⟨values, hf₁⟩ := hformat.fields type id i f hf
        have hsaid := hlast type id before b after rfl hof hafter i _ hf₁ halloc hno
        exact hsaid
  · intro type id hnot i
    rw [hnone type id (fun b hb => hnot b (List.mem_cons_of_mem _ hb)) i]
    exact htaken.others type id (hnot a List.mem_cons_self) i

theorem inputReports_spec {bufsize : Nat} {device : HidDevice} (h : DeviceReady bufsize device)
    (as : List Arrival) :
    ∃ device' evs, inputReports bufsize device as = some (device', evs) ∧
      replay evs device.reported = device'.reported ∧ Said as device device' := by
  induction as generalizing device with
  | nil =>
      refine ⟨device, [], rfl, rfl, ?_, fun _ _ _ _ => rfl⟩
      intro type id before a after hsplit
      cases before <;> cases hsplit
  | cons a as ih =>
      obtain ⟨ret, device₁, evs, hreport, hready, htells, hformat, htaken⟩ :=
        hidInputReport_spec h a
      obtain ⟨device', rest, hrest, hreplay, hsaid⟩ := ih hready
      refine ⟨device', evs ++ rest, ?_, ?_, hsaid.cons hformat htaken⟩
      · rw [inputReports, hreport]
        show (inputReports bufsize device₁ as).bind _ = _
        rw [hrest]
        rfl
      · rw [replay_append, htells.replay, hreplay]

/-- **Reports are told by their differences.**  Let the device be parsed from a descriptor, for each
array let the table of usages cover the logical range, and let the buffers have room for each report
and its number.  Then whatever reports come, of any length and content, whether there is memory or
not, no access is outside of a table, and no byte behind the buffer is cleared; and to one who knows
what the fields said at first, the events of all reports, in their order, tell what the fields say
at last: of a variable its value, of a usage of an array whether it is active.  What they say at
last is what the last report of their number said, unless it was ignored. -/
theorem input_reports_replay (mem : Nat → Bool) (bytes : List Byte) (device : HidDevice)
    (hbytes : bytes.length ≤ hidMaxDescriptorSize) (hparse : hidParseReport mem bytes = .ok device)
    (htable : ∀ type id report, device.reportIdHash type id = some report → ∀ f ∈ report.field,
      f.isVariable = false →
        intOfWord f.logicalMaximum - intOfWord f.logicalMinimum < f.usage.length)
    (hroom : ∀ type id report, device.reportIdHash type id = some report →
      (if device.numbered type then 1 else 0) + report.bytes.toNat ≤ device.bufsize)
    (arrivals : List Arrival) :
    ∃ device' events, inputReports device.bufsize device arrivals = some (device', events) ∧
      (∀ key, replay events device.reported key = device'.reported key) ∧
      Said arrivals device device' := by
  have hready : DeviceReady device.bufsize device := by
    intro type id report hfound
    obtain ⟨-, hok⟩ := parse_reportOk hbytes hparse hfound
    refine ⟨?_, ?_, hroom type id report hfound⟩
    · intro f hf
      have hfield := hok.fields f hf
      exact ⟨hfield.value, hfield.usages.2.2, htable type id report hfound f hf⟩
    · intro f hf
      exact ⟨(hok.fields f hf).size, (hok.laid.within hf).2⟩
  obtain ⟨device', events, hrun, hreplay, hsaid⟩ := inputReports_spec hready arrivals
  exact ⟨device', events, hrun, fun key => congrFun hreplay key, hsaid⟩

/-- The descriptor of a keypad of two keys, and what is parsed from it. -/
def keypadDescriptor : List Byte :=
  [0x05, 0x07, 0x19, 0x04, 0x29, 0x05, 0x15, 0x01, 0x25, 0x02, 0x95, 0x01, 0x75, 0x08, 0x81, 0x00]

def keypadField : HidField where
  physical := 0
  logical := 0
  application := 0
  usage := [⟨0x00070004, 0⟩, ⟨0x00070005, 0⟩]
  flags := 0
  reportOffset := 0
  reportSize := 8
  reportCount := 1
  reportType := .input
  value := [0]
  logicalMinimum := 1
  logicalMaximum := 2
  physicalMinimum := 0
  physicalMaximum := 0
  unitExponent := 0
  unit := 0

def keypad : HidDevice :=
  ((HidParser.zero.setReport .input ⟨0, [], 0⟩).setReport .input ⟨0, [keypadField], 8⟩).device

/-- The second key is pressed, and then the first one. -/
def keysPressed : List Arrival :=
  [⟨.input, fun _ => 2, 0, 1, fun _ => true⟩, ⟨.input, fun _ => 1, 0, 1, fun _ => true⟩]

theorem keypad_hash {type : ReportType} {id : Nat} {report : HidReport}
    (h : keypad.reportIdHash type id = some report) : report = ⟨0, [keypadField], 8⟩ := by
  cases type with
  | input =>
      cases id with
      | zero =>
          cases h
          rfl
      | succ id => cases h
  | output => cases h
  | feature => cases h

theorem input_reports_replay_keypad :
    hidParseReport (fun _ => true) keypadDescriptor = .ok keypad ∧
      ∃ device' events, inputReports keypad.bufsize keypad keysPressed = some (device', events) ∧
        events = [(⟨.input, 0, 0, 1⟩, 1), (⟨.input, 0, 0, 1⟩, 0), (⟨.input, 0, 0, 0⟩, 1)] ∧
        (∀ key, replay events keypad.reported key = device'.reported key) ∧
        device'.fieldAt .input 0 0 = some { keypadField with value := [1] } := by
  have hparse : hidParseReport (fun _ => true) keypadDescriptor = .ok keypad := rfl
  obtain ⟨device', events, hrun, hreplay, hsaid⟩ := input_reports_replay _ keypadDescriptor keypad
    (by decide) hparse (by
      intro type id report hfound f hf _
      rw [keypad_hash hfound] at hf
      rw [List.mem_singleton.mp hf]
      decide)
    (by
      intro type id report hfound
      rw [keypad_hash hfound]
      refine Nat.le_trans ?_ (hidMinBufferSize_le_bufsize keypad)
      cases type <;> decide)
    keysPressed
  refine ⟨hparse, device', events, hrun, ?_, hreplay, ?_⟩
  · have hevents : (inputReports keypad.bufsize keypad keysPressed).map Prod.snd =
        some [(⟨.input, 0, 0, 1⟩, 1), (⟨.input, 0, 0, 1⟩, 0), (⟨.input, 0, 0, 0⟩, 1)] := by
      decide
    rw [hrun] at hevents
    exact Option.some.inj hevents
  · refine hsaid.last .input 0 [⟨.input, fun _ => 2, 0, 1, fun _ => true⟩] _ [] rfl
      ⟨by decide, rfl, rfl⟩ nofun 0 keypadField rfl rfl ?_
    intro v hv
    have hone : v = 1 := List.mem_singleton.mp hv
    rw [hone]
    rintro ⟨-, -, u, hu, hroll⟩
    cases hu
    exact absurd hroll (by decide)

end LinuxDrivers.Hid
