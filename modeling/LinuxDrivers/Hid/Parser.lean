/-
# `LinuxDrivers.Hid.Parser` — the parser of report descriptors

`hid_parse_report` of `drivers/hid/hid-core.c` reads the items of a report descriptor and builds
the reports of a device: for each type and number a report, with fields of so many values of so
many bits each, one after the other.

    global items  set the environment, and save and restore it on a stack of four
    local items   collect the usages of the next main item, 1024 at most
    main items    open and close collections, on a stack of four, and add fields

The parser gives up on the first item it cannot handle.  It looks a report up in a table of 256
without having checked the number.  What it finds behind the table, and what it overwrites there, is
not modelled: the model stops at the access, with `outside`, so nothing is said of descriptors in
which a data item has a report number of 256 or more.

Memory may run out; `mem n` tells whether the `n`-th allocation succeeds.

**Proved here.**

    an accepted descriptor is a sequence of short items whose collections and whose saved
    environments nest, four deep at most, with no delimiter among them   (`parse_well_formed`)
-/
import LinuxDrivers.Hid.Item

namespace LinuxDrivers.Hid

open LinuxDrivers.Lib

/-! ## What is parsed -/

inductive ReportType where
  | input
  | output
  | feature
  deriving DecidableEq, Repr

structure HidCollection where
  type : Word
  usage : Word
  level : Nat
  deriving DecidableEq, Repr

structure HidUsage where
  hid : Word
  collectionIndex : Nat
  deriving DecidableEq, Repr

/-- `usage` has the `maxusage` entries of the usage table, `value` the last values. -/
structure HidField where
  physical : Word
  logical : Word
  application : Word
  usage : List HidUsage
  flags : Word
  reportOffset : Word
  reportSize : Word
  reportCount : Word
  reportType : ReportType
  value : List Word
  logicalMinimum : Word
  logicalMaximum : Word
  physicalMinimum : Word
  physicalMaximum : Word
  unitExponent : Word
  unit : Word
  deriving DecidableEq, Repr

/-- `field` has the first `maxfield` entries; `size` is in bits. -/
structure HidReport where
  id : Nat
  field : List HidField
  size : Word
  deriving DecidableEq, Repr

/-- `collection` has the first `maxcollection` entries of an array of `collection_size`; the
tables of reports are functions of the type and the number. -/
structure HidDevice where
  collection : List HidCollection
  collectionSize : Nat
  maxapplication : Nat
  numbered : ReportType → Bool
  reportIdHash : ReportType → Nat → Option HidReport

/-! ## The parser -/

structure HidGlobal where
  usagePage : Word
  logicalMinimum : Word
  logicalMaximum : Word
  physicalMinimum : Word
  physicalMaximum : Word
  unitExponent : Word
  unit : Word
  reportId : Word
  reportSize : Word
  reportCount : Word
  deriving DecidableEq, Repr

/-- `usage` has the first `usage_index` entries. -/
structure HidLocal where
  usage : List HidUsage
  usageMinimum : Word
  delimiterDepth : Nat
  delimiterBranch : Nat
  deriving DecidableEq, Repr

/-- The stacks have their tops first; `allocs` counts the allocations so far. -/
structure HidParser where
  global : HidGlobal
  globalStack : List HidGlobal
  locals : HidLocal
  collectionStack : List Nat
  device : HidDevice
  allocs : Nat

/-- Why the parser stops: it gives up, or it is about to use an entry that the table of reports
does not have. -/
inductive Stop where
  | failed
  | outside
  deriving DecidableEq, Repr

def hidMaxUsages : Nat := 1024
def hidMaxFields : Nat := 64
def hidReportIds : Nat := 256
def hidGlobalStackSize : Nat := 4
def hidCollectionStackSize : Nat := 4
def hidDefaultNumCollections : Nat := 16

/-- The local environment after `memset`. -/
def HidLocal.zero : HidLocal := ⟨[], 0, 0, 0⟩

/-- What `kzalloc` leaves of a parser and its device, with the array of collections. -/
def HidParser.zero : HidParser where
  global := ⟨0, 0, 0, 0, 0, 0, 0, 0, 0, 0⟩
  globalStack := []
  locals := .zero
  collectionStack := []
  device := ⟨[], hidDefaultNumCollections, 0, fun _ => false, fun _ _ => none⟩
  allocs := 4

section
variable (mem : Nat → Bool)

/-! ### Collections and usages -/

/-- `usage[0]`, which is zero if there is none -/
def HidLocal.first (l : HidLocal) : Word := (l.usage.head?.map HidUsage.hid).getD 0

/-- The array of collections is doubled when it is full. -/
def growCollections (p : HidParser) : Except Stop HidParser :=
  if p.device.collection.length = p.device.collectionSize then
    if mem p.allocs then
      .ok { p with
        device := { p.device with collectionSize := p.device.collectionSize * 2 }
        allocs := p.allocs + 1 }
    else .error .failed
  else .ok p

def collectionApplication : Word := 1
def collectionPhysical : Word := 0
def collectionLogical : Word := 2

/-- The collection is put at the end of the array and on the stack. -/
def pushCollection (p : HidParser) (type : Word) : HidParser :=
  { p with
    collectionStack := p.device.collection.length :: p.collectionStack
    device := { p.device with
      collection := p.device.collection ++
        [⟨type, p.locals.first, p.collectionStack.length⟩]
      maxapplication :=
        if type = collectionApplication then p.device.maxapplication + 1
        else p.device.maxapplication } }

def openCollection (p : HidParser) (type : Word) : Except Stop HidParser :=
  if p.collectionStack.length = hidCollectionStackSize then .error .failed
  else
    match growCollections mem p with
    | .error e => .error e
    | .ok p => .ok (pushCollection p type)

def closeCollection (p : HidParser) : Except Stop HidParser :=
  match p.collectionStack with
  | [] => .error .failed
  | _ :: stack => .ok { p with collectionStack := stack }

/-- The usage of the innermost collection of the type, 0 if there is none. -/
def hidLookupCollection (p : HidParser) (type : Word) : Word :=
  (p.collectionStack.findSome? (fun n =>
    match p.device.collection[n]? with
    | some c => if c.type = type then some c.usage else none
    | none => none)).getD 0

def hidAddUsage (p : HidParser) (usage : Word) : Except Stop HidParser :=
  if hidMaxUsages ≤ p.locals.usage.length then .error .failed
  else
    .ok { p with locals := { p.locals with
      usage := p.locals.usage ++ [⟨usage, p.collectionStack.headD 0⟩] } }

/-- `for (n = usage_minimum; n <= data; n++)`; the number is how many entries of the array are
left, and with none left `hid_add_usage` fails. -/
def addUsages (data : Word) : Nat → Word → HidParser → Except Stop HidParser
  | 0, n, p => if n ≤ data then .error .failed else .ok p
  | left + 1, n, p =>
      if n ≤ data then
        match hidAddUsage p n with
        | .error e => .error e
        | .ok p => addUsages data left (n + 1) p
      else .ok p

/-! ### Reports and fields -/

/-- `report_enum->report_id_hash[id]`, for an array of 256 entries. -/
def HidDevice.reportAt (device : HidDevice) (type : ReportType) (id : Word) :
    Except Stop (Option HidReport) :=
  if id.toNat < hidReportIds then .ok (device.reportIdHash type id.toNat) else .error .outside

/-- The table has the report under its number. -/
def HidParser.setReport (p : HidParser) (type : ReportType) (report : HidReport) : HidParser :=
  { p with device := { p.device with
      reportIdHash := Function.update p.device.reportIdHash type
        (Function.update (p.device.reportIdHash type) report.id (some report)) } }

def hidRegisterReport (p : HidParser) (type : ReportType) (id : Word) :
    Except Stop (HidReport × HidParser) :=
  match p.device.reportAt type id with
  | .error e => .error e
  | .ok (some report) => .ok (report, p)
  | .ok none =>
      if mem p.allocs then
        let report : HidReport := ⟨id.toNat, [], 0⟩
        let numbered :=
          if id ≠ 0 then Function.update p.device.numbered type true else p.device.numbered
        .ok (report, HidParser.setReport
          { p with device := { p.device with numbered := numbered }, allocs := p.allocs + 1 }
          type report)
      else .error .failed

/-- `max_t(int, usage_index, report_count)` -/
def HidParser.usages (p : HidParser) : Nat :=
  (max (p.locals.usage.length : Int) (intOfWord p.global.reportCount)).toNat

/-- The usage table of a field: the last usage is repeated for the values in excess. -/
def HidParser.usageTable (p : HidParser) : List HidUsage :=
  (List.range p.usages).map (fun i =>
    p.locals.usage.getD (if p.locals.usage.length ≤ i then p.locals.usage.length - 1 else i) ⟨0, 0⟩)

/-- The field of a main item, at this offset of the report. -/
def HidParser.newField (p : HidParser) (type : ReportType) (flags offset : Word) : HidField where
  physical := hidLookupCollection p collectionPhysical
  logical := hidLookupCollection p collectionLogical
  application := hidLookupCollection p collectionApplication
  usage := p.usageTable
  flags := flags
  reportOffset := offset
  reportSize := p.global.reportSize
  reportCount := p.global.reportCount
  reportType := type
  value := List.replicate p.global.reportCount.toNat 0
  logicalMinimum := p.global.logicalMinimum
  logicalMaximum := p.global.logicalMaximum
  physicalMinimum := p.global.physicalMinimum
  physicalMaximum := p.global.physicalMaximum
  unitExponent := p.global.unitExponent
  unit := p.global.unit

/-- `hid_register_field`, and what is filled in; without the memory for it, or with 64 fields
already there, the field is left out. -/
def addFieldTo (p : HidParser) (type : ReportType) (flags offset : Word) (report : HidReport) :
    HidParser :=
  if report.field.length = hidMaxFields then p.setReport type report
  else if mem p.allocs then
    HidParser.setReport { p with allocs := p.allocs + 1 } type
      { report with field := report.field ++ [p.newField type flags offset] }
  else HidParser.setReport { p with allocs := p.allocs + 1 } type report

def hidAddField (p : HidParser) (type : ReportType) (flags : Word) : Except Stop HidParser :=
  match hidRegisterReport mem p type p.global.reportId with
  | .error e => .error e
  | .ok (report, p) =>
      if intOfWord p.global.logicalMaximum < intOfWord p.global.logicalMinimum then
        .error .failed
      else
        let offset := report.size
        let report :=
          { report with size := report.size + p.global.reportSize * p.global.reportCount }
        -- padding
        if p.locals.usage = [] then .ok (p.setReport type report)
        else .ok (addFieldTo mem p type flags offset report)

/-! ### The items -/

inductive GlobalTag where
  | usagePage | logicalMinimum | logicalMaximum | physicalMinimum | physicalMaximum
  | unitExponent | unit | reportSize | reportId | reportCount | push | pop
  deriving DecidableEq, Repr

/-- `HID_GLOBAL_ITEM_TAG_*` -/
def globalTag (tag : BitVec 4) : Option GlobalTag :=
  [GlobalTag.usagePage, .logicalMinimum, .logicalMaximum, .physicalMinimum, .physicalMaximum,
    .unitExponent, .unit, .reportSize, .reportId, .reportCount, .push, .pop][tag.toNat]?

def hidParserGlobal (p : HidParser) (item : ShortItem) : Except Stop HidParser :=
  let u := itemUdata item.data
  let s := itemSdata item.data
  match globalTag item.tag with
  | some .push =>
      if p.globalStack.length = hidGlobalStackSize then .error .failed
      else .ok { p with globalStack := p.global :: p.globalStack }
  | some .pop =>
      match p.globalStack with
      | [] => .error .failed
      | g :: stack => .ok { p with global := g, globalStack := stack }
  | some .usagePage => .ok { p with global := { p.global with usagePage := u } }
  | some .logicalMinimum => .ok { p with global := { p.global with logicalMinimum := s } }
  | some .logicalMaximum =>
      .ok { p with global := { p.global with
        logicalMaximum := if intOfWord p.global.logicalMinimum < 0 then s else u } }
  | some .physicalMinimum => .ok { p with global := { p.global with physicalMinimum := s } }
  | some .physicalMaximum =>
      .ok { p with global := { p.global with
        physicalMaximum := if intOfWord p.global.physicalMinimum < 0 then s else u } }
  | some .unitExponent => .ok { p with global := { p.global with unitExponent := s } }
  | some .unit => .ok { p with global := { p.global with unit := u } }
  | some .reportSize =>
      if 32 < u.toNat then .error .failed
      else .ok { p with global := { p.global with reportSize := u } }
  | some .reportCount =>
      if hidMaxUsages < u.toNat then .error .failed
      else .ok { p with global := { p.global with reportCount := u } }
  | some .reportId =>
      if u = 0 then .error .failed
      else .ok { p with global := { p.global with reportId := u } }
  | none => .error .failed

inductive LocalTag where
  | usage | usageMinimum | usageMaximum | delimiter
  deriving DecidableEq, Repr

/-- `HID_LOCAL_ITEM_TAG_*`, as far as the parser knows them -/
def localTag (tag : BitVec 4) : Option LocalTag :=
  if tag = 0 then some .usage
  else if tag = 1 then some .usageMinimum
  else if tag = 2 then some .usageMaximum
  else if tag = 10 then some .delimiter
  else none

/-- A short usage is one of the current page. -/
def HidParser.fullUsage (p : HidParser) (data : ItemData) : Word :=
  match data with
  | .u32 x => x
  | _ => (p.global.usagePage <<< 16) + itemUdata data

def hidParserLocal (p : HidParser) (item : ShortItem) : Except Stop HidParser :=
  if item.data = .none then .error .failed
  else
    match localTag item.tag with
    | some .delimiter =>
        -- the depth and the branch are counted, but the function returns 1 also when it has
        -- nothing to object, and its caller takes that for a failure
        .error .failed
    | some .usage =>
        if 1 < p.locals.delimiterBranch then .ok p
        else hidAddUsage p (p.fullUsage item.data)
    | some .usageMinimum =>
        if 1 < p.locals.delimiterBranch then .ok p
        else .ok { p with locals := { p.locals with usageMinimum := p.fullUsage item.data } }
    | some .usageMaximum =>
        if 1 < p.locals.delimiterBranch then .ok p
        else addUsages (p.fullUsage item.data) (hidMaxUsages - p.locals.usage.length)
          p.locals.usageMinimum p
    | none => .ok p

inductive MainTag where
  | beginCollection | endCollection
  | data (type : ReportType)
  deriving DecidableEq, Repr

/-- `HID_MAIN_ITEM_TAG_*` -/
def mainTag (tag : BitVec 4) : Option MainTag :=
  if tag = 8 then some (.data .input)
  else if tag = 9 then some (.data .output)
  else if tag = 10 then some .beginCollection
  else if tag = 11 then some (.data .feature)
  else if tag = 12 then some .endCollection
  else none

/-- What a main item does before the local environment is reset. -/
def mainAction (p : HidParser) (item : ShortItem) : Except Stop HidParser :=
  match mainTag item.tag with
  | some .beginCollection => openCollection mem p (itemUdata item.data &&& 0xff)
  | some .endCollection => closeCollection p
  | some (.data type) => hidAddField mem p type (itemUdata item.data)
  | none => .ok p

def hidParserMain (p : HidParser) (item : ShortItem) : Except Stop HidParser :=
  match mainAction mem p item with
  | .error e => .error e
  | .ok p => .ok { p with locals := .zero }

inductive ItemType where
  | main | global | «local» | reserved
  deriving DecidableEq, Repr

/-- `HID_ITEM_TYPE_*` -/
def itemType (type : BitVec 2) : ItemType :=
  if type = 0 then .main else if type = 1 then .global else if type = 2 then .local else .reserved

/-- `dispatch_type[item.type](parser, &item)` -/
def dispatchType (p : HidParser) (item : ShortItem) : Except Stop HidParser :=
  match itemType item.type with
  | .main => hidParserMain mem p item
  | .global => hidParserGlobal p item
  | .local => hidParserLocal p item
  | .reserved => .ok p

/-- What the last item must leave behind. -/
def atEnd (p : HidParser) : Except Stop HidDevice :=
  if p.collectionStack ≠ [] then .error .failed
  else if p.locals.delimiterDepth ≠ 0 then .error .failed
  else .ok p.device

/-- `hid_parse_report(start, size)`; the first four allocations are the device, its collections,
the copy of the descriptor and the parser.  A long item is not fetched as a short one, and ends the
loop like the end of the bytes does. -/
def hidParseReport (bytes : List Byte) : Except Stop HidDevice :=
  if mem 0 && mem 1 && mem 2 && mem 3 then
    match shortItems.scan (dispatchType mem) .failed bytes.length .zero bytes with
    | .error e => .error e
    | .ok p => atEnd p
  else .error .failed

/-- An accepted descriptor, item by item. -/
theorem parse_ok_iff (bytes : List Byte) (device : HidDevice) :
    hidParseReport mem bytes = .ok device ↔
      (mem 0 && mem 1 && mem 2 && mem 3) = true ∧
        ∃ item items p, (∀ it ∈ item :: items, it.tag ≠ hidItemTagLong) ∧
          bytes = shortItems.stream (item :: items) ∧
          Framing.handle (dispatchType mem) .zero (item :: items) = .ok p ∧
          p.collectionStack = [] ∧ p.locals.delimiterDepth = 0 ∧ p.device = device := by
  have hend : ∀ p, atEnd p = .ok device ↔
      p.collectionStack = [] ∧ p.locals.delimiterDepth = 0 ∧ p.device = device := by
    intro p
    rw [atEnd]
    split
    · rename_i hopen
      simp [hopen]
    · split
      · rename_i hdepth
        simp [hdepth]
      · rename_i hclosed hdepth
        simp only [ne_eq, Decidable.not_not] at hclosed hdepth
        simp [hclosed, hdepth]
  rw [hidParseReport]
  split
  · rename_i hmem
    rw [and_iff_right hmem]
    cases hscan : shortItems.scan (dispatchType mem) .failed bytes.length .zero bytes with
    | error e =>
        refine iff_of_false nofun ?_
        rintro ⟨item, items, p, hok, hbytes, hhandle, -⟩
        have hscan' := (Framing.scan_ok_iff (F := shortItems) Stop.failed
          (Nat.le_refl _)).mpr ⟨item, items, hok, hbytes, hhandle⟩
        rw [hscan] at hscan'
        cases hscan'
    | ok p =>
        obtain ⟨item, items, hok, hbytes, hhandle⟩ := Framing.stream_of_scan hscan
        simp only [hend]
        constructor
        · intro hp
          exact ⟨item, items, p, hok, hbytes, hhandle, hp⟩
        · rintro ⟨item', items', p', hok', hbytes', hhandle', hp'⟩
          have hscan' := (Framing.scan_ok_iff (F := shortItems) Stop.failed
            (Nat.le_refl _)).mpr ⟨item', items', hok', hbytes', hhandle'⟩
          rw [hscan] at hscan'
          cases hscan'
          exact hp'
  · rename_i hmem
    exact iff_of_false nofun (fun h => hmem h.1)

/-! ## What the functions leave alone -/

variable {mem} {p p' : HidParser}

theorem growCollections_ok (h : growCollections mem p = .ok p') :
    p' = p ∨ p' = { p with
      device := { p.device with collectionSize := p.device.collectionSize * 2 }
      allocs := p.allocs + 1 } := by
  unfold growCollections at h
  split at h
  · split at h <;> cases h
    exact .inr rfl
  · cases h
    exact .inl rfl

theorem hidAddUsage_ok {usage : Word} (h : hidAddUsage p usage = .ok p') :
    p.locals.usage.length < hidMaxUsages ∧
      p' = { p with locals := { p.locals with
        usage := p.locals.usage ++ [⟨usage, p.collectionStack.headD 0⟩] } } := by
  unfold hidAddUsage at h
  split at h
  · cases h
  · rename_i hroom
    cases h
    exact ⟨Nat.not_le.mp hroom, rfl⟩

/-- The usages of a range are added, whatever a single one keeps. -/
theorem addUsages_invariant (I : HidParser → Prop)
    (hstep : ∀ p p' usage, I p → hidAddUsage p usage = .ok p' → I p') {data n : Word} {left : Nat}
    (hI : I p) (h : addUsages data left n p = .ok p') : I p' := by
  induction left generalizing n p with
  | zero =>
      rw [addUsages] at h
      split at h <;> cases h
      exact hI
  | succ left ih =>
      rw [addUsages] at h
      split at h
      · cases hadd : hidAddUsage p n with
        | error e =>
            rw [hadd] at h
            cases h
        | ok p₁ =>
            rw [hadd] at h
            exact ih (hstep p p₁ n hI hadd) h
      · cases h
        exact hI

theorem reportAt_ok {device : HidDevice} {type : ReportType} {id : Word} {found : Option HidReport}
    (h : device.reportAt type id = .ok found) : device.reportIdHash type id.toNat = found := by
  unfold HidDevice.reportAt at h
  split at h
  · exact Except.ok.inj h
  · cases h

theorem hidRegisterReport_ok {type : ReportType} {id : Word} {report : HidReport}
    (h : hidRegisterReport mem p type id = .ok (report, p')) :
    p.device.reportIdHash type id.toNat = some report ∧ p' = p ∨
      report = ⟨id.toNat, [], 0⟩ ∧ ∃ numbered,
        p' = HidParser.setReport
          { p with device := { p.device with numbered := numbered }, allocs := p.allocs + 1 }
          type report := by
  unfold hidRegisterReport at h
  split at h
  · cases h
  · rename_i report' hfound
    cases h
    exact .inl ⟨reportAt_ok hfound, rfl⟩
  · split at h <;> cases h
    exact .inr ⟨rfl, _, rfl⟩

/-- Everything but the reports, which of them are numbered, and the memory. -/
structure SameEnv (p p' : HidParser) : Prop where
  global : p'.global = p.global
  globalStack : p'.globalStack = p.globalStack
  locals : p'.locals = p.locals
  collectionStack : p'.collectionStack = p.collectionStack
  collection : p'.device.collection = p.device.collection

theorem SameEnv.refl (p : HidParser) : SameEnv p p := ⟨rfl, rfl, rfl, rfl, rfl⟩

theorem hidRegisterReport_sameEnv {type : ReportType} {id : Word} {report : HidReport}
    (h : hidRegisterReport mem p type id = .ok (report, p')) : SameEnv p p' := by
  obtain ⟨-, rfl⟩ | ⟨-, numbered, rfl⟩ := hidRegisterReport_ok h
  · exact .refl p'
  · exact ⟨rfl, rfl, rfl, rfl, rfl⟩

/-- What a data item adds to a report: nothing but its size, or a field. -/
inductive Added (p : HidParser) (type : ReportType) (flags : Word) (report : HidReport) :
    HidReport → Prop
  | size : Added p type flags report
      { report with size := report.size + p.global.reportSize * p.global.reportCount }
  | field (husage : p.locals.usage ≠ []) (hroom : report.field.length ≠ hidMaxFields)
      (q : HidParser) (hq : SameEnv p q) : Added p type flags report
      { report with
        size := report.size + p.global.reportSize * p.global.reportCount
        field := report.field ++ [q.newField type flags report.size] }

theorem hidAddField_ok {type : ReportType} {flags : Word}
    (h : hidAddField mem p type flags = .ok p') :
    ∃ report p₁ report', hidRegisterReport mem p type p.global.reportId = .ok (report, p₁) ∧
      intOfWord p.global.logicalMinimum ≤ intOfWord p.global.logicalMaximum ∧
      Added p type flags report report' ∧
      ∃ allocs, p' = HidParser.setReport { p₁ with allocs := allocs } type report' := by
  unfold hidAddField at h
  split at h
  · cases h
  · rename_i report p₁ hreg
    have henv := hidRegisterReport_sameEnv hreg
    split at h
    · cases h
    · rename_i hrange
      rw [henv.global] at hrange h
      rw [henv.locals] at h
      simp only at h
      split at h
      · cases h
        exact ⟨report, p₁, _, hreg, Int.not_lt.mp hrange, .size, p₁.allocs, rfl⟩
      · rename_i husage
        cases h
        unfold addFieldTo
        split
        · exact ⟨report, p₁, _, hreg, Int.not_lt.mp hrange, .size, p₁.allocs, rfl⟩
        · rename_i hroom
          split
          · have hroom' : report.field.length ≠ hidMaxFields := hroom
            exact ⟨report, p₁, _, hreg, Int.not_lt.mp hrange, .field husage hroom' p₁ henv,
              p₁.allocs + 1, rfl⟩
          · exact ⟨report, p₁, _, hreg, Int.not_lt.mp hrange, .size, p₁.allocs + 1, rfl⟩

theorem hidAddField_sameEnv {type : ReportType} {flags : Word}
    (h : hidAddField mem p type flags = .ok p') : SameEnv p p' := by
  obtain ⟨report, p₁, report', hreg, -, -, allocs, rfl⟩ := hidAddField_ok h
  obtain ⟨hglobal, hstack, hlocals, hcolls, hcoll⟩ := hidRegisterReport_sameEnv hreg
  exact ⟨hglobal, hstack, hlocals, hcolls, hcoll⟩

/-! ## Nesting -/

/-- What a main item does to the depth of the collections. -/
def MainTag.nests : Option MainTag → Int
  | some .beginCollection => 1
  | some .endCollection => -1
  | _ => 0

/-- What a global item does to the number of saved environments. -/
def GlobalTag.saves : Option GlobalTag → Int
  | some .push => 1
  | some .pop => -1
  | _ => 0

def ShortItem.nests (item : ShortItem) : Int :=
  if itemType item.type = .main then MainTag.nests (mainTag item.tag) else 0

def ShortItem.saves (item : ShortItem) : Int :=
  if itemType item.type = .global then GlobalTag.saves (globalTag item.tag) else 0

theorem nests_of_ne {item : ShortItem} (h : itemType item.type ≠ .main) : item.nests = 0 := if_neg h

theorem saves_of_ne {item : ShortItem} (h : itemType item.type ≠ .global) : item.saves = 0 :=
  if_neg h

def ShortItem.delimits (item : ShortItem) : Prop :=
  itemType item.type = .local ∧ localTag item.tag = some .delimiter

/-- The stacks are `nests` and `saves` away from where they were, and no larger than they can
be. -/
structure Moves (item : ShortItem) (p p' : HidParser) : Prop where
  collections : (p'.collectionStack.length : Int) = p.collectionStack.length + item.nests
  collections_le : p'.collectionStack.length ≤ hidCollectionStackSize
  saved : (p'.globalStack.length : Int) = p.globalStack.length + item.saves
  saved_le : p'.globalStack.length ≤ hidGlobalStackSize

theorem Moves.of_eq {item : ShortItem} (hc : p.collectionStack.length ≤ hidCollectionStackSize)
    (hg : p.globalStack.length ≤ hidGlobalStackSize) (hnests : item.nests = 0)
    (hsaves : item.saves = 0) (hcs : p'.collectionStack = p.collectionStack)
    (hgs : p'.globalStack = p.globalStack) : Moves item p p' := by
  refine ⟨?_, hcs ▸ hc, ?_, hgs ▸ hg⟩
  · rw [hcs, hnests, Int.add_zero]
  · rw [hgs, hsaves, Int.add_zero]

theorem mainAction_moves {item : ShortItem} (htype : itemType item.type = .main)
    (hc : p.collectionStack.length ≤ hidCollectionStackSize)
    (hg : p.globalStack.length ≤ hidGlobalStackSize) (h : mainAction mem p item = .ok p') :
    Moves item p p' := by
  have hsaves : item.saves = 0 := saves_of_ne (by rw [htype]; decide)
  have hnests : item.nests = MainTag.nests (mainTag item.tag) := if_pos htype
  unfold mainAction at h
  split at h
  · rename_i htag
    rw [htag] at hnests
    unfold openCollection at h
    split at h
    · cases h
    · rename_i hroom
      split at h
      · cases h
      · rename_i p₁ hgrow
        cases h
        have hstacks : p₁.collectionStack = p.collectionStack ∧ p₁.globalStack = p.globalStack := by
          rcases growCollections_ok hgrow with rfl | rfl <;> exact ⟨rfl, rfl⟩
        refine ⟨?_, ?_, ?_, ?_⟩
        · simp only [pushCollection, List.length_cons, hstacks.1, hnests]
          push_cast
          rfl
        · simp only [pushCollection, List.length_cons, hstacks.1]
          omega
        · simp only [pushCollection, hstacks.2, hsaves, Int.add_zero]
        · simp only [pushCollection, hstacks.2]
          exact hg
  · rename_i htag
    rw [htag] at hnests
    unfold closeCollection at h
    split at h
    · cases h
    · rename_i n stack hstack
      cases h
      rw [hstack, List.length_cons] at hc
      refine ⟨?_, by simp only; omega, ?_, hg⟩
      · simp only [hstack, List.length_cons, hnests, MainTag.nests]
        push_cast
        omega
      · rw [hsaves, Int.add_zero]
  · rename_i type htag
    rw [htag] at hnests
    have henv := hidAddField_sameEnv h
    exact .of_eq hc hg hnests hsaves henv.collectionStack henv.globalStack
  · rename_i htag
    rw [htag] at hnests
    cases h
    exact .of_eq hc hg hnests hsaves rfl rfl

theorem hidParserGlobal_moves {item : ShortItem} (htype : itemType item.type = .global)
    (hc : p.collectionStack.length ≤ hidCollectionStackSize)
    (hg : p.globalStack.length ≤ hidGlobalStackSize) (h : hidParserGlobal p item = .ok p') :
    Moves item p p' := by
  have hnests : item.nests = 0 := nests_of_ne (by rw [htype]; decide)
  have hsaves : item.saves = GlobalTag.saves (globalTag item.tag) := if_pos htype
  unfold hidParserGlobal at h
  cases htag : globalTag item.tag with
  | none =>
      rw [htag] at h
      cases h
  | some tag =>
      rw [htag] at h hsaves
      cases tag with
      | push =>
          simp only at h
          split at h
          · cases h
          · rename_i hroom
            cases h
            refine ⟨by rw [hnests, Int.add_zero], hc, ?_, ?_⟩
            · simp only [List.length_cons, hsaves]
              push_cast
              rfl
            · simp only [List.length_cons]
              omega
      | pop =>
          simp only at h
          split at h
          · cases h
          · rename_i g stack hstack
            cases h
            rw [hstack, List.length_cons] at hg
            refine ⟨by rw [hnests, Int.add_zero], hc, ?_, by simp only; omega⟩
            simp only [hstack, List.length_cons, hsaves, GlobalTag.saves]
            push_cast
            omega
      | reportSize | reportCount | reportId =>
          simp only at h
          split at h <;> cases h
          exact .of_eq hc hg hnests hsaves rfl rfl
      | _ =>
          cases h
          exact .of_eq hc hg hnests hsaves rfl rfl

/-- A local item changes the local environment only, and is no delimiter. -/
theorem hidParserLocal_ok {item : ShortItem} (h : hidParserLocal p item = .ok p') :
    localTag item.tag ≠ some .delimiter ∧ p'.collectionStack = p.collectionStack ∧
      p'.globalStack = p.globalStack := by
  unfold hidParserLocal at h
  split at h
  · cases h
  · cases htag : localTag item.tag with
    | none =>
        rw [htag] at h
        cases h
        exact ⟨nofun, rfl, rfl⟩
    | some tag =>
        rw [htag] at h
        cases tag with
        | delimiter => cases h
        | usage =>
            simp only at h
            split at h
            · cases h
              exact ⟨nofun, rfl, rfl⟩
            · obtain ⟨-, rfl⟩ := hidAddUsage_ok h
              exact ⟨nofun, rfl, rfl⟩
        | usageMinimum =>
            simp only at h
            split at h <;> cases h <;> exact ⟨nofun, rfl, rfl⟩
        | usageMaximum =>
            simp only at h
            split at h
            · cases h
              exact ⟨nofun, rfl, rfl⟩
            · refine ⟨nofun, addUsages_invariant (fun q => q.collectionStack = p.collectionStack ∧
                q.globalStack = p.globalStack) ?_ ⟨rfl, rfl⟩ h⟩
              intro q q' usage hq hadd
              obtain ⟨-, rfl⟩ := hidAddUsage_ok hadd
              exact hq

theorem dispatch_moves {item : ShortItem} (hc : p.collectionStack.length ≤ hidCollectionStackSize)
    (hg : p.globalStack.length ≤ hidGlobalStackSize) (h : dispatchType mem p item = .ok p') :
    Moves item p p' ∧ ¬ item.delimits := by
  unfold dispatchType at h
  split at h
  · rename_i htype
    refine ⟨?_, fun hd => by rw [hd.1] at htype; cases htype⟩
    unfold hidParserMain at h
    split at h
    · cases h
    · rename_i p₁ haction
      cases h
      obtain ⟨hcolls, hcolls', hsaved, hsaved'⟩ := mainAction_moves htype hc hg haction
      exact ⟨hcolls, hcolls', hsaved, hsaved'⟩
  · rename_i htype
    refine ⟨hidParserGlobal_moves htype hc hg h, fun hd => by rw [hd.1] at htype; cases htype⟩
  · rename_i htype
    obtain ⟨htag, hcs, hgs⟩ := hidParserLocal_ok h
    exact ⟨.of_eq hc hg (nests_of_ne (by rw [htype]; decide)) (saves_of_ne (by rw [htype]; decide))
      hcs hgs, fun hd => htag hd.2⟩
  · rename_i htype
    cases h
    exact ⟨.of_eq hc hg (nests_of_ne (by rw [htype]; decide)) (saves_of_ne (by rw [htype]; decide))
      rfl rfl, fun hd => by rw [hd.1] at htype; cases htype⟩

/-- The depth after these items. -/
def depth (change : ShortItem → Int) (items : List ShortItem) : Int := (items.map change).sum

/-- The items nest: they never close what is not open, and never have more than `most` open. -/
def Nested (change : ShortItem → Int) (most : Nat) (items : List ShortItem) : Prop :=
  ∀ pre, pre <+: items → 0 ≤ depth change pre ∧ depth change pre ≤ most

theorem handle_moves {items : List ShortItem}
    (hc : p.collectionStack.length ≤ hidCollectionStackSize)
    (hg : p.globalStack.length ≤ hidGlobalStackSize)
    (h : Framing.handle (dispatchType mem) p items = .ok p') :
    (p'.collectionStack.length : Int) = p.collectionStack.length + depth ShortItem.nests items ∧
    p'.collectionStack.length ≤ hidCollectionStackSize ∧
    (p'.globalStack.length : Int) = p.globalStack.length + depth ShortItem.saves items ∧
    p'.globalStack.length ≤ hidGlobalStackSize ∧ ∀ item ∈ items, ¬ item.delimits := by
  induction items generalizing p with
  | nil =>
      cases h
      simp only [depth, List.map_nil, List.sum_nil, Int.add_zero, true_and]
      exact ⟨hc, hg, fun _ hmem => absurd hmem List.not_mem_nil⟩
  | cons item items ih =>
      obtain ⟨p₁, hitem, hrest⟩ := Framing.handle_cons_ok.mp h
      obtain ⟨⟨hcolls, hcolls', hsaved, hsaved'⟩, hdel⟩ := dispatch_moves hc hg hitem
      obtain ⟨hcolls₁, hle, hsaved₁, hle', hdel'⟩ := ih hcolls' hsaved' hrest
      simp only [depth, List.map_cons, List.sum_cons] at hcolls₁ hsaved₁ ⊢
      refine ⟨by omega, hle, by omega, hle', ?_⟩
      intro it hmem
      rcases List.mem_cons.mp hmem with rfl | hmem
      · exact hdel
      · exact hdel' it hmem

/-- **What is accepted is well formed.**  A descriptor that `hid_parse_report` accepts is the
encoding of one short item or more, one after the other, with nothing left over; its collections
nest, at most four deep, and are all closed at the end; the environment is restored at most as
often as it was saved, with at most four saved at a time; and it has no delimiter. -/
theorem parse_well_formed (mem : Nat → Bool) (bytes : List Byte) (device : HidDevice)
    (h : hidParseReport mem bytes = .ok device) :
    ∃ items, items ≠ [] ∧ bytes = items.flatMap ShortItem.bytes ∧
      (∀ item ∈ items, item.tag ≠ hidItemTagLong ∧ ¬ item.delimits) ∧
      Nested ShortItem.nests 4 items ∧ depth ShortItem.nests items = 0 ∧
      Nested ShortItem.saves 4 items := by
  obtain ⟨-, item, items, p, hok, hbytes, hhandle, hclosed, -, -⟩ := (parse_ok_iff mem _ _).mp h
  have hzero : (HidParser.zero.collectionStack.length : Int) = 0 ∧
      (HidParser.zero.globalStack.length : Int) = 0 := ⟨rfl, rfl⟩
  have hmoves := handle_moves (Nat.zero_le _) (Nat.zero_le _) hhandle
  have hnested : ∀ pre, pre <+: item :: items →
      (0 ≤ depth ShortItem.nests pre ∧ depth ShortItem.nests pre ≤ 4) ∧
        0 ≤ depth ShortItem.saves pre ∧ depth ShortItem.saves pre ≤ 4 := by
    rintro pre ⟨suf, hsplit⟩
    rw [← hsplit] at hhandle
    obtain ⟨p₁, hpre, -⟩ := Framing.handle_append_ok.mp hhandle
    obtain ⟨hcolls, hle, hsaved, hle', -⟩ := handle_moves (Nat.zero_le _) (Nat.zero_le _) hpre
    simp only [hidCollectionStackSize, hidGlobalStackSize] at hle hle'
    omega
  refine ⟨item :: items, List.cons_ne_nil _ _, hbytes,
    fun it hmem => ⟨hok it hmem, hmoves.2.2.2.2 it hmem⟩, fun pre hpre => (hnested pre hpre).1, ?_,
    fun pre hpre => (hnested pre hpre).2⟩
  have hlast := hmoves.1
  rw [hclosed, hzero.1] at hlast
  simpa using hlast.symm

/-- The descriptor of a mouse of three buttons: its environment, and a field in a collection. -/
def mouseDescriptor : List Byte :=
  [0x05, 0x09, 0xa1, 0x01, 0x19, 0x01, 0x29, 0x03, 0x15, 0x00, 0x25, 0x01, 0x95, 0x03, 0x75, 0x01,
    0x81, 0x02, 0xc0]

theorem parse_well_formed_mouse :
    ∃ device items, hidParseReport (fun _ => true) mouseDescriptor = .ok device ∧
      items ≠ [] ∧ Nested ShortItem.nests 4 items ∧ depth ShortItem.nests items = 0 := by
  have haccepted : (hidParseReport (fun _ => true) mouseDescriptor).isOk = true := by decide
  cases hparse : hidParseReport (fun _ => true) mouseDescriptor with
  | error e =>
      rw [hparse] at haccepted
      cases haccepted
  | ok device =>
      obtain ⟨items, hne, -, -, hnested, hclosed, -⟩ := parse_well_formed _ _ device hparse
      exact ⟨device, items, rfl, hne, hnested, hclosed⟩

end

end LinuxDrivers.Hid
