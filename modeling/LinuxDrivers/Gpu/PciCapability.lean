/-
# `LinuxDrivers.Gpu.PciCapability` — the search for a PCI capability

A PCI device announces its capabilities in a list inside of its configuration space: a register
says where the list begins, every entry has an id and the position of the next one.  Where that
register is depends on the type of the header, which is byte 0x0e without its top bit.

    init_pci_dev_struct        fills a `pci_dev` from the device
    pci_cap                    the device with some `devfn`, of the two there are
    pci_find_capability        walks along the list, for at most 48 entries

`init_pci_dev_struct` takes the type of the header from byte 0x08, the revision of the device.
And `pci_cap` does not look at the bus, so the bridge hides a graphics device that has the
`devfn` of the bridge on another bus.

**Proved here.**

    the search ends, whatever is in the configuration space        (`find_ends`)
    along the list of a device it finds the first entry            (`walk`)
    for which status, headers, revisions and addresses the search
    is right, whatever lists there are                             (`pci_find_capability_iff`)
-/
import LinuxDrivers.Basic
import LinuxDrivers.Lib.Loop
import LinuxDrivers.Lib.Memory
import Mathlib.Tactic.Ring

namespace LinuxDrivers.Gpu.PciCapability

open LinuxDrivers.Lib

/-! ## Devices -/

/-- `Pci::Device::Resource` -/
structure Resource where
  base : Word
  size : Word

structure Address where
  bus : Byte
  slot : Byte
  fn : Byte
  deriving DecidableEq, Repr

/-- `DEVICE_COUNT_RESOURCE` -/
def deviceCountResource : Nat := 12

/-- What there is behind a `Pci::Device_capability`. -/
structure Device where
  busAddress : Address
  vendorId : BitVec 16
  deviceId : BitVec 16
  /-- the configuration space, byte by byte -/
  config : Byte → Byte
  resource : Fin deviceCountResource → Resource

def Device.configRead8 (device : Device) (address : Byte) : Byte := device.config address

def Device.configRead16 (device : Device) (address : Byte) : BitVec 16 :=
  device.config (address + 1) ++ device.config address

/-! ## The driver's view of them -/

/-- `struct resource` -/
structure Range where
  start : Word
  «end» : Word

/-- `struct Lx_pci_dev` -/
structure PciDev where
  devfn : Word
  irq : Word
  resource : Fin deviceCountResource → Range
  bus : Word
  vendor : BitVec 16
  device : BitVec 16
  hdrType : Byte
  msiEnabled : Bool
  cap : Device

def pciConfigIrq : Byte := 0x3c

def pciConfigHeaderType : Byte := 0x8

def devfnOf (address : Address) : Word :=
  (address.slot.setWidth 32 <<< 3) ||| (address.fn &&& 7).setWidth 32

def initPciDevStruct (device : Device) : PciDev where
  devfn := devfnOf device.busAddress
  irq := (device.configRead8 pciConfigIrq).setWidth 32
  hdrType := device.configRead8 pciConfigHeaderType
  bus := 0
  device := device.deviceId
  vendor := device.vendorId
  msiEnabled := false
  resource i :=
    let rsc := device.resource i
    ⟨rsc.base, rsc.base + rsc.size - 1⟩
  cap := device

/-- `bridge_pdev` and `gpu_pdev` -/
structure Globals where
  bridgePdev : PciDev
  gpuPdev : PciDev

/-- Nothing where `UNSUPPORTED` is reached. -/
def pciCap (g : Globals) (devfn : Word) : Option Device :=
  if devfn = g.bridgePdev.devfn then some g.bridgePdev.cap
  else if devfn = g.gpuPdev.devfn then some g.gpuPdev.cap
  else none

def pciBusReadConfigByte (g : Globals) (devfn : Word) (pos : Byte) : Option Byte :=
  (pciCap g devfn).map (·.configRead8 pos)

def pciBusReadConfigWord (g : Globals) (devfn : Word) (pos : Byte) : Option (BitVec 16) :=
  (pciCap g devfn).map (·.configRead16 pos)

def pciStatus : Byte := 0x06

def pciStatusCapList : BitVec 16 := 0x10

/-- The `switch` of `__pci_bus_find_cap_start`: `PCI_CAPABILITY_LIST` for a normal device and for a
bridge, `PCI_CB_CAPABILITY_LIST` for a card bus. -/
def capabilityList (hdrType : Byte) : Byte :=
  if hdrType = 0 ∨ hdrType = 1 then 0x34
  else if hdrType = 2 then 0x14
  else 0

def pciBusFindCapStart (g : Globals) (devfn : Word) (hdrType : Byte) : Option Byte :=
  match pciBusReadConfigWord g devfn pciStatus with
  | none => none
  | some status =>
      if status &&& pciStatusCapList = 0 then some 0
      else some (capabilityList hdrType)

/-- `PCI_FIND_CAP_TTL` -/
def pciFindCapTtl : Word := 48

/-- A round of the loop of `__pci_find_next_cap_ttl`, with `*ttl` and `pos`. -/
def nextCapBody (g : Globals) (devfn cap : Word) :
    Word × Byte → (Word × Byte) ⊕ Option Byte
  | (ttl, pos) =>
      if ttl = 0 then .inr (some 0)
      else
        match pciBusReadConfigByte g devfn pos with
        | none => .inr none
        | some pos =>
            if pos < 0x40 then .inr (some 0)
            else
              let pos := pos &&& ~~~3
              match pciBusReadConfigByte g devfn pos with
              | none => .inr none
              | some id =>
                  if id = 0xff then .inr (some 0)
                  else if id.setWidth 32 = cap then .inr (some pos)
                  else .inl (ttl - 1, pos + 1)

/-- `pci_find_capability`, with `__pci_find_next_cap` -/
def pciFindCapability (fuel : Nat) (g : Globals) (dev : PciDev) (cap : Word) :
    Option (Option Byte) :=
  match pciBusFindCapStart g dev.devfn dev.hdrType with
  | none => some none
  | some pos =>
      if pos ≠ 0 then loop (nextCapBody g dev.devfn cap) fuel (pciFindCapTtl, pos)
      else some (some 0)

/-! ## What it is for -/

/-- The two devices the driver uses; what is at one address is one device. -/
structure Platform where
  bridge : Device
  gpu : Device
  one : bridge.busAddress = gpu.busAddress → bridge = gpu

inductive Which where
  | bridge
  | gpu
  deriving DecidableEq, Repr

def Platform.device (p : Platform) : Which → Device
  | .bridge => p.bridge
  | .gpu => p.gpu

/-- After both structures have been filled. -/
def Platform.boot (p : Platform) : Globals :=
  ⟨initPciDevStruct p.bridge, initPciDevStruct p.gpu⟩

def Globals.pdev (g : Globals) : Which → PciDev
  | .bridge => g.bridgePdev
  | .gpu => g.gpuPdev

/-- The register that says where the list begins, 0 if there is none.  The type of the header is
byte 0x0e, of which the top bit only says that the device has several functions. -/
def Device.listRegister (d : Device) : Byte :=
  if d.configRead16 0x06 &&& 0x10 = 0 then 0
  else capabilityList (d.config 0x0e &&& 0x7f)

/-- The status of the device says that it has a list. -/
def Device.Listed (d : Device) : Prop := d.configRead16 0x06 &&& 0x10 ≠ 0

/-- The register or byte at `pointer` leads to a list with these entries.  The two low bits of a
position do not count. -/
inductive Linked (config : Byte → Byte) : Byte → List Byte → Prop
  | nil {pointer : Byte} : config pointer &&& 0xfc = 0 → Linked config pointer []
  | cons {pointer entry : Byte} {entries : List Byte} : 0x40 ≤ config pointer →
      config pointer &&& 0xfc = entry → config entry ≠ 0xff →
      Linked config (entry + 1) entries → Linked config pointer (entry :: entries)

/-- The first entry with this id, or 0. -/
def first (config : Byte → Byte) (cap : Word) (entries : List Byte) : Byte :=
  (entries.find? (fun entry => (config entry).setWidth 32 = cap)).getD 0

/-- What the search should give for a device. -/
def Right (d : Device) (cap : Word) (result : Option Byte) : Prop :=
  (d.listRegister = 0 → result = some 0) ∧
  ∀ entries, d.listRegister ≠ 0 → Linked d.config d.listRegister entries →
    entries.length ≤ 48 → result = some (first d.config cap entries)

/-- The search ends, and with what it should give. -/
def Finds (p : Platform) (which : Which) (cap : Word) : Prop :=
  ∃ fuel result, pciFindCapability fuel p.boot (p.boot.pdev which) cap = some result ∧
    Right (p.device which) cap result

/-! ## The search ends -/

section

variable {g : Globals} {devfn cap ttl : Word} {pos : Byte} {d : Device}

theorem body_ttl {s s' : Word × Byte} (h : nextCapBody g devfn cap s = .inl s') :
    s.1 ≠ 0 ∧ s'.1 = s.1 - 1 := by
  obtain ⟨ttl, pos⟩ := s
  rw [nextCapBody] at h
  split at h
  · cases h
  · rename_i hne
    refine ⟨hne, ?_⟩
    split at h
    · cases h
    · split at h
      · cases h
      · dsimp only at h
        split at h
        · cases h
        · split at h
          · cases h
          · split at h
            · cases h
            · cases h
              rfl

theorem read_of_cap (hcap : pciCap g devfn = some d) (pos : Byte) :
    pciBusReadConfigByte g devfn pos = some (d.config pos) := by
  rw [pciBusReadConfigByte, hcap]
  rfl

/-- What a round that is the last one leaves: nothing, or an entry with the id. -/
theorem body_found {s : Word × Byte} {result : Option Byte} (hcap : pciCap g devfn = some d)
    (h : nextCapBody g devfn cap s = .inr result) :
    result = some 0 ∨ ∃ entry, result = some entry ∧ d.config entry ≠ 0xff ∧
      (d.config entry).setWidth 32 = cap := by
  obtain ⟨ttl, pos⟩ := s
  simp only [nextCapBody, read_of_cap hcap] at h
  split at h
  · cases h
    exact .inl rfl
  · split at h
    · cases h
      exact .inl rfl
    · split at h
      · cases h
        exact .inl rfl
      · rename_i hid
        split at h
        · rename_i hfound
          cases h
          exact .inr ⟨_, rfl, hid, hfound⟩
        · cases h

/-- The hops that are left bound the rounds; what is left in the end is known of the last one. -/
theorem walk_ends (g : Globals) (devfn cap : Word) {Q : Option Byte → Prop}
    (hexit : ∀ s result, nextCapBody g devfn cap s = .inr result → Q result) (s : Word × Byte) :
    ∃ result, Ends (nextCapBody g devfn cap) s result ∧ Q result := by
  refine Ends.of_measure (I := fun _ => True) (fun s => s.1.toNat) ?_
    (fun s result _ h => hexit s result h) trivial
  intro s s' _ h
  obtain ⟨hne, hs'⟩ := body_ttl h
  refine ⟨trivial, ?_⟩
  show s'.1.toNat < s.1.toNat
  rw [hs']
  bv_omega

/-- The hop limit: every round takes one, whatever the bytes are. -/
theorem find_ends (g : Globals) (dev : PciDev) (cap : Word) :
    ∃ fuel result, pciFindCapability fuel g dev cap = some result := by
  unfold pciFindCapability
  cases pciBusFindCapStart g dev.devfn dev.hdrType with
  | none => exact ⟨0, none, rfl⟩
  | some pos =>
      by_cases hpos : pos ≠ 0
      · obtain ⟨result, ⟨fuel, hfuel⟩, _⟩ := walk_ends g dev.devfn cap
          (Q := fun _ => True) (fun _ _ _ => trivial) (pciFindCapTtl, pos)
        refine ⟨fuel, result, ?_⟩
        simp only [if_pos hpos]
        exact hfuel
      · refine ⟨0, some 0, ?_⟩
        simp only [if_neg hpos]

/-! ## Along the list -/

/-- The search finds the first entry with the id, if there are not more entries than hops. -/
theorem walk (hcap : pciCap g devfn = some d) {entries : List Byte}
    (hlist : Linked d.config pos entries) (hlen : entries.length ≤ ttl.toNat) :
    Ends (nextCapBody g devfn cap) (ttl, pos) (some (first d.config cap entries)) := by
  induction hlist generalizing ttl with
  | @nil pointer hzero =>
      refine .exit ?_
      have hlow : d.config pointer < 0x40 := by
        generalize d.config pointer = b at hzero
        revert b
        decide
      unfold nextCapBody
      simp only [read_of_cap hcap, if_pos hlow]
      split
      · rfl
      · rfl
  | @cons pointer entry entries hhigh hentry hid _ ih =>
      have hpos : ttl ≠ 0 := by
        rintro rfl
        exact absurd hlen (Nat.not_succ_le_zero _)
      have hbody : nextCapBody g devfn cap (ttl, pointer) =
          if (d.config entry).setWidth 32 = cap then .inr (some entry)
          else .inl (ttl - 1, entry + 1) := by
        have hmask : d.config pointer &&& ~~~3 = entry := hentry
        unfold nextCapBody
        simp only [if_neg hpos, read_of_cap hcap, hmask, if_neg hid,
          if_neg (show ¬ d.config pointer < 0x40 from BitVec.not_lt.mpr hhigh)]
      by_cases hfound : (d.config entry).setWidth 32 = cap
      · refine .exit ?_
        rw [hbody, if_pos hfound, first, List.find?_cons_of_pos (by simpa using hfound)]
        rfl
      · have hrest : first d.config cap (entry :: entries) = first d.config cap entries := by
          rw [first, List.find?_cons_of_neg (by simpa using hfound)]
          rfl
        rw [hrest]
        refine .next (hbody.trans (if_neg hfound)) (ih ?_)
        rw [List.length_cons] at hlen
        bv_omega

/-- What the search gives, once it has found where to start. -/
theorem find_linked {dev : PciDev} {fuel : Nat} {result : Option Byte} {entries : List Byte}
    (hcap : pciCap g dev.devfn = some d)
    (hstart : pciBusFindCapStart g dev.devfn dev.hdrType = some pos) (hpos : pos ≠ 0)
    (hlist : Linked d.config pos entries) (hlen : entries.length ≤ 48)
    (h : pciFindCapability fuel g dev cap = some result) :
    result = some (first d.config cap entries) := by
  unfold pciFindCapability at h
  simp only [hstart, if_pos hpos] at h
  exact Ends.unique ⟨fuel, h⟩ (walk hcap hlist hlen)

theorem find_nowhere {dev : PciDev} {fuel : Nat} {result : Option Byte}
    (hstart : pciBusFindCapStart g dev.devfn dev.hdrType = some 0)
    (h : pciFindCapability fuel g dev cap = some result) : result = some 0 := by
  unfold pciFindCapability at h
  simp only [hstart, ne_eq, not_true_eq_false, if_false] at h
  cases h
  rfl

theorem findCapStart_of_cap (hcap : pciCap g devfn = some d) (hdrType : Byte) :
    pciBusFindCapStart g devfn hdrType =
      some (if d.configRead16 pciStatus &&& pciStatusCapList = 0 then 0
        else capabilityList hdrType) := by
  rw [pciBusFindCapStart, pciBusReadConfigWord, hcap]
  exact (apply_ite some _ _ _).symm

end

/-! ## Which device is looked at -/

/-- The search looks at the device itself. -/
def Seen (which : Which) (bridge gpu : Address) : Prop :=
  which = .bridge ∨ devfnOf bridge ≠ devfnOf gpu ∨ bridge = gpu

section

variable {p : Platform} {which : Which} {cap : Word}

theorem pciCap_bridge (p : Platform) :
    pciCap p.boot (devfnOf p.bridge.busAddress) = some p.bridge := if_pos rfl

theorem pciCap_of_seen (h : Seen which p.bridge.busAddress p.gpu.busAddress) :
    pciCap p.boot (p.boot.pdev which).devfn = some (p.device which) := by
  cases which with
  | bridge => exact pciCap_bridge p
  | gpu =>
      by_cases hdevfn : devfnOf p.gpu.busAddress = devfnOf p.bridge.busAddress
      · have hone : p.bridge.busAddress = p.gpu.busAddress := by
          rcases h with hw | hne | hone
          · cases hw
          · exact absurd hdevfn.symm hne
          · exact hone
        show pciCap p.boot (devfnOf p.gpu.busAddress) = some p.gpu
        rw [hdevfn, pciCap_bridge, p.one hone]
      · exact (if_neg hdevfn).trans (if_pos rfl)

theorem pciCap_of_not_seen (h : ¬ Seen which p.bridge.busAddress p.gpu.busAddress) :
    pciCap p.boot (p.boot.pdev which).devfn = some p.bridge := by
  cases which with
  | bridge => exact absurd (.inl rfl) h
  | gpu =>
      have hdevfn : devfnOf p.bridge.busAddress = devfnOf p.gpu.busAddress := by
        by_contra hne
        exact h (.inr (.inl hne))
      show pciCap p.boot (devfnOf p.gpu.busAddress) = some p.bridge
      rw [← hdevfn]
      exact pciCap_bridge p

theorem hdrType_boot (p : Platform) (which : Which) :
    (p.boot.pdev which).hdrType = (p.device which).config 0x08 := by
  cases which with
  | bridge => rfl
  | gpu => rfl

/-- The device that the search looks at has a list only where the revision of the other one says. -/
theorem findCapStart_boot {d : Device} (hcap : pciCap p.boot (p.boot.pdev which).devfn = some d) :
    pciBusFindCapStart p.boot (p.boot.pdev which).devfn (p.boot.pdev which).hdrType =
      some (if d.configRead16 0x06 &&& 0x10 = 0 then 0
        else capabilityList ((p.device which).config 0x08)) := by
  rw [← hdrType_boot]
  exact findCapStart_of_cap hcap _

/-! ## Where it is right -/

/-- No device has an entry with such an id. -/
theorem first_eq_zero {config : Byte → Byte} {pos : Byte} {entries : List Byte}
    (hcap : 0xff ≤ cap.toNat) (hlist : Linked config pos entries) :
    first config cap entries = 0 := by
  have hnone : entries.find? (fun entry => (config entry).setWidth 32 = cap) = none := by
    induction hlist with
    | nil _ => rfl
    | @cons pointer entry entries _ _ hid _ ih =>
        rw [List.find?_cons_of_neg]
        · exact ih
        · generalize config entry = id at hid
          simp only [decide_eq_true_eq]
          rintro rfl
          bv_omega
  rw [first, hnone]
  rfl

/-- Such an id is never found either. -/
theorem finds_of_no_id (hcap : 0xff ≤ cap.toNat) : Finds p which cap := by
  obtain ⟨d, hd⟩ : ∃ d, pciCap p.boot (p.boot.pdev which).devfn = some d := by
    by_cases hseen : Seen which p.bridge.busAddress p.gpu.busAddress
    · exact ⟨_, pciCap_of_seen hseen⟩
    · exact ⟨_, pciCap_of_not_seen hseen⟩
  have hexit : ∀ s result, nextCapBody p.boot (p.boot.pdev which).devfn cap s = .inr result →
      result = some 0 := by
    intro s result h
    rcases body_found hd h with hzero | ⟨entry, _, hid, hfound⟩
    · exact hzero
    · generalize d.config entry = id at hid hfound
      subst hfound
      bv_omega
  have hstart := findCapStart_boot hd
  have hzero : ∃ fuel, pciFindCapability fuel p.boot (p.boot.pdev which) cap = some (some 0) := by
    unfold pciFindCapability
    rw [hstart]
    generalize (if d.configRead16 0x06 &&& 0x10 = 0 then (0 : Byte)
      else capabilityList ((p.device which).config 0x08)) = pos
    by_cases hpos : pos ≠ 0
    · obtain ⟨_, ⟨fuel, hfuel⟩, rfl⟩ := walk_ends _ _ _ hexit (pciFindCapTtl, pos)
      exact ⟨fuel, (if_pos hpos).trans hfuel⟩
    · exact ⟨0, if_neg hpos⟩
  obtain ⟨fuel, hfuel⟩ := hzero
  refine ⟨fuel, some 0, hfuel, fun _ => rfl, ?_⟩
  intro entries _ hlist _
  rw [first_eq_zero hcap hlist]

/-- The search starts at the register of the device, if the revision says the same as the type of
the header, or there is no list to look for. -/
theorem finds_of_seen (hseen : Seen which p.bridge.busAddress p.gpu.busAddress)
    (hsame : (p.device which).Listed → capabilityList ((p.device which).config 0x08) =
      capabilityList ((p.device which).config 0x0e &&& 0x7f)) : Finds p which cap := by
  obtain ⟨fuel, result, h⟩ := find_ends p.boot (p.boot.pdev which) cap
  have hcap := pciCap_of_seen hseen
  have hstart : pciBusFindCapStart p.boot (p.boot.pdev which).devfn (p.boot.pdev which).hdrType =
      some (p.device which).listRegister := by
    rw [findCapStart_boot hcap, Device.listRegister]
    split
    · rfl
    · rename_i hlisted
      rw [hsame hlisted]
  refine ⟨fuel, result, h, ?_, ?_⟩
  · intro hzero
    rw [hzero] at hstart
    exact find_nowhere hstart h
  · intro entries hne hlist hlen
    exact find_linked hcap hstart hne hlist hlen h

/-- A graphics device without a list behind a bridge in which nothing is looked for. -/
theorem finds_of_not_seen (hseen : ¬ Seen which p.bridge.busAddress p.gpu.busAddress)
    (hown : (p.device which).Listed → capabilityList ((p.device which).config 0x0e &&& 0x7f) = 0)
    (hbridge : p.bridge.Listed → capabilityList ((p.device which).config 0x08) = 0) :
    Finds p which cap := by
  obtain ⟨fuel, result, h⟩ := find_ends p.boot (p.boot.pdev which) cap
  have hregister : (p.device which).listRegister = 0 := by
    rw [Device.listRegister]
    split
    · rfl
    · rename_i hlisted
      exact hown hlisted
  have hstart : pciBusFindCapStart p.boot (p.boot.pdev which).devfn (p.boot.pdev which).hdrType =
      some 0 := by
    rw [findCapStart_boot (pciCap_of_not_seen hseen)]
    split
    · rfl
    · rename_i hlisted
      rw [hbridge hlisted]
  refine ⟨fuel, result, h, fun _ => find_nowhere hstart h, ?_⟩
  intro entries hne
  exact absurd hregister hne

end

/-! ## Where it is not

A device with one capability, at 0x40, to which the register at `register` leads. -/

def sampleConfig (config : Byte → Byte) (register id a : Byte) : Byte :=
  if a = 0x06 ∨ a = 0x07 ∨ a = 0x08 ∨ a = 0x0e then config a
  else if a = register then 0x40
  else if a = 0x40 then id
  else 0

/-- The device with other lists: what decides where the search starts is as it was. -/
def Device.sample (d : Device) (register id : Byte) : Device :=
  { d with config := sampleConfig d.config register id }

theorem capabilityList_cases (hdrType : Byte) :
    capabilityList hdrType = 0 ∨ capabilityList hdrType = 0x34 ∨
      capabilityList hdrType = 0x14 := by
  unfold capabilityList
  split
  · exact .inr (.inl rfl)
  · split
    · exact .inr (.inr rfl)
    · exact .inl rfl

section

variable {config : Byte → Byte} {register id : Byte}

/-- Past the entry there is nothing, nor where another register is. -/
theorem sample_nothing {a : Byte} (ha : a = 0x34 ∨ a = 0x14 ∨ a = 0x41) (hne : a ≠ register) :
    Linked (sampleConfig config register id) a [] := by
  have hzero : sampleConfig config register id a = 0 := by
    rcases ha with rfl | rfl | rfl
    all_goals
      rw [sampleConfig, if_neg (by decide), if_neg hne, if_neg (by decide)]
  refine .nil ?_
  rw [hzero]
  decide

variable (h : register = 0x34 ∨ register = 0x14)
include h

theorem sample_entry : sampleConfig config register id 0x40 = id := by
  rcases h with rfl | rfl
  · rfl
  · rfl

theorem sample_linked (hid : id ≠ 0xff) :
    Linked (sampleConfig config register id) register [0x40] := by
  have hpointer : sampleConfig config register id register = 0x40 := by
    rcases h with rfl | rfl
    · rfl
    · rfl
  refine .cons ?_ ?_ ?_ (sample_nothing (.inr (.inr rfl)) ?_)
  · rw [hpointer]
    decide
  · rw [hpointer]
    rfl
  · rw [sample_entry h]
    exact hid
  · rcases h with rfl | rfl
    · decide
    · decide

theorem sample_first {cap : Word} (hid : id.setWidth 32 = cap) :
    first (sampleConfig config register id) cap [0x40] = 0x40 := by
  rw [first, List.find?_cons_of_pos]
  · rfl
  · rw [sample_entry h, decide_eq_true_eq]
    exact hid

end

/-- The two devices with other lists.  What is at one address stays one device. -/
def Platform.sample (p : Platform) (bridgeRegister gpuRegister id : Byte)
    (hone : p.bridge.busAddress = p.gpu.busAddress → bridgeRegister = gpuRegister) : Platform where
  bridge := p.bridge.sample bridgeRegister id
  gpu := p.gpu.sample gpuRegister id
  one := by
    intro h
    have haddress : p.bridge.busAddress = p.gpu.busAddress := h
    rw [p.one haddress, hone haddress]

/-- Two platforms that differ in the lists only: the addresses, whether the devices have lists, and
the header and the revision of the device are the same. -/
structure Alike (which : Which) (p q : Platform) : Prop where
  bridge : q.bridge.busAddress = p.bridge.busAddress
  gpu : q.gpu.busAddress = p.gpu.busAddress
  bridgeStatus : q.bridge.Listed ↔ p.bridge.Listed
  gpuStatus : q.gpu.Listed ↔ p.gpu.Listed
  header : (q.device which).config 0x0e = (p.device which).config 0x0e
  revision : (q.device which).config 0x08 = (p.device which).config 0x08

section

variable {p : Platform} {which : Which} {cap : Word} {bridgeRegister gpuRegister id : Byte}
  {hone : p.bridge.busAddress = p.gpu.busAddress → bridgeRegister = gpuRegister}

theorem sample_alike (which : Which) :
    Alike which p (p.sample bridgeRegister gpuRegister id hone) := by
  refine ⟨rfl, rfl, Iff.rfl, Iff.rfl, ?_, ?_⟩
  · cases which with
    | bridge => rfl
    | gpu => rfl
  · cases which with
    | bridge => rfl
    | gpu => rfl

/-- With one register for both, either of them is a sample. -/
theorem sample_device (p : Platform) (which : Which) (register id : Byte) :
    (p.sample register register id (fun _ => rfl)).device which =
      (p.device which).sample register id := by
  cases which with
  | bridge => rfl
  | gpu => rfl

/-- The register the sample really has is that of the device. -/
theorem sample_listRegister (d : Device) (register id : Byte) :
    (d.sample register id).listRegister = d.listRegister := rfl

theorem listRegister_cases (d : Device) :
    d.listRegister = 0 ∨ d.listRegister = 0x34 ∨ d.listRegister = 0x14 := by
  rw [Device.listRegister]
  split
  · exact .inl rfl
  · exact capabilityList_cases _

/-- What the search should give for a sample. -/
theorem sample_right {d : Device} {register : Byte} {result : Option Byte} (hid : id ≠ 0xff)
    (hcap : id.setWidth 32 = cap) (hright : Right (d.sample register id) cap result) :
    (d.listRegister = 0 → result = some 0) ∧
      (d.listRegister ≠ 0 → d.listRegister = register → result = some 0x40) := by
  obtain ⟨hzero, hlinked⟩ := hright
  rw [sample_listRegister] at hzero hlinked
  refine ⟨hzero, ?_⟩
  intro hne heq
  have hreg := (listRegister_cases d).resolve_left hne
  rw [heq] at hne hreg hlinked
  rw [hlinked [0x40] hne (sample_linked hreg hid) (by decide)]
  exact congrArg some (sample_first hreg hcap)

/-- Where the search starts in a device, under the revision of another one. -/
def startIn (d : Device) (revision : Byte) : Byte :=
  if d.configRead16 0x06 &&& 0x10 = 0 then 0 else capabilityList revision

/-- What the search gives: the capability of the device it looks at, if the revision leads to
it. -/
theorem sample_result {q : Platform} {d : Device} {fuel : Nat} {register : Byte}
    {result : Option Byte} (hid : id ≠ 0xff) (hcap : id.setWidth 32 = cap)
    (hd : pciCap q.boot (q.boot.pdev which).devfn = some (d.sample register id))
    (hfind : pciFindCapability fuel q.boot (q.boot.pdev which) cap = some result) :
    (startIn d ((q.device which).config 0x08) = 0 → result = some 0) ∧
      (startIn d ((q.device which).config 0x08) ≠ 0 →
        result =
          some (if startIn d ((q.device which).config 0x08) = register then 0x40 else 0)) := by
  have hstart : pciBusFindCapStart q.boot (q.boot.pdev which).devfn (q.boot.pdev which).hdrType =
      some (startIn d ((q.device which).config 0x08)) := by
    rw [findCapStart_boot hd]
    rfl
  have hcases : startIn d ((q.device which).config 0x08) = 0 ∨
      startIn d ((q.device which).config 0x08) = 0x34 ∨
      startIn d ((q.device which).config 0x08) = 0x14 := by
    rw [startIn]
    split
    · exact .inl rfl
    · exact capabilityList_cases _
  generalize startIn d ((q.device which).config 0x08) = pos at hstart hcases
  constructor
  · rintro rfl
    exact find_nowhere hstart hfind
  · intro hne
    have hreg := hcases.resolve_left hne
    by_cases heq : pos = register
    · subst heq
      rw [if_pos rfl, find_linked hd hstart hne (sample_linked hreg hid) (by decide) hfind]
      exact congrArg some (sample_first hreg hcap)
    · rw [if_neg heq]
      exact find_linked hd hstart hne (sample_nothing (or_assoc.mp (.inl hreg)) heq)
        (Nat.zero_le _) hfind

/-- An id that a device can have. -/
theorem exists_id (h : cap.toNat < 0xff) : ∃ id : Byte, id ≠ 0xff ∧ id.setWidth 32 = cap := by
  refine ⟨cap.setWidth 8, ?_, ?_⟩
  · bv_omega
  · bv_omega

theorem startIn_of_listed {d : Device} (h : d.Listed) (revision : Byte) :
    startIn d revision = capabilityList revision := if_neg h

theorem listRegister_of_listed {d : Device} (h : d.Listed) :
    d.listRegister = capabilityList (d.config 0x0e &&& 0x7f) := if_neg h

variable (hall : ∀ q, Alike which p q → Finds q which cap) (hsmall : cap.toNat < 0xff)
include hall hsmall

/-- The revision has to lead to the same register as the type of the header. -/
theorem same_of_finds (hseen : Seen which p.bridge.busAddress p.gpu.busAddress)
    (hlisted : (p.device which).Listed) :
    capabilityList ((p.device which).config 0x08) =
      capabilityList ((p.device which).config 0x0e &&& 0x7f) := by
  obtain ⟨id, hid, hcap⟩ := exists_id hsmall
  -- what is found, and what should be, with the entry behind one register in both devices
  have hsample : ∀ register, ∃ result,
      ((p.device which).listRegister = 0 → result = some 0) ∧
      ((p.device which).listRegister ≠ 0 → (p.device which).listRegister = register →
        result = some 0x40) ∧
      (capabilityList ((p.device which).config 0x08) = 0 → result = some (0 : Byte)) ∧
      (capabilityList ((p.device which).config 0x08) ≠ 0 → result =
        some (if capabilityList ((p.device which).config 0x08) = register then 0x40 else 0)) := by
    intro register
    obtain ⟨fuel, result, hfind, hright⟩ :=
      hall (p.sample register register id (fun _ => rfl)) (sample_alike which)
    have hd := pciCap_of_seen (p := p.sample register register id (fun _ => rfl)) hseen
    rw [sample_device] at hd hright
    have hresult := sample_result hid hcap hd hfind
    rw [(sample_alike which).revision, startIn_of_listed hlisted] at hresult
    obtain ⟨hnone, hsome⟩ := sample_right hid hcap hright
    exact ⟨result, hnone, hsome, hresult.1, hresult.2⟩
  rw [← listRegister_of_listed hlisted]
  by_contra hne
  by_cases hown : (p.device which).listRegister = 0
  · -- no list, but something where the revision says
    obtain ⟨result, hnone, _, _, hfound⟩ :=
      hsample (capabilityList ((p.device which).config 0x08))
    have hresult := hfound (fun hzero => hne (hzero.trans hown.symm))
    rw [hnone hown, if_pos rfl] at hresult
    exact absurd hresult (by decide)
  · -- a list, but not where the revision says
    obtain ⟨result, _, hsome, hnowhere, helse⟩ := hsample (p.device which).listRegister
    have hresult := hsome hown rfl
    by_cases hzero : capabilityList ((p.device which).config 0x08) = 0
    · rw [hnowhere hzero] at hresult
      exact absurd hresult (by decide)
    · rw [helse hzero, if_neg hne] at hresult
      exact absurd hresult (by decide)

/-- Behind the bridge there must be no list, and nothing to look for in the bridge. -/
theorem nothing_of_finds (hseen : ¬ Seen which p.bridge.busAddress p.gpu.busAddress) :
    (p.device which).listRegister = 0 ∧
      (p.bridge.Listed → capabilityList ((p.device which).config 0x08) = 0) := by
  obtain ⟨id, hid, hcap⟩ := exists_id hsmall
  have hwhich : which = .gpu := by
    cases which with
    | bridge => exact absurd (.inl rfl) hseen
    | gpu => rfl
  subst hwhich
  have haddress : p.bridge.busAddress ≠ p.gpu.busAddress := fun h => hseen (.inr (.inr h))
  have hsample : ∀ bridgeRegister gpuRegister, ∃ result,
      (p.gpu.listRegister = 0 → result = some 0) ∧
      (p.gpu.listRegister ≠ 0 → p.gpu.listRegister = gpuRegister → result = some 0x40) ∧
      (startIn p.bridge (p.gpu.config 0x08) = 0 → result = some (0 : Byte)) ∧
      (startIn p.bridge (p.gpu.config 0x08) ≠ 0 → result =
        some (if startIn p.bridge (p.gpu.config 0x08) = bridgeRegister then 0x40 else 0)) := by
    intro bridgeRegister gpuRegister
    obtain ⟨fuel, result, hfind, hright⟩ :=
      hall (p.sample bridgeRegister gpuRegister id (fun h => absurd h haddress))
        (sample_alike .gpu)
    have hd := pciCap_of_not_seen
      (p := p.sample bridgeRegister gpuRegister id (fun h => absurd h haddress)) hseen
    obtain ⟨hnowhere, helse⟩ := sample_result hid hcap hd hfind
    obtain ⟨hnone, hsome⟩ := sample_right hid hcap hright
    exact ⟨result, hnone, hsome, hnowhere, helse⟩
  have hown : p.gpu.listRegister = 0 := by
    by_contra hne
    -- the graphics device has the entry, the bridge has none
    obtain ⟨result, _, hsome, hnowhere, helse⟩ := hsample 0 p.gpu.listRegister
    have hresult := hsome hne rfl
    by_cases hzero : startIn p.bridge (p.gpu.config 0x08) = 0
    · rw [hnowhere hzero] at hresult
      exact absurd hresult (by decide)
    · rw [helse hzero, if_neg hzero] at hresult
      exact absurd hresult (by decide)
  refine ⟨hown, ?_⟩
  intro hlisted
  by_contra hne
  obtain ⟨result, hnone, _, _, helse⟩ := hsample (startIn p.bridge (p.gpu.config 0x08)) 0
  have hstart : startIn p.bridge (p.gpu.config 0x08) ≠ 0 := by
    rw [startIn_of_listed hlisted]
    exact hne
  have hresult := helse hstart
  rw [hnone hown, if_pos rfl] at hresult
  exact absurd hresult (by decide)

end

/-- What the addresses, the status, the header and the revision have to be. -/
def Leads (p : Platform) (which : Which) : Prop :=
  (Seen which p.bridge.busAddress p.gpu.busAddress → (p.device which).Listed →
    capabilityList ((p.device which).config 0x08) =
      capabilityList ((p.device which).config 0x0e &&& 0x7f)) ∧
  (¬ Seen which p.bridge.busAddress p.gpu.busAddress →
    ((p.device which).Listed → capabilityList ((p.device which).config 0x0e &&& 0x7f) = 0) ∧
      (p.bridge.Listed → capabilityList ((p.device which).config 0x08) = 0))

theorem finds_of_leads {p : Platform} {which : Which} (cap : Word) (h : Leads p which) :
    Finds p which cap := by
  obtain ⟨hown, hhidden⟩ := h
  by_cases hseen : Seen which p.bridge.busAddress p.gpu.busAddress
  · exact finds_of_seen hseen (hown hseen)
  · exact finds_of_not_seen hseen (hhidden hseen).1 (hhidden hseen).2

/-- What counts is the same in platforms that differ in the lists only. -/
theorem Leads.alike {p q : Platform} {which : Which} (h : Leads p which) (hq : Alike which p q) :
    Leads q which := by
  have hdevice : (q.device which).Listed ↔ (p.device which).Listed := by
    cases which with
    | bridge => exact hq.bridgeStatus
    | gpu => exact hq.gpuStatus
  rw [Leads, hq.bridge, hq.gpu, hq.header, hq.revision, hdevice, hq.bridgeStatus]
  exact h

/-- The search ends for every configuration space.  It finds the first entry of the device's list
with the id, and 0 if there is none, whatever lists the devices have, if and only if no entry can
have the id, or this holds: the search looks at the device itself, and if its status says that it
has a list, the revision, taken for a type of header, has the list where the header has it; or the
device is hidden by the bridge, has no list, and none is looked for in the bridge. -/
theorem pci_find_capability_iff (p : Platform) (which : Which) (cap : Word) :
    (∀ g dev, ∃ fuel result, pciFindCapability fuel g dev cap = some result) ∧
    ((∀ q, Alike which p q → Finds q which cap) ↔ 0xff ≤ cap.toNat ∨ Leads p which) := by
  refine ⟨fun g dev => find_ends g dev cap, ?_, ?_⟩
  · intro hall
    by_cases hcap : 0xff ≤ cap.toNat
    · exact .inl hcap
    · refine .inr ⟨same_of_finds hall (by omega), ?_⟩
      intro hseen
      obtain ⟨hown, hbridge⟩ := nothing_of_finds hall (by omega) hseen
      refine ⟨?_, hbridge⟩
      intro hlisted
      rw [← listRegister_of_listed hlisted]
      exact hown
  · rintro (hcap | hleads) q hq
    · exact finds_of_no_id hcap
    · exact finds_of_leads cap (hleads.alike hq)

/-- A device without anything in its configuration space, but for its status, header and
revision. -/
def plain (address : Address) (status header revision : Byte) : Device where
  busAddress := address
  vendorId := 0x8086
  deviceId := 0
  config a :=
    if a = 0x06 then status else if a = 0x0e then header else if a = 0x08 then revision else 0
  resource _ := ⟨0, 0⟩

/-- A graphics device of revision 7 with a normal header and the capability 2 at 0x40: the search
takes the revision for a type of header it does not know, and finds nothing. -/
theorem pci_find_capability_revision :
    let p : Platform := ⟨plain ⟨0, 0, 0⟩ 0 0 0, (plain ⟨0, 2, 0⟩ 0x10 0 7).sample 0x34 2,
      fun h => absurd h (by decide)⟩
    pciFindCapability 1 p.boot (p.boot.pdev .gpu) 2 = some (some 0) ∧
      p.gpu.listRegister = 0x34 ∧ Linked p.gpu.config 0x34 [0x40] ∧
      first p.gpu.config 2 [0x40] = 0x40 :=
  ⟨by decide, by decide, sample_linked (.inl rfl) (by decide), by decide⟩

end LinuxDrivers.Gpu.PciCapability
