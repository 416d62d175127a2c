/-
# `LinuxDrivers.Usb.StorageTable` — the table of USB storage devices

A storage device that was found gets the first free of four slots.  The driver asks it
for its capacity and tells whoever has registered for it:

    dde_linux26_block_dev_add(sdev):
        first call                        clear the table
        no slot free                      -EBLK_NOMEM
        slot i free                       usb_devices[i].sdev = sdev
                                          capacity(i);  callback(i);  0
    capacity(i):                          READ CAPACITY(10), and wait for it
        block_count = bytes 0 to 3        one more unless `fix_capacity`
        block_size  = bytes 4 to 7

The reply is that of the device, or whatever was in the memory for it if the command failed;
the result of the command is not looked at.  A host that refuses the command makes the
caller wait for ever.

Everybody else gets at a slot through `dde_linux26_block_present`, whose test of the index
never fires (`ddeLinux26BlockPresent_eq`).

**Proved here.**

    the number of blocks is reported right iff it is below 2^31    (`capacity_exact_iff`)
    only the table is looked at iff the index is one of its slots, and a slot that was handed
      to a callback stays present                                  (`device_table_iff`)
-/
import LinuxDrivers.Usb.Request

namespace LinuxDrivers.Usb

/-! ## The code -/

def eblkNomem : Int := 1

def readCapacity : Byte := 0x25

/-- The 8 bytes a READ CAPACITY(10) leaves. -/
structure CapacityReply where
  b₀ : Byte
  b₁ : Byte
  b₂ : Byte
  b₃ : Byte
  b₄ : Byte
  b₅ : Byte
  b₆ : Byte
  b₇ : Byte
  deriving DecidableEq, Repr

/-- What `capacity` does with the reply; `fixCapacity` is that of the device. -/
def capacity (devs : UsbDevices) (usbIndex : Int) (fixCapacity : Bool) (result : CapacityReply) :
    UsbDevices :=
  let count := be32ToCpu result.b₀ result.b₁ result.b₂ result.b₃
  Function.update devs usbIndex
    { devs usbIndex with
      blockCount := if !fixCapacity then count + 1 else count
      blockSize := be32ToCpu result.b₄ result.b₅ result.b₆ result.b₇ }

/-- The size, too, is returned as an `int`. -/
def ddeLinux26BlockSize (devs : UsbDevices) (usbIndex : Int) : Int :=
  if !ddeLinux26BlockPresent devs usbIndex then -eblkNodev
  else intOfWord (devs usbIndex).blockSize

/-- What the block session tells its client. -/
structure Info where
  blkCount : Word
  blkSize : Word
  ops : List Operation
  deriving DecidableEq, Repr

/-- `Session_component::info` -/
def info (devs : UsbDevices) (usbIndex : Int) : Info :=
  ⟨wordOfInt (ddeLinux26BlockCount devs usbIndex), 512, [.read, .write]⟩

structure Table where
  usbDevices : UsbDevices
  init : Bool
  currentPluginCallback : Option Nat
  /-- history: the indices that were handed to a callback, the last one first -/
  plugged : List Int

/-- `memset(usb_devices, 0, ...)` -/
def clearDevices (devs : UsbDevices) : UsbDevices :=
  fun i => if 0 ≤ i ∧ i < maxUsbIndex then ⟨0, 0, none⟩ else devs i

/-- The loop of `dde_linux26_block_dev_add`. -/
def freeIndex (devs : UsbDevices) : Option Int :=
  [0, 1, 2, 3].find? (fun i => (devs i).sdev.isNone)

/-- `usb_devices[i].sdev = sdev` -/
def storeSdev (devs : UsbDevices) (i : Int) (sdev : Nat) : UsbDevices :=
  Function.update devs i { devs i with sdev := some sdev }

def ddeLinux26PluginRxCallback (t : Table) (usbIndex : Int) : Table :=
  match t.currentPluginCallback with
  | some _ => { t with plugged := usbIndex :: t.plugged }
  | none => t

def ddeLinux26BlockRegisterPluginCallback (t : Table) (cb : Option Nat) : Option Nat × Table :=
  (t.currentPluginCallback, { t with currentPluginCallback := cb })

/-- The first call clears the table. -/
def Table.ready (t : Table) : Table :=
  if !t.init then { t with usbDevices := clearDevices t.usbDevices, init := true } else t

/-- `result` is what READ CAPACITY leaves, or `none` if the host refuses the command: then the
call does not return. -/
def ddeLinux26BlockDevAdd (t : Table) (sdev : Nat) (fixCapacity : Bool)
    (result : Option CapacityReply) : Option Int × Table :=
  let t := t.ready
  match freeIndex t.usbDevices with
  | none => (some (-eblkNomem), t)
  | some i =>
      let devs := storeSdev t.usbDevices i sdev
      match result with
      | none => (none, { t with usbDevices := devs })
      | some result =>
          (some 0, ddeLinux26PluginRxCallback
            { t with usbDevices := capacity devs i fixCapacity result } i)

/-! ## Capacity -/

/-- The number in the reply: the last logical block address, or the number of blocks for a
device that needs `fix_capacity`. -/
def CapacityReply.value (result : CapacityReply) : Nat :=
  (be32ToCpu result.b₀ result.b₁ result.b₂ result.b₃).toNat

/-- The number of blocks, as a number. -/
def CapacityReply.blocks (result : CapacityReply) (fixCapacity : Bool) : Nat :=
  if fixCapacity then result.value else result.value + 1

/-- The slot reports `n` blocks, to the callers of `dde_linux26_block_count` and to the client
of the session. -/
structure ReportsBlocks (devs : UsbDevices) (usbIndex : Int) (n : Nat) : Prop where
  count : ddeLinux26BlockCount devs usbIndex = n
  client : (info devs usbIndex).blkCount.toNat = n

section
variable {devs : UsbDevices} {usbIndex : Int}

/-- The word that is stored is the number of blocks, wrapped to 32 bits. -/
theorem capacity_blockCount (devs : UsbDevices) (usbIndex : Int) (fixCapacity : Bool)
    (result : CapacityReply) :
    ((capacity devs usbIndex fixCapacity result) usbIndex).blockCount.toNat =
      result.blocks fixCapacity % 2 ^ 32 := by
  unfold capacity CapacityReply.blocks CapacityReply.value
  generalize be32ToCpu result.b₀ result.b₁ result.b₂ result.b₃ = value
  cases fixCapacity with
  | true =>
      simp only [Function.update_self, Bool.not_true, Bool.false_eq_true, if_false, if_true]
      exact (Nat.mod_eq_of_lt value.isLt).symm
  | false =>
      simp only [Function.update_self, Bool.not_false, Bool.false_eq_true, if_false, if_true]
      have hone : (1 : Word).toNat = 1 := rfl
      rw [BitVec.toNat_add, hone]

theorem capacity_sdev (i : Int) (fixCapacity : Bool) (result : CapacityReply) :
    ((capacity devs i fixCapacity result) usbIndex).sdev = (devs usbIndex).sdev := by
  unfold capacity
  by_cases hi : usbIndex = i
  · subst hi
    simp only [Function.update_self]
  · simp only [Function.update_of_ne hi]

theorem ddeLinux26BlockCount_present (hp : (devs usbIndex).sdev.isSome = true) :
    ddeLinux26BlockCount devs usbIndex = intOfWord (devs usbIndex).blockCount := by
  rw [ddeLinux26BlockCount, ddeLinux26BlockPresent_eq, hp]
  rfl

/-- The client is told the word as it is stored: the `int` in between takes nothing away. -/
theorem info_blkCount (hp : (devs usbIndex).sdev.isSome = true) :
    (info devs usbIndex).blkCount = (devs usbIndex).blockCount := by
  rw [info, ddeLinux26BlockCount_present hp, wordOfInt_intOfWord]

end

/-- **When the capacity is reported right.**  For every reply and either value of `fix_capacity`:
callers and client are told the number of blocks the reply stands for exactly if it is below
2^31; callers get a negative number from there on, and both get 0 for 2^32 blocks. -/
theorem capacity_exact_iff (devs : UsbDevices) (usbIndex : Int) (fixCapacity : Bool)
    (result : CapacityReply) (hp : (devs usbIndex).sdev.isSome = true) :
    ReportsBlocks (capacity devs usbIndex fixCapacity result) usbIndex (result.blocks fixCapacity) ↔
      result.blocks fixCapacity < 2 ^ 31 := by
  have hp' : ((capacity devs usbIndex fixCapacity result) usbIndex).sdev.isSome = true := by
    rw [capacity_sdev, hp]
  have hword := capacity_blockCount devs usbIndex fixCapacity result
  generalize hcount : ((capacity devs usbIndex fixCapacity result) usbIndex).blockCount = count at *
  have hint : ddeLinux26BlockCount (capacity devs usbIndex fixCapacity result) usbIndex =
      count.toInt := by
    rw [ddeLinux26BlockCount_present hp', hcount]
    rfl
  have hinfo : (info (capacity devs usbIndex fixCapacity result) usbIndex).blkCount = count := by
    rw [info_blkCount hp', hcount]
  constructor
  · rintro ⟨hreport, -⟩
    rw [hint] at hreport
    have hbound := BitVec.toInt_lt (x := count)
    rw [hreport] at hbound
    exact_mod_cast hbound
  · intro hlt
    have hsmall : count.toNat = result.blocks fixCapacity := by
      rw [hword]
      exact Nat.mod_eq_of_lt (by omega)
    refine ⟨?_, ?_⟩
    · rw [hint, BitVec.toInt_eq_toNat_of_lt (by omega), hsmall]
    · rw [hinfo, hsmall]

/-- The table with a device in its first slot. -/
def oneDevice : UsbDevices :=
  fun i => if i = 0 then ⟨0, 0, some 0⟩ else ⟨0, 0, none⟩

/-- A device whose last block has the number 0xff. -/
theorem capacity_small :
    ReportsBlocks (capacity oneDevice 0 false ⟨0, 0, 0, 0xff, 0, 0, 2, 0⟩) 0 256 :=
  (capacity_exact_iff oneDevice 0 false ⟨0, 0, 0, 0xff, 0, 0, 2, 0⟩ rfl).mpr (by decide)

/-- **A large device has a negative number of blocks.**  2^31 blocks of 512 bytes are a terabyte.
And the device with the largest block address has none. -/
theorem capacity_negative :
    ddeLinux26BlockCount (capacity oneDevice 0 false ⟨0x7f, 0xff, 0xff, 0xff, 0, 0, 2, 0⟩) 0 =
        -2147483648 ∧
      ¬ ReportsBlocks (capacity oneDevice 0 false ⟨0x7f, 0xff, 0xff, 0xff, 0, 0, 2, 0⟩) 0
        (2 ^ 31) ∧
      (info (capacity oneDevice 0 false ⟨0xff, 0xff, 0xff, 0xff, 0, 0, 2, 0⟩) 0).blkCount = 0 := by
  refine ⟨by decide, ?_, by decide⟩
  intro h
  exact absurd h.count (by decide)

/-! ## The table -/

/-- The slots of `usb_devices`. -/
def InTable (usbIndex : Int) : Prop := 0 ≤ usbIndex ∧ usbIndex < maxUsbIndex

instance (usbIndex : Int) : Decidable (InTable usbIndex) := inferInstanceAs (Decidable (_ ∧ _))

/-- The other arguments of the entry points, and what their calls find. -/
structure Query where
  heap : ScsiCmnd
  reply : Reply
  blockNr : Word
  buffer : Word
  deriving DecidableEq, Repr

/-- What the five entry points answer for an index; reading and writing with the command they hand
to the host. -/
structure Answers where
  present : Bool
  count : Int
  size : Int
  read : Int × Option (ScsiCmnd × Reply)
  write : Int × Option (ScsiCmnd × Reply)
  deriving DecidableEq, Repr

def answers (devs : UsbDevices) (usbIndex : Int) (q : Query) : Answers where
  present := ddeLinux26BlockPresent devs usbIndex
  count := ddeLinux26BlockCount devs usbIndex
  size := ddeLinux26BlockSize devs usbIndex
  read := ddeLinux26BlockRead ⟨devs, q.heap, q.reply⟩ usbIndex q.blockNr q.buffer
  write := ddeLinux26BlockWrite ⟨devs, q.heap, q.reply⟩ usbIndex q.blockNr q.buffer

/-- Not present, `-EBLK_NODEV`, and no command. -/
def Answers.absent : Answers :=
  ⟨false, -eblkNodev, -eblkNodev, (-eblkNodev, none), (-eblkNodev, none)⟩

/-- What is asked of an index: nothing but the table decides about the answers, and a slot with no
device, or an index that is no slot, is absent. -/
structure IndexSafe (devs : UsbDevices) (usbIndex : Int) : Prop where
  consulted : ∀ devs' : UsbDevices, (∀ i, InTable i → devs' i = devs i) →
    ∀ q, answers devs' usbIndex q = answers devs usbIndex q
  absent : (InTable usbIndex → (devs usbIndex).sdev = none) →
    ∀ q, answers devs usbIndex q = Answers.absent

/-- The entry points look at the one slot they are asked for. -/
theorem answers_congr {devs devs' : UsbDevices} {usbIndex : Int}
    (h : devs' usbIndex = devs usbIndex) (q : Query) :
    answers devs' usbIndex q = answers devs usbIndex q := by
  simp only [answers, ddeLinux26BlockCount, ddeLinux26BlockSize, ddeLinux26BlockRead,
    ddeLinux26BlockWrite, blockIo, blockCommand, ddeLinux26BlockPresent_eq, h]

theorem answers_absent {devs : UsbDevices} {usbIndex : Int} (h : (devs usbIndex).sdev = none)
    (q : Query) : answers devs usbIndex q = Answers.absent := by
  simp [answers, Answers.absent, ddeLinux26BlockCount, ddeLinux26BlockSize, ddeLinux26BlockRead,
    ddeLinux26BlockWrite, blockIo, ddeLinux26BlockPresent_eq, h]

/-- Whatever is in the table, exactly its slots are safe to ask for: for any other index the memory
beside the table decides. -/
theorem indexSafe_iff (devs : UsbDevices) (usbIndex : Int) :
    IndexSafe devs usbIndex ↔ InTable usbIndex := by
  constructor
  · intro h
    by_contra hout
    -- the same table, with a device or none in the memory the index leads to
    have hsame : ∀ x : UsbStor, ∀ i, InTable i → Function.update devs usbIndex x i = devs i := by
      intro x i hi
      refine Function.update_of_ne ?_ _ _
      rintro rfl
      exact hout hi
    have hquery : Query := ⟨⟨none, 0, .none, [], 0, 0, 0, 0⟩, .busy, 0, 0⟩
    have hsome := h.consulted _ (hsame ⟨0, 0, some 0⟩) hquery
    have hnone := h.consulted _ (hsame ⟨0, 0, none⟩) hquery
    have heq := congrArg Answers.present (hsome.trans hnone.symm)
    simp only [answers, ddeLinux26BlockPresent_eq, Function.update_self] at heq
    cases heq
  · intro hin
    refine ⟨?_, ?_⟩
    · intro devs' hsame q
      exact answers_congr (hsame usbIndex hin) q
    · intro hnone q
      exact answers_absent (hnone hin) q

/-! ### Additions -/

inductive TableCall where
  | register (cb : Option Nat)
  | devAdd (sdev : Nat) (fixCapacity : Bool) (result : Option CapacityReply)
  deriving DecidableEq, Repr

def tableStep (t : Table) : TableCall → Table
  | .register cb => (ddeLinux26BlockRegisterPluginCallback t cb).2
  | .devAdd sdev fixCapacity result => (ddeLinux26BlockDevAdd t sdev fixCapacity result).2

/-- Before the first call: the static table is zero, the memory around it is not. -/
structure Boot (t : Table) : Prop where
  init : t.init = false
  plugged : t.plugged = []
  devices : ∀ i, InTable i → t.usbDevices i = ⟨0, 0, none⟩

theorem storeSdev_self (devs : UsbDevices) (i : Int) (sdev : Nat) :
    (storeSdev devs i sdev i).sdev.isSome = true := by
  rw [storeSdev, Function.update_self]
  rfl

/-- No slot loses its device. -/
theorem storeSdev_keeps {devs : UsbDevices} {i : Int} (k : Int) (sdev : Nat)
    (h : (devs i).sdev.isSome = true) : (storeSdev devs k sdev i).sdev.isSome = true := by
  by_cases hik : i = k
  · subst hik
    exact storeSdev_self devs i sdev
  · rw [storeSdev, Function.update_of_ne hik]
    exact h

theorem pluginRxCallback_eq (t : Table) (i : Int) :
    ddeLinux26PluginRxCallback t i = t ∨
      ddeLinux26PluginRxCallback t i = { t with plugged := i :: t.plugged } := by
  unfold ddeLinux26PluginRxCallback
  cases t.currentPluginCallback with
  | none => exact .inl rfl
  | some cb => exact .inr rfl

/-- What an addition does to a table that was cleared: no slot loses its device, and an index that
is handed to a callback is that of a slot with a device. -/
theorem devAdd_ready (t : Table) (sdev : Nat) (fixCapacity : Bool) (result : Option CapacityReply) :
    let t' := (ddeLinux26BlockDevAdd t sdev fixCapacity result).2
    t'.init = t.ready.init ∧
      (∀ i, (t.ready.usbDevices i).sdev.isSome = true → (t'.usbDevices i).sdev.isSome = true) ∧
      (t'.plugged = t.ready.plugged ∨
        ∃ i, t'.plugged = i :: t.ready.plugged ∧ (t'.usbDevices i).sdev.isSome = true) := by
  unfold ddeLinux26BlockDevAdd
  simp only
  cases freeIndex t.ready.usbDevices with
  | none => exact ⟨rfl, fun _ h => h, .inl rfl⟩
  | some k =>
      cases result with
      | none => exact ⟨rfl, fun _ h => storeSdev_keeps k sdev h, .inl rfl⟩
      | some result =>
          have hkeep : ∀ i, (t.ready.usbDevices i).sdev.isSome = true →
              (capacity (storeSdev t.ready.usbDevices k sdev) k fixCapacity result i).sdev.isSome =
                true := by
            intro i h
            rw [capacity_sdev]
            exact storeSdev_keeps k sdev h
          have hnew : ((capacity (storeSdev t.ready.usbDevices k sdev) k fixCapacity result) k
              ).sdev.isSome = true := by
            rw [capacity_sdev]
            exact storeSdev_self t.ready.usbDevices k sdev
          simp only
          rcases pluginRxCallback_eq { t.ready with
              usbDevices := capacity (storeSdev t.ready.usbDevices k sdev) k fixCapacity result } k
            with heq | heq
          · rw [heq]
            exact ⟨rfl, hkeep, .inl rfl⟩
          · rw [heq]
            exact ⟨rfl, hkeep, .inr ⟨k, rfl, hnew⟩⟩

/-- The slots that were handed to a callback have their devices, and the table is not cleared any
more. -/
structure Plugged (t : Table) : Prop where
  present : ∀ i ∈ t.plugged, (t.usbDevices i).sdev.isSome = true
  init : t.plugged ≠ [] → t.init = true

theorem Boot.toPlugged {t : Table} (h : Boot t) : Plugged t where
  present := by
    rw [h.plugged]
    intro i hi
    cases hi
  init := by
    intro hne
    exact absurd h.plugged hne

/-- Clearing finds nothing to forget. -/
theorem Plugged.ready {t : Table} (h : Plugged t) :
    t.ready.init = true ∧ t.ready.plugged = t.plugged ∧
      ∀ i ∈ t.plugged, (t.ready.usbDevices i).sdev.isSome = true := by
  unfold Table.ready
  cases hinit : t.init with
  | true => exact ⟨hinit, rfl, h.present⟩
  | false =>
      have hnil : t.plugged = [] := by
        by_contra hne
        rw [h.init hne] at hinit
        cases hinit
      refine ⟨rfl, rfl, ?_⟩
      rw [hnil]
      intro i hi
      cases hi

theorem Plugged.step {t : Table} (h : Plugged t) (call : TableCall) :
    Plugged (tableStep t call) ∧ ∀ i ∈ t.plugged, i ∈ (tableStep t call).plugged := by
  cases call with
  | register cb => exact ⟨⟨h.present, h.init⟩, fun _ hi => hi⟩
  | devAdd sdev fixCapacity result =>
      obtain ⟨hinit, hkeep, hplugged⟩ := devAdd_ready t sdev fixCapacity result
      obtain ⟨hready, hsame, hold⟩ := h.ready
      rw [hsame] at hplugged
      rw [hready] at hinit
      rcases hplugged with heq | ⟨k, heq, hk⟩
      · refine ⟨⟨?_, fun _ => hinit⟩, ?_⟩
        · intro i hi
          exact hkeep i (hold i (heq ▸ hi))
        · intro i hi
          exact heq ▸ hi
      · refine ⟨⟨?_, fun _ => hinit⟩, ?_⟩
        · intro i hi
          rcases List.mem_cons.mp (heq ▸ hi) with rfl | hi
          · exact hk
          · exact hkeep i (hold i hi)
        · intro i hi
          exact heq ▸ List.mem_cons_of_mem k hi

/-- Over a history the invariant stays, and what was plugged in stays so. -/
theorem Plugged.foldl (calls : List TableCall) : ∀ {t : Table}, Plugged t →
    Plugged (calls.foldl tableStep t) ∧ ∀ i ∈ t.plugged, i ∈ (calls.foldl tableStep t).plugged := by
  induction calls with
  | nil => exact fun h => ⟨h, fun _ hi => hi⟩
  | cons call calls ih =>
      intro t h
      obtain ⟨hstep, hmem⟩ := h.step call
      obtain ⟨hrest, hkeep⟩ := ih hstep
      exact ⟨hrest, fun i hi => hkeep i (hmem i hi)⟩

/-- **When the table is safe to use.**  After any history of additions: an index that was handed to
the plug-in callback is present, and stays so whatever is added later; and an index is answered
from the table alone, and as absent if it has no device there, exactly if it is one of the slots
0 to 3. -/
theorem device_table_iff (t : Table) (hboot : Boot t) (calls later : List TableCall)
    (usbIndex : Int) :
    (usbIndex ∈ (calls.foldl tableStep t).plugged →
      ddeLinux26BlockPresent ((calls ++ later).foldl tableStep t).usbDevices usbIndex = true) ∧
    (IndexSafe (calls.foldl tableStep t).usbDevices usbIndex ↔ InTable usbIndex) := by
  refine ⟨?_, indexSafe_iff _ _⟩
  intro hmem
  obtain ⟨hplugged, -⟩ := hboot.toPlugged.foldl calls
  obtain ⟨hafter, hkeep⟩ := hplugged.foldl later
  rw [ddeLinux26BlockPresent_eq, List.foldl_append]
  exact hafter.present usbIndex (hkeep usbIndex hmem)

/-- Nothing was added yet, and what lies behind the table looks like a device. -/
def freshTable : Table where
  usbDevices i := if 0 ≤ i ∧ i < 4 then ⟨0, 0, none⟩ else ⟨512, 10, some 9⟩
  init := false
  currentPluginCallback := some 0
  plugged := []

theorem freshTable_boot : Boot freshTable where
  init := rfl
  plugged := rfl
  devices _ hi := if_pos hi

/-- One device is added, and another one while the first stays. -/
theorem device_table_two :
    let add : TableCall := .devAdd 1 false (some ⟨0, 0, 0, 0xff, 0, 0, 2, 0⟩)
    ddeLinux26BlockPresent (([add] ++ [add]).foldl tableStep freshTable).usbDevices 0 = true ∧
      IndexSafe ([add].foldl tableStep freshTable).usbDevices 1 := by
  have hfirst := device_table_iff freshTable freshTable_boot
    [.devAdd 1 false (some ⟨0, 0, 0, 0xff, 0, 0, 2, 0⟩)]
    [.devAdd 1 false (some ⟨0, 0, 0, 0xff, 0, 0, 2, 0⟩)]
  exact ⟨(hfirst 0).1 (by decide), (hfirst 1).2.mpr (by decide)⟩

/-- **An index outside the table.**  The index after the last slot is present if the memory behind
the table says so, and a command goes to what is found there. -/
theorem index_behind_table :
    Boot freshTable ∧ ddeLinux26BlockPresent freshTable.usbDevices 4 = true ∧
      (ddeLinux26BlockRead ⟨freshTable.usbDevices, ⟨none, 0, .none, [], 0, 0, 0, 0⟩, .completed 0⟩
        4 0 0x1000).2.isSome = true ∧
      ¬ IndexSafe freshTable.usbDevices 4 := by
  refine ⟨freshTable_boot, rfl, by decide, ?_⟩
  rw [indexSafe_iff]
  decide

end LinuxDrivers.Usb
