/-
# `LinuxDrivers.Usb.ScsiCommand` — SCSI commands and what the transport reads of them

Three functions build a `scsi_cmnd` in memory from `kmalloc`, which is not cleared, and hand
it to the USB storage driver:

                      command block   length  buffer       direction     use_sg  underflow
    scsi_scan_host    INQUIRY         6       inquiry_len  FROM_DEVICE     -         -
    capacity          READ CAPACITY   10      8            FROM_DEVICE     -         -
    block_io          READ/WRITE(10)  10      block_size   either          -         -

The transport reads all of these.  If `use_sg` is not zero it takes the buffer for a list of
scatter-gather entries, and a transfer shorter than `underflow` it reports as an error.

**Proved here.**

    two commands that look alike to the transport are sent, and judged, alike
                                                     (`transport_congr`, `verdict_congr`)
    commands for the same arguments look alike iff the memory they were built in had the
      same `use_sg` and `underflow`                  (`commands_agree_iff`)
-/
import LinuxDrivers.Usb.StorageTable

namespace LinuxDrivers.Usb

/-! ## The commands -/

def inquiry : Byte := 0x12

/-- `TYPE_DISK` -/
def typeDisk : Byte := 0

/-- The fields of `scsi_device` that the scan, the transport and `capacity` use. -/
structure ScsiDevice where
  id : Word
  lun : Word
  type : Byte
  inquiryLen : Byte
  fixCapacity : Bool
  deriving DecidableEq, Repr

/-- `slave_alloc` of the USB storage driver -/
def slaveAlloc (sdev : ScsiDevice) : ScsiDevice := { sdev with inquiryLen := 36 }

/-- `slave_configure`; `flFixCapacity` is the flag of the USB device. -/
def slaveConfigure (flFixCapacity : Bool) (sdev : ScsiDevice) : ScsiDevice :=
  if sdev.type = typeDisk ∧ flFixCapacity = true then { sdev with fixCapacity := true } else sdev

/-- The device `scsi_scan_host` makes, in memory from `kmalloc` too. -/
def scanDevice (heap : ScsiDevice) (flFixCapacity : Bool) : ScsiDevice :=
  slaveConfigure flFixCapacity (slaveAlloc { heap with id := 0, lun := 0 })

/-- `memset(cmnd->cmnd, 0, MAX_COMMAND_SIZE)` -/
def clearedBlock : List Byte := List.replicate maxCommandSize 0

/-- The command of `capacity`. -/
def capacityCommand (heap : ScsiCmnd) (sdev : Option Nat) (result : Word) : ScsiCmnd :=
  { heap with
    cmnd := clearedBlock.set 0 readCapacity
    cmdLen := 10
    requestBuffer := result
    requestBufflen := 8
    device := sdev
    scDataDirection := .fromDevice }

/-- The command of `scsi_scan_host`, for the device at `addr`. -/
def inquiryCommand (heap : ScsiCmnd) (addr : Nat) (sdev : ScsiDevice) (result : Word) : ScsiCmnd :=
  { heap with
    cmnd := (clearedBlock.set 0 inquiry).set 4 sdev.inquiryLen
    device := some addr
    cmdLen := 6
    scDataDirection := .fromDevice
    requestBuffer := result
    requestBufflen := sdev.inquiryLen.setWidth 32 }

/-! ## The transport -/

/-- What the transport reads of a command. -/
structure TransportView where
  device : Option Nat
  cmnd : List Byte
  cmdLen : Byte
  requestBuffer : Word
  requestBufflen : Word
  useSg : BitVec 16
  underflow : Word
  scDataDirection : DmaDataDirection
  deriving DecidableEq, Repr

def ScsiCmnd.view (srb : ScsiCmnd) : TransportView where
  device := srb.device
  cmnd := srb.cmnd
  cmdLen := srb.cmdLen
  requestBuffer := srb.requestBuffer
  requestBufflen := srb.requestBufflen
  useSg := srb.useSg
  underflow := srb.underflow
  scDataDirection := srb.scDataDirection

/-- `struct bulk_cb_wrap`, without its signature and tag -/
structure BulkCbWrap where
  dataTransferLength : Word
  flags : Byte
  lun : Byte
  length : Byte
  cdb : List Byte
  deriving DecidableEq, Repr

/-- The data stage: none, the buffer itself, or a list of `useSg` scatter-gather entries at the
address of the buffer. -/
inductive DataStage where
  | none
  | buf (buf lengthLeft : Word) (receive : Bool)
  | sglist (buf : Word) (useSg : BitVec 16) (lengthLeft : Word) (receive : Bool)
  deriving DecidableEq, Repr

def usbStorBulkTransferSg (buf lengthLeft : Word) (useSg : BitVec 16) (receive : Bool) :
    DataStage :=
  if useSg ≠ 0 then .sglist buf useSg lengthLeft receive else .buf buf lengthLeft receive

/-- `usb_stor_Bulk_transport`, up to the data stage, on the devices at their addresses.
`scmMultTarg` is the flag of the USB device for several targets. -/
def usbStorBulkTransport (devices : Nat → ScsiDevice) (scmMultTarg : Bool) (srb : ScsiCmnd) :
    BulkCbWrap × DataStage :=
  let receive := decide (srb.scDataDirection = .fromDevice)
  let lun : Byte := match srb.device with
    | some addr =>
        let lun : Byte := (devices addr).lun.setWidth 8
        if scmMultTarg then lun ||| ((devices addr).id <<< 4).setWidth 8 else lun
    | none => 0
  ({ dataTransferLength := srb.requestBufflen
     flags := if receive then 0x80 else 0
     lun := lun
     length := srb.cmdLen
     cdb := srb.cmnd.take srb.cmdLen.toNat ++
       List.replicate (maxCommandSize - srb.cmdLen.toNat) 0 },
    if srb.requestBufflen ≠ 0 then
      usbStorBulkTransferSg srb.requestBuffer srb.requestBufflen srb.useSg receive
    else .none)

def samStatGood : Word := 0

/-- `(DID_ERROR << 16) | (SUGGEST_RETRY << 24)` -/
def didErrorSuggestRetry : Word := 0x10070000

/-- The end of `usb_stor_invoke_transport`: did we transfer less than the minimum amount
required? -/
def underflowVerdict (srb : ScsiCmnd) (result resid : Word) : Word :=
  if result = samStatGood ∧ srb.requestBufflen - resid < srb.underflow then didErrorSuggestRetry
  else result

section
variable {srb srb' : ScsiCmnd}

theorem transport_congr (devices : Nat → ScsiDevice) (scmMultTarg : Bool)
    (h : srb.view = srb'.view) :
    usbStorBulkTransport devices scmMultTarg srb =
      usbStorBulkTransport devices scmMultTarg srb' := by
  cases srb
  cases srb'
  cases h
  rfl

theorem verdict_congr (result resid : Word) (h : srb.view = srb'.view) :
    underflowVerdict srb result resid = underflowVerdict srb' result resid := by
  cases srb
  cases srb'
  cases h
  rfl

end

/-! ## Old memory -/

/-- The fields that none of the three functions sets. -/
def SameRest (heap heap' : ScsiCmnd) : Prop :=
  heap.useSg = heap'.useSg ∧ heap.underflow = heap'.underflow

/-- A command that is set in all other fields shows these two of the old memory, and no more. -/
theorem view_eq_iff {srb srb' heap heap' : ScsiCmnd}
    (hset : { srb.view with useSg := 0, underflow := 0 } =
      { srb'.view with useSg := 0, underflow := 0 })
    (hrest : srb.useSg = heap.useSg ∧ srb.underflow = heap.underflow)
    (hrest' : srb'.useSg = heap'.useSg ∧ srb'.underflow = heap'.underflow) :
    srb.view = srb'.view ↔ SameRest heap heap' := by
  rw [SameRest, ← hrest.1, ← hrest.2, ← hrest'.1, ← hrest'.2]
  cases srb
  cases srb'
  simp only [ScsiCmnd.view, TransportView.mk.injEq] at hset ⊢
  tauto

/-- Whatever was in the memory of the device, the scan asks for 36 bytes. -/
theorem scanDevice_inquiryLen (heap : ScsiDevice) (flFixCapacity : Bool) :
    (scanDevice heap flFixCapacity).inquiryLen = 36 := by
  unfold scanDevice slaveConfigure
  split <;> rfl

/-- **When commands do not depend on old memory.**  For all arguments, and any two states of the
memory in which command and device are built: the commands of `capacity`, of `block_io` and of
`scsi_scan_host` are, each of them, the same to the transport if and only if the memory had the
same `use_sg` and the same `underflow`. -/
theorem commands_agree_iff (heap heap' : ScsiCmnd) (devHeap devHeap' : ScsiDevice)
    (devs : UsbDevices) (reply : Reply) (usbIndex : Int) (blockNr buffer : Word) (opcode : Byte)
    (direction : DmaDataDirection) (addr : Nat) (flFixCapacity : Bool) :
    ((capacityCommand heap (devs usbIndex).sdev buffer).view =
        (capacityCommand heap' (devs usbIndex).sdev buffer).view ↔ SameRest heap heap') ∧
    ((blockCommand ⟨devs, heap, reply⟩ usbIndex blockNr buffer opcode direction).view =
        (blockCommand ⟨devs, heap', reply⟩ usbIndex blockNr buffer opcode direction).view ↔
      SameRest heap heap') ∧
    ((inquiryCommand heap addr (scanDevice devHeap flFixCapacity) buffer).view =
        (inquiryCommand heap' addr (scanDevice devHeap' flFixCapacity) buffer).view ↔
      SameRest heap heap') := by
  refine ⟨?_, ?_, ?_⟩
  · exact view_eq_iff rfl ⟨rfl, rfl⟩ ⟨rfl, rfl⟩
  · exact view_eq_iff rfl ⟨rfl, rfl⟩ ⟨rfl, rfl⟩
  · refine view_eq_iff ?_ ⟨rfl, rfl⟩ ⟨rfl, rfl⟩
    simp only [inquiryCommand, scanDevice_inquiryLen, ScsiCmnd.view]

/-- Memory in which a scatter-gather list of one entry was used before. -/
def usedCmnd : ScsiCmnd := { clearedCmnd with useSg := 1, underflow := 4096 }

/-- **Old memory decides.**  A READ CAPACITY built where a command with one scatter-gather entry
was before: the transport takes the 8 bytes of the buffer for the list, and had it transferred them
it would report an error. -/
theorem old_memory_decides :
    (capacityCommand clearedCmnd (some 0) 0x1000).view ≠
        (capacityCommand usedCmnd (some 0) 0x1000).view ∧
      (∀ devices multTarg,
        (usbStorBulkTransport devices multTarg (capacityCommand clearedCmnd (some 0) 0x1000)).2 =
          .buf 0x1000 8 true) ∧
      (∀ devices multTarg,
        (usbStorBulkTransport devices multTarg (capacityCommand usedCmnd (some 0) 0x1000)).2 =
          .sglist 0x1000 1 8 true) ∧
      underflowVerdict (capacityCommand usedCmnd (some 0) 0x1000) samStatGood 0 =
        didErrorSuggestRetry := by
  exact ⟨by decide, fun _ _ => rfl, fun _ _ => rfl, by decide⟩

end LinuxDrivers.Usb
