/-
# `LinuxDrivers.Usb.Storage` — the block interface of USB storage devices

`usb_storage.c` keeps a table of the storage devices that were plugged in and turns
a request for one block into one SCSI command:

    block_io(i, nr, buffer, opcode, direction):
        device i not present                   -EBLK_NODEV
        nr > block_count                       -EBLK_FAULT
        queuecommand(cmnd) refuses             -EBLK_BUSY
        otherwise wait for the completion      0

The last line is the one to note: the `result` of the completed command is not
looked at, so a command that failed counts as done.  And the second one lets the number
`block_count` pass, which no block has.

**Proved here.**

    what each call hands to the host is right iff nr ≠ block_count
                                                    (`block_commands_exact_iff`)
    a call returns 0 iff its command was completed  (`blockIo_eq_zero`)
-/
import LinuxDrivers.Basic

namespace LinuxDrivers.Usb

/-! ## The device table -/

abbrev Byte := BitVec 8

/-- `EBLK_*` of `block.h` -/
def eblkNodev : Int := 2

def eblkFault : Int := 3

def eblkBusy : Int := 4

def maxUsbIndex : Int := 4

/-- `struct usb_stor`; a device is known by its number. -/
structure UsbStor where
  blockSize : Word
  blockCount : Word
  sdev : Option Nat
  deriving DecidableEq, Repr

/-- `usb_devices`.  The functions below index it with any `int`; what is read outside
the four entries of the array is whatever lies there. -/
abbrev UsbDevices := Int → UsbStor

/-- The test of the index joins its two halves by `&&`, so it never fires. -/
def ddeLinux26BlockPresent (devs : UsbDevices) (usbIndex : Int) : Bool :=
  if usbIndex < 0 ∧ usbIndex ≥ maxUsbIndex then false else (devs usbIndex).sdev.isSome

/-- The `unsigned long` count is returned as an `int`. -/
def ddeLinux26BlockCount (devs : UsbDevices) (usbIndex : Int) : Int :=
  if !ddeLinux26BlockPresent devs usbIndex then -eblkNodev
  else intOfWord (devs usbIndex).blockCount

theorem ddeLinux26BlockPresent_eq (devs : UsbDevices) (usbIndex : Int) :
    ddeLinux26BlockPresent devs usbIndex = (devs usbIndex).sdev.isSome := by
  have hnever : ¬ (usbIndex < 0 ∧ usbIndex ≥ maxUsbIndex) := by
    rintro ⟨hneg, hge⟩
    exact absurd (Int.lt_of_lt_of_le hneg (by decide : (0 : Int) ≤ maxUsbIndex))
      (Int.not_lt.mpr hge)
  rw [ddeLinux26BlockPresent, if_neg hnever]

/-! ## SCSI commands -/

inductive DmaDataDirection where
  | bidirectional
  | toDevice
  | fromDevice
  | none
  deriving DecidableEq, Repr

/-- The fields of `scsi_cmnd` that this code sets or the transport reads. -/
structure ScsiCmnd where
  device : Option Nat
  cmdLen : Byte
  scDataDirection : DmaDataDirection
  /-- `cmnd[MAX_COMMAND_SIZE]` -/
  cmnd : List Byte
  requestBufflen : Word
  requestBuffer : Word
  useSg : BitVec 16
  underflow : Word
  deriving DecidableEq, Repr

def maxCommandSize : Nat := 16

def read10 : Byte := 0x28

def write10 : Byte := 0x2a

/-- `cpu_to_be32`, byte by byte -/
def be32 (w : Word) : List Byte :=
  [(w >>> 24).setWidth 8, (w >>> 16).setWidth 8, (w >>> 8).setWidth 8, w.setWidth 8]

/-- The command block of one READ(10) or WRITE(10) for one block. -/
def commandBlock (opcode : Byte) (blockNr : Word) : List Byte :=
  opcode :: 0 :: be32 blockNr ++ 0 :: 0 :: 1 :: List.replicate (maxCommandSize - 9) 0

/-- `be32_to_cpu` of four bytes -/
def be32ToCpu (b₀ b₁ b₂ b₃ : Byte) : Word :=
  BitVec.ofNat 32 (b₀.toNat * 2 ^ 24 + b₁.toNat * 2 ^ 16 + b₂.toNat * 2 ^ 8 + b₃.toNat)

/-- What the host does with a command: `queuecommand` refuses it, or the command
completes with this `result`. -/
inductive Reply where
  | busy
  | completed (result : Int)
  deriving DecidableEq, Repr

/-- What one call of `block_io` finds: the device table, the old contents of the memory
`kmalloc` gives it for the command, and the host's reply. -/
structure Attempt where
  devices : UsbDevices
  heap : ScsiCmnd
  reply : Reply

/-- The command of `block_io`; the fields it does not set keep what was in the heap. -/
def blockCommand (x : Attempt) (usbIndex : Int) (blockNr buffer : Word) (opcode : Byte)
    (direction : DmaDataDirection) : ScsiCmnd :=
  { x.heap with
    device := (x.devices usbIndex).sdev
    cmdLen := 10
    scDataDirection := direction
    cmnd := commandBlock opcode blockNr
    requestBufflen := (x.devices usbIndex).blockSize
    requestBuffer := buffer }

/-- The value of `block_io` and the command it handed to the host, with the reply. -/
def blockIo (x : Attempt) (usbIndex : Int) (blockNr buffer : Word) (opcode : Byte)
    (direction : DmaDataDirection) : Int × Option (ScsiCmnd × Reply) :=
  if !ddeLinux26BlockPresent x.devices usbIndex then (-eblkNodev, none)
  else if blockNr > (x.devices usbIndex).blockCount then (-eblkFault, none)
  else
    let cmnd := blockCommand x usbIndex blockNr buffer opcode direction
    match x.reply with
    | .busy => (-eblkBusy, some (cmnd, .busy))
    | .completed result => (0, some (cmnd, .completed result))

def ddeLinux26BlockRead (x : Attempt) (usbIndex : Int) (blockNr buffer : Word) :
    Int × Option (ScsiCmnd × Reply) :=
  blockIo x usbIndex blockNr buffer read10 .fromDevice

def ddeLinux26BlockWrite (x : Attempt) (usbIndex : Int) (blockNr buffer : Word) :
    Int × Option (ScsiCmnd × Reply) :=
  blockIo x usbIndex blockNr buffer write10 .toDevice

section

variable {x : Attempt} {usbIndex : Int} {blockNr buffer : Word} {opcode : Byte}
  {direction : DmaDataDirection}

/-- The exits of `block_io`: no such device, no such block, or a command and the reply to it. -/
theorem blockIo_cases :
    ((x.devices usbIndex).sdev.isSome = false ∧
      blockIo x usbIndex blockNr buffer opcode direction = (-eblkNodev, none)) ∨
    ((x.devices usbIndex).sdev.isSome = true ∧ ¬ blockNr ≤ (x.devices usbIndex).blockCount ∧
      blockIo x usbIndex blockNr buffer opcode direction = (-eblkFault, none)) ∨
    ((x.devices usbIndex).sdev.isSome = true ∧ blockNr ≤ (x.devices usbIndex).blockCount ∧
      ∃ ret, (ret = 0 ↔ ∃ result, x.reply = .completed result) ∧
        blockIo x usbIndex blockNr buffer opcode direction =
          (ret, some (blockCommand x usbIndex blockNr buffer opcode direction, x.reply))) := by
  unfold blockIo
  rw [ddeLinux26BlockPresent_eq]
  cases hdev : (x.devices usbIndex).sdev.isSome with
  | false => exact .inl ⟨rfl, rfl⟩
  | true =>
      by_cases hnr : blockNr > (x.devices usbIndex).blockCount
      · exact .inr (.inl ⟨rfl, BitVec.not_le.mpr hnr, if_pos hnr⟩)
      · refine .inr (.inr ⟨rfl, BitVec.not_lt.mp hnr, ?_⟩)
        simp only [Bool.not_true, Bool.false_eq_true, if_false, if_neg hnr]
        cases x.reply with
        | busy => exact ⟨-eblkBusy, iff_of_false (by decide) nofun, rfl⟩
        | completed result => exact ⟨0, iff_of_true rfl ⟨result, rfl⟩, rfl⟩

end

/-! ## The command a call hands over -/

theorem be32ToCpu_toNat (b₀ b₁ b₂ b₃ : Byte) : (be32ToCpu b₀ b₁ b₂ b₃).toNat =
    b₀.toNat * 2 ^ 24 + b₁.toNat * 2 ^ 16 + b₂.toNat * 2 ^ 8 + b₃.toNat := by
  have h₀ := b₀.isLt
  have h₁ := b₁.isLt
  have h₂ := b₂.isLt
  have h₃ := b₃.isLt
  rw [be32ToCpu, BitVec.toNat_ofNat, Nat.mod_eq_of_lt (by omega)]

/-- The two conversions are inverse. -/
theorem be32ToCpu_be32 (w : Word) :
    be32ToCpu ((w >>> 24).setWidth 8) ((w >>> 16).setWidth 8) ((w >>> 8).setWidth 8)
      (w.setWidth 8) = w := by
  apply BitVec.eq_of_toNat_eq
  have hw := w.isLt
  simp only [be32ToCpu_toNat, BitVec.toNat_setWidth, BitVec.toNat_ushiftRight,
    Nat.shiftRight_eq_div_pow]
  omega

/-- What a 10-byte command block asks for: bytes 2 to 5 are the logical block address, bytes 7
and 8 the number of blocks. -/
structure Rw10 where
  opcode : Byte
  lba : Word
  length : Nat
  deriving DecidableEq, Repr

def decodeRw10 : List Byte → Option Rw10
  | op :: _ :: b₂ :: b₃ :: b₄ :: b₅ :: _ :: b₇ :: b₈ :: _ :: _ =>
      some ⟨op, be32ToCpu b₂ b₃ b₄ b₅, b₇.toNat * 2 ^ 8 + b₈.toNat⟩
  | _ => none

theorem decodeRw10_commandBlock (opcode : Byte) (blockNr : Word) :
    decodeRw10 (commandBlock opcode blockNr) = some ⟨opcode, blockNr, 1⟩ := by
  have hlba := be32ToCpu_be32 blockNr
  show some (Rw10.mk opcode _ 1) = _
  rw [hlba]

/-- What a call for one block of a device with `blockCount` blocks is to do: a block of the device
is asked for by a command for just this block, and any other number is refused. -/
structure BlockIoExact (blockCount blockNr : Word) (opcode : Byte)
    (call : Int × Option (ScsiCmnd × Reply)) : Prop where
  handed : call.2.isSome = true ↔ blockNr < blockCount
  command : ∀ cmnd reply, call.2 = some (cmnd, reply) →
    cmnd.cmdLen = 10 ∧ decodeRw10 cmnd.cmnd = some ⟨opcode, blockNr, 1⟩
  fault : ¬ blockNr < blockCount → call = (-eblkFault, none)

/-- The test of `block_io` lets the number after the last block pass, and is right about all
others. -/
theorem blockIo_exact_iff {x : Attempt} {usbIndex : Int} (blockNr buffer : Word) (opcode : Byte)
    (direction : DmaDataDirection) (hp : (x.devices usbIndex).sdev.isSome = true) :
    BlockIoExact (x.devices usbIndex).blockCount blockNr opcode
        (blockIo x usbIndex blockNr buffer opcode direction) ↔
      blockNr ≠ (x.devices usbIndex).blockCount := by
  rcases blockIo_cases with ⟨hnone, _⟩ | ⟨_, hnr, hcall⟩ | ⟨_, hnr, ret, _, hcall⟩
  · rw [hp] at hnone
    cases hnone
  · have hnot : ¬ blockNr < (x.devices usbIndex).blockCount := fun hlt => hnr (BitVec.le_of_lt hlt)
    rw [hcall]
    refine iff_of_true ⟨iff_of_false Bool.false_ne_true hnot, ?_, fun _ => rfl⟩ ?_
    · intro cmnd reply h
      cases h
    · rintro rfl
      exact hnr (BitVec.le_refl _)
  · rw [hcall]
    constructor
    · rintro hexact rfl
      exact BitVec.lt_irrefl _ (hexact.handed.mp rfl)
    · intro hne
      have hlt : blockNr < (x.devices usbIndex).blockCount := BitVec.lt_of_le_ne hnr hne
      refine ⟨iff_of_true rfl hlt, ?_, fun hnot => absurd hlt hnot⟩
      intro cmnd reply h
      cases h
      exact ⟨rfl, decodeRw10_commandBlock opcode blockNr⟩

/-- **When the commands are right.**  For a device that is present: reading and writing hand the
host a command exactly for the blocks of the device, a READ(10) or WRITE(10) of this one block,
and refuse all others, if and only if the number is not that of the block after the last. -/
theorem block_commands_exact_iff (x : Attempt) (usbIndex : Int) (blockNr buffer : Word)
    (hp : (x.devices usbIndex).sdev.isSome = true) :
    BlockIoExact (x.devices usbIndex).blockCount blockNr read10
        (ddeLinux26BlockRead x usbIndex blockNr buffer) ∧
      BlockIoExact (x.devices usbIndex).blockCount blockNr write10
        (ddeLinux26BlockWrite x usbIndex blockNr buffer) ↔
      blockNr ≠ (x.devices usbIndex).blockCount := by
  unfold ddeLinux26BlockRead ddeLinux26BlockWrite
  rw [blockIo_exact_iff blockNr buffer read10 .fromDevice hp,
    blockIo_exact_iff blockNr buffer write10 .toDevice hp, and_self]

/-- A host that takes every command, and a device with ten blocks in every slot. -/
def tenBlockHost : Attempt where
  devices _ := ⟨512, 10, some 0⟩
  heap := ⟨none, 0, .bidirectional, [], 0, 0, 0, 0⟩
  reply := .completed 0

/-- The last block of the device. -/
theorem block_commands_last :
    BlockIoExact 10 9 read10 (ddeLinux26BlockRead tenBlockHost 0 9 0x1000) ∧
      BlockIoExact 10 9 write10 (ddeLinux26BlockWrite tenBlockHost 0 9 0x1000) :=
  (block_commands_exact_iff tenBlockHost 0 9 0x1000 rfl).mpr (by decide)

/-- **The block after the last is asked for.**  A READ(10) with address 10 goes to a device with
the blocks 0 to 9. -/
theorem block_after_last_read :
    (∃ cmnd, ddeLinux26BlockRead tenBlockHost 0 10 0x1000 = (0, some (cmnd, .completed 0)) ∧
        decodeRw10 cmnd.cmnd = some ⟨read10, 10, 1⟩) ∧
      ¬ BlockIoExact 10 10 read10 (ddeLinux26BlockRead tenBlockHost 0 10 0x1000) := by
  refine ⟨⟨_, rfl, rfl⟩, ?_⟩
  intro h
  exact absurd (h.handed.mp rfl) (by decide)

/-! ## When a block is transferred -/

/-- The device is there, the block number passes the test of `block_io`, and the host
takes the command, which completes with `result`. -/
def Attempt.completes (x : Attempt) (usbIndex : Int) (blockNr : Word) (result : Int) : Prop :=
  (x.devices usbIndex).sdev.isSome = true ∧ blockNr ≤ (x.devices usbIndex).blockCount ∧
    x.reply = .completed result

/-- The call gets as far as a completed command, with whatever result. -/
def Attempt.accepted (x : Attempt) (usbIndex : Int) (blockNr : Word) : Prop :=
  ∃ result, x.completes usbIndex blockNr result

section
variable {x : Attempt} {usbIndex : Int} {blockNr buffer : Word} {opcode : Byte}
  {direction : DmaDataDirection}

/-- A completed command, and only that, makes `block_io` return 0. -/
theorem blockIo_eq_zero :
    (blockIo x usbIndex blockNr buffer opcode direction).1 = 0 ↔ x.accepted usbIndex blockNr := by
  rcases blockIo_cases with ⟨hnone, h⟩ | ⟨_, hnr, h⟩ | ⟨hdev, hnr, ret, hret, h⟩
  · rw [h]
    refine iff_of_false (by decide) ?_
    rintro ⟨_, hdev, _⟩
    rw [hnone] at hdev
    cases hdev
  · rw [h]
    exact iff_of_false (by decide) (fun ⟨_, _, hle, _⟩ => hnr hle)
  · rw [h]
    refine hret.trans ⟨?_, ?_⟩
    · rintro ⟨result, hreply⟩
      exact ⟨result, hdev, hnr, hreply⟩
    · rintro ⟨result, _, _, hreply⟩
      exact ⟨result, hreply⟩

/-- A command handed over by `block_io` has completed with `result` exactly if the call
got that far. -/
theorem blockIo_completed {result : Int} :
    (∃ cmnd, (blockIo x usbIndex blockNr buffer opcode direction).2 =
      some (cmnd, .completed result)) ↔ x.completes usbIndex blockNr result := by
  rcases blockIo_cases with ⟨hnone, h⟩ | ⟨_, hnr, h⟩ | ⟨hdev, hnr, ret, _, h⟩
  · rw [h]
    refine iff_of_false (fun ⟨_, hcmnd⟩ => nomatch hcmnd) ?_
    rintro ⟨hdev, _⟩
    rw [hnone] at hdev
    cases hdev
  · rw [h]
    exact iff_of_false (fun ⟨_, hcmnd⟩ => nomatch hcmnd) (fun ⟨_, hle, _⟩ => hnr hle)
  · rw [h]
    constructor
    · rintro ⟨cmnd, hcmnd⟩
      exact ⟨hdev, hnr, congrArg Prod.snd (Option.some.inj hcmnd)⟩
    · rintro ⟨_, _, hreply⟩
      rw [hreply]
      exact ⟨_, rfl⟩

/-- A command handed over by `block_io` transfers as much as the device calls a block. -/
theorem blockIo_bufflen {cmnd : ScsiCmnd} {reply : Reply}
    (h : (blockIo x usbIndex blockNr buffer opcode direction).2 = some (cmnd, reply)) :
    cmnd.requestBufflen = (x.devices usbIndex).blockSize := by
  rcases blockIo_cases with ⟨_, hcall⟩ | ⟨_, _, hcall⟩ | ⟨_, _, ret, _, hcall⟩
  · rw [hcall] at h
    cases h
  · rw [hcall] at h
    cases h
  · rw [hcall] at h
    cases h
    rfl

end

end LinuxDrivers.Usb
