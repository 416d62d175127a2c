/-
# `LinuxDrivers.Usb.Request` — the request thread and one packet

`Tx_thread::entry` takes a packet from the client and, if it is valid and in
range, transfers its blocks one by one:

    READ     each block is read again and again until `dde_linux26_block_read` returns 0
    WRITE    each block is written once; what `dde_linux26_block_write` returns is dropped
    other    `succeeded(false)`

and then acknowledges the packet, except that the last case, like an invalid packet
and one out of range, goes on with the next packet without an acknowledgement.

`jobStep` is this code for one packet, one call of the block interface per step.
What the thread cannot know beforehand is part of the `Request`: the packet, the
devices at the time of the range check, the memory it gets, and what each attempt at
each block will find.

**Proved here.**

    the range check lets only blocks of the device pass iff the device is present and
      block number plus count does not wrap to a number of blocks it has
                                                          (`rangeCheck_sound_iff`)
    a packet is acknowledged iff it is valid, in range, and a WRITE or a READ whose
      blocks the host takes in the end                    (`acknowledged_iff_servable`)
    a READ ends iff every block is read at some attempt   (`read_ends_iff`)
    the acknowledgement is truthful iff the commands it rests on succeed
                                                          (`succeeded_truthful_iff`)
-/
import LinuxDrivers.Lib.Machine
import LinuxDrivers.Usb.Storage

namespace LinuxDrivers.Usb

open LinuxDrivers.Lib

/-! ## The code -/

/-- `Block::Packet_descriptor::Opcode`; the client may send any value. -/
inductive Operation where
  | read
  | write
  | other (code : Nat)
  deriving DecidableEq, Repr

structure Packet where
  valid : Bool
  operation : Operation
  blockNumber : Word
  blockCount : Word
  deriving DecidableEq, Repr

structure Request where
  packet : Packet
  usbIndex : Int
  /-- the device table at the range check -/
  devices : UsbDevices
  /-- `dde_linux26_block_malloc` -/
  malloc : Word → Option Word
  /-- what attempt `j` at block `i` of the packet finds -/
  io : Nat → Nat → Attempt

/-- `packet.block_number() + i` -/
def Request.block (r : Request) (i : Nat) : Word := r.packet.blockNumber + BitVec.ofNat 32 i

/-- `packet.block_count() * 512` -/
def Request.size (r : Request) : Word := r.packet.blockCount * 512

def Request.count (r : Request) : Nat := r.packet.blockCount.toNat

/-- The sanity check: `true` if the packet is refused.  The count, an `int`, is cast to
`size_t`, and an unsigned block number is never below zero. -/
def outOfRange (devs : UsbDevices) (usbIndex : Int) (blockNumber blockCount : Word) : Bool :=
  decide (blockNumber + blockCount > wordOfInt (ddeLinux26BlockCount devs usbIndex)) ||
    decide (blockNumber < 0)

def Request.refused (r : Request) : Bool :=
  outOfRange r.devices r.usbIndex r.packet.blockNumber r.packet.blockCount

/-- A call of the block interface: the block number, the value returned, and the
command it handed to the host. -/
structure IoCall where
  block : Word
  ret : Int
  command : Option (ScsiCmnd × Reply)

def Request.readCall (r : Request) (buf : Word) (i j : Nat) : IoCall :=
  let x := ddeLinux26BlockRead (r.io i j) r.usbIndex (r.block i) (buf + BitVec.ofNat 32 (i * 512))
  ⟨r.block i, x.1, x.2⟩

def Request.writeCall (r : Request) (buf : Word) (i : Nat) : IoCall :=
  let x := ddeLinux26BlockWrite (r.io i 0) r.usbIndex (r.block i) (buf + BitVec.ofNat 32 (i * 512))
  ⟨r.block i, x.1, x.2⟩

/-- Where the thread stands with a packet. -/
inductive JobPc where
  | valid
  | check
  | dispatch
  /-- about to try block `i` for the `j`-th time -/
  | readBlock (buf : Word) (i j : Nat)
  | writeBlock (buf : Word) (i : Nat)
  | ack (succeeded : Bool)
  /-- the packet was acknowledged with this flag -/
  | acked (succeeded : Bool)
  /-- the thread goes on with the next packet, without an acknowledgement -/
  | dropped
  deriving DecidableEq, Repr

/-- The thread's progress with a packet, and the calls it has made, the last one
first. -/
structure Job where
  pc : JobPc
  calls : List IoCall

def Job.start : Job := ⟨.valid, []⟩

def jobStep (r : Request) (s : Job) : Job :=
  match s.pc with
  | .valid => { s with pc := if r.packet.valid then .check else .dropped }
  | .check => { s with pc := if r.refused then .dropped else .dispatch }
  | .dispatch =>
      match r.packet.operation with
      | .read =>
          match r.malloc r.size with
          | none => { s with pc := .ack false }
          | some buf => { s with pc := .readBlock buf 0 0 }
      | .write =>
          match r.malloc r.size with
          | none => { s with pc := .ack false }
          | some buf => { s with pc := .writeBlock buf 0 }
      | .other _ =>
          -- `packet.succeeded(false); continue;`
          { s with pc := .dropped }
  | .readBlock buf i j =>
      if i < r.count then
        let call := r.readCall buf i j
        ⟨if call.ret = 0 then .readBlock buf (i + 1) 0 else .readBlock buf i (j + 1),
          call :: s.calls⟩
      else { s with pc := .ack true }
  | .writeBlock buf i =>
      if i < r.count then ⟨.writeBlock buf (i + 1), r.writeCall buf i :: s.calls⟩
      else { s with pc := .ack true }
  | .ack b => { s with pc := .acked b }
  | .acked _ | .dropped => s

/-! ## The range check -/

/-- What the check is for: a packet passes only if the device is present and the
requested blocks, counted without wrap-around, are blocks of the device. -/
def RangeSound (devs : UsbDevices) (usbIndex : Int) (blockNumber blockCount : Word) : Prop :=
  outOfRange devs usbIndex blockNumber blockCount = false →
    (devs usbIndex).sdev.isSome = true ∧
      blockNumber.toNat + blockCount.toNat ≤ (devs usbIndex).blockCount.toNat

theorem outOfRange_present {devs : UsbDevices} {usbIndex : Int} (bn bc : Word)
    (hp : (devs usbIndex).sdev.isSome = true) :
    outOfRange devs usbIndex bn bc = decide ((devs usbIndex).blockCount < bn + bc) := by
  simp [outOfRange, ddeLinux26BlockCount, ddeLinux26BlockPresent_eq, hp]

/-- `-EBLK_NODEV` as a `size_t` is the largest value but one. -/
theorem outOfRange_absent {devs : UsbDevices} {usbIndex : Int} (bn bc : Word)
    (hp : (devs usbIndex).sdev.isSome = false) :
    outOfRange devs usbIndex bn bc = decide (bn + bc = BitVec.allOnes 32) := by
  have hcount : wordOfInt (ddeLinux26BlockCount devs usbIndex) = 0xfffffffe := by
    simp only [ddeLinux26BlockCount, ddeLinux26BlockPresent_eq, hp]
    rfl
  have hneg : ¬ bn < 0 := BitVec.not_lt_zero
  rw [outOfRange, hcount, decide_eq_false hneg, Bool.or_false, decide_eq_decide]
  generalize bn + bc = sum
  constructor
  · intro hgt
    show sum = 0xffffffff
    bv_omega
  · rintro rfl
    decide

/-- **When the range check is sound.**  With the device present, exactly if the sum of
block number and count does not wrap around, or wraps to a value above the number of
blocks; with the device absent, only for the one sum above `-EBLK_NODEV`. -/
theorem rangeCheck_sound_iff (devs : UsbDevices) (usbIndex : Int) (bn bc : Word) :
    RangeSound devs usbIndex bn bc ↔
      if (devs usbIndex).sdev.isSome then
        bn.toNat + bc.toNat < 2 ^ 32 ∨ (devs usbIndex).blockCount < bn + bc
      else bn + bc = BitVec.allOnes 32 := by
  unfold RangeSound
  cases hp : (devs usbIndex).sdev.isSome with
  | false =>
      rw [outOfRange_absent bn bc hp, decide_eq_false_iff_not, if_neg Bool.false_ne_true]
      constructor
      · intro h
        by_contra hsum
        exact Bool.false_ne_true (h hsum).1
      · intro hsum hne
        exact absurd hsum hne
  | true =>
      rw [outOfRange_present bn bc hp, decide_eq_false_iff_not, if_pos rfl]
      constructor
      · intro h
        by_cases hlt : (devs usbIndex).blockCount < bn + bc
        · exact .inr hlt
        · have hle := (h hlt).2
          have hbound := (devs usbIndex).blockCount.isLt
          exact .inl (by omega)
      · rintro (hwrap | hgt) hle
        · rw [BitVec.lt_def, BitVec.toNat_add_of_lt hwrap] at hle
          exact ⟨rfl, by omega⟩
        · exact absurd hgt hle

/-- A device with ten blocks, in every slot. -/
def tenBlocks : UsbDevices := fun _ => ⟨512, 10, some 0⟩

/-- **The sum wraps.**  One block at the largest block number: the sum is zero and the
packet passes. -/
theorem rangeCheck_wraps : ¬ RangeSound tenBlocks 0 0xffffffff 1 := by
  intro h
  have hle := (h rfl).2
  exact absurd hle (by decide)

/-! ## Calls and blocks -/

/-- Attempt `j` at block `i` gets as far as a command that completes with `result`. -/
def Request.completes (r : Request) (i j : Nat) (result : Int) : Prop :=
  (r.io i j).completes r.usbIndex (r.block i) result

/-- Attempt `j` at block `i` gets as far as a completed command. -/
def Request.accepted (r : Request) (i j : Nat) : Prop :=
  (r.io i j).accepted r.usbIndex (r.block i)

/-- Attempt `j` at block `i` is the first one that gets that far. -/
def Request.firstAccepted (r : Request) (i j : Nat) : Prop :=
  r.accepted i j ∧ ∀ j' < j, ¬ r.accepted i j'

/-- Block `i` of the packet was transferred by a command that completed without
error. -/
def Transferred (r : Request) (calls : List IoCall) (i : Nat) : Prop :=
  ∃ call ∈ calls, call.block = r.block i ∧ ∃ cmnd, call.command = some (cmnd, .completed 0)

section
variable {r : Request} {buf : Word} {i j : Nat}

theorem readCall_ret : (r.readCall buf i j).ret = 0 ↔ r.accepted i j := blockIo_eq_zero

theorem readCall_completed :
    (∃ cmnd, (r.readCall buf i j).command = some (cmnd, .completed 0)) ↔ r.completes i j 0 :=
  blockIo_completed

theorem writeCall_completed :
    (∃ cmnd, (r.writeCall buf i).command = some (cmnd, .completed 0)) ↔ r.completes i 0 0 :=
  blockIo_completed

/-- Different blocks of a packet have different numbers. -/
theorem block_inj {i' : Nat} (hi : i < r.count) (hi' : i' < r.count)
    (h : r.block i = r.block i') : i = i' := by
  have hbound : r.count < 2 ^ 32 := r.packet.blockCount.isLt
  have hof : BitVec.ofNat 32 i = BitVec.ofNat 32 i' := add_left_cancel h
  have hnat := congrArg BitVec.toNat hof
  rw [BitVec.toNat_ofNat, BitVec.toNat_ofNat, Nat.mod_eq_of_lt (by omega),
    Nat.mod_eq_of_lt (by omega)] at hnat
  exact hnat

theorem firstAccepted_unique {j' : Nat} (h : r.firstAccepted i j) (h' : r.firstAccepted i j') :
    j = j' := by
  rcases Nat.lt_trichotomy j j' with hlt | heq | hgt
  · exact absurd h.1 (h'.2 j hlt)
  · exact heq
  · exact absurd h'.1 (h.2 j' hgt)

/-- Among the attempts at a block that is taken in the end there is a first one. -/
theorem exists_firstAccepted (h : ∃ j, r.accepted i j) : ∃ j, r.firstAccepted i j := by
  classical
  exact ⟨Nat.find h, Nat.find_spec h, fun j' hj' => Nat.find_min h hj'⟩

end

/-! ## What the loops do -/

section
variable {r : Request}

/-- The retry loop at one block ends with the first attempt that is taken. -/
theorem retry_leads (buf : Word) {i j₀ : Nat} (hi : i < r.count) (hfirst : r.firstAccepted i j₀) :
    ∀ (d j : Nat) (calls : List IoCall), j + d = j₀ →
      ∃ calls', Leads (jobStep r) ⟨.readBlock buf i j, calls⟩ ⟨.readBlock buf (i + 1) 0, calls'⟩ ∧
        (∀ call ∈ calls, call ∈ calls') ∧ r.readCall buf i j₀ ∈ calls' := by
  intro d
  induction d with
  | zero =>
      intro j calls hj
      subst hj
      have hret : (r.readCall buf i j).ret = 0 := readCall_ret.mpr hfirst.1
      refine ⟨r.readCall buf i j :: calls, ⟨1, ?_⟩, fun call hc => List.mem_cons_of_mem _ hc,
        List.mem_cons_self⟩
      rw [Function.iterate_one]
      simp only [jobStep, if_pos hi, hret, if_true]
  | succ d ih =>
      intro j calls hj
      have hret : ¬ (r.readCall buf i j).ret = 0 := by
        rw [readCall_ret]
        exact hfirst.2 j (by omega)
      obtain ⟨calls', hleads, hkeep, hmem⟩ := ih (j + 1) (r.readCall buf i j :: calls) (by omega)
      refine ⟨calls', Leads.head ?_, fun call hc => hkeep _ (List.mem_cons_of_mem _ hc), hmem⟩
      have hstep : jobStep r ⟨.readBlock buf i j, calls⟩ =
          ⟨.readBlock buf i (j + 1), r.readCall buf i j :: calls⟩ := by
        simp only [jobStep, if_pos hi, hret, if_false]
      rw [hstep]
      exact hleads

/-- If every block is taken in the end, a READ is acknowledged as a success, and the
first attempt that was taken is among its calls, for every block. -/
theorem read_leads (buf : Word) : ∀ (d i : Nat) (calls : List IoCall), i + d = r.count →
    (∀ i', i ≤ i' → i' < r.count → ∃ j, r.accepted i' j) →
      ∃ calls', Leads (jobStep r) ⟨.readBlock buf i 0, calls⟩ ⟨.acked true, calls'⟩ ∧
        (∀ call ∈ calls, call ∈ calls') ∧
        ∀ i' j, i ≤ i' → i' < r.count → r.firstAccepted i' j → r.readCall buf i' j ∈ calls' := by
  intro d
  induction d with
  | zero =>
      intro i calls hi _
      have hend : ¬ i < r.count := by omega
      refine ⟨calls, ⟨2, ?_⟩, fun _ hc => hc, fun i' _ hle hlt => by omega⟩
      show jobStep r (jobStep r _) = _
      simp only [jobStep, if_neg hend]
  | succ d ih =>
      intro i calls hi hacc
      have hlt : i < r.count := by omega
      obtain ⟨j₀, hfirst⟩ := exists_firstAccepted (hacc i (Nat.le_refl _) hlt)
      obtain ⟨calls₁, hleads₁, hkeep₁, hmem₁⟩ :=
        retry_leads buf hlt hfirst j₀ 0 calls (Nat.zero_add _)
      obtain ⟨calls₂, hleads₂, hkeep₂, hmem₂⟩ :=
        ih (i + 1) calls₁ (by omega) (fun i' hle => hacc i' (by omega))
      refine ⟨calls₂, hleads₁.trans hleads₂, fun call hc => hkeep₂ _ (hkeep₁ _ hc), ?_⟩
      intro i' j hle hlt' hj
      rcases Nat.lt_or_eq_of_le hle with hgt | heq
      · exact hmem₂ i' j hgt hlt' hj
      · subst heq
        rw [firstAccepted_unique hj hfirst]
        exact hkeep₂ _ hmem₁

/-- A WRITE is acknowledged as a success whatever its calls return. -/
theorem write_leads (buf : Word) : ∀ (d i : Nat) (calls : List IoCall), i + d = r.count →
    ∃ calls', Leads (jobStep r) ⟨.writeBlock buf i, calls⟩ ⟨.acked true, calls'⟩ ∧
      (∀ call ∈ calls, call ∈ calls') ∧
      ∀ i', i ≤ i' → i' < r.count → r.writeCall buf i' ∈ calls' := by
  intro d
  induction d with
  | zero =>
      intro i calls hi
      have hend : ¬ i < r.count := by omega
      refine ⟨calls, ⟨2, ?_⟩, fun _ hc => hc, fun i' hle hlt => by omega⟩
      show jobStep r (jobStep r _) = _
      simp only [jobStep, if_neg hend]
  | succ d ih =>
      intro i calls hi
      have hlt : i < r.count := by omega
      obtain ⟨calls', hleads, hkeep, hmem⟩ := ih (i + 1) (r.writeCall buf i :: calls) (by omega)
      refine ⟨calls', Leads.head ?_, fun call hc => hkeep _ (List.mem_cons_of_mem _ hc), ?_⟩
      · have hstep : jobStep r ⟨.writeBlock buf i, calls⟩ =
            ⟨.writeBlock buf (i + 1), r.writeCall buf i :: calls⟩ := by
          simp only [jobStep, if_pos hlt]
        rw [hstep]
        exact hleads
      · intro i' hle hlt'
        rcases Nat.lt_or_eq_of_le hle with hgt | heq
        · exact hmem i' hgt hlt'
        · subst heq
          exact hkeep _ List.mem_cons_self

end

/-! ## Invariants of the loops -/

/-- Inside a READ with the buffer `buf`: every call so far was an attempt before which
the block had not been taken; the blocks passed have been taken. -/
structure ReadInv (r : Request) (buf : Word) (s : Job) : Prop where
  calls : ∀ call ∈ s.calls, ∃ i j, i < r.count ∧ call = r.readCall buf i j ∧
    ∀ j' < j, ¬ r.accepted i j'
  pc : match s.pc with
    | .readBlock b i j => b = buf ∧ (∀ i' < i, ∃ j', r.accepted i' j') ∧
        ∀ j' < j, ¬ r.accepted i j'
    | .ack b | .acked b => b = true ∧ ∀ i' < r.count, ∃ j', r.accepted i' j'
    | _ => False

theorem ReadInv.enter (r : Request) (buf : Word) : ReadInv r buf ⟨.readBlock buf 0 0, []⟩ where
  calls := by
    intro call hc
    cases hc
  pc := ⟨rfl, fun i' hi' => absurd hi' (Nat.not_lt_zero _),
    fun j' hj' => absurd hj' (Nat.not_lt_zero _)⟩

theorem ReadInv.step {r : Request} {buf : Word} {s : Job} (h : ReadInv r buf s) :
    ReadInv r buf (jobStep r s) := by
  obtain ⟨pc, calls⟩ := s
  obtain ⟨hcalls, hpc⟩ := h
  cases pc with
  | readBlock b i j =>
      obtain ⟨rfl, hpassed, htried⟩ := hpc
      by_cases hi : i < r.count
      · have hnew : ∀ call ∈ r.readCall b i j :: calls, ∃ i j, i < r.count ∧
            call = r.readCall b i j ∧ ∀ j' < j, ¬ r.accepted i j' := by
          intro call hc
          rcases List.mem_cons.mp hc with rfl | hc
          · exact ⟨i, j, hi, rfl, htried⟩
          · exact hcalls call hc
        by_cases hret : (r.readCall b i j).ret = 0
        · simp only [jobStep, if_pos hi, hret, if_true]
          refine ⟨hnew, rfl, ?_, fun j' hj' => absurd hj' (Nat.not_lt_zero _)⟩
          intro i' hi'
          rcases Nat.lt_or_eq_of_le (Nat.le_of_lt_succ hi') with hlt | heq
          · exact hpassed i' hlt
          · exact ⟨j, heq ▸ readCall_ret.mp hret⟩
        · simp only [jobStep, if_pos hi, hret, if_false]
          refine ⟨hnew, rfl, hpassed, ?_⟩
          intro j' hj'
          rcases Nat.lt_or_eq_of_le (Nat.le_of_lt_succ hj') with hlt | heq
          · exact htried j' hlt
          · rw [heq]
            exact fun hacc => hret (readCall_ret.mpr hacc)
      · simp only [jobStep, if_neg hi]
        exact ⟨hcalls, rfl, fun i' hi' => hpassed i' (by omega)⟩
  | ack b => exact ⟨hcalls, hpc⟩
  | acked b => exact ⟨hcalls, hpc⟩
  | valid | check | dispatch | writeBlock b i | dropped => exact hpc.elim

/-- Inside a WRITE with the buffer `buf`: every call so far was the one call for its
block. -/
structure WriteInv (r : Request) (buf : Word) (s : Job) : Prop where
  calls : ∀ call ∈ s.calls, ∃ i, i < r.count ∧ call = r.writeCall buf i
  pc : match s.pc with
    | .writeBlock b _ => b = buf
    | .ack b | .acked b => b = true
    | _ => False

theorem WriteInv.enter (r : Request) (buf : Word) : WriteInv r buf ⟨.writeBlock buf 0, []⟩ where
  calls := by
    intro call hc
    cases hc
  pc := rfl

theorem WriteInv.step {r : Request} {buf : Word} {s : Job} (h : WriteInv r buf s) :
    WriteInv r buf (jobStep r s) := by
  obtain ⟨pc, calls⟩ := s
  obtain ⟨hcalls, hpc⟩ := h
  cases pc with
  | writeBlock b i =>
      obtain rfl : b = buf := hpc
      by_cases hi : i < r.count
      · simp only [jobStep, if_pos hi]
        refine ⟨?_, rfl⟩
        intro call hc
        rcases List.mem_cons.mp hc with rfl | hc
        · exact ⟨i, hi, rfl⟩
        · exact hcalls call hc
      · simp only [jobStep, if_neg hi]
        exact ⟨hcalls, rfl⟩
  | ack b => exact ⟨hcalls, hpc⟩
  | acked b => exact ⟨hcalls, hpc⟩
  | valid | check | dispatch | readBlock b i j | dropped => exact hpc.elim

/-! ## The whole packet -/

/-- A packet that passes the range check, in terms of the packet and the device. -/
def Request.InRange (r : Request) : Prop :=
  if (r.devices r.usbIndex).sdev.isSome then
    r.packet.blockNumber + r.packet.blockCount ≤ (r.devices r.usbIndex).blockCount
  else r.packet.blockNumber + r.packet.blockCount ≠ BitVec.allOnes 32

theorem refused_eq_false {r : Request} : r.refused = false ↔ r.InRange := by
  unfold Request.refused Request.InRange
  cases hp : (r.devices r.usbIndex).sdev.isSome with
  | false => rw [outOfRange_absent _ _ hp, decide_eq_false_iff_not, if_neg Bool.false_ne_true]
  | true => rw [outOfRange_present _ _ hp, decide_eq_false_iff_not, if_pos rfl, BitVec.not_lt]

/-- Where the thread stands after the operation switch. -/
def Request.entry (r : Request) : JobPc :=
  if r.packet.valid = true ∧ r.refused = false then
    match r.packet.operation, r.malloc r.size with
    | .read, some buf => .readBlock buf 0 0
    | .write, some buf => .writeBlock buf 0
    | .read, none | .write, none => .acked false
    | .other _, _ => .dropped
  else .dropped

/-- What a packet comes to, with the reason for it. -/
inductive Request.Fate (r : Request) : Prop where
  | skipped (hskip : ¬ (r.packet.valid = true ∧ r.InRange)) (hentry : r.entry = .dropped)
  | unsupported (code : Nat) (hop : r.packet.operation = .other code)
      (hentry : r.entry = .dropped)
  | nomem (hv : r.packet.valid = true) (hr : r.InRange)
      (hop : r.packet.operation = .read ∨ r.packet.operation = .write)
      (hm : r.malloc r.size = none) (hentry : r.entry = .acked false)
  | read (buf : Word) (hv : r.packet.valid = true) (hr : r.InRange)
      (hop : r.packet.operation = .read) (hm : r.malloc r.size = some buf)
      (hentry : r.entry = .readBlock buf 0 0)
  | write (buf : Word) (hv : r.packet.valid = true) (hr : r.InRange)
      (hop : r.packet.operation = .write) (hm : r.malloc r.size = some buf)
      (hentry : r.entry = .writeBlock buf 0)

theorem Request.fate (r : Request) : r.Fate := by
  by_cases hpass : r.packet.valid = true ∧ r.InRange
  · obtain ⟨hv, hr⟩ := hpass
    have hentry : r.entry = match r.packet.operation, r.malloc r.size with
        | .read, some buf => .readBlock buf 0 0
        | .write, some buf => .writeBlock buf 0
        | .read, none | .write, none => .acked false
        | .other _, _ => .dropped :=
      if_pos ⟨hv, refused_eq_false.mpr hr⟩
    cases hop : r.packet.operation with
    | other code =>
        rw [hop] at hentry
        exact .unsupported code hop hentry
    | read =>
        cases hm : r.malloc r.size with
        | none =>
            rw [hop, hm] at hentry
            exact .nomem hv hr (.inl hop) hm hentry
        | some buf =>
            rw [hop, hm] at hentry
            exact .read buf hv hr hop hm hentry
    | write =>
        cases hm : r.malloc r.size with
        | none =>
            rw [hop, hm] at hentry
            exact .nomem hv hr (.inr hop) hm hentry
        | some buf =>
            rw [hop, hm] at hentry
            exact .write buf hv hr hop hm hentry
  · refine .skipped hpass (if_neg ?_)
    rw [refused_eq_false]
    exact hpass

theorem start_leads (r : Request) : Leads (jobStep r) .start ⟨r.entry, []⟩ := by
  unfold Request.entry
  cases hv : r.packet.valid with
  | false =>
      refine ⟨1, ?_⟩
      simp [Job.start, jobStep, hv]
  | true =>
      cases hr : r.refused with
      | true =>
          refine ⟨2, ?_⟩
          show jobStep r (jobStep r .start) = _
          simp [Job.start, jobStep, hv, hr]
      | false =>
          cases hop : r.packet.operation with
          | other code =>
              refine ⟨3, ?_⟩
              show jobStep r (jobStep r (jobStep r .start)) = _
              simp [Job.start, jobStep, hv, hr, hop]
          | read | write =>
              cases hm : r.malloc r.size with
              | some buf =>
                  refine ⟨3, ?_⟩
                  show jobStep r (jobStep r (jobStep r .start)) = _
                  simp [Job.start, jobStep, hv, hr, hop, hm]
              | none =>
                  -- one step more, for the acknowledgement
                  refine ⟨4, ?_⟩
                  show jobStep r (jobStep r (jobStep r (jobStep r .start))) = _
                  simp [Job.start, jobStep, hv, hr, hop, hm]

section
variable {r : Request} {pc : JobPc} {b : Bool} {buf : Word} {calls : List IoCall}

theorem leads_to_entry (hentry : r.entry = pc) : Leads (jobStep r) .start ⟨pc, []⟩ := by
  subst hentry
  exact start_leads r

/-- What a packet comes to is decided after the operation switch. -/
theorem leads_from_entry (hentry : r.entry = pc)
    (h : Leads (jobStep r) .start ⟨.acked b, calls⟩) :
    Leads (jobStep r) ⟨pc, []⟩ ⟨.acked b, calls⟩ :=
  Leads.resume rfl h (leads_to_entry hentry)

/-- A packet dropped after the switch is never acknowledged. -/
theorem not_acked_of_dropped (hentry : r.entry = .dropped) :
    ¬ Leads (jobStep r) .start ⟨.acked b, calls⟩ := by
  intro h
  have heq : (⟨.dropped, []⟩ : Job) = ⟨.acked b, calls⟩ :=
    Leads.unique rfl rfl (Leads.refl _) (leads_from_entry hentry h)
  cases heq

theorem read_acked (hentry : r.entry = .readBlock buf 0 0)
    (h : Leads (jobStep r) .start ⟨.acked b, calls⟩) : ReadInv r buf ⟨.acked b, calls⟩ :=
  Leads.invariant (ReadInv.enter r buf) (fun _ hs => hs.step) (leads_from_entry hentry h)

theorem write_acked (hentry : r.entry = .writeBlock buf 0)
    (h : Leads (jobStep r) .start ⟨.acked b, calls⟩) : WriteInv r buf ⟨.acked b, calls⟩ :=
  Leads.invariant (WriteInv.enter r buf) (fun _ hs => hs.step) (leads_from_entry hentry h)

/-- A READ all of whose blocks are taken in the end. -/
theorem read_served (hentry : r.entry = .readBlock buf 0 0)
    (hacc : ∀ i < r.count, ∃ j, r.accepted i j) :
    ∃ calls, Leads (jobStep r) .start ⟨.acked true, calls⟩ ∧
      ∀ i j, i < r.count → r.firstAccepted i j → r.readCall buf i j ∈ calls := by
  obtain ⟨calls, hleads, -, hmem⟩ :=
    read_leads buf r.count 0 [] (Nat.zero_add _) (fun i _ hi => hacc i hi)
  exact ⟨calls, (leads_to_entry hentry).trans hleads, fun i j => hmem i j (Nat.zero_le _)⟩

/-- A WRITE. -/
theorem write_served (hentry : r.entry = .writeBlock buf 0) :
    ∃ calls, Leads (jobStep r) .start ⟨.acked true, calls⟩ ∧
      ∀ i < r.count, r.writeCall buf i ∈ calls := by
  obtain ⟨calls, hleads, -, hmem⟩ := write_leads buf r.count 0 [] (Nat.zero_add _)
  exact ⟨calls, (leads_to_entry hentry).trans hleads, fun i => hmem i (Nat.zero_le _)⟩

end

/-! ### Acknowledgement -/

/-- The packet is acknowledged in the end. -/
def Acknowledged (r : Request) : Prop :=
  ∃ b calls, Leads (jobStep r) .start ⟨.acked b, calls⟩

/-- The condition: the packet is valid and passes the range check, and it is a WRITE or
a READ, the latter without memory for its buffer or with every block taken by the host
at some attempt. -/
def Request.Servable (r : Request) : Prop :=
  r.packet.valid = true ∧ r.InRange ∧
    match r.packet.operation with
    | .read => r.malloc r.size ≠ none → ∀ i < r.count, ∃ j, r.accepted i j
    | .write => True
    | .other _ => False

section
variable {r : Request} {buf : Word}

theorem read_acknowledged (hentry : r.entry = .readBlock buf 0 0) :
    Acknowledged r ↔ ∀ i < r.count, ∃ j, r.accepted i j := by
  constructor
  · rintro ⟨b, calls, h⟩
    exact (read_acked hentry h).pc.2
  · intro hacc
    obtain ⟨calls, hleads, -⟩ := read_served hentry hacc
    exact ⟨true, calls, hleads⟩

theorem write_acknowledged (hentry : r.entry = .writeBlock buf 0) : Acknowledged r := by
  obtain ⟨calls, hleads, -⟩ := write_served hentry
  exact ⟨true, calls, hleads⟩

/-- Without memory for the buffer the packet is acknowledged as a failure. -/
theorem nomem_acknowledged (hentry : r.entry = .acked false) : Acknowledged r :=
  ⟨false, [], leads_to_entry hentry⟩

theorem not_acknowledged_of_dropped (hentry : r.entry = .dropped) : ¬ Acknowledged r := by
  rintro ⟨b, calls, h⟩
  exact not_acked_of_dropped hentry h

end

/-- Exactly the packets that can be served are acknowledged. -/
theorem acknowledged_iff_servable (r : Request) : Acknowledged r ↔ r.Servable := by
  unfold Request.Servable
  cases r.fate with
  | skipped hskip hentry =>
      refine iff_of_false (not_acknowledged_of_dropped hentry) ?_
      rintro ⟨hv, hr, -⟩
      exact hskip ⟨hv, hr⟩
  | unsupported code hop hentry =>
      rw [hop]
      exact iff_of_false (not_acknowledged_of_dropped hentry) (fun h => h.2.2)
  | nomem hv hr hop hm hentry =>
      refine iff_of_true (nomem_acknowledged hentry) ⟨hv, hr, ?_⟩
      rcases hop with hop | hop
      · rw [hop]
        exact fun hne => absurd hm hne
      · rw [hop]
        trivial
  | read buf hv hr hop hm hentry =>
      rw [hop, hm, read_acknowledged hentry]
      exact ⟨fun hacc => ⟨hv, hr, fun _ => hacc⟩, fun h => h.2.2 (Option.some_ne_none _)⟩
  | write buf hv hr hop hm hentry =>
      rw [hop]
      exact iff_of_true (write_acknowledged hentry) ⟨hv, hr, trivial⟩

/-! ### The end of a READ -/

/-- What attempt `j` at block `i` returns. -/
def Request.readResult (r : Request) (i j : Nat) : Int := (r.readCall 0 i j).ret

/-- The buffer makes no difference to it. -/
theorem readResult_eq_zero {r : Request} {i j : Nat} : r.readResult i j = 0 ↔ r.accepted i j :=
  readCall_ret

/-- The thread is done with the packet. -/
def JobPc.done : JobPc → Bool
  | .acked _ | .dropped => true
  | _ => false

/-- Processing of the packet ends. -/
def Ends (r : Request) : Prop :=
  ∃ s, Leads (jobStep r) .start s ∧ s.pc.done = true

/-- The host is never busy for good. -/
def BusyFinite (r : Request) : Prop :=
  ∀ i < r.count, ∀ j, ∃ j', j ≤ j' ∧ r.readResult i j' ≠ -eblkBusy

theorem jobStep_done {r : Request} {s : Job} (h : s.pc.done = true) : jobStep r s = s := by
  obtain ⟨pc, calls⟩ := s
  cases pc with
  | acked b => rfl
  | dropped => rfl
  | valid | check | dispatch | readBlock buf i j | writeBlock buf i | ack b => cases h

/-- A READ that has its buffer ends exactly if every block is read at some attempt. -/
theorem read_ends {r : Request} {buf : Word} (hentry : r.entry = .readBlock buf 0 0) :
    Ends r ↔ ∀ i < r.count, ∃ j, r.readResult i j = 0 := by
  simp only [readResult_eq_zero]
  constructor
  · rintro ⟨s, hleads, hdone⟩
    have hfrom : Leads (jobStep r) ⟨.readBlock buf 0 0, []⟩ s :=
      Leads.resume (jobStep_done hdone) hleads (leads_to_entry hentry)
    have hinv : ReadInv r buf s :=
      Leads.invariant (ReadInv.enter r buf) (fun _ hs => hs.step) hfrom
    obtain ⟨pc, calls⟩ := s
    cases pc with
    | acked b => exact hinv.pc.2
    | dropped => exact hinv.pc.elim
    | valid | check | dispatch | readBlock b i j | writeBlock b i | ack b => cases hdone
  · intro hacc
    obtain ⟨calls, hleads, -⟩ := read_served hentry hacc
    exact ⟨_, hleads, rfl⟩

/-- **When a READ ends.**  Whatever the attempts at its blocks return: a READ that is valid, in
range and has a buffer ends exactly if for every block some attempt returns 0.  `-EBLK_BUSY` is
slept on, and all other errors are tried again at once. -/
theorem read_ends_iff (r : Request) (hread : r.packet.operation = .read) :
    Ends r ↔ (r.packet.valid = true → r.InRange → r.malloc r.size ≠ none →
      ∀ i < r.count, ∃ j, r.readResult i j = 0) := by
  cases r.fate with
  | skipped hskip hentry =>
      refine iff_of_true ⟨_, leads_to_entry hentry, rfl⟩ ?_
      intro hv hr
      exact absurd ⟨hv, hr⟩ hskip
  | unsupported code hop hentry =>
      rw [hread] at hop
      cases hop
  | nomem hv hr hop hm hentry =>
      exact iff_of_true ⟨_, leads_to_entry hentry, rfl⟩ (fun _ _ hne => absurd hm hne)
  | read buf hv hr hop hm hentry =>
      rw [read_ends hentry, hm]
      exact ⟨fun h _ _ _ => h, fun h => h hv hr (Option.some_ne_none _)⟩
  | write buf hv hr hop hm hentry =>
      rw [hread] at hop
      cases hop

/-- A command in freshly allocated, cleared memory. -/
def clearedCmnd : ScsiCmnd := ⟨none, 0, .bidirectional, [], 0, 0, 0, 0⟩

/-- A READ whose host is busy at the first attempt. -/
def busyOnceRead : Request where
  packet := ⟨true, .read, 0, 1⟩
  usbIndex := 0
  devices := tenBlocks
  malloc := fun _ => some 0x1000
  io := fun _ j => ⟨tenBlocks, clearedCmnd, if j = 0 then .busy else .completed 0⟩

theorem busyOnceRead_ends : Ends busyOnceRead := by
  refine (read_ends_iff busyOnceRead rfl).mpr ?_
  intro _ _ _ i hi
  obtain rfl : i = 0 := Nat.lt_one_iff.mp hi
  exact ⟨1, by decide⟩

/-- A READ of the last block number there is, from a device with ten blocks: the sum in the range
check wraps. -/
def wrapRead : Request := { busyOnceRead with packet := ⟨true, .read, 0xffffffff, 1⟩ }

/-- A READ from a slot with no device. -/
def absentRead : Request :=
  { busyOnceRead with
    devices := fun _ => ⟨0, 0, none⟩
    io := fun _ _ => ⟨fun _ => ⟨0, 0, none⟩, clearedCmnd, .busy⟩ }

/-- A block whose attempts all return the same error is tried for ever. -/
theorem permanent_error {r : Request} {e : Int} (buf : Word)
    (hentry : r.entry = .readBlock buf 0 0) (hcount : r.count = 1)
    (herr : ∀ j, r.readResult 0 j = e) (he : e ≠ 0) (hbusy : e ≠ -eblkBusy) :
    BusyFinite r ∧ ¬ Ends r := by
  constructor
  · intro i hi j
    obtain rfl : i = 0 := by omega
    exact ⟨j, Nat.le_refl j, by rw [herr]; exact hbusy⟩
  · rw [read_ends hentry]
    intro h
    obtain ⟨j, hj⟩ := h 0 (by omega)
    exact he ((herr j).symm.trans hj)

/-- **A READ that never ends.**  Both pass the range check, and each attempt returns the same
error: `-EBLK_FAULT` the one, `-EBLK_NODEV` the other. -/
theorem read_tried_for_ever :
    ((∀ j, wrapRead.readResult 0 j = -eblkFault) ∧ BusyFinite wrapRead ∧ ¬ Ends wrapRead) ∧
      (∀ j, absentRead.readResult 0 j = -eblkNodev) ∧ BusyFinite absentRead ∧
        ¬ Ends absentRead := by
  have hfault : ∀ j, wrapRead.readResult 0 j = -eblkFault := fun _ => rfl
  have hnodev : ∀ j, absentRead.readResult 0 j = -eblkNodev := fun _ => rfl
  exact ⟨⟨hfault, permanent_error 0x1000 rfl rfl hfault (by decide) (by decide)⟩,
    hnodev, permanent_error 0x1000 rfl rfl hnodev (by decide) (by decide)⟩

/-! ### Truth of the acknowledgement -/

/-- The packet is acknowledged, and as a success only if every one of its blocks was
transferred by a command that completed without error. -/
def Truthful (r : Request) : Prop :=
  ∃ b calls, Leads (jobStep r) .start ⟨.acked b, calls⟩ ∧
    (b = true → ∀ i < r.count, Transferred r calls i)

/-- The condition: the packet is valid, passes the range check, and has no memory for
its buffer, or is a WRITE each of whose blocks the host takes at once and without error,
or a READ each of whose blocks completes without error the first time the host takes
it. -/
def Request.CommandsSucceed (r : Request) : Prop :=
  r.packet.valid = true ∧ r.InRange ∧
    match r.packet.operation, r.malloc r.size with
    | .read, some _ => ∀ i < r.count, ∃ j, r.completes i j 0 ∧ ∀ j' < j, ¬ r.accepted i j'
    | .write, some _ => ∀ i < r.count, r.completes i 0 0
    | .read, none | .write, none => True
    | .other _, _ => False

section
variable {r : Request} {buf : Word}

theorem nomem_truthful (hentry : r.entry = .acked false) : Truthful r := by
  refine ⟨false, [], leads_to_entry hentry, ?_⟩
  intro hne
  cases hne

theorem not_truthful_of_dropped (hentry : r.entry = .dropped) : ¬ Truthful r := by
  rintro ⟨b, calls, h, -⟩
  exact not_acknowledged_of_dropped hentry ⟨b, calls, h⟩

theorem read_truthful (hentry : r.entry = .readBlock buf 0 0) :
    Truthful r ↔ ∀ i < r.count, ∃ j, r.completes i j 0 ∧ ∀ j' < j, ¬ r.accepted i j' := by
  constructor
  · rintro ⟨b, calls, h, htrue⟩ i hi
    have hinv := read_acked hentry h
    obtain ⟨call, hmem, hblock, hdone⟩ := htrue hinv.pc.1 i hi
    -- the call that transferred the block is one of the attempts at this very block
    obtain ⟨i', j, hi', rfl, hfirst⟩ := hinv.calls call hmem
    obtain rfl := block_inj hi' hi hblock
    exact ⟨j, readCall_completed.mp hdone, hfirst⟩
  · intro hdone
    have hacc : ∀ i < r.count, ∃ j, r.accepted i j := by
      intro i hi
      obtain ⟨j, hc, -⟩ := hdone i hi
      exact ⟨j, 0, hc⟩
    obtain ⟨calls, hleads, hmem⟩ := read_served hentry hacc
    refine ⟨true, calls, hleads, ?_⟩
    intro _ i hi
    obtain ⟨j, hc, hfirst⟩ := hdone i hi
    exact ⟨_, hmem i j hi ⟨⟨0, hc⟩, hfirst⟩, rfl, readCall_completed.mpr hc⟩

theorem write_truthful (hentry : r.entry = .writeBlock buf 0) :
    Truthful r ↔ ∀ i < r.count, r.completes i 0 0 := by
  constructor
  · rintro ⟨b, calls, h, htrue⟩ i hi
    have hinv := write_acked hentry h
    obtain ⟨call, hmem, hblock, hdone⟩ := htrue hinv.pc i hi
    obtain ⟨i', hi', rfl⟩ := hinv.calls call hmem
    obtain rfl := block_inj hi' hi hblock
    exact writeCall_completed.mp hdone
  · intro hdone
    obtain ⟨calls, hleads, hmem⟩ := write_served hentry
    refine ⟨true, calls, hleads, ?_⟩
    intro _ i hi
    exact ⟨_, hmem i hi, rfl, writeCall_completed.mpr (hdone i hi)⟩

end

/-- **When the acknowledgement is truthful.**  Exactly if the packet gets as far as the
acknowledgement and the commands it rests on all succeed: neither the value a write
returns nor the result of a command is looked at. -/
theorem succeeded_truthful_iff (r : Request) : Truthful r ↔ r.CommandsSucceed := by
  unfold Request.CommandsSucceed
  cases r.fate with
  | skipped hskip hentry =>
      refine iff_of_false (not_truthful_of_dropped hentry) ?_
      rintro ⟨hv, hr, -⟩
      exact hskip ⟨hv, hr⟩
  | unsupported code hop hentry =>
      rw [hop]
      exact iff_of_false (not_truthful_of_dropped hentry) (fun h => h.2.2)
  | nomem hv hr hop hm hentry =>
      refine iff_of_true (nomem_truthful hentry) ⟨hv, hr, ?_⟩
      rcases hop with hop | hop
      · rw [hop, hm]
        trivial
      · rw [hop, hm]
        trivial
  | read buf hv hr hop hm hentry =>
      rw [hop, hm, read_truthful hentry]
      exact ⟨fun h => ⟨hv, hr, h⟩, fun h => h.2.2⟩
  | write buf hv hr hop hm hentry =>
      rw [hop, hm, write_truthful hentry]
      exact ⟨fun h => ⟨hv, hr, h⟩, fun h => h.2.2⟩

/-- One block is written to a device whose host is busy. -/
def busyWrite : Request where
  packet := ⟨true, .write, 0, 1⟩
  usbIndex := 0
  devices := tenBlocks
  malloc := fun _ => some 0x1000
  io := fun _ _ => ⟨tenBlocks, clearedCmnd, .busy⟩

/-- **A lost write is reported as a success.**  The command is never taken, and the
packet is acknowledged with `succeeded(true)`. -/
theorem busyWrite_reported_done :
    (∃ calls, Leads (jobStep busyWrite) .start ⟨.acked true, calls⟩) ∧ ¬ Truthful busyWrite := by
  have hentry : busyWrite.entry = .writeBlock 0x1000 0 := rfl
  refine ⟨⟨[busyWrite.writeCall 0x1000 0], 6, rfl⟩, ?_⟩
  rw [write_truthful hentry]
  intro h
  have hdone : Reply.busy = .completed 0 := (h 0 (by decide)).2.2
  cases hdone

end LinuxDrivers.Usb
