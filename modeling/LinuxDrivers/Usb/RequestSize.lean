/-
# `LinuxDrivers.Usb.RequestSize` — the three sizes of a block request

Three sizes meet in the request thread, and each is chosen by someone else:

    packet.size()          the payload the client has set aside for the packet
    packet.block_count()   also the client's; the buffer has `block_count * 512` bytes,
                           a product of `size_t`, and so many are copied
    block_size             what the device reports; so many bytes each command transfers

The thread compares none of them with another.  `Job.accesses` is what its next step
touches, and `SizesAgree` that everything it ever touches is there.

**Proved here.**

    with every device table, memory and host the sizes agree iff the blocks of the
      packet, 512 bytes each, fit its payload and a block of the device is no longer
      than that                                             (`sizes_agree_iff`)

The condition leaves no room for the product to wrap: a payload is below `2 ^ 32` bytes.
-/
import LinuxDrivers.Usb.Request

namespace LinuxDrivers.Usb

open LinuxDrivers.Lib

/-! ## What a step touches -/

/-- What is touched besides the thread's own variables. -/
inductive Access where
  /-- one of the two `memcpy`: the payload of the packet, `size` bytes of it -/
  | payload
  /-- the data of one command: so many bytes at this offset of the buffer -/
  | block (offset length : Nat)
  deriving DecidableEq, Repr

/-- The data of the command handed over for block `i` of the packet, if one is. -/
def IoCall.accesses (call : IoCall) (i : Nat) : List Access :=
  match call.command with
  | some (cmnd, _) => [.block (i * 512) cmnd.requestBufflen.toNat]
  | none => []

/-- What the thread's next step touches. -/
def Job.accesses (r : Request) (s : Job) : List Access :=
  match s.pc with
  | .dispatch =>
      match r.packet.operation, r.malloc r.size with
      | .write, some _ => [.payload]
      | _, _ => []
  | .readBlock buf i j =>
      -- the payload is written after the last block
      if i < r.count then (r.readCall buf i j).accesses i else [.payload]
  | .writeBlock buf i => if i < r.count then (r.writeCall buf i).accesses i else []
  | _ => []

/-- The payload is touched only if all blocks fit it, counted without wrap-around, and a command
stays inside the `size` bytes allocated.  The thread itself never reads `packet.size()`. -/
def Access.Fits (r : Request) (packetSize : Word) : Access → Prop
  | .payload => r.count * 512 ≤ packetSize.toNat
  | .block offset length => offset + length ≤ r.size.toNat

/-- Everything the thread touches for the packet is there. -/
def SizesAgree (r : Request) (packetSize : Word) : Prop :=
  ∀ s, Leads (jobStep r) .start s → ∀ access ∈ s.accesses r, access.Fits r packetSize

/-- The device reports this block size, whenever it is asked for a block. -/
def Request.ReportsBlockSize (r : Request) (blockSize : Word) : Prop :=
  ∀ i j, ((r.io i j).devices r.usbIndex).blockSize = blockSize

/-! ## The packets that come to a transfer -/

/-- Which packets get this far. -/
def JobPc.Admits (p : Packet) : JobPc → Prop
  | .check | .dispatch => p.valid = true
  | .readBlock _ _ _ => p.valid = true ∧ p.operation = .read
  | .writeBlock _ _ => p.valid = true ∧ p.operation = .write
  | .valid | .ack _ | .acked _ | .dropped => True

theorem admits_step {r : Request} {s : Job} (h : s.pc.Admits r.packet) :
    (jobStep r s).pc.Admits r.packet := by
  obtain ⟨pc, calls⟩ := s
  cases pc with
  | valid =>
      simp only [jobStep]
      split
      · rename_i hv
        exact hv
      · trivial
  | check =>
      simp only [jobStep]
      split
      · trivial
      · exact h
  | dispatch =>
      cases hop : r.packet.operation with
      | other code =>
          simp only [jobStep, hop]
          trivial
      | read | write =>
          cases hm : r.malloc r.size with
          | none =>
              simp only [jobStep, hop, hm]
              trivial
          | some buf =>
              simp only [jobStep, hop, hm]
              exact ⟨h, hop⟩
  | readBlock buf i j =>
      simp only [jobStep]
      split
      · split <;> exact h
      · trivial
  | writeBlock buf i =>
      simp only [jobStep]
      split
      · exact h
      · trivial
  | ack b | acked b | dropped => trivial

theorem admits_of_leads {r : Request} {s : Job} (h : Leads (jobStep r) .start s) :
    s.pc.Admits r.packet :=
  Leads.invariant (I := fun s => s.pc.Admits r.packet) trivial (fun _ => admits_step) h

/-- What is touched by a call, by the block size of the device. -/
theorem call_accesses {call : IoCall} {blockSize : Word} (i : Nat)
    (hlen : ∀ cmnd reply, call.command = some (cmnd, reply) → cmnd.requestBufflen = blockSize) :
    ∀ access ∈ call.accesses i, access = .block (i * 512) blockSize.toNat := by
  intro access hmem
  unfold IoCall.accesses at hmem
  cases hc : call.command with
  | none =>
      rw [hc] at hmem
      cases hmem
  | some x =>
      obtain ⟨cmnd, reply⟩ := x
      rw [hc] at hmem
      rw [List.mem_singleton.mp hmem, hlen cmnd reply hc]

/-- The payload of a READ or WRITE, or the data of one of its blocks: nothing else is touched. -/
theorem accesses_cases {r : Request} {blockSize : Word} {s : Job}
    (hsize : r.ReportsBlockSize blockSize) (h : Leads (jobStep r) .start s) {access : Access}
    (hmem : access ∈ s.accesses r) :
    r.packet.valid = true ∧ (r.packet.operation = .read ∨ r.packet.operation = .write) ∧
      (access = .payload ∨ ∃ i < r.count, access = .block (i * 512) blockSize.toNat) := by
  have hadmits := admits_of_leads h
  obtain ⟨pc, calls⟩ := s
  cases pc with
  | dispatch =>
      simp only [Job.accesses] at hmem
      split at hmem
      · rename_i hop _
        exact ⟨hadmits, .inr hop, .inl (List.mem_singleton.mp hmem)⟩
      · cases hmem
  | readBlock buf i j =>
      refine ⟨hadmits.1, .inl hadmits.2, ?_⟩
      simp only [Job.accesses] at hmem
      split at hmem
      · rename_i hi
        refine .inr ⟨i, hi, call_accesses i ?_ access hmem⟩
        intro cmnd reply hc
        rw [← hsize i j]
        exact blockIo_bufflen hc
      · exact .inl (List.mem_singleton.mp hmem)
  | writeBlock buf i =>
      refine ⟨hadmits.1, .inr hadmits.2, ?_⟩
      simp only [Job.accesses] at hmem
      split at hmem
      · rename_i hi
        refine .inr ⟨i, hi, call_accesses i ?_ access hmem⟩
        intro cmnd reply hc
        rw [← hsize i 0]
        exact blockIo_bufflen hc
      · cases hmem
  | valid | check | ack b | acked b | dropped => cases hmem

/-- The product does not wrap if the blocks fit a payload. -/
theorem size_toNat {r : Request} {packetSize : Word} (h : r.count * 512 ≤ packetSize.toNat) :
    r.size.toNat = r.count * 512 := by
  have hbound := packetSize.isLt
  have hprod : r.size.toNat = r.count * 512 % 2 ^ 32 := BitVec.toNat_mul _ _
  rw [hprod, Nat.mod_eq_of_lt (by omega)]

/-! ## A host that serves every packet -/

/-- A device as large as can be, memory for every buffer, and a host that takes every command. -/
def obligingRequest (p : Packet) (blockSize : Word) : Request where
  packet := p
  usbIndex := 0
  devices _ := ⟨blockSize, BitVec.allOnes 32, some 0⟩
  malloc _ := some 0x1000
  io _ _ :=
    { devices := fun _ => ⟨blockSize, BitVec.allOnes 32, some 0⟩
      heap := clearedCmnd
      reply := .completed 0 }

section
variable {p : Packet} {blockSize : Word} {i : Nat}

theorem le_largest (w : Word) : w ≤ BitVec.allOnes 32 := by
  rw [BitVec.le_def, BitVec.toNat_allOnes]
  exact Nat.le_pred_of_lt w.isLt

theorem obliging_completes (i j : Nat) : (obligingRequest p blockSize).completes i j 0 :=
  ⟨rfl, le_largest _, rfl⟩

theorem obliging_refused : (obligingRequest p blockSize).refused = false :=
  refused_eq_false.mpr (le_largest _)

theorem obliging_entry (hv : p.valid = true) :
    (obligingRequest p blockSize).entry = match p.operation with
      | .read => .readBlock 0x1000 0 0
      | .write => .writeBlock 0x1000 0
      | .other _ => .dropped := by
  rw [Request.entry, if_pos ⟨hv, obliging_refused⟩]
  cases hop : p.operation <;> simp only [obligingRequest, hop]

/-- Every block of a READ comes up, and after the last the end of the loop. -/
theorem read_reaches (hv : p.valid = true) (hop : p.operation = .read) :
    ∀ i ≤ p.blockCount.toNat, ∃ calls, Leads (jobStep (obligingRequest p blockSize)) .start
      ⟨.readBlock 0x1000 i 0, calls⟩ := by
  intro i
  induction i with
  | zero =>
      intro _
      have hentry : (obligingRequest p blockSize).entry = .readBlock 0x1000 0 0 := by
        rw [obliging_entry hv, hop]
      exact ⟨[], leads_to_entry hentry⟩
  | succ i ih =>
      intro hi
      obtain ⟨calls, hleads⟩ := ih (by omega)
      have hfirst : (obligingRequest p blockSize).firstAccepted i 0 :=
        ⟨⟨0, obliging_completes i 0⟩, fun j' hj' => absurd hj' (Nat.not_lt_zero _)⟩
      obtain ⟨calls', hnext, -⟩ := retry_leads 0x1000 hi hfirst 0 0 calls rfl
      exact ⟨calls', hleads.trans hnext⟩

theorem write_reaches (hv : p.valid = true) (hop : p.operation = .write) :
    ∀ i ≤ p.blockCount.toNat, ∃ calls, Leads (jobStep (obligingRequest p blockSize)) .start
      ⟨.writeBlock 0x1000 i, calls⟩ := by
  intro i
  induction i with
  | zero =>
      intro _
      have hentry : (obligingRequest p blockSize).entry = .writeBlock 0x1000 0 := by
        rw [obliging_entry hv, hop]
      exact ⟨[], leads_to_entry hentry⟩
  | succ i ih =>
      intro hi
      obtain ⟨calls, hleads⟩ := ih (by omega)
      have hstep : jobStep (obligingRequest p blockSize) ⟨.writeBlock 0x1000 i, calls⟩ = _ :=
        if_pos hi
      exact ⟨_, hleads.trans ⟨1, hstep⟩⟩

/-- A command that is handed over touches its data. -/
theorem mem_accesses {call : IoCall}
    (hcall : ∃ cmnd, call.command = some (cmnd, .completed 0) ∧ cmnd.requestBufflen = blockSize) :
    .block (i * 512) blockSize.toNat ∈ call.accesses i := by
  obtain ⟨cmnd, hcmnd, rfl⟩ := hcall
  simp only [IoCall.accesses, hcmnd, List.mem_singleton]

/-- Some step of the thread touches this. -/
def Touches (r : Request) (access : Access) : Prop :=
  ∃ s, Leads (jobStep r) .start s ∧ access ∈ s.accesses r

/-- Such a host sees the data of every block of a READ, and the client all of them. -/
theorem read_touches (hv : p.valid = true) (hop : p.operation = .read) :
    Touches (obligingRequest p blockSize) .payload ∧ ∀ i < p.blockCount.toNat,
      Touches (obligingRequest p blockSize) (.block (i * 512) blockSize.toNat) := by
  constructor
  · obtain ⟨calls, hleads⟩ := read_reaches hv hop p.blockCount.toNat (Nat.le_refl _)
    have hend : Job.accesses (obligingRequest p blockSize) ⟨.readBlock 0x1000 _ 0, calls⟩ =
        [.payload] := if_neg (Nat.lt_irrefl p.blockCount.toNat)
    exact ⟨_, hleads, hend ▸ List.mem_singleton_self _⟩
  · intro i hi
    obtain ⟨calls, hleads⟩ := read_reaches hv hop i (Nat.le_of_lt hi)
    have hcall : Job.accesses (obligingRequest p blockSize) ⟨.readBlock 0x1000 i 0, calls⟩ =
        ((obligingRequest p blockSize).readCall 0x1000 i 0).accesses i := if_pos hi
    obtain ⟨cmnd, hcmnd⟩ := readCall_completed.mpr (obliging_completes i 0)
    exact ⟨_, hleads, hcall ▸ mem_accesses ⟨cmnd, hcmnd, blockIo_bufflen hcmnd⟩⟩

theorem write_touches (hv : p.valid = true) (hop : p.operation = .write) :
    Touches (obligingRequest p blockSize) .payload ∧ ∀ i < p.blockCount.toNat,
      Touches (obligingRequest p blockSize) (.block (i * 512) blockSize.toNat) := by
  constructor
  · refine ⟨⟨.dispatch, []⟩, ⟨2, ?_⟩, ?_⟩
    · show jobStep _ (jobStep _ .start) = _
      have hvalid : (obligingRequest p blockSize).packet.valid = true := hv
      simp [Job.start, jobStep, hvalid, obliging_refused]
    · simp [Job.accesses, obligingRequest, hop]
  · intro i hi
    obtain ⟨calls, hleads⟩ := write_reaches hv hop i (Nat.le_of_lt hi)
    have hcall : Job.accesses (obligingRequest p blockSize) ⟨.writeBlock 0x1000 i, calls⟩ =
        ((obligingRequest p blockSize).writeCall 0x1000 i).accesses i := if_pos hi
    obtain ⟨cmnd, hcmnd⟩ := writeCall_completed.mpr (obliging_completes i 0)
    exact ⟨_, hleads, hcall ▸ mem_accesses ⟨cmnd, hcmnd, blockIo_bufflen hcmnd⟩⟩

end

/-! ## Agreement -/

/-- **When the sizes agree.**  For a packet with `packetSize` bytes of payload and a device that
reports `blockSize`: whatever the device table, the memory and the host are like, everything the
thread touches is there, if and only if the packet is not a valid READ or WRITE, or its blocks fit
the payload and a block of the device is no longer than 512 bytes. -/
theorem sizes_agree_iff (p : Packet) (packetSize blockSize : Word) :
    (∀ r : Request, r.packet = p → r.ReportsBlockSize blockSize → SizesAgree r packetSize) ↔
      (p.valid = true → p.operation = .read ∨ p.operation = .write →
        p.blockCount.toNat * 512 ≤ packetSize.toNat ∧
          (0 < p.blockCount.toNat → blockSize.toNat ≤ 512)) := by
  constructor
  · intro h hv hop
    have hagree := h (obligingRequest p blockSize) rfl (fun _ _ => rfl)
    obtain ⟨⟨s, hs, hpayload⟩, hblocks⟩ :
        Touches (obligingRequest p blockSize) .payload ∧ ∀ i < p.blockCount.toNat,
          Touches (obligingRequest p blockSize) (.block (i * 512) blockSize.toNat) := by
      rcases hop with hop | hop
      · exact read_touches hv hop
      · exact write_touches hv hop
    have hfits : p.blockCount.toNat * 512 ≤ packetSize.toNat := hagree s hs _ hpayload
    refine ⟨hfits, ?_⟩
    -- the last block reaches to the end of the buffer if it has 512 bytes
    intro hpos
    obtain ⟨t, ht, hlast⟩ := hblocks (p.blockCount.toNat - 1) (by omega)
    have hend : (p.blockCount.toNat - 1) * 512 + blockSize.toNat ≤
        (obligingRequest p blockSize).size.toNat := hagree t ht _ hlast
    have hsize : (obligingRequest p blockSize).size.toNat = p.blockCount.toNat * 512 :=
      size_toNat hfits
    omega
  · rintro h r rfl hreports s hs access hmem
    obtain ⟨hv, hop, haccess⟩ := accesses_cases hreports hs hmem
    obtain ⟨hfits, hblock⟩ := h hv hop
    rcases haccess with rfl | ⟨i, hi, rfl⟩
    · exact hfits
    · calc i * 512 + blockSize.toNat
          ≤ i * 512 + 512 := Nat.add_le_add_left (hblock (Nat.zero_lt_of_lt hi)) _
        _ = (i + 1) * 512 := (Nat.succ_mul i 512).symm
        _ ≤ r.count * 512 := Nat.mul_le_mul_right 512 hi
        _ = r.size.toNat := (size_toNat hfits).symm

/-- **The sizes need not agree.**  Two blocks are read into a payload of one; `2 ^ 23` blocks get
a buffer of no bytes; a device with blocks of 4096 bytes writes behind a buffer of 512. -/
theorem sizes_disagree :
    ¬ SizesAgree (obligingRequest ⟨true, .read, 0, 2⟩ 512) 512 ∧
      ¬ SizesAgree (obligingRequest ⟨true, .read, 0, 0x800000⟩ 512) 0xffffffff ∧
      ¬ SizesAgree (obligingRequest ⟨true, .read, 0, 1⟩ 4096) 512 := by
  refine ⟨?_, ?_, ?_⟩
  · intro h
    obtain ⟨s, hs, hpayload⟩ : Touches (obligingRequest ⟨true, .read, 0, 2⟩ 512) .payload :=
      (read_touches rfl rfl).1
    have hfits : 2 * 512 ≤ 512 := h s hs _ hpayload
    omega
  · intro h
    have hfits : 0 + 512 ≤ 0 := h ⟨.readBlock 0x1000 0 0, []⟩ ⟨3, rfl⟩ (.block 0 512) (by decide)
    omega
  · intro h
    have hfits : 0 + 4096 ≤ 512 :=
      h ⟨.readBlock 0x1000 0 0, []⟩ ⟨3, rfl⟩ (.block 0 4096) (by decide)
    omega

end LinuxDrivers.Usb
