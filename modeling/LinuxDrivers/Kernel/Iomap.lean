/-
# `LinuxDrivers.Kernel.Iomap` — port and memory behind one address

Drivers reach a device through an address, a cookie, that stands for an I/O port or for memory.
`iomap.c` puts the 64 K ports into a window of the address space that is not used otherwise, and
each accessor looks where its address is:

    ioport_map(p)    p + PIO_OFFSET                         0xF0000000 ...
    IO_COND          addr > PIO_OFFSET, addr < PIO_RESERVED:
                       the bits above the port must be those of PIO_OFFSET, else BUG
                       port I/O on the low 16 bits
                     else  memory access at addr

The lower bound is strict: the cookie of port 0 is PIO_OFFSET itself, and is taken for memory.
The DDE kit has no port I/O on strings, so the repeat accessors panic on a port.

**Proved here.**

    where each accessor ends up                             (`io_cookie_iff`)
-/
import LinuxDrivers.Basic
import LinuxDrivers.Lib.Bits

namespace LinuxDrivers.Kernel.Iomap

open LinuxDrivers.Lib

/-! ## The cookies -/

def pioOffset : Word := 0xf0000000

def pioMask : Word := 0xffff

def pioReserved : Word := 0xf0040000

/-- `NULL` for what is no port; `nr` is not looked at. -/
def ioportMap (port _nr : Word) : Word :=
  if port > pioMask then 0 else port + pioOffset

/-- `IO_COND`, with `bug` for the `BUG_ON` of `VERIFY_PIO` -/
def ioCond {α : Type} (addr : Word) (bug : α) (isPio : Word → α) (isMmio : α) : α :=
  if addr > pioOffset ∧ addr < pioReserved then
    if addr &&& ~~~pioMask ≠ pioOffset then bug else isPio (addr &&& pioMask)
  else isMmio

/-! ## The accessors -/

/-- The width of an access; functions end in `b`, `w` and `l`. -/
inductive Width where
  | byte
  | word
  | long
  deriving DecidableEq, Repr

/-- A value of that width. -/
def Width.cut : Width → Word → Word
  | .byte, v => v &&& 0xff
  | .word, v => v &&& 0xffff
  | .long, v => v

def Width.suffix : Width → String
  | .byte => "b"
  | .word => "w"
  | .long => "l"

def swab16 (v : Word) : Word := (v &&& 0xff) <<< 8 ||| (v >>> 8 &&& 0xff)

def swab32 (v : Word) : Word :=
  (v &&& 0xff) <<< 24 ||| (v &&& 0xff00) <<< 8 ||| (v >>> 8 &&& 0xff00) ||| (v >>> 24 &&& 0xff)

/-- The formats of a single access. -/
inductive Format where
  | u8
  | u16
  | u16be
  | u32
  | u32be
  deriving DecidableEq, Repr

def Format.width : Format → Width
  | .u8 => .byte
  | .u16 | .u16be => .word
  | .u32 | .u32be => .long

/-- From the device's order of bytes to the driver's, and back. -/
def Format.swab : Format → Word → Word
  | .u16be => swab16
  | .u32be => swab32
  | _ => id

/-- What is accessed. -/
inductive Place where
  | port (port : Word)
  | memory (addr : Word)
  deriving DecidableEq, Repr

inductive Op where
  | read
  | write (val : Word)
  deriving DecidableEq, Repr

/-- One access of a device. -/
structure Access where
  place : Place
  width : Width
  op : Op
  deriving DecidableEq, Repr

/-- How a call ends: at a `BUG`, at a function that is not implemented, or with the accesses it has
made and the values it has read. -/
inductive Outcome where
  | bug
  | notImplemented (func : String)
  | done (accesses : List Access) (values : List Word)
  deriving DecidableEq, Repr

/-- `val` is what the device is read as. -/
def ioread (f : Format) (val addr : Word) : Outcome :=
  ioCond addr .bug
    (fun port => .done [⟨.port port, f.width, .read⟩] [f.swab (f.width.cut val)])
    (.done [⟨.memory addr, f.width, .read⟩] [f.swab (f.width.cut val)])

def ioread8 : Word → Word → Outcome := ioread .u8

def ioread16 : Word → Word → Outcome := ioread .u16

def ioread16be : Word → Word → Outcome := ioread .u16be

def ioread32 : Word → Word → Outcome := ioread .u32

def ioread32be : Word → Word → Outcome := ioread .u32be

def iowrite (f : Format) (val addr : Word) : Outcome :=
  ioCond addr .bug
    (fun port => .done [⟨.port port, f.width, .write (f.swab (f.width.cut val))⟩] [])
    (.done [⟨.memory addr, f.width, .write (f.swab (f.width.cut val))⟩] [])

def iowrite8 : Word → Word → Outcome := iowrite .u8

def iowrite16 : Word → Word → Outcome := iowrite .u16

def iowrite16be : Word → Word → Outcome := iowrite .u16be

def iowrite32 : Word → Word → Outcome := iowrite .u32

def iowrite32be : Word → Word → Outcome := iowrite .u32be

/-- The rounds of `while (--count >= 0)`, with `count` as an `int`.  From 2^31 on there are none;
2^31 itself cannot be decremented. -/
def mmioRounds (count : Word) : Nat := (intOfWord count).toNat

/-- `mmio_insb` and its like; `vals` is what the device is read as, time after time. -/
def mmioIns (width : Width) (addr : Word) (vals : Nat → Word) (count : Word) : Outcome :=
  .done ((List.range (mmioRounds count)).map (fun _ => ⟨.memory addr, width, .read⟩))
    ((List.range (mmioRounds count)).map (fun i => width.cut (vals i)))

/-- `mmio_outsb` and its like; `src` is what the buffer holds. -/
def mmioOuts (width : Width) (addr : Word) (src : Nat → Word) (count : Word) : Outcome :=
  .done ((List.range (mmioRounds count)).map
    (fun i => ⟨.memory addr, width, .write (width.cut (src i))⟩)) []

/-- `insb` and its like: "%s not implemented" -/
def ins (width : Width) (_port : Word) : Outcome := .notImplemented ("ins" ++ width.suffix)

def outs (width : Width) (_port : Word) : Outcome := .notImplemented ("outs" ++ width.suffix)

def ioreadRep (width : Width) (vals : Nat → Word) (count addr : Word) : Outcome :=
  ioCond addr .bug (ins width) (mmioIns width addr vals count)

def ioread8Rep : (Nat → Word) → Word → Word → Outcome := ioreadRep .byte

def ioread16Rep : (Nat → Word) → Word → Word → Outcome := ioreadRep .word

def ioread32Rep : (Nat → Word) → Word → Word → Outcome := ioreadRep .long

def iowriteRep (width : Width) (src : Nat → Word) (count addr : Word) : Outcome :=
  ioCond addr .bug (outs width) (mmioOuts width addr src count)

def iowrite8Rep : (Nat → Word) → Word → Word → Outcome := iowriteRep .byte

def iowrite16Rep : (Nat → Word) → Word → Word → Outcome := iowriteRep .word

def iowrite32Rep : (Nat → Word) → Word → Word → Outcome := iowriteRep .long

/-! ## What the accessors are for -/

/-- The sixteen accessors, with what they read or write. -/
inductive Accessor where
  | read (f : Format) (val : Word)
  | write (f : Format) (val : Word)
  | readRep (width : Width) (vals : Nat → Word) (count : Word)
  | writeRep (width : Width) (src : Nat → Word) (count : Word)

def Accessor.run : Accessor → Word → Outcome
  | .read f val => ioread f val
  | .write f val => iowrite f val
  | .readRep width vals count => ioreadRep width vals count
  | .writeRep width src count => iowriteRep width src count

/-- The accesses an accessor is to make, at a place. -/
def Accessor.accesses (place : Place) : Accessor → List Access
  | .read f _ => [⟨place, f.width, .read⟩]
  | .write f val => [⟨place, f.width, .write (f.swab (f.width.cut val))⟩]
  | .readRep width _ count => (List.range count.toNat).map (fun _ => ⟨place, width, .read⟩)
  | .writeRep width src count =>
      (List.range count.toNat).map (fun i => ⟨place, width, .write (width.cut (src i))⟩)

/-- The call ends, and these are the accesses it has made. -/
def Outcome.Performs (out : Outcome) (accesses : List Access) : Prop :=
  ∃ values, out = .done accesses values

/-- How often a repeat accessor is to access the device. -/
def Accessor.repeats : Accessor → Option Word
  | .read _ _ | .write _ _ => none
  | .readRep _ _ count | .writeRep _ _ count => some count

/-! ## Decoding -/

theorem pioOffset_toNat : pioOffset.toNat = 0xf0000000 := rfl

theorem pioReserved_toNat : pioReserved.toNat = 0xf0040000 := rfl

theorem pioMask_eq : pioMask = BitVec.ofNat 32 (2 ^ 16 - 1) := rfl

/-- The address of port `p`, moved by `k`. -/
theorem ioportMap_add {p k : Word} (nr : Word) (h : p.toNat + k.toNat ≤ 0xffff) :
    ioportMap p nr + k = p + k + pioOffset := by
  rw [ioportMap, if_neg, BitVec.add_assoc, BitVec.add_comm pioOffset, ← BitVec.add_assoc]
  rw [gt_iff_lt, BitVec.lt_def, show pioMask.toNat = 0xffff from rfl]
  omega

section

variable {α : Type} {bug isMmio : α} {isPio : Word → α}

/-- A port behind the first one is found again. -/
theorem ioCond_port {q : Word} (hq : q.toNat ≤ 0xffff) (hne : q ≠ 0) :
    ioCond (q + pioOffset) bug isPio isMmio = isPio q := by
  have hpos : 0 < q.toNat := Nat.pos_of_ne_zero (fun h => hne (BitVec.eq_of_toNat_eq h))
  have hcookie : (q + pioOffset).toNat = q.toNat + 0xf0000000 := by
    rw [BitVec.toNat_add, pioOffset_toNat]
    omega
  have hwindow : q + pioOffset > pioOffset ∧ q + pioOffset < pioReserved := by
    rw [gt_iff_lt, BitVec.lt_def, BitVec.lt_def, hcookie, pioOffset_toNat, pioReserved_toNat]
    omega
  have hbase : q + pioOffset &&& ~~~pioMask = pioOffset := by
    apply BitVec.eq_of_toNat_eq
    rw [pioMask_eq, toNat_and_not_low _ (by omega), hcookie, pioOffset_toNat]
    omega
  have hlow : q + pioOffset &&& pioMask = q := by
    apply BitVec.eq_of_toNat_eq
    rw [pioMask_eq, toNat_and_low _ (by omega), hcookie]
    omega
  rw [ioCond, if_pos hwindow, if_neg (not_not.mpr hbase), hlow]

/-- The first port is taken for memory. -/
theorem ioCond_pioOffset : ioCond pioOffset bug isPio isMmio = isMmio := by
  rw [ioCond, if_neg (by decide)]

theorem ioCond_outside {addr : Word} (h : addr < pioOffset ∨ pioReserved ≤ addr) :
    ioCond addr bug isPio isMmio = isMmio := by
  rw [ioCond, if_neg]
  rintro ⟨hlow, hhigh⟩
  rcases h with h | h
  · exact absurd h (BitVec.lt_asymm hlow)
  · exact absurd hhigh (BitVec.not_lt.mpr h)

end

/-! ## What each accessor does at a place -/

/-- What an accessor does at a port. -/
def Accessor.pio : Accessor → Word → Outcome
  | .read f val, port => .done [⟨.port port, f.width, .read⟩] [f.swab (f.width.cut val)]
  | .write f val, port => .done [⟨.port port, f.width, .write (f.swab (f.width.cut val))⟩] []
  | .readRep width _ _, port => ins width port
  | .writeRep width _ _, port => outs width port

/-- What it does in memory. -/
def Accessor.mmio : Accessor → Word → Outcome
  | .read f val, addr => .done [⟨.memory addr, f.width, .read⟩] [f.swab (f.width.cut val)]
  | .write f val, addr => .done [⟨.memory addr, f.width, .write (f.swab (f.width.cut val))⟩] []
  | .readRep width vals count, addr => mmioIns width addr vals count
  | .writeRep width src count, addr => mmioOuts width addr src count

theorem Accessor.run_eq (acc : Accessor) (addr : Word) :
    acc.run addr = ioCond addr .bug acc.pio (acc.mmio addr) := by
  cases acc <;> rfl

theorem mmioRounds_eq_iff (count : Word) :
    mmioRounds count = count.toNat ↔ count.toNat < 2 ^ 31 := by
  have hlt := count.isLt
  rw [mmioRounds, intOfWord, BitVec.toInt_eq_toNat_cond]
  split <;> omega

theorem performs_done {accesses accesses' : List Access} {values : List Word} :
    (Outcome.done accesses values).Performs accesses' ↔ accesses = accesses' := by
  constructor
  · rintro ⟨values', h⟩
    exact (Outcome.done.inj h).1
  · rintro rfl
    exact ⟨values, rfl⟩

/-- At a port, the single accessors do what they are for. -/
theorem Accessor.pio_performs_iff (acc : Accessor) (port : Word) :
    (acc.pio port).Performs (acc.accesses (.port port)) ↔ acc.repeats = none := by
  cases acc with
  | read f val => exact iff_of_true (performs_done.mpr rfl) rfl
  | write f val => exact iff_of_true (performs_done.mpr rfl) rfl
  | readRep width vals count => exact iff_of_false (fun ⟨_, h⟩ => nomatch h) nofun
  | writeRep width src count => exact iff_of_false (fun ⟨_, h⟩ => nomatch h) nofun

theorem access_eq_iff {place place' : Place} {width : Width} {op : Op} :
    Access.mk place width op = Access.mk place' width op ↔ place' = place := by
  simp [eq_comm]

/-- The loops over memory access what they are asked to, if that is the address and the count is
not negative as an `int`. -/
theorem rounds_eq_iff {addr count : Word} {place : Place} {width : Width} {op : Nat → Op} :
    (List.range (mmioRounds count)).map (fun i => Access.mk (.memory addr) width (op i)) =
        (List.range count.toNat).map (fun i => Access.mk place width (op i)) ↔
      count.toNat < 2 ^ 31 ∧ (place = .memory addr ∨ count = 0) := by
  rw [← mmioRounds_eq_iff]
  constructor
  · intro h
    have hlen : mmioRounds count = count.toNat := by simpa using congrArg List.length h
    refine ⟨hlen, ?_⟩
    by_cases hzero : count = 0
    · exact .inr hzero
    · have hpos : 0 < count.toNat :=
        Nat.pos_of_ne_zero (fun h => hzero (BitVec.eq_of_toNat_eq h))
      rw [hlen] at h
      exact .inl (access_eq_iff.mp (List.map_inj_left.mp h 0 (List.mem_range.mpr hpos)))
  · rintro ⟨hlen, rfl | rfl⟩
    · rw [hlen]
    · rw [hlen]
      rfl

theorem Accessor.mmio_performs_iff (acc : Accessor) (addr : Word) (place : Place) :
    (acc.mmio addr).Performs (acc.accesses place) ↔
      (∀ count, acc.repeats = some count → count.toNat < 2 ^ 31) ∧
        (place = .memory addr ∨ acc.repeats = some 0) := by
  cases acc with
  | read f val =>
      refine performs_done.trans ?_
      simp [accesses, repeats, eq_comm]
  | write f val =>
      refine performs_done.trans ?_
      simp [accesses, repeats, eq_comm]
  | readRep width vals count =>
      refine performs_done.trans (rounds_eq_iff.trans ?_)
      simp [repeats]
  | writeRep width src count =>
      refine performs_done.trans (rounds_eq_iff.trans ?_)
      simp [repeats]

/-! ## The result -/

/-- **Where the accessors end up.**  Through the cookie of a port, moved on to another port, an
accessor does port I/O on that port exactly if it makes a single access and the port is not 0; one
that repeats does so only if it repeats nothing, on port 0.  Through an address outside the window
it accesses memory at the address, as often as it is to exactly if the count is below 2^31. -/
theorem io_cookie_iff (acc : Accessor) :
    (∀ p k nr : Word, p.toNat + k.toNat ≤ 0xffff →
      ((acc.run (ioportMap p nr + k)).Performs (acc.accesses (.port (p + k))) ↔
        acc.repeats = none ∧ p + k ≠ 0 ∨ acc.repeats = some 0 ∧ p + k = 0)) ∧
    (∀ addr : Word, addr < pioOffset ∨ pioReserved ≤ addr →
      ((acc.run addr).Performs (acc.accesses (.memory addr)) ↔
        ∀ count, acc.repeats = some count → count.toNat < 2 ^ 31)) := by
  constructor
  · intro p k nr hport
    have hq : (p + k).toNat ≤ 0xffff := by
      rw [BitVec.toNat_add]
      omega
    rw [acc.run_eq, ioportMap_add nr hport]
    by_cases hzero : p + k = 0
    · rw [hzero, zero_add, ioCond_pioOffset, acc.mmio_performs_iff]
      constructor
      · rintro ⟨-, hplace | hrep⟩
        · cases hplace
        · exact .inr ⟨hrep, rfl⟩
      · rintro (⟨-, hne⟩ | ⟨hrep, -⟩)
        · exact absurd rfl hne
        · refine ⟨?_, .inr hrep⟩
          intro count hcount
          rw [hrep] at hcount
          cases hcount
          decide
    · rw [ioCond_port hq hzero, acc.pio_performs_iff]
      constructor
      · exact fun hsingle => .inl ⟨hsingle, hzero⟩
      · rintro (⟨hsingle, -⟩ | ⟨-, hz⟩)
        · exact hsingle
        · exact absurd hz hzero
  · intro addr haddr
    rw [acc.run_eq, ioCond_outside haddr, acc.mmio_performs_iff]
    simp

/-- The status of a disk controller, seven ports behind its first one, and a page of memory. -/
theorem status_port_is_port :
    ((0x1f0 : Word).toNat + (7 : Word).toNat ≤ 0xffff ∧
      ((Accessor.read .u8 0x50).run (ioportMap 0x1f0 8 + 7)).Performs
        ((Accessor.read .u8 0x50).accesses (.port (0x1f0 + 7)))) ∧
    ((0x40000000 : Word) < pioOffset ∧
      ((Accessor.writeRep .long (fun _ => 0) 1024).run 0x40000000).Performs
        ((Accessor.writeRep .long (fun _ => 0) 1024).accesses (.memory 0x40000000))) := by
  refine ⟨⟨by decide, ?_⟩, ⟨by decide, ?_⟩⟩
  · exact ((io_cookie_iff _).1 0x1f0 7 8 (by decide)).mpr (.inl ⟨rfl, by decide⟩)
  · refine ((io_cookie_iff _).2 0x40000000 (.inl (by decide))).mpr ?_
    intro count hcount
    cases hcount
    decide

/-- **Port 0 is read from memory**, and a port is not read repeatedly. -/
theorem port_zero_is_memory :
    ioread8 0x5a (ioportMap 0 1 + 0) = .done [⟨.memory 0xf0000000, .byte, .read⟩] [0x5a] ∧
      ¬ ((Accessor.read .u8 0x5a).run (ioportMap 0 1 + 0)).Performs
        ((Accessor.read .u8 0x5a).accesses (.port (0 + 0))) ∧
      ioread8Rep (fun _ => 0x5a) 2 (ioportMap 0x1f0 8 + 0) = .notImplemented "insb" := by
  refine ⟨by decide, ?_, by decide⟩
  rintro ⟨values, h⟩
  cases h

end LinuxDrivers.Kernel.Iomap
