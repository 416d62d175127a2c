/-
# `LinuxDrivers.Gpu.Domains` — which caches hold bits of a graphics object

The processor, the aperture (GTT) and the units of the graphics chip all read and write the pages of
an object, most of them through a cache of their own, and no hardware keeps these caches coherent.
The driver keeps, for each object, the domains it may be read in and the one it may be written in,
and flushes and invalidates caches when it moves an object from one to another.

    set_to_cpu_domain          the processor's cache is flushed before the processor reads
    set_cpu_read_domain_range  the same for some pages, which are marked
    set_to_gtt_domain          what the processor has written is flushed before the aperture is used
    set_to_gpu_domain          adds up what has to be flushed and invalidated for a batch
    i915_gem_flush             one command for all of it

The caches are those of `LinuxDrivers.Lib.Coherence`; what a flush command does to which cache is as
the comments of `i915_gem_flush` have it.  A place is a dword of an object.

The chip is taken to carry out a command at once.  This is an assumption about the chip: the driver
waits for nothing here (`wait_event_interruptible` is 0, and no request is ever listed), and a chip
that hangs carries out nothing any more.

There are no fence registers, which tiled objects may need in a batch: the objects of batches are
untiled.

A call that runs into `BUG_ON` loops for ever, with the mutex held; so does not come back one that
leaves an array.  Both are `none`.

**Proved here.**  Every function that moves an object keeps the domains right (`Good`): the ones of
this module one by one, batches in `LinuxDrivers.Gpu.Submit`.
-/
import LinuxDrivers.Basic
import LinuxDrivers.Lib.Bits
import LinuxDrivers.Lib.Coherence

namespace LinuxDrivers.Gpu.Domains

open LinuxDrivers.Lib

/-! ## Domains -/

/-- Who reads and writes objects. -/
inductive Agent where
  | cpu
  | render
  | sampler
  | command
  | instruction
  | vertex
  | gtt
  deriving DecidableEq, Repr

def Agent.index : Agent → Nat
  | .cpu => 0
  | .render => 1
  | .sampler => 2
  | .command => 3
  | .instruction => 4
  | .vertex => 5
  | .gtt => 6

/-- `I915_GEM_DOMAIN_CPU` to `I915_GEM_DOMAIN_GTT` -/
def domain : Agent → Word
  | .cpu => 0x00000001
  | .render => 0x00000002
  | .sampler => 0x00000004
  | .command => 0x00000008
  | .instruction => 0x00000010
  | .vertex => 0x00000020
  | .gtt => 0x00000040

/-- `I915_GEM_GPU_DOMAINS` -/
def gpuDomains : Word := ~~~(domain .cpu ||| domain .gtt)

/-- The command streamer has no cache of its own, and accesses to the aperture go to memory. -/
def cached : Agent → Bool
  | .command => false
  | .gtt => false
  | _ => true

/-- An object and a dword of it. -/
abbrev Loc := Nat × Nat

abbrev Hardware := Caches Agent Loc Word

/-! ## Objects -/

/-- `struct drm_gem_object` and `struct drm_i915_gem_object`; the size in pages, `gtt_space` by
whether it is there, `page_cpu_valid` as a list of flags.  `pin_count` and `pages_refcount` are of
type `int`: they are these numbers as long as they stay below `2 ^ 31`, which is a condition on runs
(`Sys.inRange`). -/
structure Obj where
  size : Nat
  readDomains : Word
  writeDomain : Word
  pendingReadDomains : Word
  pendingWriteDomain : Word
  gttSpace : Bool
  gttOffset : Word
  pinCount : Nat
  active : Bool
  lastRenderingSeqno : Word
  pagesRefcount : Nat
  pageCpuValid : Option (List Bool)
  deriving DecidableEq, Repr

/-- `i915_gem_init_object` -/
def initObject (size : Nat) : Obj where
  size := size
  readDomains := domain .cpu
  writeDomain := domain .cpu
  pendingReadDomains := 0
  pendingWriteDomain := 0
  gttSpace := false
  gttOffset := 0
  pinCount := 0
  active := false
  lastRenderingSeqno := 0
  pagesRefcount := 0
  pageCpuValid := none

/-- The driver, and the caches it has to do with. -/
structure Sys where
  count : Nat
  objs : Nat → Obj
  gpuWriteList : List Nat
  invalidateDomains : Word
  flushDomains : Word
  nextGemSeqno : Word
  wedged : Bool
  hw : Hardware

def Sys.modObj (s : Sys) (o : Nat) (f : Obj → Obj) : Sys :=
  { s with objs := Function.update s.objs o (f (s.objs o)) }

/-- Another object, and other caches. -/
def Sys.upd (s : Sys) (o : Nat) (x : Obj) (hw : Hardware) : Sys :=
  { s with objs := Function.update s.objs o x, hw := hw }

def eio : Int := 5
def ebadf : Int := 9
def enomem : Int := 12
def efault : Int := 14
def einval : Int := 22
def enospc : Int := 28

/-! ## The processor's cache -/

/-- `drm_clflush_pages` for one page -/
def clflushPage (hw : Hardware) (o page : Nat) : Hardware :=
  hw.purge .cpu fun l => l.1 == o && l.2 / 1024 == page

/-- `drm_clflush_pages` for the pages of an object -/
def Obj.clflush (x : Obj) (o : Nat) (hw : Hardware) : Hardware :=
  (List.range x.size).foldl (clflushPage · o ·) hw

/-- `i915_gem_clflush_object` -/
def clflushObject (s : Sys) (o : Nat) : Sys :=
  if (s.objs o).pagesRefcount = 0 then s else { s with hw := (s.objs o).clflush o s.hw }

/-! ## The caches of the chip -/

def miFlush : Word := 0x04 <<< 23
def miReadFlush : Word := 1 <<< 0
def miExeFlush : Word := 1 <<< 1
def miNoWriteFlush : Word := 1 <<< 2

def dropIf (c : Bool) (hw : Hardware) (d : Agent) : Hardware := if c then hw.drop d else hw

/-- What the chip does at `MI_FLUSH`, when it gets there: the render cache is invalidated, and
written back unless the command says no; the sampler's is dropped on the 965 and where the command
says so. -/
def execFlush (i965 : Bool) (hw : Hardware) (cmd : Word) : Hardware :=
  let hw := if cmd &&& miNoWriteFlush = 0 then hw.purge .render fun _ => true else hw.drop .render
  let hw := dropIf (i965 || cmd &&& miReadFlush != 0) hw .sampler
  let hw := dropIf (cmd &&& miExeFlush != 0) hw .instruction
  hw.drop .vertex

/-- The command `i915_gem_flush` emits. -/
def flushCommand (i965 : Bool) (invalidateDomains flushDomains : Word) : Word :=
  let cmd := miFlush ||| miNoWriteFlush
  let cmd :=
    if (invalidateDomains ||| flushDomains) &&& domain .render ≠ 0 then cmd &&& ~~~miNoWriteFlush
    else cmd
  let cmd :=
    if i965 = false ∧ invalidateDomains &&& domain .sampler ≠ 0 then cmd ||| miReadFlush else cmd
  if invalidateDomains &&& domain .instruction ≠ 0 then cmd ||| miExeFlush else cmd

/-- `i915_gem_flush` -/
def i915GemFlush (i965 : Bool) (s : Sys) (invalidateDomains flushDomains : Word) : Sys :=
  if (invalidateDomains ||| flushDomains) &&& gpuDomains ≠ 0 then
    { s with hw := execFlush i965 s.hw (flushCommand i965 invalidateDomains flushDomains) }
  else s

/-! ## Requests -/

/-- What `i915_gem_process_flushing_list` does with an object whose write domain is flushed. -/
def Obj.flushed (x : Obj) (seqno : Word) : Obj :=
  { x with writeDomain := 0, active := true, lastRenderingSeqno := seqno }

/-- An entry of the list that is flushed. -/
def Sys.hit (s : Sys) (flushDomains : Word) (o : Nat) : Bool :=
  decide ((s.objs o).writeDomain &&& flushDomains = (s.objs o).writeDomain)

/-- `i915_gem_process_flushing_list`; the body of the loop touches its own entry only. -/
def processFlushingList (s : Sys) (flushDomains seqno : Word) : Sys :=
  { s with
    objs := fun o =>
      if o ∈ s.gpuWriteList ∧ s.hit flushDomains o = true then (s.objs o).flushed seqno
      else s.objs o
    gpuWriteList := s.gpuWriteList.filter fun o => !s.hit flushDomains o }

/-- The number after `seqno`; 0 is not one. -/
def nextSeqno (seqno : Word) : Word := if seqno + 1 = 0 then 1 else seqno + 1

/-- `i915_add_request` -/
def i915AddRequest (s : Sys) (flushDomains : Word) : Sys :=
  let seqno := s.nextGemSeqno
  let s := { s with nextGemSeqno := nextSeqno seqno }
  if flushDomains ≠ 0 then processFlushingList s flushDomains seqno else s

/-- `i915_gem_object_wait_rendering`: nothing is waited for. -/
def waitRendering (s : Sys) (o : Nat) : Option Int :=
  if (s.objs o).writeDomain &&& gpuDomains ≠ 0 then none
  else if (s.objs o).active = false then some 0
  else if (s.objs o).lastRenderingSeqno = 0 then none
  else if s.wedged = true then some (-eio)
  else some 0

/-! ## Moving an object -/

/-- `i915_gem_object_flush_gpu_write_domain` -/
def flushGpuWriteDomain (i965 : Bool) (s : Sys) (o : Nat) : Option Sys :=
  let writeDomain := (s.objs o).writeDomain
  if writeDomain &&& gpuDomains = 0 then some s
  else
    let s := i915AddRequest (i915GemFlush i965 s 0 writeDomain) writeDomain
    if (s.objs o).writeDomain ≠ 0 then none else some s

/-- `i915_gem_object_flush_gtt_write_domain` -/
def flushGttWriteDomain (s : Sys) (o : Nat) : Sys :=
  if (s.objs o).writeDomain ≠ domain .gtt then s
  else s.modObj o fun x => { x with writeDomain := 0 }

/-- `i915_gem_object_flush_cpu_write_domain` -/
def flushCpuWriteDomain (s : Sys) (o : Nat) : Sys :=
  if (s.objs o).writeDomain ≠ domain .cpu then s
  else (clflushObject s o).modObj o fun x => { x with writeDomain := 0 }

/-- How the functions below begin: what the chip has written is flushed, and what it is doing is
waited for; an error ends them. -/
def afterFlush (i965 : Bool) (s : Sys) (o : Nat) (f : Sys → Option (Sys × Int)) :
    Option (Sys × Int) :=
  match flushGpuWriteDomain i965 s o with
  | none => none
  | some s =>
      match waitRendering s o with
      | none => none
      | some ret => if ret ≠ 0 then some (s, ret) else f s

/-- `i915_gem_object_set_to_gtt_domain` after the wait -/
def moveToGtt (s : Sys) (o : Nat) (write : Bool) : Option (Sys × Int) :=
  let s :=
    if write then s.modObj o fun x => { x with readDomains := x.readDomains &&& domain .gtt } else s
  let s := flushCpuWriteDomain s o
  if (s.objs o).writeDomain &&& ~~~domain .gtt ≠ 0 then none
  else
    let s := s.modObj o fun x => { x with readDomains := x.readDomains ||| domain .gtt }
    let s := if write then s.modObj o fun x => { x with writeDomain := domain .gtt } else s
    some (s, 0)

/-- `i915_gem_object_set_to_gtt_domain` -/
def setToGttDomain (i965 : Bool) (s : Sys) (o : Nat) (write : Bool) : Option (Sys × Int) :=
  if (s.objs o).gttSpace = false then some (s, -einval)
  else afterFlush i965 s o fun s => moveToGtt s o write

/-- `drm_clflush_pages` for the pages that are not marked -/
def Obj.flushInvalid (x : Obj) (o : Nat) (valid : List Bool) (hw : Hardware) : Hardware :=
  (List.range x.size).foldl (fun hw i => if valid.getD i false then hw else clflushPage hw o i) hw

/-- `i915_gem_object_set_to_full_cpu_read_domain` -/
def setToFullCpuReadDomain (s : Sys) (o : Nat) : Sys :=
  match (s.objs o).pageCpuValid with
  | none => s
  | some valid =>
      let s :=
        if (s.objs o).readDomains &&& domain .cpu ≠ 0 then
          { s with hw := (s.objs o).flushInvalid o valid s.hw }
        else s
      s.modObj o fun x => { x with pageCpuValid := none }

/-- `i915_gem_object_set_to_cpu_domain` after the wait, as far as reading goes -/
def readByCpu (s : Sys) (o : Nat) : Sys :=
  let s := flushGttWriteDomain s o
  let s := setToFullCpuReadDomain s o
  if (s.objs o).readDomains &&& domain .cpu = 0 then
    (clflushObject s o).modObj o fun x => { x with readDomains := x.readDomains ||| domain .cpu }
  else s

/-- `i915_gem_object_set_to_cpu_domain` after the wait -/
def moveToCpu (s : Sys) (o : Nat) (write : Bool) : Option (Sys × Int) :=
  let s := readByCpu s o
  if (s.objs o).writeDomain &&& ~~~domain .cpu ≠ 0 then none
  else
    let s :=
      if write then
        s.modObj o fun x =>
          { x with readDomains := x.readDomains &&& domain .cpu, writeDomain := domain .cpu }
      else s
    some (s, 0)

/-- `i915_gem_object_set_to_cpu_domain` -/
def setToCpuDomain (i965 : Bool) (s : Sys) (o : Nat) (write : Bool) : Option (Sys × Int) :=
  afterFlush i965 s o fun s => moveToCpu s o write

/-- The pages the loop of `i915_gem_object_set_cpu_read_domain_range` is over. -/
def rangePages (offset size : BitVec 64) : List Nat :=
  let first := offset.toNat / 4096
  let last := (offset + size - 1).toNat / 4096
  (List.range (last + 1 - first)).map (first + ·)

/-- One round of that loop. -/
def flushPage (o : Nat) (st : Hardware × List Bool) (page : Nat) : Hardware × List Bool :=
  if st.2.getD page false then st else (clflushPage st.1 o page, st.2.set page true)

/-- The flags that loop starts with. -/
def Obj.rangeValid (x : Obj) : List Bool :=
  match x.pageCpuValid with
  | none => List.replicate x.size false
  | some valid => if x.readDomains &&& domain .cpu = 0 then List.replicate x.size false else valid

/-- `i915_gem_object_set_cpu_read_domain_range` after the wait, with the outcome of `kzalloc` -/
def moveRangeToCpu (s : Sys) (o : Nat) (offset size : BitVec 64) (alloc : Bool) :
    Option (Sys × Int) :=
  let s := flushGttWriteDomain s o
  let x := s.objs o
  if x.pageCpuValid = none ∧ x.readDomains &&& domain .cpu ≠ 0 then some (s, 0)
  else if x.pageCpuValid = none ∧ alloc = false then some (s, -enomem)
  -- the loop leaves the array
  else if x.size ≤ (offset + size - 1).toNat / 4096 then none
  else if x.writeDomain &&& ~~~domain .cpu ≠ 0 then none
  else
    let st := (rangePages offset size).foldl (flushPage o) (s.hw, x.rangeValid)
    some ({ s with hw := st.1 }.modObj o fun x =>
      { x with readDomains := x.readDomains ||| domain .cpu, pageCpuValid := some st.2 }, 0)

/-- `i915_gem_object_set_cpu_read_domain_range` -/
def setCpuReadDomainRange (i965 : Bool) (s : Sys) (o : Nat) (offset size : BitVec 64)
    (alloc : Bool) : Option (Sys × Int) :=
  if offset = 0 ∧ size.toNat = (s.objs o).size * 4096 then setToCpuDomain i965 s o false
  else afterFlush i965 s o fun s => moveRangeToCpu s o offset size alloc

/-! ## The directory -/

/-- The processor has no old copy of a page. -/
def Obj.pageValid (x : Obj) (page : Nat) : Bool :=
  match x.pageCpuValid with
  | none => true
  | some valid => valid.getD page false

/-- What the domains say: `d` may read the dword `i`. -/
def Obj.Reads (x : Obj) (d : Agent) (i : Nat) : Prop :=
  x.readDomains &&& domain d ≠ 0 ∧ (x.writeDomain = 0 ∨ x.writeDomain = domain d) ∧
    (d = .cpu → x.pageValid (i / 1024) = true)

/-- Who may write. -/
def Obj.writer (x : Obj) : Option Agent :=
  if x.writeDomain = domain .cpu then some .cpu
  else if x.writeDomain = domain .gtt then some .gtt
  else if x.writeDomain = domain .render then some .render
  else none

theorem domain_inj {d e : Agent} (h : domain d = domain e) : d = e := by
  cases d <;> cases e <;> first | rfl | exact absurd h (by decide)

theorem Obj.writeDomain_of_writer {x : Obj} {w : Agent} (h : x.writer = some w) :
    x.writeDomain = domain w := by
  unfold Obj.writer at h
  split_ifs at h with hcpu hgtt hrender
  · cases h
    exact hcpu
  · cases h
    exact hgtt
  · cases h
    exact hrender

/-- The directory of the driver.  Of memory that belongs to no object the processor may have
anything. -/
def directory (objs : Nat → Obj) : Directory Agent Loc where
  readers l d := if l.2 < (objs l.1).size * 1024 then (objs l.1).Reads d l.2 else d = .cpu
  writer l := if l.2 < (objs l.1).size * 1024 then (objs l.1).writer else some .cpu
  exclusive := by
    intro l d w hw hr
    split_ifs at hw hr with hlt
    · have hwd := Obj.writeDomain_of_writer hw
      rcases hr.2.1 with hzero | hd
      · rw [hzero] at hwd
        exact absurd hwd (by cases w <;> decide)
      · exact domain_inj (hd.symm.trans hwd)
    · cases hw
      exact hr

/-! ## Bits -/

theorem domain_eq (d : Agent) : domain d = 1#32 <<< d.index := by cases d <;> decide

theorem and_domain (w : Word) (d : Agent) : w &&& domain d ≠ 0 ↔ w.getLsbD d.index = true := by
  have hlt : d.index < 32 := by cases d <;> decide
  rw [domain_eq]
  exact (not_congr (and_bit_eq_zero_iff w hlt)).trans (by rw [Bool.not_eq_false])

theorem domain_and {d e : Agent} (h : domain d &&& domain e ≠ 0) : d = e := by
  cases d <;> cases e <;> first | rfl | exact absurd h (by decide)

/-- The domains but the processor's and the aperture's are the chip's. -/
theorem and_gpuDomains {w : Word} {d : Agent} (hd : domain d &&& gpuDomains ≠ 0)
    (h : w &&& domain d ≠ 0) : w &&& gpuDomains ≠ 0 := by
  have hbit : gpuDomains.getLsbD d.index = true := by
    cases d <;> first | rfl | exact absurd hd (by decide)
  rw [and_domain] at h
  intro hzero
  have hand : (w &&& gpuDomains).getLsbD d.index = true := by
    rw [BitVec.getLsbD_and, h, hbit, Bool.true_and]
  rw [hzero] at hand
  exact absurd hand (by simp)

/-! ## What cleaning leaves -/

theorem cleaned_clflushPage (hw : Hardware) (o page : Nat) : hw.Cleaned (clflushPage hw o page) :=
  .purge _ _ .refl

theorem clflushPage_none (hw : Hardware) {o page i : Nat} (h : i / 1024 = page) :
    (clflushPage hw o page).line .cpu (o, i) = none :=
  Caches.purge_none hw (by simp only [h, beq_self_eq_true, Bool.and_self])

theorem Obj.cleaned_clflush (x : Obj) (o : Nat) (hw : Hardware) : hw.Cleaned (x.clflush o hw) :=
  .foldl (fun hw page => cleaned_clflushPage hw o page) _ _

theorem Obj.clflush_none (x : Obj) (o : Nat) (hw : Hardware) {i : Nat} (hi : i < x.size * 1024) :
    (x.clflush o hw).line .cpu (o, i) = none := by
  have hpage : i / 1024 ∈ List.range x.size := List.mem_range.mpr (Nat.div_lt_of_lt_mul (by omega))
  exact Caches.Cleaned.foldl_none (fun hw page => cleaned_clflushPage hw o page)
    (fun hw => clflushPage_none hw rfl) hpage hw

theorem flushCommand_write (i965 : Bool) {invalidate flush : Word}
    (h : (invalidate ||| flush) &&& domain .render ≠ 0) :
    flushCommand i965 invalidate flush &&& miNoWriteFlush = 0 := by
  simp only [flushCommand, if_pos h]
  split_ifs <;> decide

theorem flushCommand_read (i965 : Bool) {invalidate : Word} (flush : Word)
    (h : invalidate &&& domain .sampler ≠ 0) :
    (i965 || flushCommand i965 invalidate flush &&& miReadFlush != 0) = true := by
  cases i965 with
  | true => rfl
  | false =>
      simp only [flushCommand, true_and, if_pos h]
      split_ifs <;> decide

theorem flushCommand_exe (i965 : Bool) {invalidate : Word} (flush : Word)
    (h : invalidate &&& domain .instruction ≠ 0) :
    (flushCommand i965 invalidate flush &&& miExeFlush != 0) = true := by
  simp only [flushCommand, if_pos h]
  split_ifs <;> decide

theorem cleaned_dropIf (c : Bool) (hw : Hardware) (d : Agent) : hw.Cleaned (dropIf c hw d) := by
  unfold dropIf
  split
  · exact .drop _ .refl
  · exact .refl

theorem dropIf_none {c : Bool} (hc : c = true) {hw : Hardware} {d : Agent} {l : Loc}
    (h : ¬ hw.Dirty d l) : (dropIf c hw d).line d l = none := by
  rw [dropIf, if_pos hc]
  exact Caches.drop_none h

theorem cleaned_execRender (hw : Hardware) (cmd : Word) : hw.Cleaned
    (if cmd &&& miNoWriteFlush = 0 then hw.purge .render fun _ => true else hw.drop .render) := by
  split
  · exact .purge _ _ .refl
  · exact .drop _ .refl

theorem cleaned_execFlush (i965 : Bool) (hw : Hardware) (cmd : Word) :
    hw.Cleaned (execFlush i965 hw cmd) :=
  .drop _ ((cleaned_execRender hw cmd).trans
    ((cleaned_dropIf _ _ .sampler).trans (cleaned_dropIf _ _ .instruction)))

theorem cleaned_i915GemFlush (i965 : Bool) (s : Sys) (invalidate flush : Word) :
    s.hw.Cleaned (i915GemFlush i965 s invalidate flush).hw := by
  unfold i915GemFlush
  split
  · exact cleaned_execFlush _ _ _
  · exact .refl

theorem i915GemFlush_eq (i965 : Bool) (s : Sys) (invalidate flush : Word) :
    i915GemFlush i965 s invalidate flush =
      { s with hw := (i915GemFlush i965 s invalidate flush).hw } := by
  unfold i915GemFlush
  split <;> rfl

/-- Flushing or invalidating the render domain writes the render cache back. -/
theorem i915GemFlush_render (i965 : Bool) (s : Sys) {invalidate flush : Word}
    (h : (invalidate ||| flush) &&& domain .render ≠ 0) (l : Loc) :
    (i915GemFlush i965 s invalidate flush).hw.line .render l = none := by
  unfold i915GemFlush
  rw [if_pos (and_gpuDomains (by decide) h)]
  show (execFlush i965 s.hw _).line .render l = none
  unfold execFlush
  simp only [if_pos (flushCommand_write i965 h)]
  exact (Caches.Cleaned.drop _ ((cleaned_dropIf _ _ .sampler).trans
    (cleaned_dropIf _ _ .instruction))).line_none (Caches.purge_none _ rfl)

/-- Only the processor and the renderer have anything to write back. -/
theorem not_dirty {objs : Nat → Obj} {hw : Hardware} (h : hw.Coherent cached (directory objs))
    {d : Agent} (hcpu : d ≠ .cpu) (hrender : d ≠ .render) (l : Loc) : ¬ hw.Dirty d l := by
  intro hdirty
  have hwriter : (if l.2 < (objs l.1).size * 1024 then (objs l.1).writer else some .cpu) = some d :=
    h.writer_of_dirty hdirty
  split at hwriter
  · unfold Obj.writer at hwriter
    split_ifs at hwriter with _ hgtt
    · exact hcpu (Option.some.inj hwriter).symm
    · cases hwriter
      exact Caches.not_dirty_of_none (h.bare rfl l) hdirty
    · exact hrender (Option.some.inj hwriter).symm
  · exact hcpu (Option.some.inj hwriter).symm

/-- After a domain of the chip was invalidated, nobody reads an old copy in it. -/
theorem i915GemFlush_invalid (i965 : Bool) {s : Sys} {objs : Nat → Obj} {invalidate : Word}
    (flush : Word) (hw : s.hw.Coherent cached (directory objs)) {d : Agent} (hd : d ≠ .cpu)
    (h : invalidate &&& domain d ≠ 0) (l : Loc) :
    (i915GemFlush i965 s invalidate flush).hw.line d l = none := by
  have hor : (invalidate ||| flush) &&& domain d ≠ 0 := by
    rw [and_domain] at h ⊢
    rw [BitVec.getLsbD_or, h, Bool.true_or]
  have hclean : ∀ {e : Agent} {hw' : Hardware}, e ≠ .cpu → e ≠ .render → s.hw.Cleaned hw' →
      ¬ hw'.Dirty e l := fun hcpu hrender hc hdirty => not_dirty hw hcpu hrender l (hc.dirty hdirty)
  cases d with
  | cpu => exact absurd rfl hd
  | render => exact i915GemFlush_render i965 s hor l
  | command => exact (cleaned_i915GemFlush i965 s _ _).line_none (hw.bare rfl l)
  | gtt => exact (cleaned_i915GemFlush i965 s _ _).line_none (hw.bare rfl l)
  | sampler =>
      rw [i915GemFlush, if_pos (and_gpuDomains (by decide) hor)]
      exact (Caches.Cleaned.drop _ (cleaned_dropIf _ _ .instruction)).line_none
        (dropIf_none (flushCommand_read i965 flush h)
          (hclean hd (by decide) (cleaned_execRender _ _)))
  | instruction =>
      rw [i915GemFlush, if_pos (and_gpuDomains (by decide) hor)]
      exact (Caches.Cleaned.drop _ .refl).line_none
        (dropIf_none (flushCommand_exe i965 flush h)
          (hclean hd (by decide) ((cleaned_execRender _ _).trans (cleaned_dropIf _ _ .sampler))))
  | vertex =>
      rw [i915GemFlush, if_pos (and_gpuDomains (by decide) hor)]
      exact Caches.drop_none (hclean hd (by decide) ((cleaned_execRender _ _).trans
        ((cleaned_dropIf _ _ .sampler).trans (cleaned_dropIf _ _ .instruction))))

/-! ## Objects that are where their domains say -/

/-- An object that may be written in a domain is in no other one. -/
inductive Obj.Placed (x : Obj) : Prop
  | clean : x.writeDomain = 0 → Placed x
  | cpu : x.writeDomain = domain .cpu → x.readDomains = domain .cpu → x.pageCpuValid = none →
      Placed x
  | gtt : x.writeDomain = domain .gtt → x.readDomains = domain .gtt → Placed x
  | render : x.writeDomain = domain .render → x.readDomains = domain .render → Placed x

theorem Obj.Placed.congr {x y : Obj} (h : x.Placed) (hw : y.writeDomain = x.writeDomain)
    (hr : y.readDomains = x.readDomains) (hv : y.pageCpuValid = x.pageCpuValid) : y.Placed := by
  rcases h with hw' | ⟨hw', hr', hv'⟩ | ⟨hw', hr'⟩ | ⟨hw', hr'⟩
  · exact .clean (hw.trans hw')
  · exact .cpu (hw.trans hw') (hr.trans hr') (hv.trans hv')
  · exact .gtt (hw.trans hw') (hr.trans hr')
  · exact .render (hw.trans hw') (hr.trans hr')

structure Obj.Ok (x : Obj) : Prop where
  placed : x.Placed
  unbound : x.gttSpace = false → x.writeDomain = domain .cpu
  pages : x.gttSpace = true → 0 < x.pagesRefcount
  pinned : 0 < x.pinCount → x.gttSpace = true
  seqno : x.active = true → x.lastRenderingSeqno ≠ 0
  valid : ∀ {v}, x.pageCpuValid = some v → v.length = x.size

/-- The driver knows which caches hold what. -/
structure Good (s : Sys) : Prop where
  ok : ∀ o, (s.objs o).Ok
  list : ∀ o, o ∈ s.gpuWriteList ↔ (s.objs o).writeDomain = domain .render
  seqno : s.nextGemSeqno ≠ 0
  coherent : s.hw.Coherent cached (directory s.objs)

theorem Obj.Placed.gpu {x : Obj} (h : x.Placed) :
    x.writeDomain &&& gpuDomains ≠ 0 ↔ x.writeDomain = domain .render := by
  rcases h with hw | ⟨hw, -, -⟩ | ⟨hw, -⟩ | ⟨hw, -⟩ <;> rw [hw] <;> decide

/-- An object that is written in a domain is read in this one only. -/
theorem Obj.Placed.readDomains {x : Obj} (h : x.Placed) {d : Agent} (hd : domain d ≠ 0)
    (hw : x.writeDomain = domain d) : x.readDomains = domain d := by
  rcases h with hw' | ⟨hw', hr, -⟩ | ⟨hw', hr⟩ | ⟨hw', hr⟩
  · exact absurd (hw.symm.trans hw') hd
  · rw [hr, ← hw', hw]
  · rw [hr, ← hw', hw]
  · rw [hr, ← hw', hw]

theorem Obj.Placed.compat {x : Obj} (h : x.Placed) {d : Agent}
    (hr : x.readDomains &&& domain d ≠ 0) : x.writeDomain = 0 ∨ x.writeDomain = domain d := by
  rcases h with hw | ⟨hw, hr', -⟩ | ⟨hw, hr'⟩ | ⟨hw, hr'⟩
  · exact .inl hw
  · rw [hr'] at hr
    exact .inr (by rw [hw, domain_and hr])
  · rw [hr'] at hr
    exact .inr (by rw [hw, domain_and hr])
  · rw [hr'] at hr
    exact .inr (by rw [hw, domain_and hr])

/-- What may change in the domains without a look at the caches: the rule of exchange, object by
object. -/
theorem directory_change {objs objs' : Nat → Obj} {hw : Hardware}
    (h : hw.Coherent cached (directory objs)) (hsize : ∀ o, (objs' o).size = (objs o).size)
    (hwriter : ∀ o w, (objs o).writer = some w →
      (objs' o).writer = some w ∨ ∀ i < (objs o).size * 1024, ¬ hw.Dirty w (o, i))
    (hreader : ∀ o d, ∀ i < (objs o).size * 1024, (objs' o).Reads d i →
      (objs o).Reads d i ∨ hw.line d (o, i) = none) :
    hw.Coherent cached (directory objs') := by
  refine h.redirect ?_ ?_
  · rintro ⟨o, i⟩ d hd
    simp only [directory, hsize] at hd ⊢
    split_ifs at hd ⊢ with hlt
    · exact (hwriter o d hd).imp_right fun hclean => hclean i hlt
    · exact .inl hd
  · rintro ⟨o, i⟩ d hd
    simp only [directory, hsize] at hd ⊢
    split_ifs at hd ⊢ with hlt
    · exact hreader o d i hlt hd
    · exact .inl hd

/-- An object moves, after the caches were cleaned. -/
theorem Good.move {s : Sys} (h : Good s) {o : Nat} {y : Obj} {hw : Hardware}
    (hc : s.hw.Cleaned hw) (hy : y.Ok) (hsize : y.size = (s.objs o).size)
    (hrender : y.writeDomain = domain .render ↔ (s.objs o).writeDomain = domain .render)
    (hwriter : ∀ w, (s.objs o).writer = some w →
      y.writer = some w ∨ ∀ i < (s.objs o).size * 1024, ¬ hw.Dirty w (o, i))
    (hreader : ∀ d, ∀ i < (s.objs o).size * 1024, y.Reads d i →
      (s.objs o).Reads d i ∨ hw.line d (o, i) = none) :
    Good { s with objs := Function.update s.objs o y, hw := hw } := by
  have hthis : Function.update s.objs o y o = y := Function.update_self ..
  have hother : ∀ {p}, p ≠ o → Function.update s.objs o y p = s.objs p := fun hp =>
    Function.update_of_ne hp _ _
  refine ⟨?_, ?_, h.seqno, ?_⟩
  · intro p
    show (Function.update s.objs o y p).Ok
    by_cases hp : p = o
    · rw [hp, hthis]
      exact hy
    · rw [hother hp]
      exact h.ok p
  · intro p
    show p ∈ s.gpuWriteList ↔ (Function.update s.objs o y p).writeDomain = domain .render
    by_cases hp : p = o
    · rw [hp, hthis, hrender]
      exact h.list o
    · rw [hother hp]
      exact h.list p
  · show hw.Coherent cached (directory (Function.update s.objs o y))
    refine directory_change (h.coherent.cleaned hc) ?_ ?_ ?_
    · intro p
      by_cases hp : p = o
      · rw [hp, hthis, hsize]
      · rw [hother hp]
    · intro p w hw
      by_cases hp : p = o
      · subst hp
        rw [hthis]
        exact hwriter w hw
      · rw [hother hp]
        exact .inl hw
    · intro p d i hi hr
      by_cases hp : p = o
      · subst hp
        rw [hthis] at hr
        exact hreader d i hi hr
      · rw [hother hp] at hr
        exact .inl hr

/-- What moving an object leaves as it is. -/
structure Obj.Stays (x y : Obj) : Prop where
  size : y.size = x.size
  pendingReadDomains : y.pendingReadDomains = x.pendingReadDomains
  pendingWriteDomain : y.pendingWriteDomain = x.pendingWriteDomain
  gttSpace : y.gttSpace = x.gttSpace
  gttOffset : y.gttOffset = x.gttOffset
  pinCount : y.pinCount = x.pinCount
  pagesRefcount : y.pagesRefcount = x.pagesRefcount
  active : x.active = true → y.active = true

theorem Obj.Stays.refl (x : Obj) : x.Stays x := ⟨rfl, rfl, rfl, rfl, rfl, rfl, rfl, id⟩

theorem Obj.Stays.trans {x y z : Obj} (h : x.Stays y) (h' : y.Stays z) : x.Stays z :=
  ⟨h'.size.trans h.size, h'.pendingReadDomains.trans h.pendingReadDomains,
    h'.pendingWriteDomain.trans h.pendingWriteDomain, h'.gttSpace.trans h.gttSpace,
    h'.gttOffset.trans h.gttOffset, h'.pinCount.trans h.pinCount,
    h'.pagesRefcount.trans h.pagesRefcount, h'.active ∘ h.active⟩

structure Sys.Stays (s t : Sys) : Prop where
  count : t.count = s.count
  wedged : t.wedged = s.wedged
  objs : ∀ o, (s.objs o).Stays (t.objs o)

theorem Sys.Stays.refl (s : Sys) : s.Stays s := ⟨rfl, rfl, fun _ => .refl _⟩

theorem Sys.Stays.trans {s t u : Sys} (h : s.Stays t) (h' : t.Stays u) : s.Stays u :=
  ⟨h'.count.trans h.count, h'.wedged.trans h.wedged, fun o => (h.objs o).trans (h'.objs o)⟩

theorem Sys.Stays.move (s : Sys) {o : Nat} {y : Obj} (hy : (s.objs o).Stays y) (hw : Hardware) :
    s.Stays { s with objs := Function.update s.objs o y, hw := hw } := by
  refine ⟨rfl, rfl, ?_⟩
  intro p
  show (s.objs p).Stays (Function.update s.objs o y p)
  by_cases hp : p = o
  · rw [hp, Function.update_self]
    exact hy
  · rw [Function.update_of_ne hp]
    exact .refl _

/-! ## Requests -/

theorem nextSeqno_ne_zero (seqno : Word) : nextSeqno seqno ≠ 0 := by
  unfold nextSeqno
  split
  · decide
  · assumption

theorem stays_processFlushingList (s : Sys) (flush seqno : Word) :
    s.Stays (processFlushingList s flush seqno) := by
  refine ⟨rfl, rfl, ?_⟩
  intro o
  show (s.objs o).Stays (if _ then _ else _)
  split
  · exact ⟨rfl, rfl, rfl, rfl, rfl, rfl, rfl, fun _ => rfl⟩
  · exact .refl _

/-- What the renderer writes is flushed if the render domain is. -/
theorem hit_iff {s : Sys} {o : Nat} (hwd : (s.objs o).writeDomain = domain .render) (flush : Word) :
    s.hit flush o = true ↔ flush &&& domain .render ≠ 0 := by
  rw [Sys.hit, decide_eq_true_eq, hwd, BitVec.and_comm]
  constructor
  · intro heq
    rw [heq]
    decide
  · intro hne
    have hbit := (and_domain flush .render).mp hne
    rw [domain_eq, ← BitVec.twoPow_eq, BitVec.and_twoPow, if_pos hbit]

section

variable {s : Sys} (hlist : ∀ o, o ∈ s.gpuWriteList ↔ (s.objs o).writeDomain = domain .render)
include hlist

theorem processFlushingList_objs (flush seqno : Word) (o : Nat) :
    (processFlushingList s flush seqno).objs o =
      if (s.objs o).writeDomain = domain .render ∧ flush &&& domain .render ≠ 0 then
        (s.objs o).flushed seqno
      else s.objs o := by
  show (if o ∈ s.gpuWriteList ∧ s.hit flush o = true then _ else _) = _
  refine if_congr ?_ rfl rfl
  rw [hlist]
  exact and_congr_right fun hwd => hit_iff hwd flush

theorem processFlushingList_list (flush seqno : Word) (o : Nat) :
    o ∈ (processFlushingList s flush seqno).gpuWriteList ↔
      ((processFlushingList s flush seqno).objs o).writeDomain = domain .render := by
  rw [processFlushingList_objs hlist]
  show o ∈ s.gpuWriteList.filter (fun o => !s.hit flush o) ↔ _
  rw [List.mem_filter, hlist, Bool.not_eq_true', Bool.eq_false_iff, ne_eq]
  split
  · rename_i hhit
    have hzero : (0 : Word) ≠ domain .render := by decide
    exact ⟨fun hin => absurd ((hit_iff hhit.1 flush).mpr hhit.2) hin.2, fun hwd => absurd hwd hzero⟩
  · rename_i hmiss
    exact ⟨fun hin => hin.1, fun hwd => ⟨hwd, fun hhit => hmiss ⟨hwd, (hit_iff hwd flush).mp hhit⟩⟩⟩

end

/-- What is written back need not be written by the renderer any more. -/
theorem Obj.Reads.of_flushed {x : Obj} (hplaced : x.Placed) (hwd : x.writeDomain = domain .render)
    {seqno : Word} {d : Agent} {i : Nat} (hr : (x.flushed seqno).Reads d i) : x.Reads d i := by
  have hrd := hplaced.readDomains (by decide) hwd
  have hd : domain .render &&& domain d ≠ 0 := hrd ▸ hr.1
  exact ⟨hr.1, .inr (by rw [hwd, domain_and hd]), hr.2.2⟩

theorem Obj.Ok.flushed {x : Obj} (hok : x.Ok) (hwd : x.writeDomain = domain .render) {seqno : Word}
    (hseqno : seqno ≠ 0) : (x.flushed seqno).Ok := by
  refine ⟨.clean rfl, ?_, hok.pages, hok.pinned, fun _ => hseqno, hok.valid⟩
  intro hunbound
  have hcpu := hok.unbound hunbound
  rw [hwd] at hcpu
  exact absurd hcpu (by decide)

theorem good_processFlushingList {s : Sys} (h : Good s) {flush seqno : Word} (hseqno : seqno ≠ 0)
    (hflush : flush &&& domain .render ≠ 0 → ∀ l, s.hw.line .render l = none) :
    Good (processFlushingList s flush seqno) := by
  have hobjs := processFlushingList_objs h.list flush seqno
  refine ⟨?_, processFlushingList_list h.list flush seqno, h.seqno, ?_⟩
  · intro o
    rw [hobjs]
    split
    · rename_i hhit
      exact (h.ok o).flushed hhit.1 hseqno
    · exact h.ok o
  · refine directory_change h.coherent
      (fun o => ((stays_processFlushingList s flush seqno).objs o).size) ?_ ?_
    · intro o w hw
      rw [hobjs]
      split
      · rename_i hhit
        have hw' : w = .render := domain_inj ((Obj.writeDomain_of_writer hw).symm.trans hhit.1)
        subst hw'
        exact .inr fun i _ => Caches.not_dirty_of_none (hflush hhit.2 (o, i))
      · exact .inl hw
    · intro o d i _ hr
      rw [hobjs] at hr
      split at hr
      · rename_i hhit
        exact .inl (hr.of_flushed (h.ok o).placed hhit.1)
      · exact .inl hr

theorem stays_i915AddRequest (s : Sys) (flush : Word) : s.Stays (i915AddRequest s flush) := by
  unfold i915AddRequest
  dsimp only
  split
  · have hseqno : s.Stays { s with nextGemSeqno := nextSeqno s.nextGemSeqno } :=
      ⟨rfl, rfl, fun _ => .refl _⟩
    exact hseqno.trans (stays_processFlushingList _ _ _)
  · exact ⟨rfl, rfl, fun _ => .refl _⟩

theorem good_i915AddRequest {s : Sys} (h : Good s) {flush : Word}
    (hflush : flush &&& domain .render ≠ 0 → ∀ l, s.hw.line .render l = none) :
    Good (i915AddRequest s flush) := by
  have hseqno : Good { s with nextGemSeqno := nextSeqno s.nextGemSeqno } :=
    ⟨h.ok, h.list, nextSeqno_ne_zero _, h.coherent⟩
  unfold i915AddRequest
  dsimp only
  split
  · exact good_processFlushingList hseqno h.seqno hflush
  · exact hseqno

/-- A request after a flush. -/
theorem good_flush {s : Sys} (h : Good s) (i965 : Bool) (invalidate flush : Word) :
    Good (i915AddRequest (i915GemFlush i965 s invalidate flush) flush) := by
  have hgood : Good (i915GemFlush i965 s invalidate flush) := by
    rw [i915GemFlush_eq]
    exact ⟨h.ok, h.list, h.seqno, h.coherent.cleaned (cleaned_i915GemFlush i965 s _ _)⟩
  refine good_i915AddRequest hgood fun hrender l => i915GemFlush_render i965 s ?_ l
  rw [and_domain] at hrender ⊢
  rw [BitVec.getLsbD_or, hrender, Bool.or_true]

theorem stays_flush (s : Sys) (i965 : Bool) (invalidate flush : Word) :
    s.Stays (i915AddRequest (i915GemFlush i965 s invalidate flush) flush) := by
  have hflush : s.Stays (i915GemFlush i965 s invalidate flush) := by
    rw [i915GemFlush_eq]
    exact ⟨rfl, rfl, fun _ => .refl _⟩
  exact hflush.trans (stays_i915AddRequest _ _)

/-- Afterwards the chip does not write the object. -/
theorem flushGpuWriteDomain_spec {s : Sys} (h : Good s) (i965 : Bool) (o : Nat) :
    ∃ t, flushGpuWriteDomain i965 s o = some t ∧ Good t ∧ s.Stays t ∧
      (t.objs o).writeDomain &&& gpuDomains = 0 := by
  unfold flushGpuWriteDomain
  dsimp only
  by_cases hgpu : (s.objs o).writeDomain &&& gpuDomains = 0
  · rw [if_pos hgpu]
    exact ⟨s, rfl, h, .refl s, hgpu⟩
  · rw [if_neg hgpu]
    have hwd : (s.objs o).writeDomain = domain .render := (h.ok o).placed.gpu.mp hgpu
    have hcleared : ((i915AddRequest (i915GemFlush i965 s 0 (s.objs o).writeDomain)
        (s.objs o).writeDomain).objs o).writeDomain = 0 := by
      rw [i915GemFlush_eq, hwd]
      have hmem := (h.list o).mpr hwd
      have hhit : s.hit (domain .render) o = true := (hit_iff hwd _).mpr (by decide)
      show (if _ then _ else _ : Obj).writeDomain = 0
      rw [if_pos ⟨hmem, hhit⟩]
      rfl
    rw [if_neg (not_not.mpr hcleared)]
    refine ⟨_, rfl, good_flush h i965 0 _, stays_flush s i965 0 _, ?_⟩
    rw [hcleared]
    rfl

/-- Nothing is waited for, and only a chip that hangs is noticed. -/
theorem waitRendering_spec {s : Sys} (h : Good s) {o : Nat}
    (hgpu : (s.objs o).writeDomain &&& gpuDomains = 0) :
    waitRendering s o = some 0 ∨ waitRendering s o = some (-eio) := by
  unfold waitRendering
  rw [if_neg (not_not.mpr hgpu)]
  split_ifs with hactive hseqno hwedged
  · exact .inl rfl
  · exact absurd hseqno ((h.ok o).seqno (Bool.eq_true_of_not_eq_false hactive))
  · exact .inr rfl
  · exact .inl rfl

/-! ## Moving an object -/

/-- The rule for what follows the wait. -/
theorem afterFlush_spec {s : Sys} (h : Good s) (i965 : Bool) (o : Nat)
    {f : Sys → Option (Sys × Int)} {Q : Sys → Int → Prop}
    (herror : ∀ t, Good t → s.Stays t → Q t (-eio))
    (hf : ∀ t, Good t → s.Stays t → (t.objs o).writeDomain &&& gpuDomains = 0 →
      ∃ u ret, f t = some (u, ret) ∧ Q u ret) :
    ∃ u ret, afterFlush i965 s o f = some (u, ret) ∧ Q u ret := by
  obtain ⟨t, hflush, ht, hst, hgpu⟩ := flushGpuWriteDomain_spec h i965 o
  unfold afterFlush
  rw [hflush]
  dsimp only
  rcases waitRendering_spec ht hgpu with hwait | hwait
  · rw [hwait]
    exact hf t ht hst hgpu
  · rw [hwait]
    exact ⟨t, -eio, rfl, herror t ht hst⟩

/-- An object in other domains. -/
def Obj.place (x : Obj) (readDomains writeDomain : Word) (pageCpuValid : Option (List Bool)) :
    Obj :=
  { x with readDomains, writeDomain, pageCpuValid }

theorem Obj.stays_place (x : Obj) (r w : Word) (v : Option (List Bool)) : x.Stays (x.place r w v) :=
  ⟨rfl, rfl, rfl, rfl, rfl, rfl, rfl, id⟩

/-- The chip gains or loses no object to write; the processor may lose one that is flushed. -/
theorem Good.place {s : Sys} (h : Good s) {o : Nat} {hw : Hardware} (hc : s.hw.Cleaned hw)
    {r w : Word} {v : Option (List Bool)} (hplaced : ((s.objs o).place r w v).Placed)
    (hunbound : (s.objs o).gttSpace = false → w = domain .cpu)
    (hvalid : ∀ {l}, v = some l → l.length = (s.objs o).size)
    (hrender : w = domain .render ↔ (s.objs o).writeDomain = domain .render)
    (hcpu : (s.objs o).writeDomain = domain .cpu →
      w = domain .cpu ∨ ∀ i < (s.objs o).size * 1024, hw.line .cpu (o, i) = none)
    (hreads : ∀ d, ∀ i < (s.objs o).size * 1024, ((s.objs o).place r w v).Reads d i →
      (s.objs o).Reads d i ∨ hw.line d (o, i) = none) :
    Good { s with objs := Function.update s.objs o ((s.objs o).place r w v), hw := hw } := by
  refine h.move hc ⟨hplaced, hunbound, (h.ok o).pages, (h.ok o).pinned, (h.ok o).seqno, hvalid⟩
    rfl hrender ?_ hreads
  intro d hd
  have hwd := Obj.writeDomain_of_writer hd
  have hwriter : w = domain d → ((s.objs o).place r w v).writer = some d := by
    intro hw
    have heq : ((s.objs o).place r w v).writer = (s.objs o).writer := by
      simp only [Obj.writer, Obj.place, hw, hwd]
    exact heq.trans hd
  cases d with
  | cpu =>
      rcases hcpu hwd with hw | hnone
      · exact .inl (hwriter hw)
      · exact .inr fun i hi => Caches.not_dirty_of_none (hnone i hi)
  | render => exact .inl (hwriter (hrender.mpr hwd))
  | gtt =>
      exact .inr fun i _ => Caches.not_dirty_of_none (hc.line_none (h.coherent.bare rfl (o, i)))
  | sampler => exact .inr fun i _ hd => not_dirty h.coherent (by decide) (by decide) _ (hc.dirty hd)
  | command => exact .inr fun i _ hd => not_dirty h.coherent (by decide) (by decide) _ (hc.dirty hd)
  | instruction =>
      exact .inr fun i _ hd => not_dirty h.coherent (by decide) (by decide) _ (hc.dirty hd)
  | vertex => exact .inr fun i _ hd => not_dirty h.coherent (by decide) (by decide) _ (hc.dirty hd)

theorem or_domain {w : Word} {d e : Agent} (h : (w ||| domain e) &&& domain d ≠ 0) :
    w &&& domain d ≠ 0 ∨ d = e := by
  rw [and_domain, BitVec.getLsbD_or, Bool.or_eq_true, ← and_domain, ← and_domain] at h
  exact h.imp_right fun he => (domain_and he).symm

theorem and_or_domain (w : Word) (d : Agent) : w &&& domain d ||| domain d = domain d := by
  ext i
  simp only [BitVec.getElem_or, BitVec.getElem_and]
  cases (domain d)[i] <;> simp

/-! The functions that move an object change that object and the caches, and nothing else. -/

section Upd

variable (s : Sys) (o : Nat) (x y : Obj) (hw hw' : Hardware)

@[simp] theorem upd_objs : (s.upd o x hw).objs o = x := Function.update_self ..

@[simp] theorem upd_hw : (s.upd o x hw).hw = hw := rfl

@[simp] theorem upd_modObj (f : Obj → Obj) : (s.upd o x hw).modObj o f = s.upd o (f x) hw := by
  simp only [Sys.modObj, upd_objs]
  simp only [Sys.upd, Function.update_idem]

@[simp] theorem upd_clflushObject : clflushObject (s.upd o x hw) o =
    if x.pagesRefcount = 0 then s.upd o x hw else s.upd o x (x.clflush o hw) := by
  simp only [clflushObject, upd_objs]
  rfl

theorem upd_flushGttWriteDomain : flushGttWriteDomain (s.upd o x hw) o = s.upd o (x.place
    x.readDomains (if x.writeDomain = domain .gtt then 0 else x.writeDomain)
      x.pageCpuValid) hw := by
  simp only [flushGttWriteDomain, upd_objs, upd_modObj, ne_eq, ite_not]
  split <;> rfl

theorem upd_self : s.upd o (s.objs o) s.hw = s := by
  simp only [Sys.upd, Function.update_eq_self]

end Upd

/-- The object moves to the aperture. -/
theorem moveToGtt_upd (s : Sys) (o : Nat) {x : Obj} (hw : Hardware) (hpages : 0 < x.pagesRefcount)
    (hplaced : x.Placed) (hgpu : x.writeDomain &&& gpuDomains = 0) (write : Bool) :
    moveToGtt (s.upd o x hw) o write = some (s.upd o (x.place
      (if write then domain .gtt else x.readDomains ||| domain .gtt)
      (if write ∨ x.writeDomain = domain .gtt then domain .gtt else 0) x.pageCpuValid)
      (if x.writeDomain = domain .cpu then x.clflush o hw else hw), 0) := by
  have hpos := Nat.ne_of_gt hpages
  have habsorb : x.readDomains &&& 64#32 ||| 64#32 = 64#32 := and_or_domain _ .gtt
  rcases hplaced with hw | ⟨hw, -, -⟩ | ⟨hw, -⟩ | ⟨hw, -⟩
  · cases write <;> simp [moveToGtt, flushCpuWriteDomain, hw, domain, Obj.place, habsorb]
  · cases write <;>
      simp [moveToGtt, flushCpuWriteDomain, hw, domain, Obj.place, habsorb, hpos, Obj.clflush]
  · cases write <;> simp [moveToGtt, flushCpuWriteDomain, hw, domain, Obj.place, habsorb]
  · rw [hw] at hgpu
    exact absurd hgpu (by decide)

theorem moveToGtt_spec {s : Sys} (h : Good s) {o : Nat} (hbound : (s.objs o).gttSpace = true)
    (hgpu : (s.objs o).writeDomain &&& gpuDomains = 0) (write : Bool) :
    ∃ t, moveToGtt s o write = some (t, 0) ∧ Good t ∧ s.Stays t ∧
      (write = true → (t.objs o).writeDomain = domain .gtt) := by
  have hok := h.ok o
  have hnorender : (s.objs o).writeDomain ≠ domain .render := by
    intro hrender
    rw [hrender] at hgpu
    exact absurd hgpu (by decide)
  have heq := moveToGtt_upd s o s.hw (hok.pages hbound) hok.placed hgpu write
  rw [upd_self] at heq
  have hc : s.hw.Cleaned
      (if (s.objs o).writeDomain = domain .cpu then (s.objs o).clflush o s.hw else s.hw) := by
    split
    · exact Obj.cleaned_clflush ..
    · exact .refl
  refine ⟨_, heq, h.place hc ?_ ?_ hok.valid ?_ ?_ ?_, .move s (Obj.stays_place ..) _, ?_⟩
  · by_cases hwrite : write = true
    · exact .gtt (if_pos (.inl hwrite)) (if_pos hwrite)
    · by_cases hgtt : (s.objs o).writeDomain = domain .gtt
      · refine .gtt (if_pos (.inr hgtt)) ((if_neg hwrite).trans ?_)
        rw [hok.placed.readDomains (by decide) hgtt]
        rfl
      · exact .clean (if_neg (not_or.mpr ⟨hwrite, hgtt⟩))
  · intro hunbound
    rw [hbound] at hunbound
    cases hunbound
  · refine ⟨fun hw => ?_, fun hw => absurd hw hnorender⟩
    split at hw
    · exact absurd hw (by decide)
    · exact absurd hw (by decide)
  · intro hcpu
    refine .inr fun i hi => ?_
    rw [if_pos hcpu]
    exact Obj.clflush_none _ _ _ hi
  · rintro d i - ⟨hr, -, hvalid⟩
    by_cases hd : d = .gtt
    · subst hd
      exact .inr (hc.line_none (h.coherent.bare rfl _))
    · have hold : (s.objs o).readDomains &&& domain d ≠ 0 := by
        simp only [Obj.place] at hr
        split at hr
        · exact absurd (domain_and hr).symm hd
        · exact (or_domain hr).resolve_right hd
      exact .inl ⟨hold, hok.placed.compat hold, hvalid⟩
  · intro hwrite
    rw [upd_objs]
    subst hwrite
    rfl

theorem setToGttDomain_spec {s : Sys} (h : Good s) (i965 : Bool) (o : Nat) (write : Bool) :
    ∃ t ret, setToGttDomain i965 s o write = some (t, ret) ∧ Good t ∧ s.Stays t ∧
      (ret = 0 → write = true → (t.objs o).writeDomain = domain .gtt) := by
  unfold setToGttDomain
  by_cases hbound : (s.objs o).gttSpace = false
  · rw [if_pos hbound]
    exact ⟨s, -einval, rfl, h, .refl s, fun hret => absurd hret (by decide)⟩
  · rw [if_neg hbound]
    refine afterFlush_spec h i965 o ?_ ?_
    · intro t ht hst
      exact ⟨ht, hst, fun hret => absurd hret (by decide)⟩
    · intro t ht hst hgpu
      have hbound' : (t.objs o).gttSpace = true := by
        rw [(hst.objs o).gttSpace]
        exact Bool.eq_true_of_not_eq_false hbound
      obtain ⟨u, hu, hgood, htu, hgtt⟩ := moveToGtt_spec ht hbound' hgpu write
      exact ⟨u, 0, hu, hgood, hst.trans htu, fun _ => hgtt⟩

theorem Obj.cleaned_flushInvalid (x : Obj) (o : Nat) (valid : List Bool) (hw : Hardware) :
    hw.Cleaned (x.flushInvalid o valid hw) := by
  refine .foldl (fun hw i => ?_) _ _
  split
  · exact .refl
  · exact cleaned_clflushPage hw o i

theorem Obj.flushInvalid_none (x : Obj) (o : Nat) {valid : List Bool} (hw : Hardware) {i : Nat}
    (hi : i < x.size * 1024) (hvalid : valid.getD (i / 1024) false = false) :
    (x.flushInvalid o valid hw).line .cpu (o, i) = none := by
  have hpage : i / 1024 ∈ List.range x.size := List.mem_range.mpr (Nat.div_lt_of_lt_mul (by omega))
  refine Caches.Cleaned.foldl_none (fun hw i => ?_) (fun hw => ?_) hpage hw
  · split
    · exact .refl
    · exact cleaned_clflushPage hw o i
  · rw [hvalid]
    exact clflushPage_none hw rfl

/-- The caches after an object moved to the processor. -/
def Obj.cpuFlush (x : Obj) (o : Nat) (hw : Hardware) : Hardware :=
  if x.readDomains &&& domain .cpu = 0 then x.clflush o hw
  else
    match x.pageCpuValid with
    | none => hw
    | some valid => x.flushInvalid o valid hw

theorem Obj.cleaned_cpuFlush (x : Obj) (o : Nat) (hw : Hardware) :
    hw.Cleaned (x.cpuFlush o hw) := by
  unfold Obj.cpuFlush
  split
  · exact Obj.cleaned_clflush ..
  · split
    · exact .refl
    · exact Obj.cleaned_flushInvalid ..

/-- What the processor had no valid copy of, it has no copy of any more. -/
theorem Obj.cpuFlush_none {x : Obj} (hplaced : x.Placed) (o : Nat) (hw : Hardware) {i : Nat}
    (hi : i < x.size * 1024) : x.Reads .cpu i ∨ (x.cpuFlush o hw).line .cpu (o, i) = none := by
  unfold Obj.cpuFlush
  by_cases hcpu : x.readDomains &&& domain .cpu = 0
  · rw [if_pos hcpu]
    exact .inr (Obj.clflush_none x o hw hi)
  · rw [if_neg hcpu]
    have hreads : x.pageValid (i / 1024) = true → x.Reads .cpu i := fun hvalid =>
      ⟨hcpu, hplaced.compat hcpu, fun _ => hvalid⟩
    split
    · rename_i hnone
      exact .inl (hreads (by rw [Obj.pageValid, hnone]))
    · rename_i valid hsome
      by_cases hvalid : valid.getD (i / 1024) false = true
      · exact .inl (hreads (by rw [Obj.pageValid, hsome]; exact hvalid))
      · exact .inr (Obj.flushInvalid_none x o hw hi (Bool.eq_false_of_not_eq_true hvalid))

theorem upd_setToFullCpuReadDomain (s : Sys) (o : Nat) (x : Obj) (hw : Hardware) :
    setToFullCpuReadDomain (s.upd o x hw) o =
      s.upd o (x.place x.readDomains x.writeDomain none)
        (if x.readDomains &&& domain .cpu = 0 then hw else x.cpuFlush o hw) := by
  unfold setToFullCpuReadDomain Obj.cpuFlush
  rw [upd_objs]
  cases hvalid : x.pageCpuValid with
  | none =>
      have hx : x.place x.readDomains x.writeDomain none = x := by
        rw [← hvalid]
        rfl
      rw [hx]
      dsimp only
      split_ifs <;> rfl
  | some valid =>
      by_cases hcpu : x.readDomains &&& domain .cpu = 0
      · simp only [hcpu, ne_eq, not_true_eq_false, if_false, if_true, upd_modObj]
        rfl
      · simp only [hcpu, ne_eq, not_false_eq_true, if_true, if_false, upd_hw]
        exact upd_modObj s o x _ _

theorem and_domain_eq {w : Word} {d : Agent} (h : w &&& domain d ≠ 0) :
    w &&& domain d = domain d := by
  rw [domain_eq, ← BitVec.twoPow_eq, BitVec.and_twoPow, if_pos ((and_domain w d).mp h)]

theorem or_domain_eq {w : Word} {d : Agent} (h : w &&& domain d ≠ 0) : w ||| domain d = w := by
  rw [← and_domain_eq h]
  ext i
  simp only [BitVec.getElem_or, BitVec.getElem_and]
  cases w[i] <;> simp

theorem or_and_domain (w : Word) (d : Agent) : (w ||| domain d) &&& domain d = domain d := by
  ext i
  simp only [BitVec.getElem_or, BitVec.getElem_and]
  cases (domain d)[i] <;> simp

/-- The object can be read by the processor, and is written by nobody else. -/
theorem upd_readByCpu (s : Sys) (o : Nat) {x : Obj} (hw : Hardware) (hok : x.Ok)
    (hgpu : x.writeDomain &&& gpuDomains = 0) :
    readByCpu (s.upd o x hw) o = s.upd o (x.place (x.readDomains ||| domain .cpu)
      (if x.writeDomain = domain .cpu then domain .cpu else 0) none) (x.cpuFlush o hw) := by
  have hwd : (if x.writeDomain = domain .gtt then 0 else x.writeDomain) =
      if x.writeDomain = domain .cpu then domain .cpu else 0 := by
    rcases hok.placed with hw | ⟨hw, -, -⟩ | ⟨hw, -⟩ | ⟨hw, -⟩
    · rw [hw]
      rfl
    · rw [hw]
      rfl
    · rw [hw]
      rfl
    · rw [hw] at hgpu
      exact absurd hgpu (by decide)
  unfold readByCpu
  simp only [upd_flushGttWriteDomain, upd_setToFullCpuReadDomain, upd_objs, hwd]
  by_cases hcpu : x.readDomains &&& domain .cpu = 0
  · have hpages : x.pagesRefcount ≠ 0 := by
      refine Nat.ne_of_gt (hok.pages (Bool.eq_true_of_not_eq_false fun hunbound => ?_))
      rw [hok.placed.readDomains (by decide) (hok.unbound hunbound)] at hcpu
      exact absurd hcpu (by decide)
    have hflush : x.cpuFlush o hw = x.clflush o hw := if_pos hcpu
    simp only [Obj.place, hcpu, if_true, upd_clflushObject, if_neg hpages, upd_modObj, hflush]
    rfl
  · simp only [Obj.place, hcpu, if_false, or_domain_eq hcpu]
    rfl

theorem moveToCpu_spec {s : Sys} (h : Good s) {o : Nat}
    (hgpu : (s.objs o).writeDomain &&& gpuDomains = 0) (write : Bool) :
    ∃ t, moveToCpu s o write = some (t, 0) ∧ Good t ∧ s.Stays t ∧
      (t.objs o).active = (s.objs o).active ∧
      (write = true → (t.objs o).writeDomain = domain .cpu) := by
  have hok := h.ok o
  have hread := upd_readByCpu s o s.hw hok hgpu
  rw [upd_self] at hread
  have hmask : (if (s.objs o).writeDomain = domain .cpu then domain .cpu else 0) &&&
      ~~~domain .cpu = 0 := by
    split <;> decide
  have heq : moveToCpu s o write = some (s.upd o ((s.objs o).place
      (if write then domain .cpu else (s.objs o).readDomains ||| domain .cpu)
      (if write ∨ (s.objs o).writeDomain = domain .cpu then domain .cpu else 0) none)
      ((s.objs o).cpuFlush o s.hw), 0) := by
    unfold moveToCpu
    rw [hread]
    simp only [upd_objs, Obj.place, hmask, ne_eq, not_true_eq_false, if_false]
    cases write with
    | false => simp only [Bool.false_eq_true, if_false, false_or]
    | true => simp only [if_true, true_or, upd_modObj, or_and_domain]
  have hc := Obj.cleaned_cpuFlush (s.objs o) o s.hw
  refine ⟨_, heq, h.place hc ?_ ?_ (fun hv => by cases hv) ?_ ?_ ?_,
    .move s (Obj.stays_place ..) _, by rw [upd_objs]; rfl, ?_⟩
  · by_cases hwrite : write = true
    · exact .cpu (if_pos (.inl hwrite)) (if_pos hwrite) rfl
    · by_cases hcpu : (s.objs o).writeDomain = domain .cpu
      · refine .cpu (if_pos (.inr hcpu)) ((if_neg hwrite).trans ?_) rfl
        rw [hok.placed.readDomains (by decide) hcpu]
        rfl
      · exact .clean (if_neg (not_or.mpr ⟨hwrite, hcpu⟩))
  · intro hunbound
    exact if_pos (.inr (hok.unbound hunbound))
  · refine ⟨fun hw => ?_, fun hw => ?_⟩
    · split at hw
      · exact absurd hw (by decide)
      · exact absurd hw (by decide)
    · rw [hw] at hgpu
      exact absurd hgpu (by decide)
  · intro hcpu
    exact .inl (if_pos (.inr hcpu))
  · rintro d i hi ⟨hr, -, -⟩
    by_cases hd : d = .cpu
    · subst hd
      exact Obj.cpuFlush_none hok.placed o s.hw hi
    · have hold : (s.objs o).readDomains &&& domain d ≠ 0 := by
        simp only [Obj.place] at hr
        split at hr
        · exact absurd (domain_and hr).symm hd
        · exact (or_domain hr).resolve_right hd
      exact .inl ⟨hold, hok.placed.compat hold, fun hcpu => absurd hcpu hd⟩
  · intro hwrite
    rw [upd_objs]
    subst hwrite
    rfl

theorem setToCpuDomain_spec {s : Sys} (h : Good s) (i965 : Bool) (o : Nat) (write : Bool) :
    ∃ t ret, setToCpuDomain i965 s o write = some (t, ret) ∧ Good t ∧ s.Stays t ∧
      (ret = 0 → write = true → (t.objs o).writeDomain = domain .cpu) := by
  refine afterFlush_spec h i965 o ?_ ?_
  · intro t ht hst
    exact ⟨ht, hst, fun hret => absurd hret (by decide)⟩
  · intro t ht hst hgpu
    obtain ⟨u, hu, hgood, htu, -, hcpu⟩ := moveToCpu_spec ht hgpu write
    exact ⟨u, 0, hu, hgood, hst.trans htu, fun _ => hcpu⟩

/-! ## Some pages of an object -/

theorem good_flushGttWriteDomain {s : Sys} (h : Good s) (o : Nat) :
    Good (flushGttWriteDomain s o) ∧ s.Stays (flushGttWriteDomain s o) := by
  have hok := h.ok o
  have heq := upd_flushGttWriteDomain s o (s.objs o) s.hw
  rw [upd_self] at heq
  rw [heq]
  refine ⟨h.place .refl ?_ ?_ hok.valid ?_ ?_ ?_, .move s (Obj.stays_place ..) _⟩
  · rcases hok.placed with hw | ⟨hw, hr, hv⟩ | ⟨hw, hr⟩ | ⟨hw, hr⟩
    · exact .clean (by rw [hw]; rfl)
    · exact .cpu (by rw [hw]; rfl) hr hv
    · exact .clean (by rw [hw]; rfl)
    · exact .render (by rw [hw]; rfl) hr
  · intro hunbound
    rw [hok.unbound hunbound]
    rfl
  · split
    · rename_i hgtt
      rw [hgtt]
      decide
    · rfl
  · intro hcpu
    rw [hcpu]
    exact .inl rfl
  · rintro d i - ⟨hr, -, hvalid⟩
    exact .inl ⟨hr, hok.placed.compat hr, hvalid⟩

/-- What the loop over the pages does: what it marks, it has flushed. -/
theorem foldl_flushPage (o : Nat) (pages : List Nat) (st : Hardware × List Bool) :
    st.1.Cleaned (pages.foldl (flushPage o) st).1 ∧
      (pages.foldl (flushPage o) st).2.length = st.2.length ∧
      ∀ i, (pages.foldl (flushPage o) st).2.getD (i / 1024) false = true →
        st.2.getD (i / 1024) false = true ∨
          (pages.foldl (flushPage o) st).1.line .cpu (o, i) = none := by
  induction pages generalizing st with
  | nil => exact ⟨.refl, rfl, fun i hi => .inl hi⟩
  | cons page pages ih =>
      rw [List.foldl_cons]
      obtain ⟨hc, hlength, hmarked⟩ := ih (flushPage o st page)
      unfold flushPage at hc hlength hmarked ⊢
      by_cases hpage : st.2.getD page false = true
      · simp only [if_pos hpage] at hc hlength hmarked ⊢
        exact ⟨hc, hlength, hmarked⟩
      · simp only [if_neg hpage] at hc hlength hmarked ⊢
        refine ⟨(cleaned_clflushPage st.1 o page).trans hc, hlength.trans (List.length_set ..), ?_⟩
        intro i hi
        rcases hmarked i hi with hset | hnone
        · by_cases hthis : i / 1024 = page
          · exact .inr (hc.line_none (clflushPage_none st.1 hthis))
          · refine .inl ?_
            rw [List.getD_eq_getElem?_getD, List.getElem?_set_ne (Ne.symm hthis),
              ← List.getD_eq_getElem?_getD] at hset
            exact hset
        · exact .inr hnone

theorem Obj.rangeValid_spec {x : Obj} (hok : x.Ok) : x.rangeValid.length = x.size ∧
    ∀ page, x.rangeValid.getD page false = true →
      x.readDomains &&& domain .cpu ≠ 0 ∧ x.pageValid page = true := by
  have hnew : ∀ page, (List.replicate x.size false).getD page false ≠ true := by
    intro page hpage
    rw [List.getD_eq_getElem?_getD, List.getElem?_replicate] at hpage
    split at hpage <;> cases hpage
  unfold Obj.rangeValid
  cases hvalid : x.pageCpuValid with
  | none => exact ⟨List.length_replicate, fun page hpage => absurd hpage (hnew page)⟩
  | some valid =>
      by_cases hcpu : x.readDomains &&& domain .cpu = 0
      · simp only [if_pos hcpu]
        exact ⟨List.length_replicate, fun page hpage => absurd hpage (hnew page)⟩
      · simp only [if_neg hcpu]
        refine ⟨hok.valid hvalid, fun page hpage => ⟨hcpu, ?_⟩⟩
        rw [Obj.pageValid, hvalid]
        exact hpage

theorem moveRangeToCpu_spec {s : Sys} (h : Good s) {o : Nat}
    (hgpu : (s.objs o).writeDomain &&& gpuDomains = 0) {offset size : BitVec 64}
    (hrange : (offset + size - 1).toNat / 4096 < (s.objs o).size) (alloc : Bool) :
    ∃ t ret, moveRangeToCpu s o offset size alloc = some (t, ret) ∧ Good t ∧ s.Stays t := by
  obtain ⟨hgood, hstays⟩ := good_flushGttWriteDomain h o
  have hwd : ((flushGttWriteDomain s o).objs o).writeDomain = 0 ∨
      ((flushGttWriteDomain s o).objs o).writeDomain = domain .cpu := by
    have heq := upd_flushGttWriteDomain s o (s.objs o) s.hw
    rw [upd_self] at heq
    rw [heq, upd_objs]
    rcases (h.ok o).placed with hw | ⟨hw, -, -⟩ | ⟨hw, -⟩ | ⟨hw, -⟩
    · exact .inl (by rw [Obj.place, hw]; rfl)
    · exact .inr (by rw [Obj.place, hw]; rfl)
    · exact .inl (by rw [Obj.place, hw]; rfl)
    · rw [hw] at hgpu
      exact absurd hgpu (by decide)
  unfold moveRangeToCpu
  dsimp only
  generalize flushGttWriteDomain s o = t at hgood hstays hwd
  have hok := hgood.ok o
  split_ifs with hfull halloc hover hmask
  · exact ⟨t, 0, rfl, hgood, hstays⟩
  · exact ⟨t, -enomem, rfl, hgood, hstays⟩
  · rw [(hstays.objs o).size] at hover
    omega
  · rcases hwd with hwd | hwd <;> rw [hwd] at hmask <;> exact absurd hmask (by decide)
  · have hclean : (t.objs o).writeDomain = 0 := by
      refine hwd.resolve_right fun hcpu => ?_
      rcases hok.placed with hw | ⟨-, hr, hv⟩ | ⟨hw, -⟩ | ⟨hw, -⟩
      · exact absurd (hw.symm.trans hcpu) (by decide)
      · exact hfull ⟨hv, by rw [hr]; decide⟩
      · exact absurd (hw.symm.trans hcpu) (by decide)
      · exact absurd (hw.symm.trans hcpu) (by decide)
    obtain ⟨hlength, hvalid⟩ := Obj.rangeValid_spec hok
    obtain ⟨hc, hlength', hmarked⟩ :=
      foldl_flushPage o (rangePages offset size) (t.hw, (t.objs o).rangeValid)
    generalize (rangePages offset size).foldl (flushPage o) (t.hw, (t.objs o).rangeValid) = st
      at hc hlength' hmarked
    refine ⟨_, 0, rfl, ?_⟩
    have heq : ({ t with hw := st.1 }.modObj o fun x =>
        { x with readDomains := x.readDomains ||| domain .cpu, pageCpuValid := some st.2 }) =
        t.upd o ((t.objs o).place ((t.objs o).readDomains ||| domain .cpu) (t.objs o).writeDomain
          (some st.2)) st.1 := rfl
    rw [heq]
    refine ⟨hgood.place hc (.clean hclean) ?_ ?_ Iff.rfl (fun hcpu => .inl hcpu) ?_,
      hstays.trans (.move t (Obj.stays_place ..) _)⟩
    · intro hunbound
      exact hok.unbound hunbound
    · intro v hv
      cases hv
      exact hlength'.trans hlength
    · rintro d i - ⟨hr, -, hpage⟩
      by_cases hd : d = .cpu
      · subst hd
        rcases hmarked i (hpage rfl) with hold | hnone
        · obtain ⟨hcpu, hpage'⟩ := hvalid _ hold
          exact .inl ⟨hcpu, .inl hclean, fun _ => hpage'⟩
        · exact .inr hnone
      · have hold := (or_domain hr).resolve_right hd
        exact .inl ⟨hold, .inl hclean, fun hcpu => absurd hcpu hd⟩

theorem setCpuReadDomainRange_spec {s : Sys} (h : Good s) (i965 : Bool) (o : Nat)
    {offset size : BitVec 64} (hrange : (offset + size - 1).toNat / 4096 < (s.objs o).size)
    (alloc : Bool) :
    ∃ t ret, setCpuReadDomainRange i965 s o offset size alloc = some (t, ret) ∧ Good t ∧
      s.Stays t := by
  unfold setCpuReadDomainRange
  split
  · obtain ⟨t, ret, ht, hgood, hstays, -⟩ := setToCpuDomain_spec h i965 o false
    exact ⟨t, ret, ht, hgood, hstays⟩
  · refine afterFlush_spec h i965 o (fun t ht hst => ⟨ht, hst⟩) ?_
    intro t ht hst hgpu
    have hrange' : (offset + size - 1).toNat / 4096 < (t.objs o).size := by
      rw [(hst.objs o).size]
      exact hrange
    obtain ⟨u, ret, hu, hgood, htu⟩ := moveRangeToCpu_spec ht hgpu hrange' alloc
    exact ⟨u, ret, hu, hgood, hst.trans htu⟩

end LinuxDrivers.Gpu.Domains
