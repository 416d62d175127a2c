/-
# `LinuxDrivers.Gpu.Execbuffer` — batches, and what clients see

A client maps objects, reads and writes them, and has the chip run batches that do so too.  Before a
batch runs, `i915_gem_do_execbuffer`

    binds every object of the list, and pins it
    applies the relocations, by writing through the aperture, and notes for every target the domains
    the batch will use it in
    adds up what has to be flushed and invalidated for all objects
    emits one flush for it, enters the new write domains, and starts the batch

If an object finds no space the loop starts once more, after all that is not in use was evicted.

The functions are translated here, with the other calls of clients.

**Proved here.**

    pages that are taken for a copy are given back                               (`withPages_spec`)
    the pinning loop, with the relocations, keeps domains and caches in step; when it ends, what it
    has pinned is to be unpinned, once; and it comes back if nothing has to be evicted
                                                                 (`pinAll_spec`, `pinTries_spec`)
-/
import LinuxDrivers.Gpu.Aperture

namespace LinuxDrivers.Gpu.Domains

open LinuxDrivers.Lib

/-! ## Relocations -/

/-- `struct drm_i915_gem_relocation_entry` -/
structure Reloc where
  targetHandle : Nat
  delta : Word
  offset : Nat
  presumedOffset : Nat
  readDomains : Word
  writeDomain : Word
  deriving DecidableEq, Repr

/-- How `i915_gem_object_pin_and_relocate` ends after an error. -/
def relocFail (s : Sys) (o : Nat) (err : Int) : Option (Sys × Int) :=
  match unpin s o with
  | none => none
  | some s => some (s, -err)

/-- The second half of the loop of `i915_gem_object_pin_and_relocate`: the address is written. -/
def writeReloc (i965 : Bool) (s : Sys) (o : Nat) (r : Reloc) : Option (Sys × Int) :=
  let target := s.objs r.targetHandle
  if target.gttOffset.toNat = r.presumedOffset then some (s, 0)
  else if (s.objs o).size * 4096 < r.offset + 4 then relocFail s o einval
  else if r.offset % 4 ≠ 0 then relocFail s o einval
  else if target.size * 4096 ≤ r.delta.toNat then relocFail s o einval
  else
    match setToGttDomain i965 s o true with
    | none => none
    | some (s, ret) =>
        if ret ≠ 0 then relocFail s o einval
        else some ({ s with hw := s.hw.put (o, r.offset / 4) (target.gttOffset + r.delta) }, 0)

/-- The loop of `i915_gem_object_pin_and_relocate`, one round.  After the error about several write
domains the object stays pinned. -/
def relocate (i965 : Bool) (s : Sys) (o : Nat) (r : Reloc) : Option (Sys × Int) :=
  if s.count ≤ r.targetHandle then relocFail s o ebadf
  else
    let target := s.objs r.targetHandle
    if target.gttSpace = false then relocFail s o einval
    else if r.writeDomain &&& (r.writeDomain - 1) ≠ 0 then some (s, -einval)
    else if r.writeDomain &&& domain .cpu ≠ 0 ∨ r.readDomains &&& domain .cpu ≠ 0 then
      relocFail s o einval
    else if r.writeDomain ≠ 0 ∧ target.pendingWriteDomain ≠ 0 ∧
        r.writeDomain ≠ target.pendingWriteDomain then
      relocFail s o einval
    else
      let s := s.modObj r.targetHandle fun x =>
        { x with
          pendingReadDomains := x.pendingReadDomains ||| r.readDomains
          pendingWriteDomain := x.pendingWriteDomain ||| r.writeDomain }
      writeReloc i965 s o r

/-- What the loop notes in the entry: where the target was when its address was right. -/
def Reloc.noted (s : Sys) (r : Reloc) : Reloc :=
  { r with presumedOffset := (s.objs r.targetHandle).gttOffset.toNat }

/-- The loop; the entries it is through with are changed. -/
def relocateAll (i965 : Bool) (o : Nat) : Sys → List Reloc → Option (Sys × List Reloc × Int)
  | s, [] => some (s, [], 0)
  | s, r :: rs =>
      match relocate i965 s o r with
      | none => none
      | some (t, ret) =>
          if ret ≠ 0 then some (t, r :: rs, ret)
          else
            match relocateAll i965 o t rs with
            | none => none
            | some (u, rs, ret) => some (u, r.noted s :: rs, ret)

/-- `struct drm_i915_gem_exec_object2`, with what its binding meets, in the first and in the second
try -/
structure Entry where
  handle : Nat
  bind : Bind
  rebind : Bind
  relocs : List Reloc
  deriving DecidableEq, Repr

/-- `i915_gem_object_pin_and_relocate` -/
def pinAndRelocate (i965 : Bool) (s : Sys) (e : Entry) : Option (Sys × Entry × Int) :=
  match pin i965 s e.handle e.bind with
  | none => none
  | some (s, ret) =>
      if ret ≠ 0 then some (s, e, ret)
      else
        match relocateAll i965 e.handle s e.relocs with
        | none => none
        | some (s, relocs, ret) => some (s, { e with relocs := relocs }, ret)

/-- The pinning loop of `i915_gem_do_execbuffer`: the state, the entries as they are now, what is
pinned, and an error. -/
def pinAll (i965 : Bool) : Sys → List Entry → Option (Sys × List Entry × List Nat × Int)
  | s, [] => some (s, [], [], 0)
  | s, e :: es =>
      let s := s.modObj e.handle fun x =>
        { x with pendingReadDomains := 0, pendingWriteDomain := 0 }
      match pinAndRelocate i965 s e with
      | none => none
      | some (s, e, ret) =>
          if ret ≠ 0 then some (s, e :: es, [], ret)
          else
            match pinAll i965 s es with
            | none => none
            | some (s, es, pinned, ret) => some (s, e :: es, e.handle :: pinned, ret)

def unpinAll : Sys → List Nat → Option Sys
  | s, [] => some s
  | s, o :: os =>
      match unpin s o with
      | none => none
      | some s => unpinAll s os

def Entry.again (e : Entry) : Entry := { e with bind := e.rebind }

/-- The two tries of `i915_gem_do_execbuffer`. -/
def pinTries (i965 : Bool) (s : Sys) (es : List Entry) : Option (Sys × List Nat × Int) :=
  match pinAll i965 s es with
  | none => none
  | some (s, es, pinned, ret) =>
      if ret ≠ -enospc then some (s, pinned, ret)
      else
        match unpinAll s pinned with
        | none => none
        | some s =>
            match evictEverything i965 s with
            | none => none
            | some (s, ret) =>
                if ret ≠ 0 ∧ ret ≠ -enospc then some (s, [], ret)
                else
                  match pinAll i965 s (es.map Entry.again) with
                  | none => none
                  | some (s, _, pinned, ret) => some (s, pinned, ret)

/-! ## Batches -/

/-- `pending_read_domains` as `i915_gem_object_set_to_gpu_domain` leaves it -/
def Obj.gpuRead (x : Obj) : Word :=
  if x.pendingWriteDomain = 0 then x.pendingReadDomains ||| x.readDomains else x.pendingReadDomains

/-- What it flushes for the object. -/
def Obj.gpuFlush (x : Obj) : Word :=
  if x.writeDomain ≠ 0 ∧ x.writeDomain ≠ x.gpuRead then x.writeDomain else 0

/-- What it invalidates. -/
def Obj.gpuInvalidate (x : Obj) : Word :=
  (if x.writeDomain ≠ 0 ∧ x.writeDomain ≠ x.gpuRead then x.gpuRead &&& ~~~x.writeDomain else 0) |||
    x.gpuRead &&& ~~~x.readDomains

/-- `pending_write_domain` as it leaves it -/
def Obj.gpuWrite (x : Obj) : Word :=
  if x.gpuFlush = 0 ∧ x.pendingWriteDomain = 0 then x.writeDomain else x.pendingWriteDomain

def Obj.toGpu (x : Obj) : Obj :=
  { x with
    pendingReadDomains := x.gpuRead
    pendingWriteDomain := x.gpuWrite
    readDomains := x.gpuRead }

/-- `i915_gem_object_set_to_gpu_domain` -/
def setToGpuDomain (s : Sys) (o : Nat) : Option Sys :=
  let x := s.objs o
  if x.pendingReadDomains &&& domain .cpu ≠ 0 ∨ x.pendingWriteDomain = domain .cpu then none
  else
    let s := if (x.gpuFlush ||| x.gpuInvalidate) &&& domain .cpu ≠ 0 then clflushObject s o else s
    some ({ s with
      invalidateDomains := s.invalidateDomains ||| x.gpuInvalidate
      flushDomains := s.flushDomains ||| x.gpuFlush }.modObj o Obj.toGpu)

def setAllToGpuDomain : Sys → List Nat → Option Sys
  | s, [] => some s
  | s, o :: os =>
      match setToGpuDomain s o with
      | none => none
      | some s => setAllToGpuDomain s os

/-- The flush for all objects of the batch. -/
def batchFlush (i965 : Bool) (s : Sys) : Sys :=
  if s.invalidateDomains ||| s.flushDomains ≠ 0 then
    let t := i915GemFlush i965 s s.invalidateDomains s.flushDomains
    if s.flushDomains &&& gpuDomains ≠ 0 then i915AddRequest t s.flushDomains else t
  else s

/-- The new write domain of an object, and its place on the list. -/
def enterWriteDomain (s : Sys) (o : Nat) : Sys :=
  let writeDomain := (s.objs o).pendingWriteDomain
  let rest := s.gpuWriteList.filter (· != o)
  { s.modObj o fun x => { x with writeDomain := writeDomain } with
    gpuWriteList := if writeDomain ≠ 0 then rest ++ [o] else rest }

/-- `i915_gem_object_move_to_active` -/
def moveToActive (seqno : Word) (s : Sys) (o : Nat) : Sys :=
  s.modObj o fun x => { x with active := true, lastRenderingSeqno := seqno }

/-- `i915_retire_commands` -/
def retireCommands (i965 : Bool) (s : Sys) : Sys × Word :=
  ({ s with hw := execFlush i965 s.hw (miFlush ||| miNoWriteFlush) },
    if i965 then domain .sampler else 0)

/-- `i915_gem_do_execbuffer` from the domains on; `boxes` is whether clip rectangles are good. -/
def submit (i965 : Bool) (s : Sys) (handles : List Nat) (boxes : Bool) : Option (Sys × Int) :=
  match setAllToGpuDomain { s with invalidateDomains := 0, flushDomains := 0 } handles with
  | none => none
  | some s =>
      let s := handles.foldl enterWriteDomain (batchFlush i965 s)
      if boxes = false then some (s, -einval)
      else
        let (s, flushDomains) := retireCommands i965 s
        let seqno := s.nextGemSeqno
        let s := i915AddRequest s flushDomains
        if seqno = 0 then none else some (handles.foldl (moveToActive seqno) s, 0)

/-- `struct drm_i915_gem_execbuffer2` -/
structure Exec where
  entries : List Entry
  batchStartOffset : Word
  batchLen : Word
  boxes : Bool
  deriving DecidableEq, Repr

def Exec.handles (e : Exec) : List Nat := e.entries.map Entry.handle

/-- How `i915_gem_do_execbuffer` ends. -/
def execDone (s : Sys) (pinned : List Nat) (ret : Int) : Option (Sys × Int) :=
  match unpinAll s pinned with
  | none => none
  | some s => some (s, ret)

/-- The batch buffer is read by the command streamer. -/
def Obj.asCommands (x : Obj) : Obj :=
  { x with pendingReadDomains := x.pendingReadDomains ||| domain .command }

/-- `i915_gem_do_execbuffer` after the relocations: the batch buffer, which is the last object, is
read as commands, and must not be written. -/
def runBatch (i965 : Bool) (s : Sys) (e : Exec) (batch : Nat) (pinned : List Nat) :
    Option (Sys × Int) :=
  if (s.objs batch).pendingWriteDomain ≠ 0 then execDone s pinned (-einval)
  else
    let s := s.modObj batch Obj.asCommands
    let execStart := (s.objs batch).gttOffset + e.batchStartOffset
    if (execStart ||| e.batchLen) &&& 7 ≠ 0 ∨ execStart = 0 then execDone s pinned (-einval)
    else
      match submit i965 s e.handles e.boxes with
      | none => none
      | some (s, ret) => execDone s pinned ret

/-- `i915_gem_do_execbuffer` -/
def doExecbuffer (i965 : Bool) (s : Sys) (e : Exec) : Option (Sys × Int) :=
  match e.handles.getLast? with
  | none => some (s, -einval)
  | some batch =>
      if s.wedged = true then some (s, -eio)
      else if ¬ (∀ o ∈ e.handles, o < s.count) ∨ ¬ e.handles.Nodup then some (s, -ebadf)
      else
        match pinTries i965 s e.entries with
        | none => none
        | some (s, pinned, ret) =>
            if ret ≠ 0 then execDone s pinned ret else runBatch i965 s e batch pinned

/-! ## The other calls of clients -/

/-- `i915_gem_set_domain_ioctl` -/
def setDomainIoctl (i965 : Bool) (s : Sys) (o : Nat) (readDomains writeDomain : Word) :
    Option (Sys × Int) :=
  if writeDomain &&& gpuDomains ≠ 0 then some (s, -einval)
  else if readDomains &&& gpuDomains ≠ 0 then some (s, -einval)
  else if writeDomain ≠ 0 ∧ readDomains ≠ writeDomain then some (s, -einval)
  else if s.count ≤ o then some (s, -ebadf)
  else if readDomains &&& domain .gtt ≠ 0 then
    match setToGttDomain i965 s o (writeDomain != 0) with
    | none => none
    | some (s, ret) => some (s, if ret = -einval then 0 else ret)
  else setToCpuDomain i965 s o (writeDomain != 0)

/-- `i915_gem_sw_finish_ioctl` -/
def swFinishIoctl (s : Sys) (o : Nat) : Sys × Int :=
  if s.count ≤ o then (s, -ebadf)
  else if (s.objs o).pinCount ≠ 0 then (flushCpuWriteDomain s o, 0)
  else (s, 0)

/-- What an attempt to read or write meets: the error of taking the memory of the client, which slow
attempts do first; of the allocations for the pages, twice, and what to evict in between; whether
`page_cpu_valid` is allocated; the binding; and the error of the copy. -/
structure Outcome where
  user : Int
  pages : Int
  pick : Nat
  again : Int
  alloc : Bool
  bind : Bind
  copy : Int
  deriving DecidableEq, Repr

/-- An attempt on the pages of an object: when they are taken the object moves, and the data is
copied. -/
def withPages (taken : Option (Sys × Int)) (o : Nat) (copy : Int)
    (move : Sys → Option (Sys × Int)) : Option (Sys × Int) :=
  match taken with
  | none => none
  | some (s, ret) =>
      if ret ≠ 0 then some (s, ret)
      else
        match move s with
        | none => none
        | some (s, ret) =>
            match putPages s o with
            | none => none
            | some s => some (s, if ret ≠ 0 then ret else copy)

/-- How slow attempts take the pages, if they have the memory of the client. -/
def slowPages (i965 : Bool) (s : Sys) (o : Nat) (r : Outcome) : Option (Sys × Int) :=
  if r.user ≠ 0 then some (s, r.user) else getPagesOrEvict i965 s o r.pages r.pick r.again

/-- `i915_gem_shmem_pread_fast` -/
def shmemPreadFast (i965 : Bool) (s : Sys) (o : Nat) (offset size : BitVec 64) (r : Outcome) :
    Option (Sys × Int) :=
  withPages (some (getPages s o r.pages)) o r.copy fun s =>
    setCpuReadDomainRange i965 s o offset size r.alloc

/-- `i915_gem_shmem_pread_slow` -/
def shmemPreadSlow (i965 : Bool) (s : Sys) (o : Nat) (offset size : BitVec 64) (r : Outcome) :
    Option (Sys × Int) :=
  withPages (slowPages i965 s o r) o r.copy fun s =>
    setCpuReadDomainRange i965 s o offset size r.alloc

/-- What of `tiling_mode` matters: whether there is one, and whether bit 17 of the address is part
of it. -/
inductive Tiling where
  | none
  | plain
  | bit17
  deriving DecidableEq, Repr

/-- The checks of `i915_gem_pread_ioctl` and `i915_gem_pwrite_ioctl` -/
def copyChecked (s : Sys) (o : Nat) (offset size : BitVec 64) (copy : Option (Sys × Int)) :
    Option (Sys × Int) :=
  if s.count ≤ o then some (s, -ebadf)
  else
    let bytes := (s.objs o).size * 4096
    if bytes < offset.toNat ∨ bytes < size.toNat ∨ bytes < (offset + size).toNat then
      some (s, -einval)
    else copy

/-- `i915_gem_pread_ioctl` -/
def preadIoctl (i965 : Bool) (s : Sys) (o : Nat) (tiling : Tiling) (offset size : BitVec 64)
    (fast slow : Outcome) : Option (Sys × Int) :=
  copyChecked s o offset size
    (if tiling = .bit17 then shmemPreadSlow i965 s o offset size slow
    else
      match shmemPreadFast i965 s o offset size fast with
      | none => none
      | some (s, ret) =>
          if ret ≠ 0 then shmemPreadSlow i965 s o offset size slow else some (s, ret))

/-- `i915_gem_gtt_pwrite_fast` -/
def gttPwriteFast (i965 : Bool) (s : Sys) (o : Nat) (r : Outcome) : Option (Sys × Int) :=
  match pin i965 s o r.bind with
  | none => none
  | some (s, ret) =>
      if ret ≠ 0 then some (s, ret)
      else
        match setToGttDomain i965 s o true with
        | none => none
        | some (s, ret) =>
            match unpin s o with
            | none => none
            | some s => some (s, if ret ≠ 0 then ret else r.copy)

/-- `i915_gem_gtt_pwrite_slow` -/
def gttPwriteSlow (i965 : Bool) (s : Sys) (o : Nat) (r : Outcome) : Option (Sys × Int) :=
  if r.user ≠ 0 then some (s, r.user) else gttPwriteFast i965 s o r

/-- `i915_gem_shmem_pwrite_fast` -/
def shmemPwriteFast (i965 : Bool) (s : Sys) (o : Nat) (r : Outcome) : Option (Sys × Int) :=
  withPages (some (getPages s o r.pages)) o r.copy fun s => setToCpuDomain i965 s o true

/-- `i915_gem_shmem_pwrite_slow` -/
def shmemPwriteSlow (i965 : Bool) (s : Sys) (o : Nat) (r : Outcome) : Option (Sys × Int) :=
  withPages (slowPages i965 s o r) o r.copy fun s => setToCpuDomain i965 s o true

/-- A slow attempt to write follows a fast one that faults. -/
def orSlow (fast : Option (Sys × Int)) (slow : Sys → Option (Sys × Int)) : Option (Sys × Int) :=
  match fast with
  | none => none
  | some (s, ret) => if ret = -efault then slow s else some (s, ret)

/-- `i915_gem_pwrite_ioctl` -/
def pwriteIoctl (i965 : Bool) (s : Sys) (o : Nat) (tiling : Tiling) (offset size : BitVec 64)
    (fast slow : Outcome) : Option (Sys × Int) :=
  copyChecked s o offset size
    (match tiling with
    | .none => orSlow (gttPwriteFast i965 s o fast) fun s => gttPwriteSlow i965 s o slow
    | .bit17 => shmemPwriteSlow i965 s o slow
    | .plain => orSlow (shmemPwriteFast i965 s o fast) fun s => shmemPwriteSlow i965 s o slow)

/-- `map_buffer_object` of the Genode driver -/
def mapBufferObject (s : Sys) (o : Nat) (err : Int) : Sys × Int :=
  if s.count ≤ o then (s, -ebadf) else getPages s o err

/-- `i915_gem_create_ioctl`: an object of `size` pages, on no list -/
def createIoctl (s : Sys) (size : Nat) : Sys :=
  { s with
    count := s.count + 1
    objs := Function.update s.objs s.count (initObject size)
    gpuWriteList := s.gpuWriteList.filter (· != s.count) }

inductive Call where
  | setDomain (o : Nat) (readDomains writeDomain : Word)
  | swFinish (o : Nat)
  | pread (o : Nat) (tiling : Tiling) (offset size : BitVec 64) (fast slow : Outcome)
  | pwrite (o : Nat) (tiling : Tiling) (offset size : BitVec 64) (fast slow : Outcome)
  | execbuffer (e : Exec)
  | map (o : Nat) (err : Int)
  | unbind (o : Nat)
  | idle
  deriving DecidableEq, Repr

/-- A call under the mutex. -/
def call (i965 : Bool) (s : Sys) : Call → Option (Sys × Int)
  | .setDomain o readDomains writeDomain => setDomainIoctl i965 s o readDomains writeDomain
  | .swFinish o => some (swFinishIoctl s o)
  | .pread o tiling offset size fast slow => preadIoctl i965 s o tiling offset size fast slow
  | .pwrite o tiling offset size fast slow => pwriteIoctl i965 s o tiling offset size fast slow
  | .execbuffer e => doExecbuffer i965 s e
  | .map o err => some (mapBufferObject s o err)
  | .unbind o => if s.count ≤ o then some (s, -ebadf) else unbind i965 s o
  | .idle => i915GpuIdle i965 s

/-! ## Pages and pins -/

variable {s t u : Sys} {x y : Obj} {o : Nat} {e e' : Entry} {es es' : List Entry}
  {pinned : List Nat} {ret : Int}

/-- Changes of the pending domains only. -/
theorem Good.pending (h : Good s) {f : Obj → Obj} {r w : Word}
    (hf : f (s.objs o) = { s.objs o with pendingReadDomains := r, pendingWriteDomain := w }) :
    Good (s.modObj o f) ∧ s.Later (s.modObj o f) := by
  have hok := h.ok o
  refine ⟨h.touch ?_ ?_ ?_, .modObj s ?_⟩
  · rw [hf]
    rfl
  · rw [hf]
  · rw [hf]
    exact ⟨hok.placed.congr rfl rfl rfl, hok.unbound, hok.pages, hok.pinned, hok.seqno, hok.valid⟩
  · rw [hf]
    exact ⟨rfl, id, fun hbound => ⟨hbound, rfl⟩, Nat.le_refl _⟩

theorem withPages_spec {ok : Prop} {taken : Option (Sys × Int)} (htaken : Ends ok taken (Taken s o))
    (copy : Int) {move : Sys → Option (Sys × Int)}
    (hmove : ∀ t, Good t → s.Spared t → ∃ u ret, move t = some (u, ret) ∧ Good u ∧ t.Stays u) :
    Ends ok (withPages taken o copy move) fun a => Good a.1 ∧ s.Spared a.1 := by
  unfold withPages
  cases htake : taken with
  | none => exact .of_none fun hok => htaken.back hok htake
  | some res =>
      obtain ⟨t, ret⟩ := res
      obtain ⟨u, hu, hsu, heq⟩ := htaken.post _ htake
      dsimp only at heq ⊢
      by_cases hret : ret = 0
      · rw [if_pos hret] at heq
        rw [if_neg (not_not.mpr hret), heq]
        obtain ⟨hgood, hspared⟩ := good_takePages hu o
        obtain ⟨v, ret', hv, hgoodv, hstays⟩ := hmove _ hgood (hsu.trans hspared)
        obtain ⟨w, hw, hgoodw, hstays'⟩ := putPages_spec hu hgoodv hstays
        rw [hv]
        dsimp only
        rw [hw]
        exact .of_some ⟨hgoodw, hsu.trans hstays'.spared⟩
      · rw [if_neg hret] at heq
        rw [if_pos hret, heq]
        exact .of_some ⟨hu, hsu⟩

theorem slowPages_spec (h : Good s) (i965 : Bool) (o : Nat) (r : Outcome) :
    Ends (r.pages ≠ -enomem) (slowPages i965 s o r) (Taken s o) := by
  unfold slowPages
  split
  · rename_i huser
    refine .of_some ⟨s, h, .refl s, ?_⟩
    rw [if_neg huser]
  · exact getPagesOrEvict_spec h i965 o r.pages r.pick r.again

theorem unpinAll_spec (h : Good s) (hnodup : pinned.Nodup)
    (hpin : ∀ o ∈ pinned, 0 < (s.objs o).pinCount) :
    ∃ t, unpinAll s pinned = some t ∧ Good t ∧ s.Later t := by
  induction pinned generalizing s with
  | nil => exact ⟨s, rfl, h, .refl s⟩
  | cons o os ih =>
      obtain ⟨heq, hgood, hlater⟩ := unpin_spec h (hpin o List.mem_cons_self)
      obtain ⟨hmem, hnodup'⟩ := List.nodup_cons.mp hnodup
      have hpin' : ∀ p ∈ os,
          0 < ((s.modObj o fun x => { x with pinCount := x.pinCount - 1 }).objs p).pinCount := by
        intro p hp
        rw [modObj_other s _ (fun hpo : p = o => hmem (hpo ▸ hp))]
        exact hpin p (List.mem_cons_of_mem _ hp)
      obtain ⟨t, ht, hgood', hlater'⟩ := ih hgood hnodup' hpin'
      refine ⟨t, ?_, hgood', hlater.trans hlater'⟩
      rw [unpinAll, heq]
      exact ht

theorem execDone_spec (h : Good s) (hnodup : pinned.Nodup)
    (hpin : ∀ o ∈ pinned, 0 < (s.objs o).pinCount) (ret : Int) :
    ∃ t, execDone s pinned ret = some (t, ret) ∧ Good t ∧ s.Later t := by
  obtain ⟨t, ht, hgood, hlater⟩ := unpinAll_spec h hnodup hpin
  refine ⟨t, ?_, hgood, hlater⟩
  rw [execDone, ht]

/-! ## Relocations -/

/-- No relocation asks for the processor. -/
def Obj.Clean (x : Obj) : Prop :=
  x.pendingReadDomains &&& domain .cpu = 0 ∧ x.pendingWriteDomain &&& domain .cpu = 0

theorem Obj.Stays.clean (h : x.Stays y) (hx : x.Clean) : y.Clean := by
  rw [Obj.Clean, h.pendingReadDomains, h.pendingWriteDomain]
  exact hx

/-- What relocations of the object `o` do to a state. -/
structure Relocated (o : Nat) (s t : Sys) (ret : Int) : Prop where
  good : Good t
  later : s.Later t
  others : ∀ p, p ≠ o → (t.objs p).pinCount = (s.objs p).pinCount
  own : ret = 0 → (t.objs o).pinCount = (s.objs o).pinCount
  clean : ∀ p, (s.objs p).Clean → (t.objs p).Clean
  code : ret ≠ -enospc

theorem Relocated.trans (h : Relocated o s t 0) (h' : Relocated o t u ret) : Relocated o s u ret :=
  ⟨h'.good, h.later.trans h'.later, fun p hp => (h'.others p hp).trans (h.others p hp),
    fun hret => (h'.own hret).trans (h.own rfl), fun p hp => h'.clean p (h.clean p hp), h'.code⟩

theorem Relocated.of_stays (ht : Good t) (h : s.Stays t) {ret : Int} (hret : ret ≠ -enospc) :
    Relocated o s t ret :=
  ⟨ht, h.later, fun p _ => (h.objs p).pinCount, fun _ => (h.objs o).pinCount,
    fun p hp => (h.objs p).clean hp, hret⟩

theorem relocFail_spec (h : Good s) (hpin : 0 < (s.objs o).pinCount) {err : Int}
    (herr : err ≠ 0) (hcode : err ≠ enospc) :
    ∃ t ret, relocFail s o err = some (t, ret) ∧ Relocated o s t ret := by
  obtain ⟨heq, hgood, hlater⟩ := unpin_spec h hpin
  refine ⟨_, -err, ?_, hgood, hlater, ?_, fun hzero => absurd hzero (by omega), ?_, by omega⟩
  · rw [relocFail, heq]
  · intro p hp
    rw [modObj_other s _ hp]
  · exact modObj_rel s (R := fun x y => x.Clean → y.Clean) (fun _ => id) id

theorem writeReloc_spec (h : Good s) (i965 : Bool) (hpin : 0 < (s.objs o).pinCount)
    (r : Reloc) : ∃ t ret, writeReloc i965 s o r = some (t, ret) ∧ Relocated o s t ret := by
  have hzero : (0 : Int) ≠ -enospc := by decide
  have hfail : ∃ t ret, relocFail s o einval = some (t, ret) ∧ Relocated o s t ret :=
    relocFail_spec h hpin (by decide) (by decide)
  unfold writeReloc
  dsimp only
  split_ifs with hpresumed hbounds haligned hdelta
  · exact ⟨s, 0, rfl, .of_stays h (.refl s) hzero⟩
  · exact hfail
  · exact hfail
  · exact hfail
  · obtain ⟨t, ret, ht, hgood, hstays, hgtt⟩ := setToGttDomain_spec h i965 o true
    rw [ht]
    dsimp only
    by_cases hret : ret = 0
    · rw [if_neg (not_not.mpr hret)]
      refine ⟨_, 0, rfl, ?_⟩
      have hwd := hgtt hret rfl
      have hrange : r.offset / 4 < (t.objs o).size * 1024 := by
        rw [(hstays.objs o).size]
        omega
      have hwriter : (directory t.objs).writer (o, r.offset / 4) = some .gtt := by
        simp only [directory, if_pos hrange, Obj.writer, hwd]
        decide
      have hput := hgood.coherent.put rfl hwriter ((s.objs r.targetHandle).gttOffset + r.delta)
      have hgood' : Good { t with hw := t.hw.put _ _ } := ⟨hgood.ok, hgood.list, hgood.seqno, hput⟩
      exact .of_stays hgood' ⟨hstays.count, hstays.wedged, hstays.objs⟩ hzero
    · rw [if_pos hret]
      have hpin' : 0 < (t.objs o).pinCount := by
        rw [(hstays.objs o).pinCount]
        exact hpin
      obtain ⟨u, ret', hu, hrel⟩ :=
        relocFail_spec hgood hpin' (show einval ≠ 0 by decide) (by decide)
      exact ⟨u, ret', hu, .trans (.of_stays hgood hstays hzero) hrel⟩

theorem relocate_spec (h : Good s) (i965 : Bool) (hpin : 0 < (s.objs o).pinCount)
    (r : Reloc) : ∃ t ret, relocate i965 s o r = some (t, ret) ∧ Relocated o s t ret := by
  unfold relocate
  dsimp only
  split_ifs with hcount hspace hsingle hcpu hconflict
  · exact relocFail_spec h hpin (by decide) (by decide)
  · exact relocFail_spec h hpin (by decide) (by decide)
  · exact ⟨s, -einval, rfl, .of_stays h (.refl s) (by decide)⟩
  · exact relocFail_spec h hpin (by decide) (by decide)
  · exact relocFail_spec h hpin (by decide) (by decide)
  · rw [not_or, not_not, not_not] at hcpu
    obtain ⟨hwrite, hread⟩ := hcpu
    have hor : ∀ {a b : Word}, a &&& domain .cpu = 0 → b &&& domain .cpu = 0 →
        (a ||| b) &&& domain .cpu = 0 := by
      intro a b ha hb
      rw [BitVec.and_comm, BitVec.and_or_distrib_left, BitVec.and_comm, ha, BitVec.and_comm, hb]
      rfl
    have hnoted : Relocated o s (s.modObj r.targetHandle fun x => { x with
        pendingReadDomains := x.pendingReadDomains ||| r.readDomains
        pendingWriteDomain := x.pendingWriteDomain ||| r.writeDomain }) 0 := by
      obtain ⟨hgood, hlater⟩ := h.pending (o := r.targetHandle) (f := fun x => { x with
        pendingReadDomains := x.pendingReadDomains ||| r.readDomains
        pendingWriteDomain := x.pendingWriteDomain ||| r.writeDomain }) rfl
      have hpins := modObj_rel s (R := fun x y => y.pinCount = x.pinCount) (o := r.targetHandle)
        (f := fun x => { x with
          pendingReadDomains := x.pendingReadDomains ||| r.readDomains
          pendingWriteDomain := x.pendingWriteDomain ||| r.writeDomain }) (fun _ => rfl) rfl
      refine ⟨hgood, hlater, fun p _ => hpins p, fun _ => hpins o, ?_, by decide⟩
      refine modObj_rel s (R := fun x y => x.Clean → y.Clean) (fun _ => id) ?_
      exact fun hclean => ⟨hor hclean.1 hread, hor hclean.2 hwrite⟩
    obtain ⟨t, ret, ht, hrel⟩ := writeReloc_spec hnoted.good i965
      (by rw [hnoted.own rfl]; exact hpin) r
    exact ⟨t, ret, ht, hnoted.trans hrel⟩

theorem relocateAll_spec (h : Good s) (i965 : Bool) (hpin : 0 < (s.objs o).pinCount)
    (rs : List Reloc) :
    ∃ t rs' ret, relocateAll i965 o s rs = some (t, rs', ret) ∧ Relocated o s t ret := by
  induction rs generalizing s with
  | nil => exact ⟨s, [], 0, rfl, .of_stays h (.refl s) (by decide)⟩
  | cons r rs ih =>
      obtain ⟨t, ret, ht, hrel⟩ := relocate_spec h i965 hpin r
      rw [relocateAll, ht]
      dsimp only
      by_cases hret : ret = 0
      · subst hret
        obtain ⟨u, rs', ret', hu, hrel'⟩ := ih hrel.good (by rw [hrel.own rfl]; exact hpin)
        rw [hu]
        exact ⟨u, _, ret', rfl, hrel.trans hrel'⟩
      · rw [if_pos hret]
        exact ⟨t, _, ret, rfl, hrel⟩

/-! ## The pinning loop -/

/-- What pinning and relocating one object does. -/
structure PinnedEntry (e : Entry) (s t : Sys) (e' : Entry) (ret : Int) : Prop where
  good : Good t
  after : s.After t
  others : ∀ p, p ≠ e.handle → (t.objs p).pinCount = (s.objs p).pinCount
  own : ret = 0 → 0 < (t.objs e.handle).pinCount
  clean : ∀ p, (s.objs p).Clean → (t.objs p).Clean
  handle : e'.handle = e.handle
  code : e.bind.fits = true → ret ≠ -enospc

theorem pinAndRelocate_spec (h : Good s) (i965 : Bool) (e : Entry) :
    Ends (e.bind.fits = true) (pinAndRelocate i965 s e) fun a =>
      PinnedEntry e s a.1 a.2.1 a.2.2 := by
  obtain ⟨hback, hpost⟩ := pin_spec h i965 e.handle e.bind
  unfold pinAndRelocate
  cases hp : pin i965 s e.handle e.bind with
  | none => exact .of_none fun hfits => hback hfits hp
  | some res =>
      obtain ⟨t, ret⟩ := res
      obtain ⟨hpins, hcode⟩ := hpost _ hp
      dsimp only at hpins hcode ⊢
      have hclean : ∀ p, (s.objs p).Clean → (t.objs p).Clean := by
        intro p hp
        rw [Obj.Clean, hpins.pendingReadDomains, hpins.pendingWriteDomain]
        exact hp
      by_cases hret : ret = 0
      · rw [if_neg (not_not.mpr hret)]
        obtain ⟨u, rs, ret', hu, hrel⟩ :=
          relocateAll_spec hpins.good i965 (hpins.own hret) e.relocs
        rw [hu]
        refine .of_some ⟨hrel.good, hpins.after.trans hrel.later.after, ?_, ?_, ?_, rfl,
          fun _ => hrel.code⟩
        · intro p hp
          rw [hrel.others p hp, hpins.others p hp]
        · intro hret'
          rw [hrel.own hret']
          exact hpins.own hret
        · exact fun p hp => hrel.clean p (hclean p hp)
      · rw [if_pos hret]
        exact .of_some ⟨hpins.good, hpins.after, hpins.others, fun hzero => absurd hzero hret,
          hclean, rfl, hcode⟩

/-- What the pinning loop has done when it ends: all it has pinned is to be unpinned, once. -/
structure Pinned (es : List Entry) (s t : Sys) (es' : List Entry) (pinned : List Nat) (ret : Int) :
    Prop where
  good : Good t
  after : s.After t
  sublist : pinned.Sublist (es.map Entry.handle)
  pins : ∀ o ∈ pinned, 0 < (t.objs o).pinCount
  others : ∀ o, o ∉ es.map Entry.handle → (t.objs o).pinCount = (s.objs o).pinCount
  clean : ∀ o, o ∈ pinned ∨ (s.objs o).Clean → (t.objs o).Clean
  all : ret = 0 → pinned = es.map Entry.handle
  handles : es'.map Entry.handle = es.map Entry.handle
  code : (∀ e ∈ es, e.bind.fits = true) → ret ≠ -enospc

/-- The loop goes on after an object. -/
theorem Pinned.cons (hmem : e.handle ∉ es.map Entry.handle) (h : PinnedEntry e s t e' 0)
    (hzero : (s.objs e.handle).Clean) (h' : Pinned es t u es' pinned ret) :
    Pinned (e :: es) s u (e' :: es') (e'.handle :: pinned) ret := by
  rw [h.handle]
  refine ⟨h'.good, h.after.trans h'.after, ?_, ?_, ?_, ?_, ?_, ?_, ?_⟩
  · rw [List.map_cons]
    exact h'.sublist.cons_cons _
  · intro o ho
    rcases List.mem_cons.mp ho with rfl | ho
    · rw [h'.others _ hmem]
      exact h.own rfl
    · exact h'.pins o ho
  · intro o ho
    rw [List.map_cons, List.mem_cons, not_or] at ho
    rw [h'.others o ho.2, h.others o ho.1]
  · rintro o (ho | ho)
    · rcases List.mem_cons.mp ho with rfl | ho
      · exact h'.clean _ (.inr (h.clean _ hzero))
      · exact h'.clean o (.inl ho)
    · exact h'.clean o (.inr (h.clean o ho))
  · intro hret
    rw [h'.all hret, List.map_cons]
  · rw [List.map_cons, List.map_cons, h.handle, h'.handles]
  · exact fun hfits => h'.code fun x hx => hfits x (List.mem_cons_of_mem _ hx)

/-- Or it ends with it. -/
theorem Pinned.of_error (h : PinnedEntry e s t e' ret) (hret : ret ≠ 0) (es : List Entry) :
    Pinned (e :: es) s t (e' :: es) [] ret := by
  refine ⟨h.good, h.after, List.nil_sublist _, fun o ho => absurd ho List.not_mem_nil, ?_, ?_,
    fun hzero => absurd hzero hret, ?_, fun hfits => h.code (hfits e List.mem_cons_self)⟩
  · intro o ho
    rw [List.map_cons, List.mem_cons, not_or] at ho
    exact h.others o ho.1
  · exact fun o ho => h.clean o (ho.resolve_left List.not_mem_nil)
  · rw [List.map_cons, List.map_cons, h.handle]

/-- What comes before the loop but clears the pending domains of its first object. -/
theorem Pinned.of_pending
    (h : Pinned (e :: es) (s.modObj e.handle fun x =>
      { x with pendingReadDomains := 0, pendingWriteDomain := 0 }) t es' pinned ret)
    (hlater : s.Later (s.modObj e.handle fun x =>
      { x with pendingReadDomains := 0, pendingWriteDomain := 0 })) :
    Pinned (e :: es) s t es' pinned ret := by
  have hpins := modObj_rel s (R := fun x y => y.pinCount = x.pinCount) (o := e.handle)
    (f := fun x => { x with pendingReadDomains := 0, pendingWriteDomain := 0 }) (fun _ => rfl) rfl
  have hclean := modObj_rel s (R := fun x y => x.Clean → y.Clean) (o := e.handle)
    (f := fun x => { x with pendingReadDomains := 0, pendingWriteDomain := 0 }) (fun _ => id)
    (fun _ => ⟨BitVec.zero_and, BitVec.zero_and⟩)
  exact ⟨h.good, hlater.after.trans h.after, h.sublist, h.pins,
    fun o ho => (h.others o ho).trans (hpins o), fun o ho => h.clean o (ho.imp_right (hclean o)),
    h.all, h.handles, h.code⟩

theorem pinAll_spec (h : Good s) (i965 : Bool) (es : List Entry)
    (hnodup : (es.map Entry.handle).Nodup) :
    Ends (∀ e ∈ es, e.bind.fits = true) (pinAll i965 s es) fun a =>
      Pinned es s a.1 a.2.1 a.2.2.1 a.2.2.2 := by
  induction es generalizing s with
  | nil =>
      have hcode : (0 : Int) ≠ -enospc := by decide
      exact .of_some ⟨h, .refl s, .refl _, fun o ho => absurd ho List.not_mem_nil,
        fun _ _ => rfl, fun o ho => ho.resolve_left List.not_mem_nil, fun _ => rfl, rfl,
        fun _ => hcode⟩
  | cons e es ih =>
      obtain ⟨hmem, hnodup'⟩ := List.nodup_cons.mp hnodup
      obtain ⟨hgood₀, hlater₀⟩ := h.pending (o := e.handle)
        (f := fun x => { x with pendingReadDomains := 0, pendingWriteDomain := 0 }) rfl
      have hzero : ((s.modObj e.handle fun x =>
          { x with pendingReadDomains := 0, pendingWriteDomain := 0 }).objs e.handle).Clean := by
        rw [modObj_self]
        exact ⟨BitVec.zero_and, BitVec.zero_and⟩
      obtain ⟨hback, hpost⟩ := pinAndRelocate_spec hgood₀ i965 e
      rw [pinAll]
      cases hone : pinAndRelocate i965 (s.modObj e.handle fun x =>
          { x with pendingReadDomains := 0, pendingWriteDomain := 0 }) e with
      | none => exact .of_none fun hfits => hback (hfits e List.mem_cons_self) hone
      | some res =>
          obtain ⟨t, e', ret⟩ := res
          have hentry := hpost _ hone
          dsimp only at hentry ⊢
          by_cases hret : ret = 0
          · subst hret
            rw [if_neg (not_not.mpr rfl)]
            obtain ⟨hback', hpost'⟩ := ih hentry.good hnodup'
            cases hrest : pinAll i965 t es with
            | none =>
                exact .of_none fun hfits =>
                  hback' (fun x hx => hfits x (List.mem_cons_of_mem _ hx)) hrest
            | some res' =>
                obtain ⟨u, es', pinned, ret'⟩ := res'
                exact .of_some ((Pinned.cons hmem hentry hzero (hpost' _ hrest)).of_pending hlater₀)
          · rw [if_pos hret]
            exact .of_some ((Pinned.of_error hentry hret es).of_pending hlater₀)

/-- What both tries together have done. -/
structure Tries (es : List Entry) (s t : Sys) (pinned : List Nat) (ret : Int) : Prop where
  good : Good t
  after : s.After t
  sublist : pinned.Sublist (es.map Entry.handle)
  pins : ∀ o ∈ pinned, 0 < (t.objs o).pinCount
  clean : ∀ o ∈ pinned, (t.objs o).Clean
  all : ret = 0 → pinned = es.map Entry.handle

theorem Pinned.tries (h : Pinned es s t es' pinned ret) : Tries es s t pinned ret :=
  ⟨h.good, h.after, h.sublist, h.pins, fun o ho => h.clean o (.inl ho), h.all⟩

theorem Entry.map_again (es : List Entry) :
    (es.map Entry.again).map Entry.handle = es.map Entry.handle := by
  rw [List.map_map]
  rfl

theorem pinTries_spec (h : Good s) (i965 : Bool) (es : List Entry)
    (hnodup : (es.map Entry.handle).Nodup) :
    Ends (∀ e ∈ es, e.bind.fits = true) (pinTries i965 s es) fun a =>
      Tries es s a.1 a.2.1 a.2.2 := by
  obtain ⟨hback, hpost⟩ := pinAll_spec h i965 es hnodup
  unfold pinTries
  cases hfirst : pinAll i965 s es with
  | none => exact .of_none fun hfits => hback hfits hfirst
  | some res =>
      obtain ⟨t, es', pinned, ret⟩ := res
      have hpinned := hpost _ hfirst
      dsimp only at hpinned ⊢
      by_cases hret : ret ≠ -enospc
      · rw [if_pos hret]
        exact .of_some hpinned.tries
      · rw [if_neg hret]
        -- there is a second try only if something did not fit
        have hno : ¬ ∀ e ∈ es, e.bind.fits = true := fun hfits => hret (hpinned.code hfits)
        obtain ⟨u, hu, hgood, hlater⟩ :=
          unpinAll_spec hpinned.good (hpinned.sublist.nodup hnodup) hpinned.pins
        rw [hu]
        dsimp only
        cases hevict : evictEverything i965 u with
        | none => exact .of_none hno
        | some res' =>
            obtain ⟨v, err⟩ := res'
            obtain ⟨hgoodv, hevicts⟩ := evictEverything_spec hgood hevict
            have hafter : s.After v :=
              hpinned.after.trans (hlater.after.trans hevicts.toSpared.after)
            dsimp only
            by_cases herr : err ≠ 0 ∧ err ≠ -enospc
            · rw [if_pos herr]
              exact .of_some ⟨hgoodv, hafter, List.nil_sublist _,
                fun o ho => absurd ho List.not_mem_nil, fun o ho => absurd ho List.not_mem_nil,
                fun hzero => absurd hzero herr.1⟩
            · rw [if_neg herr]
              have hhandles : (es'.map Entry.again).map Entry.handle = es.map Entry.handle := by
                rw [Entry.map_again, hpinned.handles]
              obtain ⟨-, hpost'⟩ := pinAll_spec hgoodv i965 (es'.map Entry.again)
                (by rw [hhandles]; exact hnodup)
              cases hsecond : pinAll i965 v (es'.map Entry.again) with
              | none => exact .of_none hno
              | some res'' =>
                  obtain ⟨w, es'', pinned', ret'⟩ := res''
                  have htries := (hpost' _ hsecond).tries
                  dsimp only at htries ⊢
                  refine .of_some ⟨htries.good, hafter.trans htries.after, ?_, htries.pins,
                    htries.clean, fun hzero => ?_⟩
                  · rw [← hhandles]
                    exact htries.sublist
                  · rw [← hhandles]
                    exact htries.all hzero

end LinuxDrivers.Gpu.Domains
