/-
# `LinuxDrivers.Gpu.Aperture` — places in the aperture

The chip sees an object at its place in the aperture (GTT).  `i915_gem_object_bind_to_gtt` looks for
a place, takes the pages of the object and enters them there.  When something is missing it evicts
other objects and tries again:

    `i915_gem_evict_something`       unbinds one object that nobody uses and that is large enough,
                                     or all that nobody uses
    `i915_gem_evict_everything`      waits for the chip, and then unbinds everything

Whoever needs an object at its place pins it meanwhile, and a pinned object is not evicted.

On this driver nothing that the chip has used is ever free again, as no request is listed: an object
that was in a batch stays active.  To evict everything then ends in `BUG_ON`.  So does unbinding an
object whose pages are taken a second time, as `map_buffer_object` does.  What rounds of the loop
find is left open; in particular a place that was given up need not be found again
(`drm_mm_put_block` does nothing).

**Proved here.**

    unbinding and evicting keep the domains right, and take nothing from an object that is pinned,
    active, or has its pages taken twice                      (`unbind_spec`, `evictSomething_spec`)
    binding and pinning do so too, and come back if nothing has to be evicted           (`pin_spec`)
    unbinding hangs exactly if the object is bound and not pinned, and in use by a chip that works,
    or idle with its pages taken twice                                           (`unbind_none_iff`)
-/
import LinuxDrivers.Gpu.Domains

namespace LinuxDrivers.Gpu.Domains

open LinuxDrivers.Lib

/-! ## Pages -/

/-- `i915_gem_object_get_pages`, with the error of the allocations if they are made -/
def getPages (s : Sys) (o : Nat) (err : Int) : Sys × Int :=
  if (s.objs o).pagesRefcount = 0 ∧ err ≠ 0 then (s, err)
  else (s.modObj o fun x => { x with pagesRefcount := x.pagesRefcount + 1 }, 0)

/-- `i915_gem_object_put_pages` -/
def putPages (s : Sys) (o : Nat) : Option Sys :=
  if (s.objs o).pagesRefcount = 0 then none
  else some (s.modObj o fun x => { x with pagesRefcount := x.pagesRefcount - 1 })

/-! ## Eviction -/

/-- `i915_gem_object_unbind` -/
def unbind (i965 : Bool) (s : Sys) (o : Nat) : Option (Sys × Int) :=
  if (s.objs o).gttSpace = false then some (s, 0)
  else if (s.objs o).pinCount ≠ 0 then some (s, -einval)
  else
    match setToCpuDomain i965 s o true with
    | none => none
    | some (s, ret) =>
        if ret ≠ 0 then some (s, ret)
        else if (s.objs o).active = true then none
        else
          match putPages s o with
          | none => none
          | some s =>
              if (s.objs o).pagesRefcount ≠ 0 then none
              else some (s.modObj o fun x => { x with gttSpace := false }, 0)

/-- `active_list`, in some order -/
def Sys.activeList (s : Sys) : List Nat := (List.range s.count).filter fun o => (s.objs o).active

/-- An object is on `inactive_list` if nobody uses its place: there `i915_gem_object_unpin` puts it,
and from there `i915_gem_object_pin`, `_move_to_active` and `_unbind` take it. -/
def Obj.inactive (x : Obj) : Bool :=
  x.gttSpace && x.pinCount == 0 && !x.active && x.writeDomain &&& gpuDomains == 0

/-- `inactive_list`, in some order -/
def Sys.inactiveList (s : Sys) : List Nat :=
  (List.range s.count).filter fun o => (s.objs o).inactive

/-- `i915_gpu_idle`; nothing is ever on `flushing_list` -/
def i915GpuIdle (i965 : Bool) (s : Sys) : Option (Sys × Int) :=
  if s.activeList = [] then some (s, 0)
  else
    let seqno := s.nextGemSeqno
    let s := i915AddRequest (i915GemFlush i965 s gpuDomains gpuDomains) gpuDomains
    if seqno = 0 then some (s, -enomem) else some (s, if s.wedged then -eio else 0)

def unbindAll (i965 : Bool) : Sys → List Nat → Option (Sys × Int)
  | s, [] => some (s, 0)
  | s, o :: os =>
      match unbind i965 s o with
      | none => none
      | some (s, ret) => if ret ≠ 0 then some (s, ret) else unbindAll i965 s os

/-- `i915_gem_evict_from_inactive_list`; to unbind one object leaves the others on the list -/
def evictFromInactiveList (i965 : Bool) (s : Sys) : Option (Sys × Int) :=
  unbindAll i965 s s.inactiveList

/-- `i915_gem_evict_everything` -/
def evictEverything (i965 : Bool) (s : Sys) : Option (Sys × Int) :=
  if s.inactiveList = [] ∧ s.activeList = [] then some (s, -enospc)
  else
    match i915GpuIdle i965 s with
    | none => none
    | some (s, ret) =>
        if ret ≠ 0 then some (s, ret)
        else
          match evictFromInactiveList i965 s with
          | none => none
          | some (s, ret) =>
              if ret ≠ 0 then some (s, ret)
              else if s.inactiveList ≠ [] ∨ s.activeList ≠ [] then none
              else some (s, 0)

/-- `i915_gem_find_inactive_object`.  Which one it is, of those that are large enough, depends on
the order of the list and on what is dirty: `pick` says it. -/
def findInactiveObject (s : Sys) (minSize pick : Nat) : Option Nat :=
  let large := s.inactiveList.filter fun o => decide (minSize ≤ (s.objs o).size)
  if pick ∈ large then some pick else large.head?

/-- `i915_gem_evict_something`; no request is listed, so there is nothing to retire or wait for -/
def evictSomething (i965 : Bool) (s : Sys) (minSize pick : Nat) : Option (Sys × Int) :=
  match findInactiveObject s minSize pick with
  | some o => unbind i965 s o
  | none =>
      if s.inactiveList ≠ [] then evictFromInactiveList i965 s else evictEverything i965 s

/-- `i915_gem_object_get_pages_or_evict`, with the errors of both allocations -/
def getPagesOrEvict (i965 : Bool) (s : Sys) (o : Nat) (err : Int) (pick : Nat) (again : Int) :
    Option (Sys × Int) :=
  let (s, ret) := getPages s o err
  if ret = -enomem then
    match evictSomething i965 s (s.objs o).size pick with
    | none => none
    | some (s, ret) => if ret ≠ 0 then some (s, ret) else some (getPages s o again)
  else some (s, ret)

/-! ## Binding and pins -/

/-- What a round of `i915_gem_object_bind_to_gtt` meets: a place, the error of the allocations for
the pages, whether they can be entered in the aperture, and what to evict if something is missing.
-/
structure Round where
  space : Option Word
  pages : Int
  agp : Bool
  pick : Nat
  deriving DecidableEq, Repr

/-- How a round ends. -/
inductive Tried where
  | returns (ret : Int)
  | noSpace
  | noMemory
  deriving DecidableEq, Repr

/-- A round of `i915_gem_object_bind_to_gtt`, for an object whose place is found and noted -/
def bindPages (s : Sys) (o : Nat) (r : Round) : Option (Sys × Tried) :=
  let (s, ret) := getPages s o r.pages
  if ret = -enomem then some (s, .noMemory)
  else if ret ≠ 0 then some (s, .returns ret)
  else if r.agp = false then
    match putPages s o with
    | none => none
    | some s => some (s, .noSpace)
  else if (s.objs o).readDomains &&& gpuDomains ≠ 0 ∨ (s.objs o).writeDomain &&& gpuDomains ≠ 0 then
    none
  else some (s.modObj o fun x => { x with gttSpace := true }, .returns 0)

/-- A round of `i915_gem_object_bind_to_gtt`, from `search_free` on -/
def bindRound (s : Sys) (o : Nat) (r : Round) : Option (Sys × Tried) :=
  match r.space with
  | none => some (s, .noSpace)
  | some offset => bindPages (s.modObj o fun x => { x with gttOffset := offset }) o r

/-- What follows an eviction: the next round; after an error it is the last one, if there is one. -/
def afterEvict (evicted : Option (Sys × Int)) (retry : Bool)
    (next last : Sys → Option (Sys × Int)) : Option (Sys × Int) :=
  match evicted with
  | none => none
  | some (s, ret) => if ret = 0 then next s else if retry = true then last s else some (s, ret)

/-- The rounds.  After the pages could not be allocated and nothing could be evicted, there is one
more try without `gfpmask`.  A list that is used up is a loop that is not over. -/
def bindRounds (i965 : Bool) (o : Nat) : Bool → Sys → List Round → Option (Sys × Int)
  | _, _, [] => none
  | gfpmask, s, r :: rounds =>
      match bindRound s o r with
      | none => none
      | some (s, .returns ret) => some (s, ret)
      | some (s, lack) =>
          afterEvict (evictSomething i965 s (s.objs o).size r.pick) (lack == .noMemory && gfpmask)
            (fun s => bindRounds i965 o gfpmask s rounds)
            (fun s => bindRounds i965 o false s rounds)

/-- What `i915_gem_object_bind_to_gtt` meets; `valid` is whether the object is to be kept in memory
and the alignment is one of its own. -/
structure Bind where
  valid : Bool
  rounds : List Round
  deriving DecidableEq, Repr

/-- `i915_gem_object_bind_to_gtt` -/
def bindToGtt (i965 : Bool) (s : Sys) (o : Nat) (b : Bind) : Option (Sys × Int) :=
  if b.valid = false then some (s, -einval) else bindRounds i965 o true s b.rounds

/-- `i915_gem_object_pin` -/
def pin (i965 : Bool) (s : Sys) (o : Nat) (b : Bind) : Option (Sys × Int) :=
  match (if (s.objs o).gttSpace = false then bindToGtt i965 s o b else some (s, 0)) with
  | none => none
  | some (s, ret) =>
      if ret ≠ 0 then some (s, ret)
      else some (s.modObj o fun x => { x with pinCount := x.pinCount + 1 }, 0)

/-- `i915_gem_object_unpin` -/
def unpin (s : Sys) (o : Nat) : Option Sys :=
  if (s.objs o).pinCount = 0 ∨ (s.objs o).gttSpace = false then none
  else some (s.modObj o fun x => { x with pinCount := x.pinCount - 1 })

/-! ## What functions leave -/

variable {s t u : Sys} {x y z : Obj} {i965 : Bool} {o : Nat} {f : Obj → Obj}

/-- What only unbinding takes from an object. -/
structure Obj.Later (x y : Obj) : Prop where
  size : y.size = x.size
  active : x.active = true → y.active = true
  bound : x.gttSpace = true → y.gttSpace = true ∧ y.gttOffset = x.gttOffset
  pages : x.pagesRefcount ≤ y.pagesRefcount

theorem Obj.Stays.later (h : x.Stays y) : x.Later y :=
  ⟨h.size, h.active, fun hbound => ⟨h.gttSpace.trans hbound, h.gttOffset⟩, h.pagesRefcount.ge⟩

theorem Obj.Later.trans (h : x.Later y) (h' : y.Later z) : x.Later z := by
  refine ⟨h'.size.trans h.size, h'.active ∘ h.active, ?_, h.pages.trans h'.pages⟩
  intro hbound
  obtain ⟨hy, hoffset⟩ := h.bound hbound
  exact ⟨(h'.bound hy).1, (h'.bound hy).2.trans hoffset⟩

structure Sys.Later (s t : Sys) : Prop where
  count : t.count = s.count
  wedged : t.wedged = s.wedged
  objs : ∀ o, (s.objs o).Later (t.objs o)

theorem Sys.Stays.later (h : s.Stays t) : s.Later t :=
  ⟨h.count, h.wedged, fun o => (h.objs o).later⟩

theorem Sys.Later.refl (s : Sys) : s.Later s := (Sys.Stays.refl s).later

theorem Sys.Later.trans (h : s.Later t) (h' : t.Later u) : s.Later u :=
  ⟨h'.count.trans h.count, h'.wedged.trans h.wedged, fun o => (h.objs o).trans (h'.objs o)⟩

theorem modObj_self (s : Sys) (o : Nat) (f : Obj → Obj) : (s.modObj o f).objs o = f (s.objs o) :=
  Function.update_self ..

theorem modObj_other (s : Sys) {o p : Nat} (f : Obj → Obj) (h : p ≠ o) :
    (s.modObj o f).objs p = s.objs p := Function.update_of_ne h _ _

/-- A relation between the object before and after that holds of all the others. -/
theorem modObj_rel (s : Sys) {o : Nat} {f : Obj → Obj} {R : Obj → Obj → Prop}
    (hrefl : ∀ x, R x x) (hf : R (s.objs o) (f (s.objs o))) (p : Nat) :
    R (s.objs p) ((s.modObj o f).objs p) := by
  by_cases hp : p = o
  · rw [hp, modObj_self]
    exact hf
  · rw [modObj_other s f hp]
    exact hrefl _

theorem Sys.Later.modObj (s : Sys) {o : Nat} {f : Obj → Obj}
    (hf : (s.objs o).Later (f (s.objs o))) : s.Later (s.modObj o f) :=
  ⟨rfl, rfl, modObj_rel s (fun x => (Obj.Stays.refl x).later) hf⟩

/-- The chip may still use the place of the object in the aperture, or a client its pages. -/
def Obj.Kept (x : Obj) : Prop := x.gttSpace = true ∧ (x.active = true ∨ 2 ≤ x.pagesRefcount)

theorem Obj.Later.kept (h : x.Later y) (hx : x.Kept) : y.Kept :=
  ⟨(h.bound hx.1).1, hx.2.imp h.active fun hpages => hpages.trans h.pages⟩

/-- What binding and evicting leave. -/
structure Obj.Spared (x y : Obj) : Prop where
  size : y.size = x.size
  pendingReadDomains : y.pendingReadDomains = x.pendingReadDomains
  pendingWriteDomain : y.pendingWriteDomain = x.pendingWriteDomain
  pinCount : y.pinCount = x.pinCount
  kept : x.Kept → x.Later y

theorem Obj.Stays.spared (h : x.Stays y) : x.Spared y :=
  ⟨h.size, h.pendingReadDomains, h.pendingWriteDomain, h.pinCount, fun _ => h.later⟩

theorem Obj.Spared.trans (h : x.Spared y) (h' : y.Spared z) : x.Spared z := by
  refine ⟨h'.size.trans h.size, h'.pendingReadDomains.trans h.pendingReadDomains,
    h'.pendingWriteDomain.trans h.pendingWriteDomain, h'.pinCount.trans h.pinCount, ?_⟩
  intro hkept
  have hlater := h.kept hkept
  exact hlater.trans (h'.kept (hlater.kept hkept))

structure Sys.Spared (s t : Sys) : Prop where
  count : t.count = s.count
  wedged : t.wedged = s.wedged
  objs : ∀ o, (s.objs o).Spared (t.objs o)

theorem Sys.Stays.spared (h : s.Stays t) : s.Spared t :=
  ⟨h.count, h.wedged, fun o => (h.objs o).spared⟩

theorem Sys.Spared.refl (s : Sys) : s.Spared s := (Sys.Stays.refl s).spared

theorem Sys.Spared.trans (h : s.Spared t) (h' : t.Spared u) : s.Spared u :=
  ⟨h'.count.trans h.count, h'.wedged.trans h.wedged, fun o => (h.objs o).trans (h'.objs o)⟩

theorem Sys.Spared.modObj (s : Sys) {o : Nat} {f : Obj → Obj}
    (hf : (s.objs o).Spared (f (s.objs o))) : s.Spared (s.modObj o f) :=
  ⟨rfl, rfl, modObj_rel s (fun x => (Obj.Stays.refl x).spared) hf⟩

/-- What evicting leaves: it binds nothing either. -/
structure Sys.Evicts (s t : Sys) : Prop extends s.Spared t where
  unbound : ∀ o, (s.objs o).gttSpace = false → (t.objs o).gttSpace = false

theorem Sys.Stays.evicts (h : s.Stays t) : s.Evicts t :=
  ⟨h.spared, fun o hspace => (h.objs o).gttSpace.trans hspace⟩

theorem Sys.Evicts.refl (s : Sys) : s.Evicts s := (Sys.Stays.refl s).evicts

theorem Sys.Evicts.trans (h : s.Evicts t) (h' : t.Evicts u) : s.Evicts u :=
  ⟨h.toSpared.trans h'.toSpared, fun o hspace => h'.unbound o (h.unbound o hspace)⟩

/-- What holds after any call. -/
structure Sys.After (s t : Sys) : Prop where
  count : t.count = s.count
  size : ∀ o, (t.objs o).size = (s.objs o).size
  kept : ∀ o, (s.objs o).Kept → (s.objs o).Later (t.objs o)

theorem Sys.Later.after (h : s.Later t) : s.After t :=
  ⟨h.count, fun o => (h.objs o).size, fun o _ => h.objs o⟩

theorem Sys.Spared.after (h : s.Spared t) : s.After t :=
  ⟨h.count, fun o => (h.objs o).size, fun o => (h.objs o).kept⟩

theorem Sys.After.refl (s : Sys) : s.After s := (Sys.Spared.refl s).after

theorem Sys.After.trans (h : s.After t) (h' : t.After u) : s.After u := by
  refine ⟨h'.count.trans h.count, fun o => (h'.size o).trans (h.size o), fun o hkept => ?_⟩
  have hlater := h.kept o hkept
  exact hlater.trans (h'.kept o (hlater.kept hkept))

/-- Changes that do not touch the domains. -/
theorem Good.touch (h : Good s)
    (hplace : f (s.objs o) = (f (s.objs o)).place (s.objs o).readDomains (s.objs o).writeDomain
      (s.objs o).pageCpuValid)
    (hsize : (f (s.objs o)).size = (s.objs o).size) (hok : (f (s.objs o)).Ok) :
    Good (s.modObj o f) := by
  have hread : (f (s.objs o)).readDomains = (s.objs o).readDomains := by rw [hplace]; rfl
  have hwrite : (f (s.objs o)).writeDomain = (s.objs o).writeDomain := by rw [hplace]; rfl
  have hvalid : (f (s.objs o)).pageCpuValid = (s.objs o).pageCpuValid := by rw [hplace]; rfl
  refine h.move .refl hok hsize (by rw [hwrite]) ?_ ?_
  · intro w hw
    refine .inl ?_
    rw [Obj.writer, hwrite]
    exact hw
  · intro d i _ hr
    refine .inl ?_
    rw [Obj.Reads, hread, hwrite, Obj.pageValid, hvalid] at hr
    exact hr

/-- What a function does: it leaves `Q` when it comes back, and it comes back if `ok`. -/
structure Ends {α : Type} (ok : Prop) (r : Option α) (Q : α → Prop) : Prop where
  back : ok → r ≠ none
  post : ∀ a, r = some a → Q a

theorem Ends.of_some {α : Type} {ok : Prop} {a : α} {Q : α → Prop} (h : Q a) :
    Ends ok (some a) Q := by
  refine ⟨fun _ => Option.some_ne_none a, ?_⟩
  intro b hb
  cases hb
  exact h

theorem Ends.of_none {α : Type} {ok : Prop} {Q : α → Prop} (h : ¬ ok) :
    Ends ok (none : Option α) Q := by
  refine ⟨fun hok => absurd hok h, ?_⟩
  intro a ha
  cases ha

/-! ## Pages -/

theorem good_takePages (h : Good s) (o : Nat) :
    Good (s.modObj o fun x => { x with pagesRefcount := x.pagesRefcount + 1 }) ∧
      s.Spared (s.modObj o fun x => { x with pagesRefcount := x.pagesRefcount + 1 }) := by
  have hok := h.ok o
  refine ⟨h.touch rfl rfl ⟨hok.placed.congr rfl rfl rfl, hok.unbound, fun _ => Nat.succ_pos _,
    hok.pinned, hok.seqno, hok.valid⟩, .modObj s ⟨rfl, rfl, rfl, rfl, fun _ => ?_⟩⟩
  exact ⟨rfl, id, fun hbound => ⟨hbound, rfl⟩, Nat.le_succ _⟩

theorem getPages_eq (s : Sys) (o : Nat) (err : Int) :
    ((getPages s o err).2 = 0 → getPages s o err =
        (s.modObj o fun x => { x with pagesRefcount := x.pagesRefcount + 1 }, 0)) ∧
      ((getPages s o err).2 ≠ 0 → getPages s o err = (s, err)) := by
  unfold getPages
  split
  · rename_i herr
    exact ⟨fun hzero => absurd hzero herr.2, fun _ => rfl⟩
  · exact ⟨fun _ => rfl, fun hne => absurd rfl hne⟩

/-- Pages that were taken are given back after the object has moved. -/
theorem putPages_spec (h : Good s) (ht : Good t)
    (hst : (s.modObj o fun x => { x with pagesRefcount := x.pagesRefcount + 1 }).Stays t) :
    ∃ u, putPages t o = some u ∧ Good u ∧ s.Stays u := by
  have hcount : (t.objs o).pagesRefcount = (s.objs o).pagesRefcount + 1 := by
    rw [(hst.objs o).pagesRefcount, modObj_self]
  have hspace : (t.objs o).gttSpace = (s.objs o).gttSpace := by
    rw [(hst.objs o).gttSpace, modObj_self]
  have hok := ht.ok o
  unfold putPages
  rw [if_neg (by omega)]
  refine ⟨_, rfl, ?_, ?_⟩
  · refine ht.touch rfl rfl ⟨hok.placed.congr rfl rfl rfl, hok.unbound, ?_, hok.pinned, hok.seqno,
      hok.valid⟩
    intro hbound
    have hpages := (h.ok o).pages (hspace.symm.trans hbound)
    show 0 < (t.objs o).pagesRefcount - 1
    omega
  · refine ⟨hst.count, hst.wedged, fun p => ?_⟩
    by_cases hp : p = o
    · subst hp
      rw [modObj_self]
      have hstays := hst.objs p
      rw [modObj_self] at hstays
      refine ⟨hstays.size, hstays.pendingReadDomains, hstays.pendingWriteDomain, hstays.gttSpace,
        hstays.gttOffset, hstays.pinCount, ?_, hstays.active⟩
      show (t.objs p).pagesRefcount - 1 = (s.objs p).pagesRefcount
      omega
    · rw [modObj_other t _ hp]
      have hstays := hst.objs p
      rw [modObj_other s _ hp] at hstays
      exact hstays

/-! ## Unbinding -/

/-- The processor's object leaves its place, if nobody keeps it there. -/
theorem leave_spec (h : Good s) (hwd : (s.objs o).writeDomain = domain .cpu)
    (hpin : (s.objs o).pinCount = 0) (hfree : ¬ (s.objs o).Kept) :
    Good (s.modObj o fun x =>
        { x with pagesRefcount := x.pagesRefcount - 1, gttSpace := false }) ∧
      s.Evicts (s.modObj o fun x =>
        { x with pagesRefcount := x.pagesRefcount - 1, gttSpace := false }) := by
  have hok := h.ok o
  refine ⟨h.touch rfl rfl ⟨hok.placed.congr rfl rfl rfl, fun _ => hwd,
    fun hb => absurd hb Bool.false_ne_true, fun hp => absurd hpin hp.ne', hok.seqno, hok.valid⟩,
    .modObj s ⟨rfl, rfl, rfl, rfl, fun hkept => absurd hkept hfree⟩, fun p hp => ?_⟩
  by_cases hpo : p = o
  · rw [hpo, modObj_self]
  · rw [modObj_other s _ hpo]
    exact hp

/-- `i915_gem_object_unbind` need not come back, but what it unbinds is not in use. -/
theorem unbind_spec (h : Good s) {ret : Int} (hu : unbind i965 s o = some (t, ret)) :
    Good t ∧ s.Evicts t ∧ (ret = 0 → ¬ (s.objs o).Kept) := by
  unfold unbind at hu
  split_ifs at hu with hspace hpin
  · cases hu
    refine ⟨h, .refl s, fun _ hkept => ?_⟩
    exact absurd (hspace.symm.trans hkept.1) (by decide)
  · cases hu
    exact ⟨h, .refl s, fun hzero => absurd hzero (by decide)⟩
  · obtain ⟨u, err, hcpu, hgood, hstays, hwd⟩ := setToCpuDomain_spec h i965 o true
    rw [hcpu] at hu
    dsimp only at hu
    by_cases herr : err = 0
    · rw [if_neg (not_not.mpr herr)] at hu
      split at hu
      · cases hu
      · rename_i hactive
        unfold putPages at hu
        by_cases hzero : (u.objs o).pagesRefcount = 0
        · rw [if_pos hzero] at hu
          cases hu
        · rw [if_neg hzero] at hu
          dsimp only at hu
          rw [modObj_self] at hu
          split at hu
          · cases hu
          · rename_i hlast
            have hpages : (u.objs o).pagesRefcount = 1 := by
              have hsub : (u.objs o).pagesRefcount - 1 = 0 := not_not.mp hlast
              omega
            cases hu
            -- a kept object would be active, or have more references
            have hfree : ¬ (u.objs o).Kept := by
              rintro ⟨-, hact | htwo⟩
              · exact hactive hact
              · omega
            have heq : ((u.modObj o fun x =>
                { x with pagesRefcount := x.pagesRefcount - 1 }).modObj o fun x =>
                { x with gttSpace := false }) = u.modObj o fun x =>
                { x with pagesRefcount := x.pagesRefcount - 1, gttSpace := false } := by
              simp only [Sys.modObj, Function.update_self, Function.update_idem]
            have hpin' : (u.objs o).pinCount = 0 :=
              (hstays.objs o).pinCount.trans (not_not.mp hpin)
            obtain ⟨hgood', hevicts⟩ := leave_spec hgood (hwd herr rfl) hpin' hfree
            rw [heq]
            exact ⟨hgood', hstays.evicts.trans hevicts,
              fun _ hkept => hfree ((hstays.objs o).later.kept hkept)⟩
    · rw [if_pos herr] at hu
      cases hu
      exact ⟨hgood, hstays.evicts, fun hzero => absurd hzero herr⟩

/-- The chip uses the object, or will be seen to when it is flushed. -/
def Obj.Busy (x : Obj) : Prop := x.active = true ∨ x.writeDomain = domain .render

theorem flushGpuWriteDomain_active (h : Good s) (ht : flushGpuWriteDomain i965 s o = some t) :
    (t.objs o).active = true ↔ (s.objs o).Busy := by
  unfold flushGpuWriteDomain at ht
  dsimp only at ht
  by_cases hgpu : (s.objs o).writeDomain &&& gpuDomains = 0
  · rw [if_pos hgpu] at ht
    cases ht
    have hwd : (s.objs o).writeDomain ≠ domain .render := fun hwd =>
      (h.ok o).placed.gpu.mpr hwd hgpu
    exact (or_iff_left hwd).symm
  · rw [if_neg hgpu] at ht
    have hwd : (s.objs o).writeDomain = domain .render := (h.ok o).placed.gpu.mp hgpu
    split at ht
    · cases ht
    · cases ht
      refine iff_of_true ?_ (.inr hwd)
      have hne : domain .render ≠ 0 := by decide
      rw [i915GemFlush_eq, hwd, i915AddRequest]
      simp only [if_pos hne]
      refine (congrArg Obj.active (processFlushingList_objs h.list _ _ o)).trans ?_
      rw [if_pos ⟨hwd, by decide⟩]
      rfl

theorem waitRendering_eq (h : Good s) (hgpu : (s.objs o).writeDomain &&& gpuDomains = 0) :
    waitRendering s o =
      some (if (s.objs o).active = true ∧ s.wedged = true then -eio else 0) := by
  unfold waitRendering
  rw [if_neg (not_not.mpr hgpu)]
  cases hactive : (s.objs o).active with
  | false => simp only [if_true, Bool.false_eq_true, false_and, if_false]
  | true =>
      simp only [Bool.true_eq_false, if_false, if_neg ((h.ok o).seqno hactive), true_and]
      split <;> rfl

theorem setToCpuDomain_busy (h : Good s) (i965 : Bool) (o : Nat) :
    ∃ t ret, setToCpuDomain i965 s o true = some (t, ret) ∧ s.Stays t ∧
      ((t.objs o).active = true ↔ (s.objs o).Busy) ∧
      (ret = 0 ↔ ¬ ((s.objs o).Busy ∧ s.wedged = true)) := by
  obtain ⟨t, hflush, hgood, hstays, hgpu⟩ := flushGpuWriteDomain_spec h i965 o
  have hbusy := flushGpuWriteDomain_active h hflush
  have hwait := waitRendering_eq hgood hgpu
  rw [hstays.wedged] at hwait
  unfold setToCpuDomain afterFlush
  rw [hflush]
  dsimp only
  rw [hwait]
  dsimp only
  by_cases hfail : (t.objs o).active = true ∧ s.wedged = true
  · rw [if_pos hfail, if_pos (by decide)]
    refine ⟨t, -eio, rfl, hstays, hbusy, iff_of_false (by decide) ?_⟩
    exact not_not.mpr ⟨hbusy.mp hfail.1, hfail.2⟩
  · rw [if_neg hfail, if_neg (by decide)]
    obtain ⟨u, hu, -, hstays', hactive, -⟩ := moveToCpu_spec hgood hgpu true
    refine ⟨u, 0, hu, hstays.trans hstays', ?_, iff_of_true rfl ?_⟩
    · rw [hactive]
      exact hbusy
    · exact fun hboth => hfail ⟨hbusy.mpr hboth.1, hboth.2⟩

theorem unbind_none_iff (h : Good s) (i965 : Bool) (o : Nat) :
    unbind i965 s o = none ↔ (s.objs o).gttSpace = true ∧ (s.objs o).pinCount = 0 ∧
      ((s.objs o).Busy → s.wedged = false) ∧
      (¬ (s.objs o).Busy → (s.objs o).pagesRefcount ≠ 1) := by
  unfold unbind
  by_cases hspace : (s.objs o).gttSpace = false
  · rw [if_pos hspace]
    exact iff_of_false (Option.some_ne_none _)
      fun hall => absurd (hspace.symm.trans hall.1) (by decide)
  · rw [if_neg hspace]
    have hbound := Bool.eq_true_of_not_eq_false hspace
    by_cases hpin : (s.objs o).pinCount = 0
    · rw [if_neg (not_not.mpr hpin)]
      obtain ⟨t, ret, ht, hstays, hactive, hret⟩ := setToCpuDomain_busy h i965 o
      have hpages : (t.objs o).pagesRefcount = (s.objs o).pagesRefcount :=
        (hstays.objs o).pagesRefcount
      have hpositive : 0 < (s.objs o).pagesRefcount := (h.ok o).pages hbound
      rw [ht]
      dsimp only
      by_cases hbusy : (s.objs o).Busy
      · cases hwedged : s.wedged with
        | true =>
            have hne : ret ≠ 0 := fun hzero => hret.mp hzero ⟨hbusy, hwedged⟩
            rw [if_pos hne]
            exact iff_of_false (Option.some_ne_none _)
              fun hall => absurd (hall.2.2.1 hbusy) (by decide)
        | false =>
            have hzero : ret = 0 := hret.mpr fun hboth =>
              absurd (hwedged.symm.trans hboth.2) (by decide)
            rw [if_neg (not_not.mpr hzero), if_pos (hactive.mpr hbusy)]
            exact iff_of_true rfl ⟨hbound, hpin, fun _ => rfl, fun hidle => absurd hbusy hidle⟩
      · have hzero : ret = 0 := hret.mpr fun hboth => hbusy hboth.1
        rw [if_neg (not_not.mpr hzero), if_neg (fun hact => hbusy (hactive.mp hact)), putPages,
          if_neg (by omega)]
        dsimp only
        rw [modObj_self]
        by_cases hlast : (s.objs o).pagesRefcount = 1
        · rw [if_neg (not_not.mpr (by dsimp only; omega))]
          exact iff_of_false (Option.some_ne_none _) fun hall => hall.2.2.2 hbusy hlast
        · rw [if_pos (by dsimp only; omega)]
          exact iff_of_true rfl ⟨hbound, hpin, fun hb => absurd hb hbusy, fun _ => hlast⟩
    · rw [if_pos hpin]
      exact iff_of_false (Option.some_ne_none _) fun hall => hpin hall.2.1

/-! ## Evicting -/

theorem i915GpuIdle_spec (h : Good s) (i965 : Bool) :
    ∃ t ret, i915GpuIdle i965 s = some (t, ret) ∧ Good t ∧ s.Stays t := by
  unfold i915GpuIdle
  split
  · exact ⟨s, 0, rfl, h, .refl s⟩
  · dsimp only
    rw [if_neg h.seqno]
    exact ⟨_, _, rfl, good_flush h i965 _ _, stays_flush s i965 _ _⟩

theorem unbindAll_spec (h : Good s) {os : List Nat} {ret : Int}
    (hu : unbindAll i965 s os = some (t, ret)) : Good t ∧ s.Evicts t := by
  induction os generalizing s with
  | nil =>
      cases hu
      exact ⟨h, .refl _⟩
  | cons o os ih =>
      rw [unbindAll] at hu
      cases hone : unbind i965 s o with
      | none =>
          rw [hone] at hu
          cases hu
      | some res =>
          obtain ⟨u, err⟩ := res
          obtain ⟨hgood, hevicts, -⟩ := unbind_spec h hone
          rw [hone] at hu
          dsimp only at hu
          by_cases herr : err = 0
          · rw [if_neg (not_not.mpr herr)] at hu
            obtain ⟨hgood', hevicts'⟩ := ih hgood hu
            exact ⟨hgood', hevicts.trans hevicts'⟩
          · rw [if_pos herr] at hu
            cases hu
            exact ⟨hgood, hevicts⟩

theorem evictEverything_spec (h : Good s) {ret : Int}
    (he : evictEverything i965 s = some (t, ret)) : Good t ∧ s.Evicts t := by
  unfold evictEverything at he
  split at he
  · cases he
    exact ⟨h, .refl s⟩
  · obtain ⟨u, err, hidle, hgood, hstays⟩ := i915GpuIdle_spec h i965
    rw [hidle] at he
    dsimp only at he
    split at he
    · cases he
      exact ⟨hgood, hstays.evicts⟩
    · cases hall : evictFromInactiveList i965 u with
      | none =>
          rw [hall] at he
          cases he
      | some res =>
          obtain ⟨v, err'⟩ := res
          obtain ⟨hgood', hevicts⟩ := unbindAll_spec hgood hall
          rw [hall] at he
          dsimp only at he
          split_ifs at he
          · cases he
            exact ⟨hgood', hstays.evicts.trans hevicts⟩
          · cases he
            exact ⟨hgood', hstays.evicts.trans hevicts⟩

theorem evictSomething_spec (h : Good s) {minSize pick : Nat} {ret : Int}
    (he : evictSomething i965 s minSize pick = some (t, ret)) : Good t ∧ s.Evicts t := by
  unfold evictSomething at he
  split at he
  · obtain ⟨hgood, hevicts, -⟩ := unbind_spec h he
    exact ⟨hgood, hevicts⟩
  · split at he
    · exact unbindAll_spec h he
    · exact evictEverything_spec h he

/-- What taking the pages does: after a success they are taken once more, of a state in which
others may be evicted. -/
def Taken (s : Sys) (o : Nat) (a : Sys × Int) : Prop :=
  ∃ u, Good u ∧ s.Spared u ∧ if a.2 = 0 then a.1 = u.modObj o fun x =>
    { x with pagesRefcount := x.pagesRefcount + 1 } else a.1 = u

theorem getPages_taken (ht : Good t) (h : s.Spared t) (o : Nat) (err : Int) :
    Taken s o (getPages t o err) := by
  obtain ⟨hzero, hne⟩ := getPages_eq t o err
  refine ⟨t, ht, h, ?_⟩
  split
  · rename_i hret
    rw [hzero hret]
  · rename_i hret
    rw [hne hret]

theorem getPagesOrEvict_spec (h : Good s) (i965 : Bool) (o : Nat) (err : Int) (pick : Nat)
    (again : Int) : Ends (err ≠ -enomem) (getPagesOrEvict i965 s o err pick again) (Taken s o) := by
  unfold getPagesOrEvict
  dsimp only
  split
  · rename_i hnomem
    obtain ⟨-, hne⟩ := getPages_eq s o err
    have hret : (getPages s o err).2 ≠ 0 := by
      rw [hnomem]
      decide
    have herr : ¬ err ≠ -enomem := by
      rw [hne hret] at hnomem
      exact not_not.mpr hnomem
    rw [hne hret]
    dsimp only
    cases hevict : evictSomething i965 s (s.objs o).size pick with
    | none => exact .of_none herr
    | some res =>
        obtain ⟨u, ret⟩ := res
        obtain ⟨hgood, hevicts⟩ := evictSomething_spec h hevict
        dsimp only
        by_cases hzero : ret = 0
        · rw [if_neg (not_not.mpr hzero)]
          exact .of_some (getPages_taken hgood hevicts.toSpared o again)
        · rw [if_pos hzero]
          refine .of_some ⟨u, hgood, hevicts.toSpared, ?_⟩
          rw [if_neg hzero]
  · exact .of_some (getPages_taken h (.refl s) o err)

/-! ## Binding -/

/-- Nothing has to be evicted: the first round has a place, and if there are no pages, then not for
want of memory or space. -/
def Round.fits (r : Round) : Bool :=
  r.space.isSome && r.pages != -enomem && r.pages != -enospc && r.agp

def Bind.fits (b : Bind) : Bool := !b.valid || (b.rounds.head?.any Round.fits)

/-- What a round does for an object that is not bound. -/
structure Rounds (s : Sys) (o : Nat) (r : Round) (t : Sys) (tried : Tried) : Prop where
  good : Good t
  spared : s.Spared t
  bound : tried = .returns 0 → (t.objs o).gttSpace = true
  unbound : (∀ ret, tried ≠ .returns ret) → (t.objs o).gttSpace = false
  fits : r.fits = true → ∃ ret, tried = .returns ret ∧ ret ≠ -enospc

/-- An object that is not bound is the processor's.  With its pages it gets its place. -/
theorem enter_spec (h : Good s) (hspace : (s.objs o).gttSpace = false)
    (hpages : 0 < (s.objs o).pagesRefcount) :
    ¬ ((s.objs o).readDomains &&& gpuDomains ≠ 0 ∨ (s.objs o).writeDomain &&& gpuDomains ≠ 0) ∧
      Good (s.modObj o fun x => { x with gttSpace := true }) ∧
      s.Spared (s.modObj o fun x => { x with gttSpace := true }) := by
  have hok := h.ok o
  have hwd := hok.unbound hspace
  have hrd := hok.placed.readDomains (by decide) hwd
  have hbound : true = false → (s.objs o).writeDomain = domain .cpu :=
    fun hfalse => absurd hfalse (by decide)
  refine ⟨?_, ?_, .modObj s ⟨rfl, rfl, rfl, rfl, fun hkept => ?_⟩⟩
  · rw [hrd, hwd]
    decide
  · exact h.touch rfl rfl ⟨hok.placed.congr rfl rfl rfl, hbound, fun _ => hpages, fun _ => rfl,
      hok.seqno, hok.valid⟩
  · exact absurd (hspace.symm.trans hkept.1) (by decide)

theorem bindPages_spec (h : Good s) (hspace : (s.objs o).gttSpace = false) (r : Round) :
    ∃ t tried, bindPages s o r = some (t, tried) ∧ Rounds s o r t tried := by
  obtain ⟨hzero, hne⟩ := getPages_eq s o r.pages
  unfold bindPages
  dsimp only
  by_cases hret : (getPages s o r.pages).2 = 0
  · rw [hzero hret]
    obtain ⟨hgood, hspared⟩ := good_takePages h o
    have hcode : ¬ (0 : Int) = -enomem := by decide
    simp only [if_neg hcode, ne_eq, not_true_eq_false, if_false]
    by_cases hagp : r.agp = false
    · rw [if_pos hagp]
      obtain ⟨u, hput, hgoodu, hstays⟩ := putPages_spec h hgood (.refl _)
      rw [hput]
      refine ⟨u, .noSpace, rfl, hgoodu, hstays.spared, fun heq => ?_, fun _ => ?_, fun hfits => ?_⟩
      · cases heq
      · exact (hstays.objs o).gttSpace.trans hspace
      · rw [Round.fits, hagp, Bool.and_false] at hfits
        cases hfits
    · rw [if_neg hagp]
      obtain ⟨hcpu, hgood', hspared'⟩ := enter_spec hgood (o := o)
        (by rw [modObj_self]; exact hspace) (by rw [modObj_self]; exact Nat.succ_pos _)
      rw [if_neg hcpu]
      refine ⟨_, .returns 0, rfl, hgood', hspared.trans hspared', fun _ => ?_,
        fun hno => absurd rfl (hno 0), fun _ => ⟨0, rfl, by decide⟩⟩
      rw [modObj_self]
  · rw [hne hret]
    have herr : r.pages ≠ 0 := by
      rw [hne hret] at hret
      exact hret
    dsimp only
    by_cases hnomem : r.pages = -enomem
    · rw [if_pos hnomem]
      refine ⟨s, .noMemory, rfl, h, .refl s, fun heq => ?_, fun _ => hspace, fun hfits => ?_⟩
      · cases heq
      · simp [Round.fits, hnomem] at hfits
    · rw [if_neg hnomem, if_pos herr]
      refine ⟨s, .returns r.pages, rfl, h, .refl s, fun heq => ?_, fun hno => ?_,
        fun hfits => ⟨r.pages, rfl, fun hnospc => ?_⟩⟩
      · exact absurd (Tried.returns.inj heq) herr
      · exact absurd rfl (hno r.pages)
      · simp [Round.fits, hnospc] at hfits

theorem bindRound_spec (h : Good s) (hspace : (s.objs o).gttSpace = false) (r : Round) :
    ∃ t tried, bindRound s o r = some (t, tried) ∧ Rounds s o r t tried := by
  unfold bindRound
  cases hplace : r.space with
  | none =>
      refine ⟨s, .noSpace, rfl, h, .refl s, fun heq => ?_, fun _ => hspace, fun hfits => ?_⟩
      · cases heq
      · rw [Round.fits, hplace] at hfits
        cases hfits
  | some offset =>
      -- the place is noted, though it may be given up again
      have hok := h.ok o
      have hgood : Good (s.modObj o fun x => { x with gttOffset := offset }) := h.touch rfl rfl
        ⟨hok.placed.congr rfl rfl rfl, hok.unbound, hok.pages, hok.pinned, hok.seqno, hok.valid⟩
      have hspared : s.Spared (s.modObj o fun x => { x with gttOffset := offset }) :=
        .modObj s ⟨rfl, rfl, rfl, rfl,
          fun hkept => absurd (hspace.symm.trans hkept.1) (by decide)⟩
      obtain ⟨t, tried, ht, hround⟩ := bindPages_spec hgood (o := o)
        (by rw [modObj_self]; exact hspace) r
      exact ⟨t, tried, ht, hround.good, hspared.trans hround.spared, hround.bound, hround.unbound,
        hround.fits⟩

/-- The loop, by induction on the rounds. -/
theorem bindRounds_spec {rounds : List Round} {gfpmask : Bool} {ret : Int} (h : Good s)
    (hspace : (s.objs o).gttSpace = false)
    (hb : bindRounds i965 o gfpmask s rounds = some (t, ret)) :
    Good t ∧ s.Spared t ∧ (ret = 0 → (t.objs o).gttSpace = true) := by
  induction rounds generalizing s gfpmask with
  | nil => cases hb
  | cons r rounds ih =>
      obtain ⟨u, tried, hround, hgood, hspared, hbound, hunbound, -⟩ := bindRound_spec h hspace r
      simp only [bindRounds, hround] at hb
      -- what follows if something is missing, whatever it is
      have hlack : ∀ {retry : Bool}, (∀ ret, tried ≠ .returns ret) →
          afterEvict (evictSomething i965 u (u.objs o).size r.pick) retry
            (fun s => bindRounds i965 o gfpmask s rounds)
            (fun s => bindRounds i965 o false s rounds) = some (t, ret) →
          Good t ∧ s.Spared t ∧ (ret = 0 → (t.objs o).gttSpace = true) := by
        intro retry hno hb
        unfold afterEvict at hb
        cases hevict : evictSomething i965 u (u.objs o).size r.pick with
        | none =>
            rw [hevict] at hb
            cases hb
        | some res =>
            obtain ⟨v, err⟩ := res
            obtain ⟨hgoodv, hevicts⟩ := evictSomething_spec hgood hevict
            have hspace' := hevicts.unbound o (hunbound hno)
            rw [hevict] at hb
            dsimp only at hb
            split_ifs at hb with hzero hretry
            · obtain ⟨hgoodt, hspared', hbound'⟩ := ih hgoodv hspace' hb
              exact ⟨hgoodt, hspared.trans (hevicts.toSpared.trans hspared'), hbound'⟩
            · obtain ⟨hgoodt, hspared', hbound'⟩ := ih hgoodv hspace' hb
              exact ⟨hgoodt, hspared.trans (hevicts.toSpared.trans hspared'), hbound'⟩
            · cases hb
              exact ⟨hgoodv, hspared.trans hevicts.toSpared, fun hret => absurd hret hzero⟩
      cases tried with
      | returns err =>
          cases hb
          exact ⟨hgood, hspared, fun hret => hbound (by rw [hret])⟩
      | noSpace => exact hlack (fun _ => Tried.noConfusion) hb
      | noMemory => exact hlack (fun _ => Tried.noConfusion) hb

theorem bindToGtt_spec (h : Good s) (i965 : Bool) (hspace : (s.objs o).gttSpace = false)
    (b : Bind) :
    Ends (b.fits = true) (bindToGtt i965 s o b) fun a => Good a.1 ∧ s.Spared a.1 ∧
      (a.2 = 0 → (a.1.objs o).gttSpace = true) ∧ (b.fits = true → a.2 ≠ -enospc) := by
  unfold bindToGtt
  by_cases hvalid : b.valid = false
  · rw [if_pos hvalid]
    have hne : ¬ -einval = 0 := by decide
    have hne' : -einval ≠ -enospc := by decide
    exact .of_some ⟨h, .refl s, fun hzero => absurd hzero hne, fun _ => hne'⟩
  · rw [if_neg hvalid]
    -- the first round is the last one if the object fits
    have hfirst : b.fits = true → ∃ t ret,
        bindRounds i965 o true s b.rounds = some (t, ret) ∧ ret ≠ -enospc := by
      intro hfits
      cases hrounds : b.rounds with
      | nil => simp [Bind.fits, hvalid, hrounds] at hfits
      | cons r rounds =>
          have hr : r.fits = true := by simpa [Bind.fits, hvalid, hrounds] using hfits
          obtain ⟨t, tried, hround, -, -, -, -, hends⟩ := bindRound_spec h hspace r
          obtain ⟨ret, rfl, hret⟩ := hends hr
          refine ⟨t, ret, ?_, hret⟩
          rw [bindRounds, hround]
    refine ⟨fun hfits => ?_, ?_⟩
    · obtain ⟨t, ret, hb, -⟩ := hfirst hfits
      rw [hb]
      exact Option.some_ne_none _
    · rintro ⟨t, ret⟩ hb
      obtain ⟨hgood, hspared, hbound⟩ := bindRounds_spec h hspace hb
      refine ⟨hgood, hspared, hbound, fun hfits => ?_⟩
      obtain ⟨t', ret', hb', hret⟩ := hfirst hfits
      rw [hb] at hb'
      cases hb'
      exact hret

/-! ## Pins -/

/-- What pinning the object `o` does to a state. -/
structure Pins (o : Nat) (s t : Sys) (ret : Int) : Prop where
  good : Good t
  after : s.After t
  others : ∀ p, p ≠ o → (t.objs p).pinCount = (s.objs p).pinCount
  own : ret = 0 → 0 < (t.objs o).pinCount
  pendingReadDomains : ∀ p, (t.objs p).pendingReadDomains = (s.objs p).pendingReadDomains
  pendingWriteDomain : ∀ p, (t.objs p).pendingWriteDomain = (s.objs p).pendingWriteDomain

/-- The count goes up where the object has its place. -/
theorem Pins.of_bound (ht : Good t) (h : s.Spared t) (hbound : (t.objs o).gttSpace = true) :
    Pins o s (t.modObj o fun x => { x with pinCount := x.pinCount + 1 }) 0 := by
  have hok := ht.ok o
  have hother : ∀ p, p ≠ o →
      (t.modObj o fun x => { x with pinCount := x.pinCount + 1 }).objs p = t.objs p :=
    fun p hp => modObj_other t _ hp
  have hlater : t.Later (t.modObj o fun x => { x with pinCount := x.pinCount + 1 }) :=
    .modObj t ⟨rfl, id, fun hb => ⟨hb, rfl⟩, Nat.le_refl _⟩
  refine ⟨?_, h.after.trans hlater.after, ?_, fun _ => ?_, fun p => ?_, fun p => ?_⟩
  · exact ht.touch rfl rfl ⟨hok.placed.congr rfl rfl rfl, hok.unbound, hok.pages, fun _ => hbound,
      hok.seqno, hok.valid⟩
  · intro p hp
    rw [hother p hp]
    exact (h.objs p).pinCount
  · rw [modObj_self]
    exact Nat.succ_pos _
  · refine Eq.trans ?_ (h.objs p).pendingReadDomains
    exact modObj_rel t (R := fun x y => y.pendingReadDomains = x.pendingReadDomains)
      (fun _ => rfl) rfl p
  · refine Eq.trans ?_ (h.objs p).pendingWriteDomain
    exact modObj_rel t (R := fun x y => y.pendingWriteDomain = x.pendingWriteDomain)
      (fun _ => rfl) rfl p

theorem pin_spec (h : Good s) (i965 : Bool) (o : Nat) (b : Bind) :
    Ends (b.fits = true) (pin i965 s o b) fun a =>
      Pins o s a.1 a.2 ∧ (b.fits = true → a.2 ≠ -enospc) := by
  have hzero : (0 : Int) ≠ -enospc := by decide
  unfold pin
  by_cases hspace : (s.objs o).gttSpace = false
  · rw [if_pos hspace]
    obtain ⟨hback, hpost⟩ := bindToGtt_spec h i965 hspace b
    cases hb : bindToGtt i965 s o b with
    | none => exact .of_none fun hfits => hback hfits hb
    | some res =>
        obtain ⟨t, ret⟩ := res
        obtain ⟨hgood, hspared, hbound, hcode⟩ := hpost _ hb
        dsimp only at hgood hspared hbound hcode ⊢
        by_cases hret : ret = 0
        · rw [if_neg (not_not.mpr hret)]
          exact .of_some ⟨.of_bound hgood hspared (hbound hret), fun _ => hzero⟩
        · rw [if_pos hret]
          exact .of_some ⟨⟨hgood, hspared.after, fun p _ => (hspared.objs p).pinCount,
            fun h0 => absurd h0 hret, fun p => (hspared.objs p).pendingReadDomains,
            fun p => (hspared.objs p).pendingWriteDomain⟩, hcode⟩
  · rw [if_neg hspace]
    simp only [ne_eq, not_true_eq_false, if_false]
    exact .of_some ⟨.of_bound h (.refl s) (Bool.eq_true_of_not_eq_false hspace), fun _ => hzero⟩

theorem unpin_spec (h : Good s) (hpin : 0 < (s.objs o).pinCount) :
    unpin s o = some (s.modObj o fun x => { x with pinCount := x.pinCount - 1 }) ∧
      Good (s.modObj o fun x => { x with pinCount := x.pinCount - 1 }) ∧
      s.Later (s.modObj o fun x => { x with pinCount := x.pinCount - 1 }) := by
  have hok := h.ok o
  have hbound := hok.pinned hpin
  refine ⟨?_, ?_, ?_⟩
  · unfold unpin
    rw [if_neg]
    rintro (hzero | hspace)
    · omega
    · rw [hbound] at hspace
      cases hspace
  · exact h.touch rfl rfl ⟨hok.placed.congr rfl rfl rfl, hok.unbound, hok.pages, fun _ => hbound,
      hok.seqno, hok.valid⟩
  · exact .modObj s ⟨rfl, id, fun hb => ⟨hb, rfl⟩, Nat.le_refl _⟩

end LinuxDrivers.Gpu.Domains
