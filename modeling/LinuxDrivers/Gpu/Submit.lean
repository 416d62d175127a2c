/-
# `LinuxDrivers.Gpu.Submit` — the domains of a batch

Between the relocations and the start of a batch the domains of all its objects change together.  In
between, domains and caches do not agree: an object has its new read domains while the flush that
makes them true is still being added up.

    `i915_gem_object_set_to_gpu_domain`, for every object    adds up flushes and invalidations
    `i915_gem_flush`, `i915_add_request`                     one flush for all of them
    the loop over the objects after it                       enters the new write domains

So the three steps are described one by one (`Gathered`, `Flushed`, `Entered`), and the agreement is
proved for the state after the last (`Entered.good`).

**Proved here.**  If every object of the list is declared, that is read through the chip, or
rendered to and read in the render domain only, then the submission comes back, domains and caches
agree, and after a success every object of the list is active (`submit_spec`).
-/
import LinuxDrivers.Gpu.Execbuffer

namespace LinuxDrivers.Gpu.Domains

open LinuxDrivers.Lib

/-! ## The domains of a batch -/

/-- A batch says how it uses an object: it reads it, through the chip, or it renders to it and
reads it in the render domain only. -/
def Obj.Declared (x : Obj) : Prop :=
  (x.pendingWriteDomain = 0 ∧ x.pendingReadDomains &&& gpuDomains ≠ 0) ∨
    (x.pendingWriteDomain = domain .render ∧ x.pendingReadDomains = domain .render)

instance (x : Obj) : Decidable x.Declared := inferInstanceAs (Decidable (_ ∨ _))

theorem Obj.Declared.gpuRead_gpu {x : Obj} (h : x.Declared) : x.gpuRead &&& gpuDomains ≠ 0 := by
  unfold Obj.gpuRead
  rcases h with ⟨hw, hr⟩ | ⟨hw, hr⟩
  · rw [if_pos hw]
    intro hzero
    refine hr ?_
    rw [BitVec.and_comm, BitVec.and_or_distrib_left] at hzero
    rw [BitVec.and_comm]
    exact (BitVec.or_eq_zero_iff.mp hzero).1
  · have hne : ¬ domain .render = 0 := by decide
    rw [hw, hr, if_neg hne]
    decide

/-- The domain an object is written in is flushed, unless it stays in the render domain. -/
theorem Obj.Declared.flush {x : Obj} (h : x.Declared) (hplaced : x.Placed)
    (hw : x.writeDomain ≠ 0) : x.gpuFlush = x.writeDomain ∨
      x.writeDomain = domain .render ∧ x.gpuWrite = domain .render := by
  by_cases hread : x.writeDomain = x.gpuRead
  · have hrender : x.writeDomain = domain .render := by
      refine hplaced.gpu.mp ?_
      rw [hread]
      exact h.gpuRead_gpu
    refine .inr ⟨hrender, ?_⟩
    unfold Obj.gpuWrite
    split
    · exact hrender
    · rcases h with ⟨hzero, -⟩ | ⟨hpw, -⟩
      · rename_i hne
        refine absurd ⟨?_, hzero⟩ hne
        exact if_neg fun hboth => hboth.2 hread
      · exact hpw
  · exact .inl (if_pos ⟨hw, hread⟩)

/-- After the batch an object is clean or in the render domain. -/
theorem Obj.Declared.write {x : Obj} (h : x.Declared) (hplaced : x.Placed) :
    x.gpuWrite = 0 ∨ x.gpuWrite = domain .render ∧ x.gpuRead = domain .render := by
  by_cases hw : x.writeDomain = 0
  · rcases h with ⟨hpw, -⟩ | ⟨hpw, hpr⟩
    · refine .inl ?_
      rw [Obj.gpuWrite, hpw, hw]
      split <;> rfl
    · refine .inr ⟨?_, ?_⟩
      · rw [Obj.gpuWrite, hpw]
        exact if_neg fun hboth => absurd hboth.2 (by decide)
      · rw [Obj.gpuRead, hpw, hpr]
        rfl
  · have hkeep := h.flush hplaced hw
    rcases h with ⟨hpw, hpr⟩ | ⟨hpw, hpr⟩
    · by_cases hflush : x.gpuFlush = 0
      · have hread : x.writeDomain = x.gpuRead := by
          by_contra hne
          exact hw ((if_pos ⟨hw, hne⟩ : x.gpuFlush = x.writeDomain).symm.trans hflush)
        rcases hkeep with hkeep | ⟨hrender, hwrite⟩
        · exact absurd (hkeep.symm.trans hflush) hw
        · exact .inr ⟨hwrite, hread.symm.trans hrender⟩
      · refine .inl ?_
        rw [Obj.gpuWrite, if_neg fun hboth => hflush hboth.1]
        exact hpw
    · refine .inr ⟨?_, ?_⟩
      · rw [Obj.gpuWrite, hpw]
        exact if_neg fun hboth => absurd hboth.2 (by decide)
      · rw [Obj.gpuRead, hpw, hpr]
        rfl

/-- Whoever reads the object in the batch could do so before, or is invalidated. -/
theorem Obj.gpuInvalidate_of_new {x : Obj} {d : Agent} (hr : x.gpuRead &&& domain d ≠ 0)
    (hnew : ¬ x.readDomains &&& domain d ≠ 0) : x.gpuInvalidate &&& domain d ≠ 0 := by
  rw [and_domain] at hr hnew ⊢
  have hlt : d.index < 32 := by cases d <;> decide
  have hbit : (x.gpuRead &&& ~~~x.readDomains).getLsbD d.index = true := by
    rw [BitVec.getLsbD_and, BitVec.getLsbD_not, hr, Bool.eq_false_of_not_eq_true hnew]
    simp only [hlt, decide_true, Bool.not_false, Bool.and_self]
  rw [Obj.gpuInvalidate, BitVec.getLsbD_or, hbit, Bool.or_true]

/-- The processor is not among those a batch lets in. -/
theorem Obj.Clean.cpu {x : Obj} (h : x.Clean) (hr : x.gpuRead &&& domain .cpu ≠ 0) :
    x.readDomains &&& domain .cpu ≠ 0 := by
  have hpr : ¬ x.pendingReadDomains &&& domain .cpu ≠ 0 := not_not.mpr h.1
  unfold Obj.gpuRead at hr
  split at hr
  · rw [and_domain] at hr hpr ⊢
    rw [BitVec.getLsbD_or, Bool.eq_false_of_not_eq_true hpr, Bool.false_or] at hr
    exact hr
  · exact absurd hr hpr

/-! ## Adding up -/

/-- The state after the domains of the objects `os` were added up. -/
structure Gathered (s : Sys) (os : List Nat) (t : Sys) : Prop where
  count : t.count = s.count
  wedged : t.wedged = s.wedged
  list : t.gpuWriteList = s.gpuWriteList
  seqno : t.nextGemSeqno = s.nextGemSeqno
  objs : ∀ o, t.objs o = if o ∈ os then (s.objs o).toGpu else s.objs o
  cleaned : s.hw.Cleaned t.hw
  invalidate : ∀ d, s.invalidateDomains &&& domain d ≠ 0 ∨
      (∃ o ∈ os, (s.objs o).gpuInvalidate &&& domain d ≠ 0) → t.invalidateDomains &&& domain d ≠ 0
  flush : ∀ d, s.flushDomains &&& domain d ≠ 0 ∨
      (∃ o ∈ os, (s.objs o).gpuFlush &&& domain d ≠ 0) → t.flushDomains &&& domain d ≠ 0
  flushed : ∀ o ∈ os, (s.objs o).gpuFlush &&& domain .cpu ≠ 0 →
    ∀ i < (s.objs o).size * 1024, t.hw.line .cpu (o, i) = none

theorem or_left_domain {a b : Word} {d : Agent} (h : a &&& domain d ≠ 0) :
    (a ||| b) &&& domain d ≠ 0 := by
  rw [and_domain] at h ⊢
  rw [BitVec.getLsbD_or, h, Bool.true_or]

theorem or_right_domain {a b : Word} {d : Agent} (h : b &&& domain d ≠ 0) :
    (a ||| b) &&& domain d ≠ 0 := by
  rw [BitVec.or_comm]
  exact or_left_domain h

theorem setToGpuDomain_spec (s : Sys) {o : Nat} (hclean : (s.objs o).Clean)
    (hpages : 0 < (s.objs o).pagesRefcount) :
    ∃ t, setToGpuDomain s o = some t ∧ Gathered s [o] t := by
  have hbug : ¬ ((s.objs o).pendingReadDomains &&& domain .cpu ≠ 0 ∨
      (s.objs o).pendingWriteDomain = domain .cpu) := by
    rintro (h | h)
    · exact h hclean.1
    · have hwrite := hclean.2
      rw [h] at hwrite
      exact absurd hwrite (by decide)
  unfold setToGpuDomain
  dsimp only
  rw [if_neg hbug]
  refine ⟨_, rfl, ?_⟩
  have hflush : ∀ t, t = (if ((s.objs o).gpuFlush ||| (s.objs o).gpuInvalidate) &&& domain .cpu ≠ 0
      then clflushObject s o else s) → t = { s with hw := t.hw } ∧ s.hw.Cleaned t.hw ∧
      ((s.objs o).gpuFlush &&& domain .cpu ≠ 0 →
        ∀ i < (s.objs o).size * 1024, t.hw.line .cpu (o, i) = none) := by
    rintro t rfl
    split
    · rw [clflushObject, if_neg (by omega)]
      exact ⟨rfl, Obj.cleaned_clflush .., fun _ i hi => Obj.clflush_none _ _ _ hi⟩
    · rename_i hnone
      exact ⟨rfl, .refl, fun h => absurd (or_left_domain h) hnone⟩
  generalize (if ((s.objs o).gpuFlush ||| (s.objs o).gpuInvalidate) &&& domain .cpu ≠ 0
    then clflushObject s o else s) = t at hflush ⊢
  obtain ⟨heq, hcleaned, hnone⟩ := hflush t rfl
  rw [heq]
  refine ⟨rfl, rfl, rfl, rfl, ?_, hcleaned, ?_, ?_, ?_⟩
  · intro p
    show Function.update s.objs o (s.objs o).toGpu p = _
    by_cases hp : p = o
    · rw [hp, Function.update_self, if_pos (List.mem_singleton_self o)]
    · rw [Function.update_of_ne hp, if_neg (fun hmem => hp (List.mem_singleton.mp hmem))]
  · rintro d (h | ⟨p, hp, h⟩)
    · exact or_left_domain h
    · rw [List.mem_singleton.mp hp] at h
      exact or_right_domain h
  · rintro d (h | ⟨p, hp, h⟩)
    · exact or_left_domain h
    · rw [List.mem_singleton.mp hp] at h
      exact or_right_domain h
  · intro p hp
    rw [List.mem_singleton.mp hp]
    exact hnone

theorem Gathered.cons {s t u : Sys} {o : Nat} {os : List Nat} (hmem : o ∉ os)
    (h : Gathered s [o] t) (h' : Gathered t os u) : Gathered s (o :: os) u := by
  have hother : ∀ p ∈ os, t.objs p = s.objs p := by
    intro p hp
    rw [h.objs, if_neg]
    intro hpo
    exact hmem (List.mem_singleton.mp hpo ▸ hp)
  refine ⟨h'.count.trans h.count, h'.wedged.trans h.wedged, h'.list.trans h.list,
    h'.seqno.trans h.seqno, ?_, h.cleaned.trans h'.cleaned, ?_, ?_, ?_⟩
  · intro p
    rw [h'.objs]
    by_cases hp : p ∈ os
    · rw [if_pos hp, if_pos (List.mem_cons_of_mem _ hp), hother p hp]
    · rw [if_neg hp, h.objs]
      simp only [List.mem_cons, hp, or_false, List.not_mem_nil]
  · rintro d (hs | ⟨p, hp, hpd⟩)
    · exact h'.invalidate d (.inl (h.invalidate d (.inl hs)))
    · rcases List.mem_cons.mp hp with rfl | hp
      · exact h'.invalidate d (.inl (h.invalidate d (.inr ⟨p, List.mem_singleton_self p, hpd⟩)))
      · exact h'.invalidate d (.inr ⟨p, hp, by rw [hother p hp]; exact hpd⟩)
  · rintro d (hs | ⟨p, hp, hpd⟩)
    · exact h'.flush d (.inl (h.flush d (.inl hs)))
    · rcases List.mem_cons.mp hp with rfl | hp
      · exact h'.flush d (.inl (h.flush d (.inr ⟨p, List.mem_singleton_self p, hpd⟩)))
      · exact h'.flush d (.inr ⟨p, hp, by rw [hother p hp]; exact hpd⟩)
  · intro p hp hcpu i hi
    rcases List.mem_cons.mp hp with rfl | hp
    · exact h'.cleaned.line_none (h.flushed p (List.mem_singleton_self p) hcpu i hi)
    · rw [← hother p hp] at hcpu hi
      exact h'.flushed p hp hcpu i hi

theorem setAllToGpuDomain_spec (s : Sys) {os : List Nat} (hnodup : os.Nodup)
    (hclean : ∀ o ∈ os, (s.objs o).Clean) (hpages : ∀ o ∈ os, 0 < (s.objs o).pagesRefcount) :
    ∃ t, setAllToGpuDomain s os = some t ∧ Gathered s os t := by
  induction os generalizing s with
  | nil =>
      refine ⟨s, rfl, rfl, rfl, rfl, rfl, fun o => (if_neg List.not_mem_nil).symm, .refl, ?_, ?_,
        fun o ho => absurd ho List.not_mem_nil⟩
      · rintro d (h | ⟨o, ho, -⟩)
        · exact h
        · exact absurd ho List.not_mem_nil
      · rintro d (h | ⟨o, ho, -⟩)
        · exact h
        · exact absurd ho List.not_mem_nil
  | cons o os ih =>
      obtain ⟨hmem, hnodup'⟩ := List.nodup_cons.mp hnodup
      obtain ⟨t, ht, hfirst⟩ := setToGpuDomain_spec s (hclean o List.mem_cons_self)
        (hpages o List.mem_cons_self)
      have hother : ∀ p ∈ os, t.objs p = s.objs p := by
        intro p hp
        rw [hfirst.objs, if_neg]
        intro hpo
        exact hmem (List.mem_singleton.mp hpo ▸ hp)
      have hclean' : ∀ p ∈ os, (t.objs p).Clean := by
        intro p hp
        rw [hother p hp]
        exact hclean p (List.mem_cons_of_mem _ hp)
      have hpages' : ∀ p ∈ os, 0 < (t.objs p).pagesRefcount := by
        intro p hp
        rw [hother p hp]
        exact hpages p (List.mem_cons_of_mem _ hp)
      obtain ⟨u, hu, hrest⟩ := ih t hnodup' hclean' hpages'
      refine ⟨u, ?_, hfirst.cons hmem hrest⟩
      rw [setAllToGpuDomain, ht]
      exact hu

/-! ## The flush of a batch -/

/-- The state after the flush for all objects together. -/
structure Flushed (s t : Sys) : Prop where
  count : t.count = s.count
  wedged : t.wedged = s.wedged
  seqno : t.nextGemSeqno ≠ 0
  list : ∀ o, o ∈ t.gpuWriteList ↔ (t.objs o).writeDomain = domain .render
  objs : ∀ o, t.objs o =
    if (s.objs o).writeDomain = domain .render ∧ s.flushDomains &&& domain .render ≠ 0 then
      (s.objs o).flushed s.nextGemSeqno
    else s.objs o
  cleaned : s.hw.Cleaned t.hw
  render : s.flushDomains &&& domain .render ≠ 0 → ∀ l, t.hw.line .render l = none
  invalid : ∀ {objs d}, s.hw.Coherent cached (directory objs) → d ≠ .cpu →
    s.invalidateDomains &&& domain d ≠ 0 → ∀ l, t.hw.line d l = none

theorem batchFlush_spec (i965 : Bool) {s : Sys} (hseqno : s.nextGemSeqno ≠ 0)
    (hlist : ∀ o, o ∈ s.gpuWriteList ↔ (s.objs o).writeDomain = domain .render) :
    Flushed s (batchFlush i965 s) := by
  have hcleaned := cleaned_i915GemFlush i965 s s.invalidateDomains s.flushDomains
  have hsame : ¬ s.flushDomains &&& domain .render ≠ 0 → ∀ o, s.objs o =
      if (s.objs o).writeDomain = domain .render ∧ s.flushDomains &&& domain .render ≠ 0 then
        (s.objs o).flushed s.nextGemSeqno
      else s.objs o := fun h o => (if_neg fun hboth => h hboth.2).symm
  unfold batchFlush
  dsimp only
  split
  · split
    · -- the request clears the write domains of what is flushed
      rename_i hgpu
      have hflush : s.flushDomains ≠ 0 := by
        intro hzero
        rw [hzero] at hgpu
        exact hgpu rfl
      rw [i915GemFlush_eq, i915AddRequest]
      simp only [if_pos hflush]
      exact ⟨rfl, rfl, nextSeqno_ne_zero _, processFlushingList_list hlist _ _,
        processFlushingList_objs hlist _ _, hcleaned,
        fun h l => i915GemFlush_render i965 s (or_right_domain h) l,
        fun hw hd h l => i915GemFlush_invalid i965 _ hw hd h l⟩
    · rename_i hgpu
      have hno : ¬ s.flushDomains &&& domain .render ≠ 0 :=
        fun h => hgpu (and_gpuDomains (by decide) h)
      rw [i915GemFlush_eq]
      exact ⟨rfl, rfl, hseqno, hlist, hsame hno, hcleaned, fun h => absurd h hno,
        fun hw hd h l => i915GemFlush_invalid i965 _ hw hd h l⟩
  · rename_i hnone
    obtain ⟨hinvalidate, hflush⟩ := BitVec.or_eq_zero_iff.mp (not_not.mp hnone)
    have hzero : ∀ d, ¬ (0 : Word) &&& domain d ≠ 0 := fun d h => h BitVec.zero_and
    have hno : ¬ s.flushDomains &&& domain .render ≠ 0 := hflush ▸ hzero _
    refine ⟨rfl, rfl, hseqno, hlist, hsame hno, .refl, fun h => absurd h hno, ?_⟩
    intro _ d _ _ h
    rw [hinvalidate] at h
    exact absurd h (hzero d)

/-! ## New write domains -/

/-- The state after the objects `os` took their new write domains. -/
structure Entered (s : Sys) (os : List Nat) (t : Sys) : Prop where
  count : t.count = s.count
  wedged : t.wedged = s.wedged
  seqno : t.nextGemSeqno = s.nextGemSeqno
  hw : t.hw = s.hw
  objs : ∀ o, t.objs o =
    if o ∈ os then { s.objs o with writeDomain := (s.objs o).pendingWriteDomain } else s.objs o
  list : ∀ o, o ∈ t.gpuWriteList ↔
    if o ∈ os then (s.objs o).pendingWriteDomain ≠ 0 else o ∈ s.gpuWriteList

theorem mem_enterWriteDomain (s : Sys) (o p : Nat) :
    p ∈ (enterWriteDomain s o).gpuWriteList ↔
      if p = o then (s.objs o).pendingWriteDomain ≠ 0 else p ∈ s.gpuWriteList := by
  unfold enterWriteDomain
  dsimp only
  by_cases hp : p = o
  · rw [if_pos hp, hp]
    split
    · rename_i hw
      exact iff_of_true (List.mem_append_right _ (List.mem_singleton_self o)) hw
    · rename_i hw
      refine iff_of_false (fun hmem => ?_) hw
      rw [List.mem_filter, bne_self_eq_false] at hmem
      exact absurd hmem.2 (by decide)
  · rw [if_neg hp]
    have hrest : p ∈ s.gpuWriteList.filter (· != o) ↔ p ∈ s.gpuWriteList := by
      rw [List.mem_filter, bne_iff_ne]
      exact and_iff_left hp
    split
    · rw [List.mem_append, hrest, List.mem_singleton]
      exact or_iff_left hp
    · exact hrest

theorem foldl_enterWriteDomain (s : Sys) {os : List Nat} (hnodup : os.Nodup) :
    Entered s os (os.foldl enterWriteDomain s) := by
  induction os generalizing s with
  | nil =>
      refine ⟨rfl, rfl, rfl, rfl, fun o => (if_neg List.not_mem_nil).symm, fun o => ?_⟩
      rw [if_neg List.not_mem_nil]
      rfl
  | cons p os ih =>
      obtain ⟨hmem, hnodup'⟩ := List.nodup_cons.mp hnodup
      have hrest := ih (enterWriteDomain s p) hnodup'
      have hother : ∀ {o}, o ≠ p → (enterWriteDomain s p).objs o = s.objs o :=
        fun ho => Function.update_of_ne ho _ _
      refine ⟨hrest.count, hrest.wedged, hrest.seqno, hrest.hw, fun o => ?_, fun o => ?_⟩
      · rw [List.foldl_cons, hrest.objs]
        by_cases hop : o = p
        · rw [hop, if_neg hmem, if_pos List.mem_cons_self]
          exact Function.update_self ..
        · rw [hother hop]
          simp only [List.mem_cons, hop, false_or]
      · rw [List.foldl_cons, hrest.list, mem_enterWriteDomain]
        by_cases hop : o = p
        · rw [hop, if_neg hmem, if_pos rfl, if_pos List.mem_cons_self]
        · rw [hother hop, if_neg hop]
          simp only [List.mem_cons, hop, false_or]

theorem foldl_moveToActive {s : Sys} (h : Good s) {seqno : Word} (hseqno : seqno ≠ 0)
    (os : List Nat) : Good (os.foldl (moveToActive seqno) s) ∧
      s.Later (os.foldl (moveToActive seqno) s) ∧
      (∀ o, ((os.foldl (moveToActive seqno) s).objs o).pinCount = (s.objs o).pinCount) ∧
      ∀ o ∈ os, ((os.foldl (moveToActive seqno) s).objs o).active = true := by
  induction os generalizing s with
  | nil => exact ⟨h, .refl s, fun _ => rfl, fun o ho => absurd ho List.not_mem_nil⟩
  | cons o os ih =>
      have hok := h.ok o
      have hgood : Good (moveToActive seqno s o) := h.touch rfl rfl
        ⟨hok.placed.congr rfl rfl rfl, hok.unbound, hok.pages, hok.pinned, fun _ => hseqno,
          hok.valid⟩
      have hlater : s.Later (moveToActive seqno s o) :=
        .modObj s ⟨rfl, fun _ => rfl, fun hbound => ⟨hbound, rfl⟩, Nat.le_refl _⟩
      have hpin : ∀ p, ((moveToActive seqno s o).objs p).pinCount = (s.objs p).pinCount := by
        intro p
        unfold moveToActive
        by_cases hp : p = o
        · rw [hp, modObj_self]
        · rw [modObj_other s _ hp]
      obtain ⟨hgood', hlater', hpin', hactive⟩ := ih hgood
      refine ⟨hgood', hlater.trans hlater', fun p => (hpin' p).trans (hpin p), ?_⟩
      intro p hp
      rcases List.mem_cons.mp hp with rfl | hp
      · refine (hlater'.objs p).active ?_
        rw [moveToActive, modObj_self]
      · exact hactive p hp

/-! ## Submission -/

/-- An object of a batch, with its new domains. -/
def Obj.inBatch (x : Obj) (active : Bool) (seqno : Word) : Obj :=
  { x.toGpu with writeDomain := x.gpuWrite, active := active, lastRenderingSeqno := seqno }

theorem Obj.Ok.inBatch {x : Obj} (h : x.Ok) (hpin : 0 < x.pinCount) (hdeclared : x.Declared)
    {active : Bool} {seqno : Word} (hseqno : active = true → seqno ≠ 0) :
    (x.inBatch active seqno).Ok := by
  have hbound := h.pinned hpin
  refine ⟨?_, ?_, h.pages, h.pinned, hseqno, h.valid⟩
  · rcases hdeclared.write h.placed with hw | ⟨hw, hr⟩
    · exact .clean hw
    · exact .render hw hr
  · intro hunbound
    exact absurd (hbound.symm.trans hunbound) (by decide)

/-- What a batch asks of the caches. -/
theorem Obj.writer_inBatch {x : Obj} (h : x.Ok) (hdeclared : x.Declared) {w : Agent}
    (hw : x.writer = some w) (active : Bool) (seqno : Word) :
    (x.inBatch active seqno).writer = some w ∨ x.gpuFlush &&& domain w ≠ 0 := by
  have hwd := Obj.writeDomain_of_writer hw
  have hne : x.writeDomain ≠ 0 := by
    rw [hwd]
    cases w <;> decide
  rcases hdeclared.flush h.placed hne with hflush | ⟨hrender, hwrite⟩
  · right
    rw [hflush, hwd]
    cases w <;> decide
  · left
    have hwd' : (x.inBatch active seqno).writeDomain = domain .render := hwrite
    rw [domain_inj (hwd.symm.trans hrender), Obj.writer, hwd']
    decide

theorem Obj.reads_inBatch {x : Obj} (h : x.Ok) (hclean : x.Clean) {active : Bool} {seqno : Word}
    {d : Agent} {i : Nat} (hr : (x.inBatch active seqno).Reads d i) :
    x.Reads d i ∨ d ≠ .cpu ∧ x.gpuInvalidate &&& domain d ≠ 0 := by
  obtain ⟨hread, -, hvalid⟩ := hr
  by_cases hold : x.readDomains &&& domain d ≠ 0
  · exact .inl ⟨hold, h.placed.compat hold, hvalid⟩
  · refine .inr ⟨?_, Obj.gpuInvalidate_of_new hread hold⟩
    rintro rfl
    exact hold (hclean.cpu hread)

section Submit

variable {s t u v : Sys} {os : List Nat} (ht : Gathered s os t) (hu : Flushed t u)
  (hv : Entered u os v)
include ht hu hv

theorem Entered.member (h : Good s) {o : Nat} (ho : o ∈ os) : ∃ active seqno,
    v.objs o = (s.objs o).inBatch active seqno ∧ (active = true → seqno ≠ 0) ∧
      ((s.objs o).active = true → active = true) := by
  rw [hv.objs, if_pos ho, hu.objs, ht.objs, if_pos ho]
  split
  · refine ⟨true, t.nextGemSeqno, rfl, fun _ => ?_, fun _ => rfl⟩
    rw [ht.seqno]
    exact h.seqno
  · exact ⟨_, _, rfl, (h.ok o).seqno, id⟩

theorem Entered.other {o : Nat} (ho : o ∉ os) : v.objs o = s.objs o ∨
    v.objs o = (s.objs o).flushed s.nextGemSeqno ∧ (s.objs o).writeDomain = domain .render ∧
      t.flushDomains &&& domain .render ≠ 0 := by
  rw [hv.objs, if_neg ho, hu.objs, ht.objs, if_neg ho, ht.seqno]
  split
  · rename_i hhit
    exact .inr ⟨rfl, hhit.1, hhit.2⟩
  · exact .inl rfl

theorem Entered.later (h : Good s) : s.Later v := by
  refine ⟨hv.count.trans (hu.count.trans ht.count), hv.wedged.trans (hu.wedged.trans ht.wedged),
    fun o => ?_⟩
  by_cases ho : o ∈ os
  · obtain ⟨active, seqno, heq, -, hactive⟩ := hv.member ht hu h ho
    rw [heq]
    exact ⟨rfl, hactive, fun hbound => ⟨hbound, rfl⟩, Nat.le_refl _⟩
  · rcases hv.other ht hu ho with heq | ⟨heq, -, -⟩
    · rw [heq]
      exact (Obj.Stays.refl _).later
    · rw [heq]
      exact ⟨rfl, fun _ => rfl, fun hbound => ⟨hbound, rfl⟩, Nat.le_refl _⟩

theorem Entered.pinCount (h : Good s) (o : Nat) : (v.objs o).pinCount = (s.objs o).pinCount := by
  by_cases ho : o ∈ os
  · obtain ⟨active, seqno, heq, -⟩ := hv.member ht hu h ho
    rw [heq]
    rfl
  · rcases hv.other ht hu ho with heq | ⟨heq, -⟩
    · rw [heq]
    · rw [heq]
      rfl

/-- From the relocated objects to the new write domains: all objects change at once, and only here
do domains and caches agree again. -/
theorem Entered.good (h : Good s) (hpin : ∀ o ∈ os, 0 < (s.objs o).pinCount)
    (hclean : ∀ o ∈ os, (s.objs o).Clean) (hdeclared : ∀ o ∈ os, (s.objs o).Declared) :
    Good v := by
  have hcleaned : s.hw.Cleaned v.hw := by
    rw [hv.hw]
    exact ht.cleaned.trans hu.cleaned
  refine ⟨?_, ?_, ?_, ?_⟩
  · intro o
    by_cases ho : o ∈ os
    · obtain ⟨active, seqno, heq, hseqno, -⟩ := hv.member ht hu h ho
      rw [heq]
      exact (h.ok o).inBatch (hpin o ho) (hdeclared o ho) hseqno
    · rcases hv.other ht hu ho with heq | ⟨heq, hwd, -⟩
      · rw [heq]
        exact h.ok o
      · rw [heq]
        exact (h.ok o).flushed hwd h.seqno
  · intro o
    rw [hv.list, hv.objs]
    by_cases ho : o ∈ os
    · rw [if_pos ho, if_pos ho]
      obtain ⟨active, seqno, heq, -⟩ := hv.member ht hu h ho
      have hpending : (u.objs o).pendingWriteDomain = (s.objs o).gpuWrite := by
        rw [← (show (v.objs o).writeDomain = (s.objs o).gpuWrite by rw [heq]; rfl), hv.objs,
          if_pos ho]
      dsimp only
      rw [hpending]
      rcases (hdeclared o ho).write (h.ok o).placed with hw | ⟨hw, -⟩ <;> rw [hw] <;> decide
    · rw [if_neg ho, if_neg ho]
      exact hu.list o
  · rw [hv.seqno]
    exact hu.seqno
  · refine directory_change (h.coherent.cleaned hcleaned)
      (fun o => ((hv.later ht hu h).objs o).size) ?_ ?_
    · intro o w hw
      by_cases ho : o ∈ os
      · obtain ⟨active, seqno, heq, -⟩ := hv.member ht hu h ho
        rw [heq]
        refine (Obj.writer_inBatch (h.ok o) (hdeclared o ho) hw active seqno).imp_right ?_
        intro hflush i hi
        -- the line is out of the cache of its writer, if that has one
        have hflush' := ht.flush w (.inr ⟨o, ho, hflush⟩)
        by_cases hcpu : w = .cpu
        · subst hcpu
          refine Caches.not_dirty_of_none ?_
          rw [hv.hw]
          exact hu.cleaned.line_none (ht.flushed o ho hflush i hi)
        · by_cases hrender : w = .render
          · subst hrender
            refine Caches.not_dirty_of_none ?_
            rw [hv.hw]
            exact hu.render hflush' (o, i)
          · exact not_dirty (h.coherent.cleaned hcleaned) hcpu hrender (o, i)
      · rcases hv.other ht hu ho with heq | ⟨heq, hwd, hrender⟩
        · rw [heq]
          exact .inl hw
        · have hw' : w = .render := domain_inj ((Obj.writeDomain_of_writer hw).symm.trans hwd)
          subst hw'
          refine .inr fun i _ => Caches.not_dirty_of_none ?_
          rw [hv.hw]
          exact hu.render hrender (o, i)
    · intro o d i hi hr
      by_cases ho : o ∈ os
      · obtain ⟨active, seqno, heq, -⟩ := hv.member ht hu h ho
        rw [heq] at hr
        refine (Obj.reads_inBatch (h.ok o) (hclean o ho) hr).imp_right ?_
        rintro ⟨hd, hinvalid⟩
        rw [hv.hw]
        exact hu.invalid (h.coherent.cleaned ht.cleaned) hd
          (ht.invalidate d (.inr ⟨o, ho, hinvalid⟩)) (o, i)
      · rcases hv.other ht hu ho with heq | ⟨heq, hwd, -⟩
        · rw [heq] at hr
          exact .inl hr
        · rw [heq] at hr
          exact .inl (hr.of_flushed (h.ok o).placed hwd)

end Submit

theorem submit_spec {s : Sys} (h : Good s) (i965 : Bool) {os : List Nat} (hnodup : os.Nodup)
    (hpin : ∀ o ∈ os, 0 < (s.objs o).pinCount) (hclean : ∀ o ∈ os, (s.objs o).Clean)
    (hdeclared : ∀ o ∈ os, (s.objs o).Declared) (boxes : Bool) :
    ∃ t ret, submit i965 s os boxes = some (t, ret) ∧ Good t ∧ s.Later t ∧
      (∀ o, (t.objs o).pinCount = (s.objs o).pinCount) ∧
      (ret = 0 → ∀ o ∈ os, (t.objs o).active = true) := by
  have hgood₀ : Good { s with invalidateDomains := 0, flushDomains := 0 } :=
    ⟨h.ok, h.list, h.seqno, h.coherent⟩
  obtain ⟨t, ht, hgather⟩ := setAllToGpuDomain_spec
    { s with invalidateDomains := 0, flushDomains := 0 } hnodup hclean
    fun o ho => (h.ok o).pages ((h.ok o).pinned (hpin o ho))
  have hlist : ∀ o, o ∈ t.gpuWriteList ↔ (t.objs o).writeDomain = domain .render := by
    intro o
    rw [hgather.list, hgather.objs, h.list]
    split <;> rfl
  have hflush : Flushed t (batchFlush i965 t) :=
    batchFlush_spec i965 (by rw [hgather.seqno]; exact h.seqno) hlist
  have henter := foldl_enterWriteDomain (batchFlush i965 t) hnodup
  have hgood := henter.good hgather hflush hgood₀ hpin hclean hdeclared
  have hlater := henter.later hgather hflush hgood₀
  replace hlater : s.Later _ := ⟨hlater.count, hlater.wedged, hlater.objs⟩
  have hpins := henter.pinCount hgather hflush hgood₀
  unfold submit
  rw [ht]
  dsimp only
  generalize os.foldl enterWriteDomain (batchFlush i965 t) = v at hgood hlater hpins
  split
  · exact ⟨v, _, rfl, hgood, hlater, hpins, fun hzero => absurd hzero (by decide)⟩
  · unfold retireCommands
    dsimp only
    rw [if_neg hgood.seqno]
    have hretired : Good { v with hw := execFlush i965 v.hw (miFlush ||| miNoWriteFlush) } :=
      ⟨hgood.ok, hgood.list, hgood.seqno, hgood.coherent.cleaned (cleaned_execFlush ..)⟩
    have hsampler : ∀ {P : Prop},
        (if i965 then domain .sampler else 0) &&& domain .render ≠ 0 → P := by
      intro P hne
      cases i965
      · exact absurd BitVec.zero_and hne
      · exact absurd rfl hne
    have hrequest : Good (i915AddRequest
        { v with hw := execFlush i965 v.hw (miFlush ||| miNoWriteFlush) }
        (if i965 then domain .sampler else 0)) := good_i915AddRequest hretired hsampler
    obtain ⟨hgood', hlater', hpins', hactive⟩ := foldl_moveToActive hrequest hgood.seqno os
    have hstays := stays_i915AddRequest
      { v with hw := execFlush i965 v.hw (miFlush ||| miNoWriteFlush) }
      (if i965 then domain .sampler else 0)
    replace hstays : v.Stays _ := ⟨hstays.count, hstays.wedged, hstays.objs⟩
    refine ⟨_, 0, rfl, hgood', hlater.trans (hstays.later.trans hlater'), fun o => ?_,
      fun _ => hactive⟩
    rw [hpins', (hstays.objs o).pinCount, hpins]

end LinuxDrivers.Gpu.Domains
