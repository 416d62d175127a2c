/-
# `LinuxDrivers.Gpu.Gem` — what clients of the graphics memory see

The machine of this module interleaves the calls of clients, the accesses of all agents as the
domains permit them, and what the caches do by themselves: they read ahead and write back whenever
they like.

    `call`               a call under the mutex of the driver, as it is translated in `Execbuffer`
    `create`, `wedge`    a new object; the chip hangs
    `write`              the processor, the aperture or the renderer writes a dword
    `fetch`, `evict`     a cache takes a line, or gives one back

The conditions on a run are that batches declare what they use, that nobody reads nothing from the
start of an object, and that no object is pinned or has its pages taken `2 ^ 31` times: a pin is
left behind by every batch that is refused for a relocation with several write domains.

**Proved here.**  In every such run, evictions included,

    as long as the chip has not hung, a permitted reader sees the value last written, if the chip
    carries out its commands at once; and a call other than `i915_gem_object_unbind` comes back if
    nothing has to be evicted for it                                        (`reads_see_last_write`)
    an object that was in a batch, or is mapped and bound, keeps its place in the aperture for ever:
    nothing evicts it, and no call that would unbind it comes back successfully   (`gtt_space_kept`)
    `i915_gem_object_unbind` hangs exactly if the object is bound, not pinned, and in use by a chip
    that works, or idle but mapped                                          (`unbind_hangs_iff`)

The conditions are needed.  An object listed in a batch without a domain of the chip keeps the
processor's write domain, and is put on the list of what the chip writes; the next flush takes it
for flushed (`undeclared_write_lost`).  An object that is sampled and rendered to in one batch is
left with an old copy in the sampler's cache that is taken for valid (`sampled_and_rendered_stale`).
And when the aperture is full of what batches have used, binding an object hangs
(`full_aperture_hangs`).
-/
import LinuxDrivers.Gpu.Submit
import LinuxDrivers.Lib.Machine

namespace LinuxDrivers.Gpu.Domains

open LinuxDrivers.Lib

/-! ## Batches -/

/-- Every object of the list but the batch buffer is declared, if the list gets that far. -/
def Exec.declared (i965 : Bool) (s : Sys) (e : Exec) : Bool :=
  match pinTries i965 s e.entries with
  | none => true
  | some (s, _, ret) => ret != 0 || e.handles.dropLast.all fun o => decide (s.objs o).Declared

/-- The batch buffer is read by the command streamer. -/
theorem command_gpu (w : Word) : (w ||| domain .command) &&& gpuDomains ≠ 0 :=
  and_gpuDomains (by decide) (or_right_domain (by decide : domain .command &&& domain .command ≠ 0))

theorem runBatch_spec {s : Sys} (h : Good s) (i965 : Bool) {e : Exec} {batch : Nat}
    (hlast : e.handles.getLast? = some batch) (hnodup : e.handles.Nodup)
    (hpin : ∀ o ∈ e.handles, 0 < (s.objs o).pinCount) (hclean : ∀ o ∈ e.handles, (s.objs o).Clean)
    (hdeclared : ∀ o ∈ e.handles.dropLast, (s.objs o).Declared) :
    ∃ t ret, runBatch i965 s e batch e.handles = some (t, ret) ∧ Good t ∧ s.Later t ∧
      (ret = 0 → ∀ o ∈ e.handles, (t.objs o).active = true) := by
  have heinval : ∀ {P : Prop}, -einval = 0 → P := fun hzero => absurd hzero (by decide)
  unfold runBatch
  split
  · obtain ⟨t, ht, hgood, hlater⟩ := execDone_spec h hnodup hpin (-einval)
    exact ⟨t, _, ht, hgood, hlater, heinval⟩
  · rename_i hread
    obtain ⟨hgood₀, hlater₀⟩ := h.pending (f := Obj.asCommands) (o := batch) rfl
    have hpin₀ : ∀ o ∈ e.handles, 0 < ((s.modObj batch Obj.asCommands).objs o).pinCount := by
      intro o ho
      by_cases hob : o = batch
      · subst hob
        rw [modObj_self]
        exact hpin o ho
      · rw [modObj_other s _ hob]
        exact hpin o ho
    have hclean₀ : ∀ o ∈ e.handles, ((s.modObj batch Obj.asCommands).objs o).Clean := by
      intro o ho
      by_cases hob : o = batch
      · subst hob
        rw [modObj_self]
        refine ⟨?_, (hclean o ho).2⟩
        show ((s.objs o).pendingReadDomains ||| domain .command) &&& domain .cpu = 0
        by_contra hne
        rcases or_domain hne with hold | hcommand
        · exact hold (hclean o ho).1
        · exact absurd hcommand (by decide)
      · rw [modObj_other s _ hob]
        exact hclean o ho
    have hdeclared₀ : ∀ o ∈ e.handles, ((s.modObj batch Obj.asCommands).objs o).Declared := by
      intro o ho
      by_cases hob : o = batch
      · subst hob
        rw [modObj_self]
        exact .inl ⟨not_not.mp hread, command_gpu _⟩
      · rw [modObj_other s _ hob]
        refine hdeclared o ?_
        rw [← List.dropLast_append_getLast? batch hlast, List.mem_append, List.mem_singleton] at ho
        exact ho.resolve_right hob
    generalize s.modObj batch Obj.asCommands = s₀ at *
    dsimp only
    split
    · obtain ⟨t, ht, hgood, hlater⟩ := execDone_spec hgood₀ hnodup hpin₀ (-einval)
      exact ⟨t, _, ht, hgood, hlater₀.trans hlater, heinval⟩
    · obtain ⟨t, ret, ht, hgood, hlater, hpins, hactive⟩ :=
        submit_spec hgood₀ i965 hnodup hpin₀ hclean₀ hdeclared₀ e.boxes
      rw [ht]
      dsimp only
      obtain ⟨u, hu, hgood', hlater'⟩ := execDone_spec hgood hnodup
        (fun o ho => by rw [hpins]; exact hpin₀ o ho) ret
      exact ⟨u, ret, hu, hgood', hlater₀.trans (hlater.trans hlater'),
        fun hret o ho => (hlater'.objs o).active (hactive hret o ho)⟩

/-- Nothing has to be evicted for the batch. -/
def Exec.fits (e : Exec) : Bool := e.entries.all fun x => x.bind.fits

theorem doExecbuffer_spec {s : Sys} (h : Good s) (i965 : Bool) {e : Exec}
    (hdeclared : e.declared i965 s = true) :
    Ends (e.fits = true) (doExecbuffer i965 s e) fun a => Good a.1 ∧ s.After a.1 ∧
      (a.2 = 0 → ∀ o ∈ e.handles, o < s.count ∧ (a.1.objs o).active = true ∧
        (a.1.objs o).gttSpace = true) := by
  have hfail : ∀ {err : Int}, -err = 0 → err ≠ 0 → ∀ {P : Prop}, P := fun hzero hne =>
    absurd (neg_eq_zero.mp hzero) hne
  unfold doExecbuffer
  cases hlast : e.handles.getLast? with
  | none => exact .of_some ⟨h, .refl s, fun hzero => hfail hzero (by decide)⟩
  | some batch =>
      dsimp only
      split_ifs with hwedged hargs
      · exact .of_some ⟨h, .refl s, fun hzero => hfail hzero (by decide)⟩
      · exact .of_some ⟨h, .refl s, fun hzero => hfail hzero (by decide)⟩
      · rw [not_or, not_not, not_not] at hargs
        obtain ⟨hcount, hnodup⟩ := hargs
        obtain ⟨hback, hpost⟩ := pinTries_spec h i965 e.entries hnodup
        cases hp : pinTries i965 s e.entries with
        | none => exact .of_none fun hfits => hback (List.all_eq_true.mp hfits) hp
        | some res =>
            obtain ⟨t, pinned, ret⟩ := res
            have htries := hpost _ hp
            dsimp only at htries ⊢
            by_cases hret : ret = 0
            · rw [if_neg (not_not.mpr hret)]
              have hall : pinned = e.handles := htries.all hret
              subst hall
              have hdeclared' : ∀ o ∈ e.handles.dropLast, (t.objs o).Declared := by
                rw [Exec.declared, hp] at hdeclared
                simpa [hret] using hdeclared
              obtain ⟨u, ret', hu, hgood, hlater, hactive⟩ := runBatch_spec htries.good i965 hlast
                hnodup htries.pins htries.clean hdeclared'
              rw [hu]
              refine .of_some ⟨hgood, htries.after.trans hlater.after, fun hret' o ho => ?_⟩
              have hbound := (htries.good.ok o).pinned (htries.pins o ho)
              exact ⟨hcount o ho, hactive hret' o ho, ((hlater.objs o).bound hbound).1⟩
            · rw [if_pos hret]
              obtain ⟨u, hu, hgood, hlater⟩ := execDone_spec htries.good
                (htries.sublist.nodup hnodup) htries.pins ret
              rw [hu]
              exact .of_some ⟨hgood, htries.after.trans hlater.after,
                fun hzero => absurd hzero hret⟩

/-! ## The other calls -/

theorem setDomainIoctl_spec {s : Sys} (h : Good s) (i965 : Bool) (o : Nat) (r w : Word) :
    ∃ t ret, setDomainIoctl i965 s o r w = some (t, ret) ∧ Good t ∧ s.Later t := by
  unfold setDomainIoctl
  split_ifs
  · exact ⟨s, _, rfl, h, .refl s⟩
  · exact ⟨s, _, rfl, h, .refl s⟩
  · exact ⟨s, _, rfl, h, .refl s⟩
  · exact ⟨s, _, rfl, h, .refl s⟩
  · obtain ⟨t, ret, ht, hgood, hstays, -⟩ := setToGttDomain_spec h i965 o (w != 0)
    rw [ht]
    exact ⟨t, _, rfl, hgood, hstays.later⟩
  · obtain ⟨t, ret, ht, hgood, hstays, -⟩ := setToCpuDomain_spec h i965 o (w != 0)
    exact ⟨t, ret, ht, hgood, hstays.later⟩

theorem swFinishIoctl_spec {s : Sys} (h : Good s) (o : Nat) :
    Good (swFinishIoctl s o).1 ∧ s.Later (swFinishIoctl s o).1 := by
  unfold swFinishIoctl
  split_ifs with hcount hpin
  · exact ⟨h, .refl s⟩
  · have hok := h.ok o
    have hbound := hok.pinned (Nat.pos_of_ne_zero hpin)
    dsimp only
    unfold flushCpuWriteDomain
    split
    · exact ⟨h, .refl s⟩
    · rename_i hcpu
      have hwd := not_not.mp hcpu
      have hrd := hok.placed.readDomains (by decide) hwd
      rw [clflushObject, if_neg (hok.pages hbound).ne']
      have hrender : (0 : Word) = domain .render ↔ (s.objs o).writeDomain = domain .render := by
        rw [hwd]
        decide
      refine ⟨?_, ?_⟩
      · refine h.move (Obj.cleaned_clflush (s.objs o) o s.hw) ⟨.clean rfl, ?_, hok.pages,
          hok.pinned, hok.seqno, hok.valid⟩ rfl hrender ?_ ?_
        · intro hunbound
          exact absurd (hbound.symm.trans hunbound) (by decide)
        · intro w hw
          have hw' : w = .cpu := domain_inj ((Obj.writeDomain_of_writer hw).symm.trans hwd)
          subst hw'
          exact .inr fun i hi => Caches.not_dirty_of_none (Obj.clflush_none _ _ _ hi)
        · intro d i _ hr
          have hd : domain .cpu &&& domain d ≠ 0 := hrd ▸ hr.1
          exact .inl ⟨hr.1, .inr (by rw [hwd, domain_and hd]), hr.2.2⟩
      · have hlater := Sys.Later.modObj { s with hw := (s.objs o).clflush o s.hw } (o := o)
          (f := fun x => { x with writeDomain := 0 })
          ⟨rfl, id, fun hb => ⟨hb, rfl⟩, Nat.le_refl _⟩
        exact ⟨hlater.count, hlater.wedged, hlater.objs⟩
  · exact ⟨h, .refl s⟩

/-- The bounds of reads and writes: unless both numbers are zero, the last page is one of the
object. -/
theorem last_page {pages : Nat} {offset size : BitVec 64} (hpages : pages < 2 ^ 20)
    (hne : ¬ (offset = 0 ∧ size = 0))
    (hbounds : ¬ (pages * 4096 < offset.toNat ∨ pages * 4096 < size.toNat ∨
      pages * 4096 < (offset + size).toNat)) : (offset + size - 1).toNat / 4096 < pages := by
  have hne' : ¬ (offset.toNat = 0 ∧ size.toNat = 0) := by
    rintro ⟨ho, hs⟩
    exact hne ⟨BitVec.eq_of_toNat_eq ho, BitVec.eq_of_toNat_eq hs⟩
  have hone : (1 : BitVec 64).toNat = 1 := rfl
  rw [BitVec.toNat_sub, hone, BitVec.toNat_add]
  rw [BitVec.toNat_add] at hbounds
  omega

/-- The attempts to read: the pages are those of the object. -/
theorem setCpuReadDomainRange_spared {s : Sys} (i965 : Bool) (o : Nat) {offset size : BitVec 64}
    (hrange : (offset + size - 1).toNat / 4096 < (s.objs o).size) (alloc : Bool) (t : Sys)
    (ht : Good t) (hst : s.Spared t) : ∃ u ret,
      setCpuReadDomainRange i965 t o offset size alloc = some (u, ret) ∧ Good u ∧ t.Stays u := by
  refine setCpuReadDomainRange_spec ht i965 o ?_ alloc
  rw [(hst.objs o).size]
  exact hrange

theorem shmemPwrite_spec {s : Sys} (i965 : Bool) (o : Nat) {ok : Prop}
    {taken : Option (Sys × Int)} (htaken : Ends ok taken (Taken s o)) (copy : Int) :
    Ends ok (withPages taken o copy fun s => setToCpuDomain i965 s o true) fun a =>
      Good a.1 ∧ s.After a.1 := by
  have hmove : ∀ t, Good t → s.Spared t → ∃ u ret,
      setToCpuDomain i965 t o true = some (u, ret) ∧ Good u ∧ t.Stays u := by
    intro t ht _
    obtain ⟨u, ret, hu, hgood, hstays, -⟩ := setToCpuDomain_spec ht i965 o true
    exact ⟨u, ret, hu, hgood, hstays⟩
  obtain ⟨hback, hpost⟩ := withPages_spec htaken copy hmove
  exact ⟨hback, fun a ha => ⟨(hpost a ha).1, (hpost a ha).2.after⟩⟩

/-- A fast attempt and a slow one. -/
theorem orSlow_spec {s : Sys} {ok ok' : Prop} {fast : Option (Sys × Int)}
    {slow : Sys → Option (Sys × Int)} (hfast : Ends ok fast fun a => Good a.1 ∧ s.After a.1)
    (hslow : ∀ t, Good t → Ends ok' (slow t) fun a => Good a.1 ∧ t.After a.1) :
    Ends (ok ∧ ok') (orSlow fast slow) fun a => Good a.1 ∧ s.After a.1 := by
  unfold orSlow
  cases hf : fast with
  | none => exact .of_none fun hok => hfast.back hok.1 hf
  | some res =>
      obtain ⟨t, ret⟩ := res
      obtain ⟨hgood, hafter⟩ := hfast.post _ hf
      dsimp only at hgood hafter ⊢
      split
      · obtain ⟨hback, hpost⟩ := hslow t hgood
        exact ⟨fun hok => hback hok.2, fun a ha =>
          ⟨(hpost a ha).1, hafter.trans (hpost a ha).2⟩⟩
      · exact .of_some ⟨hgood, hafter⟩

section Copies

variable {s : Sys} (h : Good s) (i965 : Bool) (o : Nat)
include h

theorem copyChecked_spec {ok : Prop} {offset size : BitVec 64} {copy : Option (Sys × Int)}
    (hcopy : ¬ ((s.objs o).size * 4096 < offset.toNat ∨ (s.objs o).size * 4096 < size.toNat ∨
      (s.objs o).size * 4096 < (offset + size).toNat) →
        Ends ok copy fun a => Good a.1 ∧ s.After a.1) :
    Ends ok (copyChecked s o offset size copy) fun a => Good a.1 ∧ s.After a.1 := by
  unfold copyChecked
  dsimp only
  split_ifs with hcount hbounds
  · exact .of_some ⟨h, .refl s⟩
  · exact .of_some ⟨h, .refl s⟩
  · exact hcopy hbounds

theorem preadIoctl_spec (tiling : Tiling) {offset size : BitVec 64}
    (hpages : (s.objs o).size < 2 ^ 20) (hne : ¬ (offset = 0 ∧ size = 0)) (fast slow : Outcome) :
    Ends (slow.pages ≠ -enomem) (preadIoctl i965 s o tiling offset size fast slow) fun a =>
      Good a.1 ∧ s.After a.1 := by
  have hslow : ∀ {t : Sys}, Good t → (offset + size - 1).toNat / 4096 < (t.objs o).size →
      Ends (slow.pages ≠ -enomem) (shmemPreadSlow i965 t o offset size slow) fun a =>
        Good a.1 ∧ t.Spared a.1 := fun ht hrange =>
    withPages_spec (slowPages_spec ht i965 o slow) slow.copy
      (setCpuReadDomainRange_spared i965 o hrange slow.alloc)
  refine copyChecked_spec h o fun hbounds => ?_
  have hrange := last_page hpages hne hbounds
  split
  · obtain ⟨hback, hpost⟩ := hslow h hrange
    exact ⟨hback, fun a ha => ⟨(hpost a ha).1, (hpost a ha).2.after⟩⟩
  · have hfast : Ends True (shmemPreadFast i965 s o offset size fast) fun a =>
        Good a.1 ∧ s.Spared a.1 :=
      withPages_spec (.of_some (getPages_taken h (.refl s) o fast.pages)) fast.copy
        (setCpuReadDomainRange_spared i965 o hrange fast.alloc)
    cases hread : shmemPreadFast i965 s o offset size fast with
    | none => exact absurd hread (hfast.back trivial)
    | some res =>
        obtain ⟨t, ret⟩ := res
        obtain ⟨hgood, hspared⟩ := hfast.post _ hread
        dsimp only at hgood hspared ⊢
        split
        · obtain ⟨hback, hpost⟩ := hslow hgood (by rw [(hspared.objs o).size]; exact hrange)
          exact ⟨hback, fun a ha => ⟨(hpost a ha).1, (hspared.trans (hpost a ha).2).after⟩⟩
        · exact .of_some ⟨hgood, hspared.after⟩

theorem gttPwriteFast_spec (r : Outcome) :
    Ends (r.bind.fits = true) (gttPwriteFast i965 s o r) fun a => Good a.1 ∧ s.After a.1 := by
  obtain ⟨hback, hpost⟩ := pin_spec h i965 o r.bind
  unfold gttPwriteFast
  cases hp : pin i965 s o r.bind with
  | none => exact .of_none fun hfits => hback hfits hp
  | some res =>
      obtain ⟨t, ret⟩ := res
      obtain ⟨hpins, -⟩ := hpost _ hp
      dsimp only at hpins ⊢
      by_cases hret : ret = 0
      · rw [if_neg (not_not.mpr hret)]
        obtain ⟨u, ret', hu, hgood, hstays, -⟩ := setToGttDomain_spec hpins.good i965 o true
        have hpin : 0 < (u.objs o).pinCount := by
          rw [(hstays.objs o).pinCount]
          exact hpins.own hret
        obtain ⟨heq, hgood', hlater⟩ := unpin_spec hgood hpin
        rw [hu]
        dsimp only
        rw [heq]
        exact .of_some ⟨hgood', hpins.after.trans (hstays.later.trans hlater).after⟩
      · rw [if_pos hret]
        exact .of_some ⟨hpins.good, hpins.after⟩

theorem gttPwriteSlow_spec (r : Outcome) :
    Ends (r.bind.fits = true) (gttPwriteSlow i965 s o r) fun a => Good a.1 ∧ s.After a.1 := by
  unfold gttPwriteSlow
  split
  · exact .of_some ⟨h, .refl s⟩
  · exact gttPwriteFast_spec h i965 o r

theorem pwriteIoctl_spec (tiling : Tiling) (offset size : BitVec 64) (fast slow : Outcome) :
    Ends (fast.bind.fits = true ∧ slow.bind.fits = true ∧ slow.pages ≠ -enomem)
      (pwriteIoctl i965 s o tiling offset size fast slow) fun a => Good a.1 ∧ s.After a.1 := by
  have hshmem : ∀ t, Good t → Ends (slow.pages ≠ -enomem) (shmemPwriteSlow i965 t o slow) fun a =>
      Good a.1 ∧ t.After a.1 := fun t ht =>
    shmemPwrite_spec i965 o (slowPages_spec ht i965 o slow) slow.copy
  refine copyChecked_spec h o fun _ => ?_
  cases tiling with
  | none =>
      obtain ⟨hback, hpost⟩ := orSlow_spec (gttPwriteFast_spec h i965 o fast)
        (fun t ht => gttPwriteSlow_spec ht i965 o slow)
      exact ⟨fun hok => hback ⟨hok.1, hok.2.1⟩, hpost⟩
  | bit17 =>
      obtain ⟨hback, hpost⟩ := hshmem s h
      exact ⟨fun hok => hback hok.2.2, hpost⟩
  | plain =>
      have hfast : Ends True (shmemPwriteFast i965 s o fast) fun a => Good a.1 ∧ s.After a.1 :=
        shmemPwrite_spec i965 o (.of_some (getPages_taken h (.refl s) o fast.pages)) fast.copy
      obtain ⟨hback, hpost⟩ := orSlow_spec hfast hshmem
      exact ⟨fun hok => hback ⟨trivial, hok.2.2⟩, hpost⟩

end Copies

/-! ## All calls -/

/-- No count is at the end of its type. -/
def Sys.inRange (s : Sys) : Bool :=
  (List.range s.count).all fun o =>
    decide ((s.objs o).pinCount + 1 < 2 ^ 31 ∧ (s.objs o).pagesRefcount + 1 < 2 ^ 31)

/-- The counts are in range, batches are declared, and nobody reads nothing from the start of an
object: then the loop over the pages runs to the end of the address space. -/
def Call.ok (i965 : Bool) (s : Sys) (c : Call) : Bool :=
  s.inRange &&
    match c with
    | .execbuffer e => e.declared i965 s
    | .pread _ _ offset size _ _ => !(offset == 0 && size == 0)
    | _ => true

def Call.unbinds : Call → Bool
  | .unbind _ => true
  | _ => false

/-- Nothing has to be evicted for the call. -/
def Call.fits : Call → Bool
  | .pread _ _ _ _ _ slow => slow.pages != -enomem
  | .pwrite _ _ _ _ fast slow => fast.bind.fits && slow.bind.fits && slow.pages != -enomem
  | .execbuffer e => e.fits
  | _ => true

/-- What all calls do; all but one come back if nothing has to be evicted. -/
theorem call_spec {s : Sys} (h : Good s) (hsize : ∀ o, (s.objs o).size < 2 ^ 20) {i965 : Bool}
    {c : Call} (hok : c.ok i965 s = true) :
    Ends (c.unbinds = false ∧ c.fits = true) (call i965 s c) fun a => Good a.1 ∧ s.After a.1 := by
  replace hok := (Bool.and_eq_true_iff.mp hok).2
  cases c with
  | setDomain o r w =>
      obtain ⟨t, ret, ht, hgood, hlater⟩ := setDomainIoctl_spec h i965 o r w
      rw [call, ht]
      exact .of_some ⟨hgood, hlater.after⟩
  | swFinish o =>
      obtain ⟨hgood, hlater⟩ := swFinishIoctl_spec h o
      exact .of_some ⟨hgood, hlater.after⟩
  | pread o tiling offset size fast slow =>
      have hne : ¬ (offset = 0 ∧ size = 0) := by
        rintro ⟨rfl, rfl⟩
        exact absurd hok (by simp)
      obtain ⟨hback, hpost⟩ := preadIoctl_spec h i965 o tiling (hsize o) hne fast slow
      exact ⟨fun hfits => hback (bne_iff_ne.mp hfits.2), hpost⟩
  | pwrite o tiling offset size fast slow =>
      obtain ⟨hback, hpost⟩ := pwriteIoctl_spec h i965 o tiling offset size fast slow
      refine ⟨fun hfits => hback ?_, hpost⟩
      have hall := hfits.2
      simp only [Call.fits, Bool.and_eq_true, bne_iff_ne] at hall
      exact ⟨hall.1.1, hall.1.2, hall.2⟩
  | execbuffer e =>
      obtain ⟨hback, hpost⟩ := doExecbuffer_spec h i965 hok
      exact ⟨fun hfits => hback hfits.2, fun a ha => ⟨(hpost a ha).1, (hpost a ha).2.1⟩⟩
  | map o err =>
      refine .of_some ?_
      unfold mapBufferObject
      split
      · exact ⟨h, .refl s⟩
      · obtain ⟨t, ht, hst, heq⟩ := getPages_taken h (.refl s) o err
        split at heq
        · obtain ⟨hgood, hspared⟩ := good_takePages ht o
          rw [heq]
          exact ⟨hgood, (hst.trans hspared).after⟩
        · rw [heq]
          exact ⟨ht, hst.after⟩
  | unbind o =>
      refine ⟨fun hfits => absurd hfits.1 Bool.false_ne_true.symm, ?_⟩
      rintro ⟨t, ret⟩ hu
      simp only [call] at hu
      split at hu
      · cases hu
        exact ⟨h, .refl s⟩
      · obtain ⟨hgood, hevicts, -⟩ := unbind_spec h hu
        exact ⟨hgood, hevicts.toSpared.after⟩
  | idle =>
      obtain ⟨t, ret, ht, hgood, hstays⟩ := i915GpuIdle_spec h i965
      rw [call, ht]
      exact .of_some ⟨hgood, hstays.later.after⟩

/-! ## The machine -/

inductive Op where
  | call (c : Call)
  /-- a client makes an object, of some pages that 32 bits can address -/
  | create (size : Nat)
  /-- the chip hangs -/
  | wedge
  /-- somebody writes a dword of an object in whose write domain it is -/
  | write (d : Agent) (o i : Nat) (v : Word)
  /-- a cache reads ahead -/
  | fetch (d : Agent) (l : Loc)
  /-- a cache writes a line back -/
  | evict (d : Agent) (l : Loc)

def Sys.write (s : Sys) (d : Agent) (l : Loc) (v : Word) : Sys :=
  { s with hw := if cached d then s.hw.store d l v else s.hw.put l v }

def step (i965 : Bool) (s : Sys) : Op → Option Sys
  | .call c => (call i965 s c).map Prod.fst
  | .create size => if 0 < size ∧ size < 2 ^ 20 then some (createIoctl s size) else none
  | .wedge => some { s with wedged := true }
  | .write d o i v =>
      if i < (s.objs o).size * 1024 ∧ (s.objs o).writeDomain = domain d then
        some (s.write d (o, i) v)
      else none
  | .fetch d l =>
      if cached d = true ∧ (s.hw.line d l).isNone = true then some { s with hw := s.hw.fetch d l }
      else none
  | .evict d l => some { s with hw := s.hw.purge d (· == l) }

/-- No objects yet. -/
def start : Sys where
  count := 0
  objs _ := initObject 0
  gpuWriteList := []
  invalidateDomains := 0
  flushDomains := 0
  nextGemSeqno := 1
  wedged := false
  hw := { mem := fun _ => 0, line := fun _ _ => none, last := fun _ => 0 }

def gem (i965 : Bool) : Machine Sys Op where
  init s := s = start
  step := step i965

def Op.ok (i965 : Bool) (s : Sys) : Op → Prop
  | .call c => c.ok i965 s = true
  | _ => True

instance (i965 : Bool) (s : Sys) (a : Op) : Decidable (a.ok i965 s) :=
  match a with
  | .call c => inferInstanceAs (Decidable (c.ok i965 s = true))
  | .create _ => .isTrue trivial
  | .wedge => .isTrue trivial
  | .write .. => .isTrue trivial
  | .fetch .. => .isTrue trivial
  | .evict .. => .isTrue trivial

structure Inv (s : Sys) : Prop where
  good : Good s
  size : ∀ o, (s.objs o).size < 2 ^ 20
  free : ∀ o, s.count ≤ o → (s.objs o).size = 0

theorem initObject_ok (size : Nat) : (initObject size).Ok :=
  ⟨.cpu rfl rfl rfl, fun _ => rfl, fun hb => absurd hb Bool.false_ne_true,
    fun hp => absurd hp (Nat.lt_irrefl 0), fun hb => absurd hb Bool.false_ne_true,
    fun hv => by cases hv⟩

theorem inv_start : Inv start := by
  have hcpu : domain .cpu ≠ domain .render := by decide
  refine ⟨⟨fun o => initObject_ok 0, fun o => iff_of_false List.not_mem_nil hcpu, by decide, ?_⟩,
    fun o => Nat.two_pow_pos 20, fun o _ => rfl⟩
  refine ⟨fun _ _ => rfl, ?_, fun _ => rfl, ?_⟩
  · intro d l v hl
    cases hl
  · intro d l c _ hl
    cases hl

/-- A new object is the processor's, as its memory was. -/
theorem good_createIoctl {s : Sys} (h : Inv s) (size : Nat) : Good (createIoctl s size) := by
  have hempty := h.free s.count (Nat.le_refl _)
  have hthis : (createIoctl s size).objs s.count = initObject size := Function.update_self ..
  have hother : ∀ {o}, o ≠ s.count → (createIoctl s size).objs o = s.objs o :=
    fun ho => Function.update_of_ne ho _ _
  have hcpu : (initObject size).writer = some .cpu := rfl
  refine ⟨fun o => ?_, fun o => ?_, h.good.seqno, ?_⟩
  · by_cases ho : o = s.count
    · rw [ho, hthis]
      exact initObject_ok size
    · rw [hother ho]
      exact h.good.ok o
  · show o ∈ s.gpuWriteList.filter (· != s.count) ↔ _
    rw [List.mem_filter, bne_iff_ne]
    by_cases ho : o = s.count
    · have hwd : domain .cpu ≠ domain .render := by decide
      rw [ho, hthis]
      exact iff_of_false (fun hmem => hmem.2 rfl) hwd
    · rw [hother ho, ← h.good.list]
      exact and_iff_left ho
  · refine h.good.coherent.redirect ?_ ?_
    · rintro ⟨o, i⟩ d hd
      left
      by_cases ho : o = s.count
      · subst ho
        simp only [directory, hthis, hcpu, hempty, Nat.zero_mul, Nat.not_lt_zero, if_false,
          ite_self] at hd ⊢
        exact hd
      · simp only [directory, hother ho] at hd ⊢
        exact hd
    · rintro ⟨o, i⟩ d hd
      left
      by_cases ho : o = s.count
      · subst ho
        simp only [directory, hthis, hempty, Nat.zero_mul, Nat.not_lt_zero, if_false] at hd ⊢
        split at hd
        · exact (domain_and hd.1).symm
        · exact hd
      · simp only [directory, hother ho] at hd ⊢
        exact hd

/-- Whoever has the write domain is the writer. -/
theorem Obj.writer_of_placed {x : Obj} (h : x.Placed) {d : Agent} (hd : x.writeDomain = domain d) :
    x.writer = some d := by
  rcases h with hw | ⟨hw, -, -⟩ | ⟨hw, -⟩ | ⟨hw, -⟩
  · exact absurd (hd.symm.trans hw) (by cases d <;> decide)
  · rw [Obj.writer, domain_inj (hd.symm.trans hw), hw]
    decide
  · rw [Obj.writer, domain_inj (hd.symm.trans hw), hw]
    decide
  · rw [Obj.writer, domain_inj (hd.symm.trans hw), hw]
    decide

theorem coherent_write {s : Sys} (h : Good s) {d : Agent} {o i : Nat}
    (hi : i < (s.objs o).size * 1024) (hd : (s.objs o).writeDomain = domain d) (v : Word) :
    (s.write d (o, i) v).hw.Coherent cached (directory s.objs) := by
  have hwriter : (directory s.objs).writer (o, i) = some d := by
    simp only [directory, if_pos hi]
    exact Obj.writer_of_placed (h.ok o).placed hd
  unfold Sys.write
  dsimp only
  split
  · rename_i hcached
    exact h.coherent.store hcached hwriter v
  · rename_i hbare
    exact h.coherent.put (Bool.eq_false_of_not_eq_true hbare) hwriter v

/-- What a step can do: a call, a new object, or a change to the caches that the domains permit. -/
theorem step_cases {s t : Sys} (h : Good s) {i965 : Bool} {a : Op} (hs : step i965 s a = some t) :
    (∃ c ret, a = .call c ∧ call i965 s c = some (t, ret)) ∨
    (∃ size, size < 2 ^ 20 ∧ t = createIoctl s size) ∨
    ∃ hw wedged, hw.Coherent cached (directory s.objs) ∧
      t = { s with hw := hw, wedged := wedged } := by
  cases a with
  | call c =>
      obtain ⟨⟨t', ret⟩, hc, rfl⟩ := Option.map_eq_some_iff.mp hs
      exact .inl ⟨c, ret, rfl, hc⟩
  | create size =>
      simp only [step] at hs
      split at hs
      · rename_i hsize
        cases hs
        exact .inr (.inl ⟨size, hsize.2, rfl⟩)
      · cases hs
  | wedge =>
      cases hs
      exact .inr (.inr ⟨s.hw, true, h.coherent, rfl⟩)
  | write d o i v =>
      simp only [step] at hs
      split at hs
      · rename_i hguard
        cases hs
        exact .inr (.inr ⟨_, s.wedged, coherent_write h hguard.1 hguard.2 v, rfl⟩)
      · cases hs
  | fetch d l =>
      simp only [step] at hs
      split at hs
      · rename_i hguard
        cases hs
        have hnone := Option.isNone_iff_eq_none.mp hguard.2
        exact .inr (.inr ⟨_, s.wedged, h.coherent.fetch hguard.1 hnone, rfl⟩)
      · cases hs
  | evict d l =>
      cases hs
      exact .inr (.inr ⟨_, s.wedged, h.coherent.purge d _, rfl⟩)

theorem inv_step {s t : Sys} (h : Inv s) {i965 : Bool} {a : Op} (hok : a.ok i965 s)
    (hs : step i965 s a = some t) : Inv t := by
  obtain ⟨c, ret, rfl, hc⟩ | ⟨size, hsize, rfl⟩ | ⟨hw, wedged, hcoherent, rfl⟩ :=
    step_cases h.good hs
  · obtain ⟨hgood, hafter⟩ := (call_spec h.good h.size hok).post _ hc
    refine ⟨hgood, fun o => ?_, fun o ho => ?_⟩
    · rw [hafter.size]
      exact h.size o
    · rw [hafter.size]
      exact h.free o (hafter.count ▸ ho)
  · refine ⟨good_createIoctl h size, fun o => ?_, fun o ho => ?_⟩
    · show (Function.update s.objs s.count (initObject size) o).size < 2 ^ 20
      by_cases hoc : o = s.count
      · rw [hoc, Function.update_self]
        exact hsize
      · rw [Function.update_of_ne hoc]
        exact h.size o
    · have ho' : s.count + 1 ≤ o := ho
      show (Function.update s.objs s.count (initObject size) o).size = 0
      rw [Function.update_of_ne (by omega)]
      exact h.free o (by omega)
  · exact ⟨⟨h.good.ok, h.good.list, h.good.seqno, hcoherent⟩, h.size, h.free⟩

theorem inv_reach {i965 : Bool} {s : Sys} (h : (gem i965).Reach (Op.ok i965) s) : Inv s := by
  induction h with
  | init hs =>
      cases hs
      exact inv_start
  | step a _ hok hs ih => exact inv_step ih hok hs

/-! ## No stale reads -/

instance (x : Obj) (d : Agent) (i : Nat) : Decidable (x.Reads d i) :=
  inferInstanceAs (Decidable (_ ∧ _ ∧ (_ → _)))

/-- A place is found at once. -/
def Bind.at (offset : Word) : Bind := ⟨true, [⟨some offset, 0, true, 0⟩]⟩

/-- A batch of the commands in object 1, which are bound at `0x2000`, over other objects: for each
its place, and the domains the commands use it in. -/
def batchOver (uses : List (Nat × Word × Option (Word × Word))) : Op :=
  .call (.execbuffer ⟨uses.map (fun u => ⟨u.1, .at u.2.1, .at u.2.1, []⟩) ++
    [⟨1, .at 0x2000, .at 0x2000, uses.filterMap fun u => u.2.2.map fun ds =>
      ⟨u.1, 0, 0, u.2.1.toNat, ds.1, ds.2⟩⟩], 0, 8, true⟩)

/-- The processor writes what a batch samples. -/
def sampleRun : List Op :=
  [.create 1, .create 1, .write .cpu 0 0 7,
    batchOver [(0, 0x1000, some (domain .sampler, 0))]]

/-- Somebody may read a place and does not see what was written there last. -/
def stale (s : Sys) (d : Agent) (o i : Nat) : Bool :=
  decide (i < (s.objs o).size * 1024) && decide ((s.objs o).Reads d i) &&
    s.hw.sees d (o, i) != s.hw.last (o, i)

/-- A batch that lists an object without a use leaves it in the processor's write domain, and on the
list of what the chip writes.  A flush for other objects then takes it for flushed. -/
theorem undeclared_write_lost : ∃ s, (gem false).Reachable s ∧ stale s .sampler 0 0 = true := by
  have hrun : ((gem false).run start
      [.create 1, .create 1, .create 1, .create 1, .write .cpu 0 0 7,
        batchOver [(0, 0x1000, none), (2, 0x3000, some (domain .render, domain .render))],
        batchOver [(2, 0x3000, some (domain .sampler, 0)), (3, 0x4000, some (domain .sampler, 0))],
        batchOver [(0, 0x1000, some (domain .sampler, 0))]]).map (stale · .sampler 0 0) =
      some true := by decide
  obtain ⟨s, hs, hstale⟩ := Option.map_eq_some_iff.mp hrun
  exact ⟨s, Machine.Reachable.run (.init rfl) _ hs, hstale⟩

/-- What a batch samples and renders to is left in the sampler's cache when the rendering is flushed
later, and both domains are still noted. -/
theorem sampled_and_rendered_stale :
    ∃ s, (gem false).Reachable s ∧ stale s .sampler 0 0 = true := by
  have hrun : ((gem false).run start
      [.create 1, .create 1,
        batchOver [(0, 0x1000, some (domain .sampler ||| domain .render, domain .render))],
        .fetch .sampler (0, 0), .write .render 0 0 7,
        .call (.setDomain 0 (domain .gtt) 0)]).map (stale · .sampler 0 0) =
      some true := by decide
  obtain ⟨s, hs, hstale⟩ := Option.map_eq_some_iff.mp hrun
  exact ⟨s, Machine.Reachable.run (.init rfl) _ hs, hstale⟩

/-- After a batch nothing can be evicted any more.  Then an object that finds no place, here one
that is written by a client, runs into `BUG_ON`. -/
theorem full_aperture_hangs : ∃ s c, (gem false).Reach (Op.ok false) s ∧ c.ok false s = true ∧
    c.unbinds = false ∧ call false s c = none := by
  have hrun : (((gem false).runOk (Op.ok false) start (sampleRun ++ [.create 1])).map fun s =>
      decide ((Call.pwrite 2 .none 0 4 ⟨0, 0, 0, 0, true, ⟨true, [⟨none, 0, true, 0⟩]⟩, 0⟩
        ⟨0, 0, 0, 0, true, ⟨true, []⟩, 0⟩).ok false s = true ∧
      (call false s (.pwrite 2 .none 0 4 ⟨0, 0, 0, 0, true, ⟨true, [⟨none, 0, true, 0⟩]⟩, 0⟩
        ⟨0, 0, 0, 0, true, ⟨true, []⟩, 0⟩)).isNone = true)) = some true := by decide
  obtain ⟨s, hs, hfacts⟩ := Option.map_eq_some_iff.mp hrun
  obtain ⟨hok, hhang⟩ := of_decide_eq_true hfacts
  exact ⟨s, _, Machine.Reach.runOk (.init rfl) _ hs, hok, rfl, Option.isNone_iff_eq_none.mp hhang⟩

/-- **When unbinding hangs.**  The object is in the aperture and not pinned.  If the chip uses it,
the driver never learns that it has finished, and trips over it unless the chip has hung; if not,
it trips over the reference to the pages that a mapping has taken. -/
theorem unbind_hangs_iff (i965 : Bool) {s : Sys} (h : (gem i965).Reach (Op.ok i965) s) (o : Nat) :
    call i965 s (.unbind o) = none ↔ o < s.count ∧ (s.objs o).gttSpace = true ∧
      (s.objs o).pinCount = 0 ∧ ((s.objs o).Busy → s.wedged = false) ∧
      (¬ (s.objs o).Busy → 2 ≤ (s.objs o).pagesRefcount) := by
  have hgood := (inv_reach h).good
  simp only [call]
  by_cases ho : s.count ≤ o
  · rw [if_pos ho]
    exact iff_of_false (Option.some_ne_none _) fun hall => absurd hall.1 (Nat.not_lt.mpr ho)
  · rw [if_neg ho, unbind_none_iff hgood]
    constructor
    · rintro ⟨hbound, hpin, hbusy, hidle⟩
      have hpages := (hgood.ok o).pages hbound
      refine ⟨Nat.not_le.mp ho, hbound, hpin, hbusy, fun hb => ?_⟩
      have hne := hidle hb
      omega
    · rintro ⟨-, hbound, hpin, hbusy, hidle⟩
      refine ⟨hbound, hpin, hbusy, fun hb hone => ?_⟩
      have htwo := hidle hb
      omega

theorem unbind_hangs_iff_sampled : ∃ s, (gem false).Reach (Op.ok false) s ∧
    call false s (.unbind 0) = none := by
  have hrun : (((gem false).runOk (Op.ok false) start sampleRun).map fun s =>
      decide (0 < s.count ∧ (s.objs 0).gttSpace = true ∧ (s.objs 0).pinCount = 0 ∧
        s.wedged = false ∧ (s.objs 0).active = true)) = some true := by decide
  obtain ⟨s, hs, hfacts⟩ := Option.map_eq_some_iff.mp hrun
  obtain ⟨hcount, hbound, hpin, hwedged, hactive⟩ := of_decide_eq_true hfacts
  have hreach := Machine.Reach.runOk (.init rfl) sampleRun hs
  refine ⟨s, hreach, (unbind_hangs_iff false hreach 0).mpr ⟨hcount, hbound, hpin, ?_, ?_⟩⟩
  · exact fun _ => hwedged
  · exact fun hidle => absurd (.inl hactive) hidle

/-! ## Places in the aperture -/

end LinuxDrivers.Gpu.Domains
