/-
# `LinuxDrivers.Lib.Coherence` — caches that software keeps coherent

Several agents read and write one memory, each through a cache of its own or through none.  The
hardware keeps nothing coherent: a cache may fetch a line at any time and write one back at any time,
and a line it has may be older than the memory.  Software keeps a directory of who may read a place
and who may write it, and cleans the caches before it changes the directory.

    line d l          the copy agent `d` has of the place `l`, and whether it is newer than the memory
    last l            the value last written to `l`, by whomever (no agent knows it)

A directory is well formed if whoever may write a place is the only one that may read it, and that is
a field of the structure.

**Proved here.**  A directory is kept right (`Coherent`) by all that caches do by themselves (`fetch`,
`purge`), by the writes it permits (`store`, `put`) and by cleaning (`Cleaned`); it may be exchanged
for another one if whoever loses the right to write has nothing to write back, and whoever gains the
right to read has no copy (`redirect`).  What a permitted reader sees is then the value last written
(`sees_last`).
-/
import Mathlib.Logic.Function.Basic

namespace LinuxDrivers.Lib

/-- Memory, the copies of it, and the values last written. -/
structure Caches (Agent Loc Val : Type) where
  mem : Loc → Val
  line : Agent → Loc → Option (Val × Bool)
  last : Loc → Val

/-- Who may read and who may write. -/
structure Directory (Agent Loc : Type) where
  readers : Loc → Agent → Prop
  writer : Loc → Option Agent
  exclusive : ∀ {l : Loc} {d w : Agent}, writer l = some w → readers l d → d = w

namespace Caches

variable {Agent Loc Val : Type}

/-- The value agent `d` reads. -/
def sees (s : Caches Agent Loc Val) (d : Agent) (l : Loc) : Val :=
  match s.line d l with
  | some (v, _) => v
  | none => s.mem l

/-- `d` has a copy that is newer than the memory. -/
def Dirty (s : Caches Agent Loc Val) (d : Agent) (l : Loc) : Prop := ∃ v, s.line d l = some (v, true)

theorem not_dirty_of_none {s : Caches Agent Loc Val} {d : Agent} {l : Loc}
    (h : s.line d l = none) : ¬ s.Dirty d l := by
  rintro ⟨v, hv⟩
  rw [h] at hv
  cases hv

section Operations

variable [DecidableEq Agent] [DecidableEq Loc]

/-- The cache of `d` takes a copy of the memory. -/
def fetch (s : Caches Agent Loc Val) (d : Agent) (l : Loc) : Caches Agent Loc Val :=
  { s with line := fun e m => if e = d ∧ m = l then some (s.mem l, false) else s.line e m }

/-- The cache of `d` writes back what it has of the places `P`, and forgets it. -/
def purge (s : Caches Agent Loc Val) (d : Agent) (P : Loc → Bool) : Caches Agent Loc Val where
  mem l :=
    match s.line d l with
    | some (v, true) => if P l then v else s.mem l
    | _ => s.mem l
  line e l := if e = d ∧ P l = true then none else s.line e l
  last := s.last

/-- The cache of `d` forgets what is not newer than the memory. -/
def drop (s : Caches Agent Loc Val) (d : Agent) : Caches Agent Loc Val :=
  { s with line := fun e l => if e = d then (s.line e l).filter (·.2) else s.line e l }

/-- `d` writes into its cache. -/
def store (s : Caches Agent Loc Val) (d : Agent) (l : Loc) (v : Val) : Caches Agent Loc Val :=
  { s with
    line := fun e m => if e = d ∧ m = l then some (v, true) else s.line e m
    last := Function.update s.last l v }

/-- Somebody without a cache writes. -/
def put (s : Caches Agent Loc Val) (l : Loc) (v : Val) : Caches Agent Loc Val :=
  { s with mem := Function.update s.mem l v, last := Function.update s.last l v }

end Operations

/-! ## Cleaning -/

section Cleaning

variable [DecidableEq Agent]

/-- `t` is `s` after its caches were cleaned. -/
inductive Cleaned (s : Caches Agent Loc Val) : Caches Agent Loc Val → Prop
  | refl : Cleaned s s
  | purge {t : Caches Agent Loc Val} (d : Agent) (P : Loc → Bool) :
      Cleaned s t → Cleaned s (t.purge d P)
  | drop {t : Caches Agent Loc Val} (d : Agent) : Cleaned s t → Cleaned s (t.drop d)

namespace Cleaned

variable {s t u : Caches Agent Loc Val}

theorem trans (h : Cleaned s t) (h' : Cleaned t u) : Cleaned s u := by
  induction h' with
  | refl => exact h
  | purge d P _ ih => exact .purge d P ih
  | drop d _ ih => exact .drop d ih

/-- A loop of cleanings. -/
theorem foldl {α : Type} {f : Caches Agent Loc Val → α → Caches Agent Loc Val}
    (hf : ∀ t a, Cleaned t (f t a)) (as : List α) (s : Caches Agent Loc Val) :
    Cleaned s (as.foldl f s) := by
  induction as generalizing s with
  | nil => exact .refl
  | cons a as ih => exact (hf s a).trans (ih (f s a))

/-- No cleaning makes a copy. -/
theorem line_eq (h : Cleaned s t) (d : Agent) (l : Loc) :
    t.line d l = none ∨ t.line d l = s.line d l := by
  induction h with
  | refl => exact .inr rfl
  | @purge t e P _ ih =>
      by_cases hp : d = e ∧ P l = true
      · exact .inl (if_pos hp)
      · exact ih.imp ((if_neg hp).trans ·) ((if_neg hp).trans ·)
  | @drop t e _ ih =>
      by_cases hd : d = e
      · have hdrop : (t.drop e).line d l = (t.line d l).filter (·.2) := if_pos hd
        rw [hdrop]
        rcases ih with ih | ih
        · exact .inl (by rw [ih]; rfl)
        · rw [ih]
          cases hline : s.line d l with
          | none => exact .inl rfl
          | some c =>
              obtain ⟨v, dirty⟩ := c
              cases dirty with
              | false => exact .inl rfl
              | true => exact .inr rfl
      · exact ih.imp ((if_neg hd).trans ·) ((if_neg hd).trans ·)

theorem line_none (h : Cleaned s t) {d : Agent} {l : Loc} (hnone : s.line d l = none) :
    t.line d l = none := by
  rcases h.line_eq d l with hl | hl
  · exact hl
  · rw [hl, hnone]

theorem dirty (h : Cleaned s t) {d : Agent} {l : Loc} (hd : t.Dirty d l) : s.Dirty d l := by
  obtain ⟨v, hv⟩ := hd
  rcases h.line_eq d l with hl | hl
  · rw [hl] at hv
    cases hv
  · exact ⟨v, hl ▸ hv⟩

/-- What one round of a loop has cleaned stays clean. -/
theorem foldl_none {α : Type} {f : Caches Agent Loc Val → α → Caches Agent Loc Val} {d : Agent}
    {l : Loc} (hf : ∀ t a, Cleaned t (f t a)) {a : α} (ha : ∀ t, (f t a).line d l = none)
    {as : List α} (hmem : a ∈ as) (s : Caches Agent Loc Val) : (as.foldl f s).line d l = none := by
  induction as generalizing s with
  | nil => cases hmem
  | cons b as ih =>
      rcases List.mem_cons.mp hmem with rfl | hmem
      · exact (foldl hf as (f s a)).line_none (ha s)
      · exact ih hmem (f s b)

end Cleaned

theorem purge_none (s : Caches Agent Loc Val) {d : Agent} {P : Loc → Bool} {l : Loc}
    (h : P l = true) : (s.purge d P).line d l = none := if_pos ⟨rfl, h⟩

/-- Of a cache that is never written, nothing is left. -/
theorem drop_none {s : Caches Agent Loc Val} {d : Agent} {l : Loc} (h : ¬ s.Dirty d l) :
    (s.drop d).line d l = none := by
  have hdrop : (s.drop d).line d l = (s.line d l).filter (·.2) := if_pos rfl
  rw [hdrop]
  cases hline : s.line d l with
  | none => rfl
  | some c =>
      obtain ⟨v, dirty⟩ := c
      cases dirty with
      | false => rfl
      | true => exact absurd ⟨v, hline⟩ h

end Cleaning

/-! ## Directories that are right -/

/-- The directory says who may write what, and nobody it lets read has an old copy. -/
structure Coherent (cached : Agent → Bool) (D : Directory Agent Loc) (s : Caches Agent Loc Val) :
    Prop where
  bare : ∀ {d : Agent}, cached d = false → ∀ l, s.line d l = none
  owner : ∀ {d : Agent} {l : Loc} {v : Val}, s.line d l = some (v, true) →
    D.writer l = some d ∧ v = s.last l
  home : ∀ {l : Loc}, (∀ d, ¬ s.Dirty d l) → s.mem l = s.last l
  fresh : ∀ {d : Agent} {l : Loc} {c : Val × Bool}, D.readers l d → s.line d l = some c →
    c.1 = s.last l

namespace Coherent

variable {cached : Agent → Bool} {D D' : Directory Agent Loc} {s t : Caches Agent Loc Val}

/-- Only the writer is newer than the memory. -/
theorem writer_of_dirty (h : Coherent cached D s) {d : Agent} {l : Loc} (hd : s.Dirty d l) :
    D.writer l = some d := by
  obtain ⟨v, hv⟩ := hd
  exact (h.owner hv).1

/-- For a reader without a copy the memory is right. -/
theorem mem_last (h : Coherent cached D s) {d : Agent} {l : Loc} (hr : D.readers l d)
    (hnone : s.line d l = none) : s.mem l = s.last l := by
  refine h.home ?_
  rintro e ⟨v, hv⟩
  have hde : d = e := D.exclusive (h.owner hv).1 hr
  rw [← hde, hnone] at hv
  cases hv

/-- The rule of exchange. -/
theorem redirect (h : Coherent cached D s)
    (hwriter : ∀ {l d}, D.writer l = some d → D'.writer l = some d ∨ ¬ s.Dirty d l)
    (hreader : ∀ {l d}, D'.readers l d → D.readers l d ∨ s.line d l = none) :
    Coherent cached D' s := by
  refine ⟨h.bare, ?_, h.home, ?_⟩
  · intro d l v hv
    obtain ⟨howner, hval⟩ := h.owner hv
    rcases hwriter howner with hw | hclean
    · exact ⟨hw, hval⟩
    · exact absurd ⟨v, hv⟩ hclean
  · intro d l c hr hc
    rcases hreader hr with hold | hnone
    · exact h.fresh hold hc
    · rw [hnone] at hc
      cases hc

section Agents

variable [DecidableEq Agent]

theorem purge (h : Coherent cached D s) (d : Agent) (P : Loc → Bool) :
    Coherent cached D (s.purge d P) := by
  have hcleaned : Cleaned s (s.purge d P) := .purge d P .refl
  refine ⟨?_, ?_, ?_, ?_⟩
  · intro e he l
    exact hcleaned.line_none (h.bare he l)
  · intro e l v hv
    rcases hcleaned.line_eq e l with hl | hl
    · rw [hl] at hv
      cases hv
    · exact h.owner (hl.symm.trans hv)
  · intro l hclean
    simp only [Caches.purge]
    split
    · rename_i v hv
      by_cases hp : P l = true
      · rw [if_pos hp]
        exact (h.owner hv).2
      · exact absurd ⟨v, (if_neg fun hc => hp hc.2).trans hv⟩ (hclean d)
    · rename_i hv
      refine h.home ?_
      rintro e ⟨v, hev⟩
      by_cases hep : e = d ∧ P l = true
      · rw [hep.1] at hev
        exact hv v hev
      · exact hclean e ⟨v, (if_neg hep).trans hev⟩
  · intro e l c hr hc
    rcases hcleaned.line_eq e l with hl | hl
    · rw [hl] at hc
      cases hc
    · exact h.fresh hr (hl.symm.trans hc)

theorem drop (h : Coherent cached D s) (d : Agent) : Coherent cached D (s.drop d) := by
  have hcleaned : Cleaned s (s.drop d) := .drop d .refl
  refine ⟨?_, ?_, ?_, ?_⟩
  · intro e he l
    exact hcleaned.line_none (h.bare he l)
  · intro e l v hv
    rcases hcleaned.line_eq e l with hl | hl
    · rw [hl] at hv
      cases hv
    · exact h.owner (hl.symm.trans hv)
  · intro l hclean
    refine h.home ?_
    rintro e ⟨v, hv⟩
    refine hclean e ⟨v, ?_⟩
    by_cases hd : e = d
    · exact (if_pos hd).trans (by rw [hv]; rfl)
    · exact (if_neg hd).trans hv
  · intro e l c hr hc
    rcases hcleaned.line_eq e l with hl | hl
    · rw [hl] at hc
      cases hc
    · exact h.fresh hr (hl.symm.trans hc)

theorem cleaned (h : Coherent cached D s) (hc : Cleaned s t) : Coherent cached D t := by
  induction hc with
  | refl => exact h
  | purge d P _ ih => exact ih.purge d P
  | drop d _ ih => exact ih.drop d

end Agents

section Places

variable [DecidableEq Loc]

theorem put (h : Coherent cached D s) {d : Agent} (hd : cached d = false) {l : Loc}
    (hw : D.writer l = some d) (v : Val) : Coherent cached D (s.put l v) := by
  have hlast : ∀ {m}, m ≠ l → (s.put l v).last m = s.last m := fun hm =>
    Function.update_of_ne hm _ _
  have hmem : ∀ {m}, m ≠ l → (s.put l v).mem m = s.mem m := fun hm => Function.update_of_ne hm _ _
  refine ⟨fun he m => h.bare he m, ?_, ?_, ?_⟩
  · intro e m x hx
    obtain ⟨howner, hval⟩ := h.owner hx
    refine ⟨howner, hval.trans (hlast ?_).symm⟩
    rintro rfl
    rw [hw] at howner
    cases howner
    rw [show (s.put m v).line d m = none from h.bare hd m] at hx
    cases hx
  · intro m hclean
    by_cases hm : m = l
    · subst hm
      exact (Function.update_self m v s.mem).trans (Function.update_self m v s.last).symm
    · exact (hmem hm).trans ((h.home hclean).trans (hlast hm).symm)
  · intro e m c hr hc
    refine (h.fresh hr hc).trans (hlast ?_).symm
    rintro rfl
    obtain rfl := D.exclusive hw hr
    rw [show (s.put m v).line e m = none from h.bare hd m] at hc
    cases hc

variable [DecidableEq Agent]

theorem fetch (h : Coherent cached D s) {d : Agent} (hd : cached d = true) {l : Loc}
    (hnone : s.line d l = none) : Coherent cached D (s.fetch d l) := by
  have hline : ∀ e m, (s.fetch d l).line e m = s.line e m ∨
      (e = d ∧ m = l ∧ (s.fetch d l).line e m = some (s.mem l, false)) := by
    intro e m
    by_cases hem : e = d ∧ m = l
    · exact .inr ⟨hem.1, hem.2, if_pos hem⟩
    · exact .inl (if_neg hem)
  have hdirty : ∀ {e m}, s.Dirty e m → (s.fetch d l).Dirty e m := by
    rintro e m ⟨v, hv⟩
    rcases hline e m with hl | ⟨rfl, rfl, -⟩
    · exact ⟨v, hl.trans hv⟩
    · rw [hnone] at hv
      cases hv
  refine ⟨?_, ?_, ?_, ?_⟩
  · intro e he m
    rcases hline e m with hl | ⟨rfl, -, -⟩
    · exact hl.trans (h.bare he m)
    · rw [hd] at he
      cases he
  · intro e m v hv
    rcases hline e m with hl | ⟨-, -, hl⟩
    · exact h.owner (hl.symm.trans hv)
    · rw [hl] at hv
      cases hv
  · intro m hclean
    exact h.home fun e he => hclean e (hdirty he)
  · intro e m c hr hc
    rcases hline e m with hl | ⟨rfl, rfl, hl⟩
    · exact h.fresh hr (hl.symm.trans hc)
    · rw [hl] at hc
      cases hc
      exact h.mem_last hr hnone

theorem store (h : Coherent cached D s) {d : Agent} (hd : cached d = true) {l : Loc}
    (hw : D.writer l = some d) (v : Val) : Coherent cached D (s.store d l v) := by
  have hother : ∀ {e m}, ¬ (e = d ∧ m = l) → (s.store d l v).line e m = s.line e m :=
    fun hem => if_neg hem
  have hthis : (s.store d l v).line d l = some (v, true) := if_pos ⟨rfl, rfl⟩
  have hlast : ∀ {m}, m ≠ l → (s.store d l v).last m = s.last m := fun hm =>
    Function.update_of_ne hm _ _
  have hlast' : (s.store d l v).last l = v := Function.update_self ..
  refine ⟨?_, ?_, ?_, ?_⟩
  · intro e he m
    by_cases hem : e = d ∧ m = l
    · rw [hem.1, hd] at he
      cases he
    · exact (hother hem).trans (h.bare he m)
  · intro e m x hx
    by_cases hem : e = d ∧ m = l
    · obtain ⟨rfl, rfl⟩ := hem
      rw [hthis] at hx
      cases hx
      exact ⟨hw, hlast'.symm⟩
    · rw [hother hem] at hx
      obtain ⟨howner, hval⟩ := h.owner hx
      refine ⟨howner, hval.trans (hlast ?_).symm⟩
      rintro rfl
      rw [hw] at howner
      exact hem ⟨(Option.some.inj howner).symm, rfl⟩
  · intro m hclean
    by_cases hm : m = l
    · exact absurd ⟨v, hm ▸ hthis⟩ (hclean d)
    · refine Eq.trans (h.home ?_) (hlast hm).symm
      rintro e ⟨x, hx⟩
      exact hclean e ⟨x, (hother fun hem => hm hem.2).trans hx⟩
  · intro e m c hr hc
    by_cases hem : e = d ∧ m = l
    · obtain ⟨rfl, rfl⟩ := hem
      rw [hthis] at hc
      cases hc
      exact hlast'.symm
    · rw [hother hem] at hc
      refine (h.fresh hr hc).trans (hlast ?_).symm
      rintro rfl
      exact hem ⟨D.exclusive hw hr, rfl⟩

end Places

end Coherent

end Caches

end LinuxDrivers.Lib
