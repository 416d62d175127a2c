/-
# `LinuxDrivers.Kernel.IrqFlags` — the interrupt-disable counter

`cli_sti.c` replaces the processor's interrupt flag by a global counter.
Disabling increments it; enabling reads it and decrements that many times; and
`raw_local_irq_restore(flags)` is plain enabling, whatever `flags` is.  The
comment on `__raw_local_save_flags` explains why that was thought to be enough:

    XXX: Up to now, flags was always 0 at this point and
         I assume that this is always the case. Prove?

It is not always the case.  `__queue_work` calls `wake_up` while it holds an
irqsave lock, and `__wake_up` takes another one: an inner restore then enables
interrupts for the rest of the outer section.

`Nest` is the syntax of well-bracketed save/restore code, `Nest.exec` runs it in
one thread and records, at every save and restore, the nesting depth and the
counter.  `nest_restores_iff` says for which code and which initial counter the
restores restore: no nesting at all, started with interrupts enabled.
-/
import LinuxDrivers.Basic
import LinuxDrivers.Kernel.SpinLock

namespace LinuxDrivers.Kernel.IrqFlags

open LinuxDrivers.Kernel.SpinLock

/-! ## The functions of `cli_sti.c` -/

/-- Interrupts count as disabled if `flags`, read as an `int`, is positive. -/
def rawIrqsDisabledFlags (flags : Word) : Bool := decide (0 < intOfWord flags)

def rawLocalSaveFlags (refcnt : Word) : Word := refcnt

def rawLocalIrqDisable (refcnt : Word) : Word := refcnt + 1

/-- `for (i; i > 0; --i) atomic_dec(&_refcnt);` -/
def decLoop : Nat → Word → Word
  | 0, refcnt => refcnt
  | i + 1, refcnt => decLoop i (refcnt - 1)

def rawLocalIrqEnable (refcnt : Word) : Word := decLoop (intOfWord refcnt).toNat refcnt

def rawLocalIrqRestore (_flags refcnt : Word) : Word := rawLocalIrqEnable refcnt

/-- `__raw_local_irq_save`: the flags and the new counter. -/
def rawLocalIrqSave (refcnt : Word) : Word × Word :=
  (rawLocalSaveFlags refcnt, rawLocalIrqDisable refcnt)

theorem decLoop_eq : ∀ (n : Nat) (r : Word), decLoop n r = r - BitVec.ofNat 32 n := by
  intro n
  induction n with
  | zero => intro r; simp [decLoop]
  | succ n ih =>
      intro r
      rw [decLoop, ih, BitVec.ofNat_add, sub_sub, add_comm]
      rfl

/-- Enabling brings a positive counter to zero and leaves any other one alone. -/
theorem rawLocalIrqEnable_eq (r : Word) :
    rawLocalIrqEnable r = if 0 < intOfWord r then 0 else r := by
  rw [rawLocalIrqEnable, decLoop_eq]
  split
  · rename_i hpos
    have hnat : (intOfWord r).toNat = r.toNat := by
      simp only [intOfWord, BitVec.toInt] at hpos ⊢
      split at hpos <;> omega
    rw [hnat]
    simp
  · rename_i hpos
    have hnat : (intOfWord r).toNat = 0 := by omega
    rw [hnat]
    simp

/-- The heart of the matter: one save and one restore with nothing in between
give the counter back exactly if it was zero. -/
theorem restore_save_iff (r : Word) :
    rawLocalIrqRestore r (rawLocalIrqDisable r) = r ↔ r = 0 := by
  rw [rawLocalIrqRestore, rawLocalIrqEnable_eq, rawLocalIrqDisable]
  constructor
  · intro h
    split at h
    · exact h.symm
    · exact absurd h (by bv_omega)
  · intro h
    subst h
    decide

/-! ## Well-bracketed code -/

/-- The state one thread works on. -/
structure Irq where
  refcnt : Word
  locks : Nat → SpinlockT

/-- The two kinds of critical section: `local_irq_save` / `local_irq_restore`,
and `spin_lock_irqsave` / `spin_unlock_irqrestore` on lock `l`. -/
inductive Kind where
  | irq
  | spin (l : Nat)
  deriving DecidableEq, Repr

def localIrqSave (s : Irq) : Word × Irq :=
  let r := rawLocalIrqSave s.refcnt
  (r.1, { s with refcnt := r.2 })

def localIrqRestore (flags : Word) (s : Irq) : Irq :=
  { s with refcnt := rawLocalIrqRestore flags s.refcnt }

/-- `none` if the thread waits for a lock; alone, it then waits forever. -/
def spinLockIrqsave (l : Nat) (s : Irq) : Option (Word × Irq) :=
  let (flags, s) := localIrqSave s
  match spinLock (s.locks l) with
  | none => none
  | some k => some (flags, { s with locks := Function.update s.locks l k })

def spinUnlockIrqrestore (l : Nat) (flags : Word) (s : Irq) : Irq :=
  localIrqRestore flags
    { s with locks := Function.update s.locks l (spinUnlock (s.locks l)) }

def Kind.enter : Kind → Irq → Option (Word × Irq)
  | .irq, s => some (localIrqSave s)
  | .spin l, s => spinLockIrqsave l s

def Kind.leave : Kind → Word → Irq → Irq
  | .irq, flags, s => localIrqRestore flags s
  | .spin l, flags, s => spinUnlockIrqrestore l flags s

/-- Well-bracketed code: a section with its body, then the rest. -/
inductive Nest where
  | done
  | sect (k : Kind) (body rest : Nest)
  deriving DecidableEq, Repr

/-- How deep the sections are nested. -/
def Nest.depth : Nest → Nat
  | .done => 0
  | .sect _ body rest => max (body.depth + 1) rest.depth

/-- What is seen right after a save or a restore: the number of sections entered
and not left, the counter, and, after a restore, the counter at the matching
save. -/
structure Mark where
  depth : Nat
  refcnt : Word
  saved : Option Word
  deriving DecidableEq, Repr

/-- Run the code at nesting depth `d`; `none` if it blocks on one of its locks. -/
def Nest.exec : Nest → Nat → Irq → Option (Irq × List Mark)
  | .done, _, s => some (s, [])
  | .sect k body rest, d, s =>
      match k.enter s with
      | none => none
      | some (flags, s₁) =>
          match body.exec (d + 1) s₁ with
          | none => none
          | some (s₂, inner) =>
              match rest.exec d (k.leave flags s₂) with
              | none => none
              | some (s₃, outer) =>
                  some (s₃, ⟨d + 1, s₁.refcnt, none⟩ :: inner ++
                    ⟨d, (k.leave flags s₂).refcnt, some s.refcnt⟩ :: outer)

/-- Every restore brings the counter back to its value at the matching save. -/
def Restores (ms : List Mark) : Prop :=
  ∀ m ∈ ms, ∀ v : Word, m.saved = some v → m.refcnt = v

/-- Interrupts count as disabled at every point inside a section. -/
def StaysDisabled (ms : List Mark) : Prop :=
  ∀ m ∈ ms, 0 < m.depth → rawIrqsDisabledFlags (rawLocalSaveFlags m.refcnt) = true

/-! ## When restores restore -/

/-- Entering a section saves the counter and increments it. -/
theorem Kind.enter_refcnt {k : Kind} {s s₁ : Irq} {flags : Word}
    (h : k.enter s = some (flags, s₁)) :
    flags = s.refcnt ∧ s₁.refcnt = rawLocalIrqDisable s.refcnt := by
  cases k with
  | irq =>
      cases h
      exact ⟨rfl, rfl⟩
  | spin l =>
      simp only [Kind.enter, spinLockIrqsave] at h
      split at h
      · cases h
      · cases h
        exact ⟨rfl, rfl⟩

/-- Leaving one enables interrupts, whatever was saved. -/
theorem Kind.leave_refcnt (k : Kind) (flags : Word) (s : Irq) :
    (k.leave flags s).refcnt = rawLocalIrqRestore flags s.refcnt := by
  cases k <;> rfl

/-- Unpacking a run of a section. -/
theorem Nest.exec_sect {k : Kind} {body rest : Nest} {d : Nat} {s s' : Irq} {ms : List Mark}
    (h : (Nest.sect k body rest).exec d s = some (s', ms)) :
    ∃ s₁ s₂ inner outer, s₁.refcnt = rawLocalIrqDisable s.refcnt ∧
      body.exec (d + 1) s₁ = some (s₂, inner) ∧
      rest.exec d (k.leave s.refcnt s₂) = some (s', outer) ∧
      ms = ⟨d + 1, s₁.refcnt, none⟩ :: inner ++
        ⟨d, (k.leave s.refcnt s₂).refcnt, some s.refcnt⟩ :: outer := by
  simp only [Nest.exec] at h
  split at h
  · cases h
  · rename_i flags s₁ henter
    obtain ⟨rfl, hs₁⟩ := Kind.enter_refcnt henter
    split at h
    · cases h
    · rename_i s₂ inner hbody
      split at h
      · cases h
      · rename_i s₃ outer hrest
        cases h
        exact ⟨s₁, s₂, inner, outer, hs₁, hbody, hrest, rfl⟩

theorem Nest.depth_eq_zero {b : Nest} : b.depth = 0 ↔ b = .done := by
  cases b with
  | done => simp [Nest.depth]
  | sect k body rest => simp [Nest.depth]

/-- Code without nesting, started with the counter at zero, ends with it at zero
and is well behaved at every point. -/
theorem Nest.exec_flat : ∀ {b : Nest} {d : Nat} {s s' : Irq} {ms : List Mark},
    b.exec d s = some (s', ms) → s.refcnt = 0 → b.depth ≤ 1 →
      s'.refcnt = 0 ∧ Restores ms ∧ (d = 0 → StaysDisabled ms) := by
  intro b
  induction b with
  | done =>
      intro d s s' ms h hs _
      cases h
      exact ⟨hs, by simp [Restores], fun _ => by simp [StaysDisabled]⟩
  | sect k body rest _ ihrest =>
      intro d s s' ms h hs hdepth
      obtain ⟨s₁, s₂, inner, outer, hs₁, hbody, hrest, rfl⟩ := Nest.exec_sect h
      have hdone : body = .done := Nest.depth_eq_zero.mp (by simp only [Nest.depth] at hdepth; omega)
      subst hdone
      cases hbody
      have hleave : (k.leave s.refcnt s₁).refcnt = s.refcnt := by
        rw [Kind.leave_refcnt, hs₁]
        exact (restore_save_iff _).mpr hs
      obtain ⟨hs', hres, hdis⟩ :=
        ihrest hrest (hleave.trans hs) (by simp only [Nest.depth] at hdepth; omega)
      refine ⟨hs', ?_, fun hd => ?_⟩
      · intro m hm v hv
        simp only [List.cons_append, List.nil_append, List.mem_cons] at hm
        rcases hm with rfl | rfl | hm
        · cases hv
        · cases hv
          exact hleave
        · exact hres m hm v hv
      · intro m hm hpos
        simp only [List.cons_append, List.nil_append, List.mem_cons] at hm
        rcases hm with rfl | rfl | hm
        · rw [hs₁, hs]
          show rawIrqsDisabledFlags (rawLocalIrqDisable 0) = true
          decide
        · subst hd
          exact absurd hpos (Nat.lt_irrefl 0)
        · exact hdis hd m hm hpos

/-- Conversely, if every restore restores, there was nothing to restore, or the
counter was zero and nothing is nested.  The induction is on the code; a body
that is not empty would have to start with the counter at zero, which the save
before it has just ruled out. -/
theorem Nest.flat_of_restores : ∀ {b : Nest} {d : Nat} {s s' : Irq} {ms : List Mark},
    b.exec d s = some (s', ms) → Restores ms →
      b.depth = 0 ∨ s.refcnt = 0 ∧ b.depth ≤ 1 := by
  intro b
  induction b with
  | done => intro d s s' ms _ _; exact Or.inl rfl
  | sect k body rest ihbody ihrest =>
      intro d s s' ms h hres
      obtain ⟨s₁, s₂, inner, outer, hs₁, hbody, hrest, rfl⟩ := Nest.exec_sect h
      have hinner : Restores inner := fun m hm => hres m (by simp [hm])
      have houter : Restores outer := fun m hm => hres m (by simp [hm])
      have hleave : rawLocalIrqRestore s.refcnt s₂.refcnt = s.refcnt := by
        rw [← Kind.leave_refcnt k]
        exact hres ⟨d, (k.leave s.refcnt s₂).refcnt, some s.refcnt⟩ (by simp) s.refcnt rfl
      rcases ihbody hbody hinner with hz | ⟨hz, hle⟩
      · rw [Nest.depth_eq_zero] at hz
        subst hz
        cases hbody
        have hs : s.refcnt = 0 := by
          rw [hs₁] at hleave
          exact (restore_save_iff _).mp hleave
        have hrestle : rest.depth ≤ 1 := by
          rcases ihrest hrest houter with hr | ⟨_, hr⟩ <;> omega
        exact Or.inr ⟨hs, by simp only [Nest.depth]; omega⟩
      · -- the counter would be at -1 before the section and at 0 after it
        exfalso
        have hs₂ := (Nest.exec_flat hbody hz hle).1
        rw [hs₂, rawLocalIrqRestore] at hleave
        rw [hs₁, ← hleave] at hz
        exact absurd hz (by decide)

/-- **When save and restore nest.**  For well-bracketed code that runs to its
end, every restore restores and interrupts stay disabled until the outermost
one exactly if there is no section at all, or the counter starts at zero and no
section is nested in another. -/
theorem nest_restores_iff (b : Nest) (s s' : Irq) (ms : List Mark)
    (h : b.exec 0 s = some (s', ms)) :
    (Restores ms ∧ StaysDisabled ms) ↔ (b.depth = 0 ∨ s.refcnt = 0 ∧ b.depth ≤ 1) := by
  constructor
  · intro hm
    exact Nest.flat_of_restores h hm.1
  · intro hb
    rcases hb with hz | ⟨hs, hle⟩
    · rw [Nest.depth_eq_zero] at hz
      subst hz
      cases h
      exact ⟨by simp [Restores], by simp [StaysDisabled]⟩
    · obtain ⟨_, hres, hdis⟩ := Nest.exec_flat h hs hle
      exact ⟨hres, hdis rfl⟩

/-- Two sections one after the other on the same lock: both restores restore. -/
theorem nest_restores_twice :
    Restores [⟨1, 1, none⟩, ⟨0, 0, some 0⟩, ⟨1, 1, none⟩, ⟨0, 0, some 0⟩] :=
  ((nest_restores_iff (.sect (.spin 0) .done (.sect (.spin 0) .done .done))
    ⟨0, fun _ => defineSpinlock⟩ _ _ rfl).mpr (Or.inr ⟨rfl, by decide⟩)).1

/-- **The nesting of `queue_work`.**  A wait-queue lock taken while a work-queue
lock is held: the inner restore, due to bring the counter back to 1, leaves it at
0, and interrupts count as enabled in the rest of the outer section. -/
theorem nest_queue_work_breaks :
    ∃ s' ms, (Nest.sect (.spin 0) (.sect (.spin 1) .done .done) .done).exec 0
        ⟨0, fun _ => defineSpinlock⟩ = some (s', ms) ∧
      ¬ Restores ms ∧ ¬ StaysDisabled ms := by
  refine ⟨_, [⟨1, 1, none⟩, ⟨2, 2, none⟩, ⟨1, 0, some 1⟩, ⟨0, 0, some 0⟩], rfl, ?_, ?_⟩
  · intro h
    exact absurd (h ⟨1, 0, some 1⟩ (by simp) 1 rfl) (by decide)
  · intro h
    exact absurd (h ⟨1, 0, some 1⟩ (by simp) (by decide)) (by decide)

end LinuxDrivers.Kernel.IrqFlags
