/-
# `LinuxDrivers.Lib.Interleave` — pools of threads over shared state

A program says what one thread does in one atomic step: from the shared state
and its own control point to a new shared state and a new control point.  The
machine of the program runs any number of threads, in any order, one step at a
time; the pool is a list of control points and thread `i` is its `i`-th entry.

Most invariants of such machines are about *how many* threads are at certain
control points (at most one owner, nobody in between, as many as the counter
says).  `total w pool` adds a weight over the pool.  One step changes one
thread, so it moves the total by the difference of two weights
(`total_set`), and the balance rule `Prog.balance` turns an invariant "the
shared state and the total fit together" into a condition on single thread
steps in which the rest of the pool is just a number.
-/
import LinuxDrivers.Lib.Machine
import Mathlib.Algebra.BigOperators.Group.List.Basic
import Mathlib.Algebra.Group.Pi.Basic

namespace LinuxDrivers.Lib

/-! ## Weights over a pool -/

section Total
variable {π : Type} {M : Type} [AddCommMonoid M]

/-- The sum of a weight over a pool. -/
def total (w : π → M) (pool : List π) : M := (pool.map w).sum

@[simp] theorem total_nil (w : π → M) : total w [] = 0 := rfl

@[simp] theorem total_cons (w : π → M) (p : π) (pool : List π) :
    total w (p :: pool) = w p + total w pool := by
  simp [total]

/-- Replacing thread `i` takes its old weight out and puts the new one in; the
rest of the pool is the same `r` on both sides. -/
theorem total_set (w : π → M) :
    ∀ {pool : List π} {i : Nat} {p : π}, pool[i]? = some p →
      ∃ r : M, total w pool = r + w p ∧ ∀ p' : π, total w (pool.set i p') = r + w p'
  | [], _, _, h => by simp at h
  | q :: pool, 0, p, h => by
      simp only [List.getElem?_cons_zero, Option.some.injEq] at h
      subst h
      exact ⟨total w pool, by rw [total_cons, add_comm],
        fun p' => by rw [List.set_cons_zero, total_cons, add_comm]⟩
  | q :: pool, i + 1, p, h => by
      rw [List.getElem?_cons_succ] at h
      obtain ⟨r, hr, hset⟩ := total_set w h
      refine ⟨w q + r, ?_, fun p' => ?_⟩
      · rw [total_cons, hr, add_assoc]
      · rw [List.set_cons_succ, total_cons, hset, add_assoc]

/-- A family of weights adds up member by member. -/
theorem total_apply {ι : Type} (w : π → ι → M) (pool : List π) (k : ι) :
    total w pool k = total (fun p => w p k) pool := by
  induction pool with
  | nil => rfl
  | cons q pool ih => rw [total_cons, total_cons, Pi.add_apply, ih]

/-- A weight that vanishes at every thread adds up to nothing. -/
theorem total_eq_zero {w : π → M} {pool : List π} (h : ∀ p ∈ pool, w p = 0) :
    total w pool = 0 := by
  induction pool with
  | nil => rfl
  | cons q pool ih =>
      rw [total_cons, h q List.mem_cons_self,
        ih (fun p hp => h p (List.mem_cons_of_mem _ hp)), add_zero]

/-- A thread that keeps what it has does not change what the pool has. -/
theorem flatMap_set {α : Type} {f : π → List α} {pool : List π} {i : Nat} {p p' : π}
    (hi : pool[i]? = some p) (hf : f p' = f p) : (pool.set i p').flatMap f = pool.flatMap f := by
  induction pool generalizing i with
  | nil => simp at hi
  | cons q pool ih =>
      cases i with
      | zero =>
          simp only [List.getElem?_cons_zero, Option.some.injEq] at hi
          subst hi
          rw [List.set_cons_zero, List.flatMap_cons, List.flatMap_cons, hf]
      | succ i =>
          rw [List.getElem?_cons_succ] at hi
          rw [List.set_cons_succ, List.flatMap_cons, List.flatMap_cons, ih hi]

end Total

section TotalNat
variable {π : Type}

/-- One thread weighs at most as much as the pool. -/
theorem le_total (w : π → Nat) {pool : List π} {i : Nat} {p : π}
    (h : pool[i]? = some p) : w p ≤ total w pool := by
  obtain ⟨r, hr, _⟩ := total_set w h
  omega

/-- Two different threads weigh at most as much as the pool. -/
theorem add_le_total (w : π → Nat) {pool : List π} {i j : Nat} {p q : π} (hij : i ≠ j)
    (hi : pool[i]? = some p) (hj : pool[j]? = some q) : w p + w q ≤ total w pool := by
  induction pool generalizing i j with
  | nil => simp at hi
  | cons a pool ih =>
      cases i with
      | zero =>
          cases j with
          | zero => exact absurd rfl hij
          | succ j =>
              simp only [List.getElem?_cons_zero, Option.some.injEq] at hi
              subst hi
              have := le_total w (by simpa using hj : pool[j]? = some q)
              rw [total_cons]
              omega
      | succ i =>
          cases j with
          | zero =>
              simp only [List.getElem?_cons_zero, Option.some.injEq] at hj
              subst hj
              have := le_total w (by simpa using hi : pool[i]? = some p)
              rw [total_cons]
              omega
          | succ j =>
              have := ih (fun h => hij (congrArg Nat.succ h)) (by simpa using hi)
                (by simpa using hj)
              rw [total_cons]
              omega

/-- If no two threads fit into the pool's weight, only one thread has any. -/
theorem unique_of_total_le_one {w : π → Nat} {pool : List π} (h : total w pool ≤ 1)
    {i j : Nat} {p q : π} (hi : pool[i]? = some p) (hj : pool[j]? = some q)
    (hp : 0 < w p) (hq : 0 < w q) : i = j := by
  by_contra hij
  have := add_le_total w hij hi hj
  omega

/-- A pool of positive weight has a thread of positive weight. -/
theorem exists_of_total_pos {w : π → Nat} {pool : List π} (h : 0 < total w pool) :
    ∃ (i : Nat) (p : π), pool[i]? = some p ∧ 0 < w p := by
  induction pool with
  | nil => simp at h
  | cons q pool ih =>
      by_cases hq : 0 < w q
      · exact ⟨0, q, rfl, hq⟩
      · have hpos : 0 < total w pool := by
          rw [total_cons] at h
          omega
        obtain ⟨i, p, hi, hp⟩ := ih hpos
        exact ⟨i + 1, p, by simpa using hi, hp⟩

/-- A weight below another one stays below it in the sum. -/
theorem total_le_total {v w : π → Nat} (h : ∀ p, v p ≤ w p) (pool : List π) :
    total v pool ≤ total w pool := by
  induction pool with
  | nil => exact Nat.le_refl _
  | cons q pool ih =>
      rw [total_cons, total_cons]
      exact Nat.add_le_add (h q) ih

theorem flatMap_none {α : Type} {w : π → Nat} {f : π → List α} (hf : ∀ p, w p = 0 → f p = [])
    {pool : List π} (h : total w pool = 0) : pool.flatMap f = [] := by
  apply List.flatMap_eq_nil_iff.mpr
  intro p hp
  obtain ⟨i, hi⟩ := List.getElem?_of_mem hp
  have hle := le_total w hi
  exact hf p (by omega)

/-- What one thread has alone is all that the pool has. -/
theorem flatMap_only {α : Type} {w : π → Nat} {f : π → List α} (hf : ∀ p, w p = 0 → f p = [])
    {pool : List π} (h : total w pool ≤ 1) {i : Nat} {p : π} (hi : pool[i]? = some p)
    (hp : 0 < w p) : pool.flatMap f = f p := by
  induction pool generalizing i with
  | nil => simp at hi
  | cons q pool ih =>
      rw [total_cons] at h
      rw [List.flatMap_cons]
      cases i with
      | zero =>
          simp only [List.getElem?_cons_zero, Option.some.injEq] at hi
          subst hi
          rw [flatMap_none hf (by omega), List.append_nil]
      | succ i =>
          rw [List.getElem?_cons_succ] at hi
          have hle := le_total w hi
          rw [hf q (by omega), ih (by omega) hi, List.nil_append]

end TotalNat

/-! ## Programs and their machines -/

/-- What one thread does in one atomic step, and where things start.  The first
argument of `step` is the thread's own index; the last one is the choice the
environment makes for the thread (which call it issues, which timer expires). -/
structure Prog (σ π α : Type) where
  init : σ → Prop
  start : π → Prop
  step : Nat → σ → π → α → Option (σ × π)

/-- A shared state and the control point of every thread. -/
structure Conf (σ π : Type) where
  shared : σ
  pool : List π
  deriving DecidableEq

namespace Prog

variable {σ π α : Type}

/-- Any number of threads, each at a starting point; a step lets thread `i` do
one step under the choice `a`. -/
def machine (P : Prog σ π α) : Machine (Conf σ π) (Nat × α) where
  init c := P.init c.shared ∧ ∀ p ∈ c.pool, P.start p
  step c ia :=
    match c.pool[ia.1]? with
    | none => none
    | some p =>
        match P.step ia.1 c.shared p ia.2 with
        | none => none
        | some (g, p') => some ⟨g, c.pool.set ia.1 p'⟩

variable {P : Prog σ π α}

/-- What a step of the machine is. -/
theorem machine_step {c c' : Conf σ π} {ia : Nat × α} (h : P.machine.step c ia = some c') :
    ∃ p g p', c.pool[ia.1]? = some p ∧ P.step ia.1 c.shared p ia.2 = some (g, p') ∧
      c' = ⟨g, c.pool.set ia.1 p'⟩ := by
  simp only [machine] at h
  split at h
  · cases h
  · rename_i p hp
    split at h
    · cases h
    · rename_i g p' hs
      cases h
      exact ⟨p, g, p', hp, hs, rfl⟩

/-- A possible step of a thread is a step of the machine. -/
theorem machine_run_cons {c : Conf σ π} {i : Nat} {a : α} {p p' : π} {g : σ}
    (hp : c.pool[i]? = some p) (hs : P.step i c.shared p a = some (g, p'))
    (as : List (Nat × α)) :
    P.machine.run c ((i, a) :: as) = P.machine.run ⟨g, c.pool.set i p'⟩ as := by
  apply Machine.run_cons
  simp only [machine, hp, hs]

/-- And leads from a state reached to a state reached. -/
theorem reach_step {ok : Conf σ π → Nat × α → Prop} {c : Conf σ π} {i : Nat} {a : α} {p p' : π}
    {g : σ} (h : P.machine.Reach ok c) (hok : ok c (i, a)) (hp : c.pool[i]? = some p)
    (hs : P.step i c.shared p a = some (g, p')) : P.machine.Reach ok ⟨g, c.pool.set i p'⟩ := by
  refine .step (i, a) h hok ?_
  simp only [machine, hp, hs]

/-- The observer rule.  `S g p m` is about one thread `i` at `p`, the shared state
and the weight of the whole pool.  It is an invariant if the thread's own steps
keep it and the steps of the others, which leave the thread where it is, keep it
too; the threads that do not move weigh some fixed `r`. -/
theorem observe {M : Type} [AddCommMonoid M] {ok : Conf σ π → Nat × α → Prop}
    (i : Nat) (w : π → M) (S : σ → π → M → Prop)
    (hinit : ∀ c p, P.machine.init c → c.pool[i]? = some p → S c.shared p (total w c.pool))
    (hown : ∀ c a p g p' r, P.machine.Reach ok c → ok c (i, a) → c.pool[i]? = some p →
      total w c.pool = r + w p → P.step i c.shared p a = some (g, p') →
      S c.shared p (r + w p) → S g p' (r + w p'))
    (hother : ∀ c j a p q g q' r, P.machine.Reach ok c → ok c (j, a) → i ≠ j →
      c.pool[i]? = some p → c.pool[j]? = some q → total w c.pool = r + w q →
      P.step j c.shared q a = some (g, q') → S c.shared p (r + w q) → S g p (r + w q'))
    {c : Conf σ π} (h : P.machine.Reach ok c) :
    ∀ p : π, c.pool[i]? = some p → S c.shared p (total w c.pool) := by
  induction h with
  | init hc => exact fun p hp => hinit _ p hc hp
  | @step c c' ja hreach hok hst ih =>
      obtain ⟨q, g, q', hq, hs, rfl⟩ := machine_step hst
      obtain ⟨r, hr, hset⟩ := total_set w hq
      intro p hp
      simp only [hset]
      rw [hr] at ih
      by_cases hij : ja.1 = i
      · subst hij
        rw [List.getElem?_set_self (List.getElem?_eq_some_iff.mp hq).1, Option.some.injEq] at hp
        subst hp
        exact hown c ja.2 q g q' r hreach hok hq hr hs (ih _ hq)
      · rw [List.getElem?_set_ne hij] at hp
        exact hother c ja.1 ja.2 p q g q' r hreach hok (fun e => hij e.symm) hp hq hr hs (ih _ hp)

/-- The same, for what does not need to know of the weight before. -/
theorem watch {M : Type} [AddCommMonoid M] {ok : Conf σ π → Nat × α → Prop}
    (i : Nat) (w : π → M) (S : σ → π → M → Prop)
    (hinit : ∀ c p, P.machine.init c → c.pool[i]? = some p → S c.shared p (total w c.pool))
    (hown : ∀ c a p g p' r, P.machine.Reach ok c → ok c (i, a) → c.pool[i]? = some p →
      P.step i c.shared p a = some (g, p') → S c.shared p (r + w p) → S g p' (r + w p'))
    (hother : ∀ c j a p q g q' r, P.machine.Reach ok c → ok c (j, a) → i ≠ j →
      c.pool[i]? = some p → c.pool[j]? = some q →
      P.step j c.shared q a = some (g, q') → S c.shared p (r + w q) → S g p (r + w q'))
    {c : Conf σ π} (h : P.machine.Reach ok c) :
    ∀ p : π, c.pool[i]? = some p → S c.shared p (total w c.pool) :=
  observe i w S hinit
    (fun c a p g p' r hr hok hp _ hs hS => hown c a p g p' r hr hok hp hs hS)
    (fun c j a p q g q' r hr hok hij hp hq _ hs hS =>
      hother c j a p q g q' r hr hok hij hp hq hs hS) h

/-- The observer rule without weights. -/
theorem thread {ok : Conf σ π → Nat × α → Prop} (R : Nat → σ → π → Prop)
    (hinit : ∀ c i p, P.machine.init c → c.pool[i]? = some p → R i c.shared p)
    (hown : ∀ c i a p g p', P.machine.Reach ok c → ok c (i, a) → c.pool[i]? = some p →
      P.step i c.shared p a = some (g, p') → R i c.shared p → R i g p')
    (hother : ∀ c i j a p q g q', P.machine.Reach ok c → ok c (j, a) → i ≠ j →
      c.pool[i]? = some p → c.pool[j]? = some q →
      P.step j c.shared q a = some (g, q') → R i c.shared p → R i g p)
    {c : Conf σ π} (h : P.machine.Reach ok c) :
    ∀ (i : Nat) (p : π), c.pool[i]? = some p → R i c.shared p := by
  intro i
  exact watch i (fun _ => (0 : Nat)) (fun g p _ => R i g p) (fun c p hc hp => hinit c i p hc hp)
    (fun c a p g p' _ hr hok hp hs hR => hown c i a p g p' hr hok hp hs hR)
    (fun c j a p q g q' _ hr hok hij hp hq hs hR =>
      hother c i j a p q g q' hr hok hij hp hq hs hR) h

/-- The case without shared state: threads change only by their own steps. -/
theorem each {ok : Conf σ π → Nat × α → Prop} (K : π → Prop)
    (hstart : ∀ p, P.start p → K p)
    (hstep : ∀ i g p a g' p', K p → P.step i g p a = some (g', p') → K p')
    {c : Conf σ π} (h : P.machine.Reach ok c) {i : Nat} {p : π} (hp : c.pool[i]? = some p) : K p :=
  thread (fun _ _ p => K p) (fun _ _ p hc hp => hstart p (hc.2 p (List.mem_of_getElem? hp)))
    (fun _ _ _ _ _ _ _ _ _ hs hk => hstep _ _ _ _ _ _ hk hs)
    (fun _ _ _ _ _ _ _ _ _ _ _ _ _ _ hk => hk) h i p hp

/-- The rely rule.  `S` is about the shared state, `R i` about thread `i`, and they are proved
together: a step may rely on both, and keeps `S`, what is said of its own thread, and what is
said of every other one. -/
theorem rely {ok : Conf σ π → Nat × α → Prop} (S : σ → Prop) (R : Nat → σ → π → Prop)
    (hinit : ∀ c, P.machine.init c →
      S c.shared ∧ ∀ (i : Nat) (p : π), c.pool[i]? = some p → R i c.shared p)
    (hstep : ∀ c i a p g p', P.machine.Reach ok c → ok c (i, a) → c.pool[i]? = some p →
      P.step i c.shared p a = some (g, p') → S c.shared → R i c.shared p →
      S g ∧ R i g p' ∧
        ∀ (j : Nat) (q : π), j ≠ i → c.pool[j]? = some q → R j c.shared q → R j g q)
    {c : Conf σ π} (h : P.machine.Reach ok c) :
    S c.shared ∧ ∀ (i : Nat) (p : π), c.pool[i]? = some p → R i c.shared p := by
  induction h with
  | init hc => exact hinit _ hc
  | @step c c' ia hreach hok hst ih =>
      obtain ⟨p, g, p', hp, hs, rfl⟩ := machine_step hst
      obtain ⟨hS, hR⟩ := ih
      obtain ⟨hS', hown, hother⟩ := hstep c ia.1 ia.2 p g p' hreach hok hp hs hS (hR _ _ hp)
      refine ⟨hS', ?_⟩
      intro j q hq
      by_cases hij : j = ia.1
      · subst hij
        rw [List.getElem?_set_self (List.getElem?_eq_some_iff.mp hp).1, Option.some.injEq] at hq
        subst hq
        exact hown
      · rw [List.getElem?_set_ne (Ne.symm hij)] at hq
        exact hother j q hij hq (hR j q hq)

/-- The balance rule.  `I g m` relates the shared state to the weight of the
pool.  If every single thread step keeps `I`, with the rest of the pool
weighing some fixed `r`, then every state reached satisfies it. -/
theorem balance {M : Type} [AddCommMonoid M] {ok : Conf σ π → Nat × α → Prop}
    (w : π → M) (I : σ → M → Prop)
    (hinit : ∀ c, P.machine.init c → I c.shared (total w c.pool))
    (hstep : ∀ c i a p g p' r, P.machine.Reach ok c → ok c (i, a) → c.pool[i]? = some p →
      total w c.pool = r + w p → P.step i c.shared p a = some (g, p') →
      I c.shared (r + w p) → I g (r + w p'))
    {c : Conf σ π} (h : P.machine.Reach ok c) : I c.shared (total w c.pool) := by
  induction h with
  | init hc => exact hinit _ hc
  | @step c c' ia hreach hok hst ih =>
      obtain ⟨p, g, p', hp, hs, rfl⟩ := machine_step hst
      obtain ⟨r, hr, hset⟩ := total_set w hp
      rw [hr] at ih
      simpa only [hset] using hstep c ia.1 ia.2 p g p' r hreach hok hp hr hs ih

/-- A step of one thread and a flag: neither changes, or the thread takes what was free, or gives
it back. -/
inductive Toggles : Bool → Nat → Bool → Nat → Prop
  | same (b : Bool) (n : Nat) : Toggles b n b n
  | take : Toggles false 0 true 1
  | give (b : Bool) : Toggles b 1 false 0

/-- The flag rule: a flag that every step toggles is set exactly while one thread has it. -/
theorem flag {ok : Conf σ π → Nat × α → Prop} (w : π → Nat) (f : σ → Bool)
    (hinit : ∀ c, P.machine.init c → f c.shared = false ∧ total w c.pool = 0)
    (hstep : ∀ i g p a g' p', P.step i g p a = some (g', p') → Toggles (f g) (w p) (f g') (w p'))
    {c : Conf σ π} (h : P.machine.Reach ok c) :
    total w c.pool = if f c.shared then 1 else 0 := by
  refine balance w (fun g n => n = if f g then 1 else 0) ?_ ?_ h
  · intro c hc
    obtain ⟨hf, hw⟩ := hinit c hc
    rw [hf, hw]
    rfl
  · intro c i a p g p' r _ _ _ _ hs hold
    have htoggle := hstep i c.shared p a g p' hs
    generalize f c.shared = b, w p = n, f g = b', w p' = n' at htoggle hold
    cases htoggle with
    | same => exact hold
    | take =>
        simp only [Bool.false_eq_true, if_false] at hold
        simp only [if_true]
        omega
    | give =>
        simp only [Bool.false_eq_true, if_false]
        split at hold <;> omega

/-- The invariant rule for the shared state alone. -/
theorem always {ok : Conf σ π → Nat × α → Prop} (I : σ → Prop)
    (hinit : ∀ c, P.machine.init c → I c.shared)
    (hstep : ∀ c i a p g p', P.machine.Reach ok c → ok c (i, a) → c.pool[i]? = some p →
      P.step i c.shared p a = some (g, p') → I c.shared → I g)
    {c : Conf σ π} (h : P.machine.Reach ok c) : I c.shared :=
  balance (fun _ => (0 : Nat)) (fun g _ => I g) hinit
    (fun c i a p g p' _ hr hok hp _ hs hI => hstep c i a p g p' hr hok hp hs hI) h

end Prog

end LinuxDrivers.Lib
