/-
# `LinuxDrivers.Lib.Stack` — threads that call functions

The threads of `Lib.Interleave` have one control point.  Code with subroutines
has a stack of them: a *frame* says where one call of one function stands and
holds its local variables.  `Code.exec` runs the top frame for one atomic step
and says which frames take its place: none (the function returns), one (it goes
on), or more (it calls).  A thread with no frame is idle and may issue a call.

`census w c` adds a weight over all frames of all threads, and `Code.balance` is
the balance rule for it: the frame that moves is replaced by the frames it leaves
behind, everything else weighs some fixed `r`.
-/
import LinuxDrivers.Lib.Interleave

namespace LinuxDrivers.Lib

/-! ## Weights over stacks -/

section Total
variable {π M : Type} [AddCommMonoid M]

@[simp] theorem total_singleton (w : π → M) (p : π) : total w [p] = w p := by
  simp [total]

@[simp] theorem total_append (w : π → M) (p q : List π) :
    total w (p ++ q) = total w p + total w q := by
  simp [total]

theorem total_map {ρ : Type} (w : π → M) (f : ρ → π) (pool : List ρ) :
    total w (pool.map f) = total (fun p => w (f p)) pool := by
  simp [total, Function.comp_def]

theorem total_add (v w : π → M) (pool : List π) :
    total (fun p => v p + w p) pool = total v pool + total w pool :=
  List.sum_map_add

end Total

/-! ## Code and its programs -/

/-- What a frame does in one atomic step, and what an idle thread may call. -/
structure Code (σ φ α : Type) where
  init : σ → Prop
  start : List φ → Prop
  call : α → Option φ
  exec : σ → φ → α → Option (σ × List φ)

section Census
variable {σ φ M ι : Type} [AddCommMonoid M]

/-- The weight of all frames of all threads. -/
def census (w : φ → M) (c : Conf σ (List φ)) : M := total (total w) c.pool

theorem census_apply (w : φ → ι → M) (c : Conf σ (List φ)) (k : ι) :
    census w c k = census (fun f => w f k) c := by
  rw [census, total_apply]
  simp only [total_apply]
  rfl

theorem census_add (v w : φ → M) (c : Conf σ (List φ)) :
    census (fun f => v f + w f) c = census v c + census w c := by
  have hstack : total (fun f => v f + w f) = fun stack => total v stack + total w stack :=
    funext (total_add v w)
  rw [census, hstack]
  exact total_add (total v) (total w) c.pool

/-- The frame at the top of a stack is replaced, and the rest weighs the same. -/
theorem census_set (w : φ → M) {c : Conf σ (List φ)} {i : Nat} {f : φ} {rest : List φ}
    (hi : c.pool[i]? = some (f :: rest)) :
    ∃ r : M, census w c = r + w f ∧
      ∀ g new, census w (⟨g, c.pool.set i (new ++ rest)⟩ : Conf σ (List φ)) = r + total w new := by
  obtain ⟨r, hr, hset⟩ := total_set (total w) hi
  refine ⟨r + total w rest, ?_, ?_⟩
  · rw [census, hr, total_cons, add_comm (w f), add_assoc]
  · intro g new
    rw [census, hset, total_append, add_comm (total w new), add_assoc]

end Census

section CensusNat
variable {σ φ : Type} {w : φ → Nat} {c : Conf σ (List φ)}

/-- If there is any weight, some frame of some thread has it. -/
theorem exists_of_census_pos (h : 0 < census w c) :
    ∃ (i : Nat) (stack : List φ) (f : φ), c.pool[i]? = some stack ∧ f ∈ stack ∧ 0 < w f := by
  obtain ⟨i, stack, hi, hpos⟩ := exists_of_total_pos h
  obtain ⟨j, f, hj, hf⟩ := exists_of_total_pos hpos
  exact ⟨i, stack, f, hi, List.mem_of_getElem? hj, hf⟩

theorem le_census {i : Nat} {stack : List φ} {f : φ} (hi : c.pool[i]? = some stack)
    (hf : f ∈ stack) : w f ≤ census w c := by
  obtain ⟨j, hj⟩ := List.getElem?_of_mem hf
  exact Nat.le_trans (le_total w hj) (le_total (total w) hi)

/-- A weight below another one stays below it in the census. -/
theorem census_le_census {v : φ → Nat} (h : ∀ f, v f ≤ w f) : census v c ≤ census w c :=
  total_le_total (total_le_total h) c.pool

end CensusNat

namespace Code

variable {σ φ α : Type}

/-- Idle threads call, the others run their top frame. -/
def prog (C : Code σ φ α) : Prog σ (List φ) α where
  init := C.init
  start := C.start
  step _ g stack a :=
    match stack with
    | [] => (C.call a).map (fun f => (g, [f]))
    | f :: rest => (C.exec g f a).map (fun x => (x.1, x.2 ++ rest))

def machine (C : Code σ φ α) : Machine (Conf σ (List φ)) (Nat × α) := C.prog.machine

variable {C : Code σ φ α}

/-- What a step of a thread that is not idle is. -/
theorem machine_step_cons {c c' : Conf σ (List φ)} {i : Nat} {a : α} {f : φ} {rest : List φ}
    (hi : c.pool[i]? = some (f :: rest)) (h : C.machine.step c (i, a) = some c') :
    ∃ g new, C.exec c.shared f a = some (g, new) ∧ c' = ⟨g, c.pool.set i (new ++ rest)⟩ := by
  obtain ⟨stack, g, stack', hp, hs, rfl⟩ := Prog.machine_step h
  rw [hi] at hp
  cases hp
  obtain ⟨⟨g₁, new⟩, hx, hxg⟩ := Option.map_eq_some_iff.mp hs
  cases hxg
  exact ⟨g₁, new, hx, rfl⟩

/-- Nothing has any weight before the first call. -/
theorem census_init {M : Type} [AddCommMonoid M] (hstart : ∀ stack, C.start stack → stack = [])
    (w : φ → M) {c : Conf σ (List φ)} (h : C.machine.init c) : census w c = 0 := by
  apply total_eq_zero
  intro stack hstack
  rw [hstart stack (h.2 stack hstack)]
  rfl

/-- The balance rule for frames. -/
theorem balance {M : Type} [AddCommMonoid M] {ok : Conf σ (List φ) → Nat × α → Prop}
    (w : φ → M) (I : σ → M → Prop)
    (hinit : ∀ c, C.machine.init c → I c.shared (census w c))
    (hcall : ∀ g a f r, C.call a = some f → I g r → I g (r + w f))
    (hexec : ∀ c i a f rest g new r, C.machine.Reach ok c → ok c (i, a) →
      c.pool[i]? = some (f :: rest) → census w c = r + w f →
      C.exec c.shared f a = some (g, new) → I c.shared (r + w f) → I g (r + total w new))
    {c : Conf σ (List φ)} (h : C.machine.Reach ok c) : I c.shared (census w c) := by
  refine Prog.balance (total w) I hinit ?_ h
  intro c i a stack g stack' r hreach hok hp hr hs hI
  cases stack with
  | nil =>
      obtain ⟨f, hf, hfg⟩ := Option.map_eq_some_iff.mp hs
      cases hfg
      rw [total_nil, add_zero] at hI
      rw [total_singleton]
      exact hcall _ a f r hf hI
  | cons f rest =>
      obtain ⟨⟨g₁, new⟩, hx, hxg⟩ := Option.map_eq_some_iff.mp hs
      cases hxg
      have hmove : ∀ m : M, r + (m + total w rest) = r + total w rest + m := by
        intro m
        rw [add_comm m, add_assoc]
      rw [total_cons, hmove] at hI hr
      rw [total_append, hmove]
      exact hexec c i a f rest g₁ new _ hreach hok hp hr hx hI

/-- The potential rule for frames: what a call or a step adds to the shared measure and the
weight of the frames, it pays for. -/
theorem le_spent {cost : Conf σ (List φ) → Nat × α → Nat} (w : φ → Nat) (m : σ → Nat)
    (hcall : ∀ c i a f, c.pool[i]? = some [] → C.call a = some f → w f ≤ cost c (i, a))
    (hexec : ∀ c i a f rest g new, c.pool[i]? = some (f :: rest) →
      C.exec c.shared f a = some (g, new) →
      m g + total w new ≤ m c.shared + w f + cost c (i, a))
    {c c' : Conf σ (List φ)} {as : List (Nat × α)} (h : C.machine.run c as = some c') :
    m c'.shared + census w c' ≤ m c.shared + census w c + C.machine.spent cost c as := by
  refine Machine.run_le_spent (fun c => m c.shared + census w c) ?_ h
  rintro c ⟨i, a⟩ c' hst
  obtain ⟨stack, g, stack', hp, hs, hc'⟩ := Prog.machine_step hst
  have hp : c.pool[i]? = some stack := hp
  cases stack with
  | nil =>
      subst hc'
      obtain ⟨f, hf, hfg⟩ := Option.map_eq_some_iff.mp hs
      cases hfg
      obtain ⟨r, hr, hset⟩ := total_set (total w) hp
      have hpay := hcall c i a f hp hf
      have hold : census w c = r + total w [] := hr
      have hnew : census w (⟨c.shared, c.pool.set i [f]⟩ : Conf σ (List φ)) = r + total w [f] :=
        hset [f]
      rw [total_nil] at hold
      rw [total_singleton] at hnew
      simp only
      omega
  | cons f rest =>
      obtain ⟨g₁, new, hx, rfl⟩ := machine_step_cons hp hst
      obtain ⟨r, hr, hset⟩ := census_set w hp
      have hpay := hexec c i a f rest g₁ new hp hx
      have hnew := hset g₁ new
      simp only
      omega

/-- Thread `i`, running alone under the choice `a`, gets from `c` to `c'`. -/
def Alone (C : Code σ φ α) (i : Nat) (a : α) (c c' : Conf σ (List φ)) : Prop :=
  ∃ n : Nat, C.machine.run c (List.replicate n (i, a)) = some c'

namespace Alone

variable {i : Nat} {a : α} {c c' c'' : Conf σ (List φ)}

theorem of_eq (h : c = c') : C.Alone i a c c' := ⟨0, congrArg some h⟩

theorem trans (h : C.Alone i a c c') (h' : C.Alone i a c' c'') : C.Alone i a c c'' := by
  obtain ⟨n, hn⟩ := h
  obtain ⟨m, hm⟩ := h'
  refine ⟨n + m, ?_⟩
  rw [List.replicate_add, Machine.run_append hn, hm]

/-- One step of the first thread, then the rest. -/
theorem head {g g' : σ} {f : φ} {new rest : List φ} {pool : List (List φ)}
    (hx : C.exec g f a = some (g', new))
    (h : C.Alone 0 a ⟨g', (new ++ rest) :: pool⟩ c') :
    C.Alone 0 a ⟨g, (f :: rest) :: pool⟩ c' := by
  obtain ⟨n, hn⟩ := h
  refine ⟨n + 1, ?_⟩
  have hs : C.prog.step 0 g (f :: rest) a = some (g', new ++ rest) := by
    simp only [prog, hx, Option.map_some]
  rw [List.replicate_succ]
  exact (Prog.machine_run_cons rfl hs _).trans hn

end Alone

/-- The frames below the top of a stack are those that calls leave behind. -/
theorem below {ok : Conf σ (List φ) → Nat × α → Prop} (K : φ → Prop)
    (hstart : ∀ stack, C.start stack → ∀ f ∈ stack.tail, K f)
    (hexec : ∀ g f a g' new, C.exec g f a = some (g', new) → ∀ f' ∈ new.tail, K f')
    {c : Conf σ (List φ)} (h : C.machine.Reach ok c) {i : Nat} {stack : List φ}
    (hi : c.pool[i]? = some stack) : ∀ f ∈ stack.tail, K f := by
  refine Prog.each (P := C.prog) (fun stack => ∀ f ∈ stack.tail, K f) hstart ?_ h hi
  intro _ g stack a g' stack' hbelow hs
  cases stack with
  | nil =>
      obtain ⟨f, -, hfg⟩ := Option.map_eq_some_iff.mp hs
      cases hfg
      exact fun _ hmem => absurd hmem List.not_mem_nil
  | cons f rest =>
      obtain ⟨⟨g₁, new⟩, hx, hxg⟩ := Option.map_eq_some_iff.mp hs
      cases hxg
      cases new with
      | nil => exact fun f' hmem => hbelow f' (List.mem_of_mem_tail hmem)
      | cons top left =>
          intro f' hmem
          rcases List.mem_append.mp hmem with hnew | hold
          · exact hexec _ _ _ _ _ hx f' hnew
          · exact hbelow f' hold

/-- What a frame and the one below it have to do with each other, all the way down. -/
def Stacked (A : φ → Option φ → Prop) : List φ → Prop
  | [] => True
  | f :: rest => A f rest.head? ∧ Stacked A rest

/-- The rule for it: a frame that moves leaves frames that belong on what is below it. -/
theorem stacked {ok : Conf σ (List φ) → Nat × α → Prop} (A : φ → Option φ → Prop)
    (hstart : ∀ stack, C.start stack → Stacked A stack)
    (hcall : ∀ a f, C.call a = some f → A f none)
    (hexec : ∀ g f a g' new rest, C.exec g f a = some (g', new) → A f rest.head? →
      Stacked A rest → Stacked A (new ++ rest))
    {c : Conf σ (List φ)} (h : C.machine.Reach ok c) {i : Nat} {stack : List φ}
    (hi : c.pool[i]? = some stack) : Stacked A stack := by
  refine Prog.each (P := C.prog) (Stacked A) hstart ?_ h hi
  intro _ g stack a g' stack' hstacked hs
  cases stack with
  | nil =>
      obtain ⟨f, hf, hfg⟩ := Option.map_eq_some_iff.mp hs
      cases hfg
      exact ⟨hcall a f hf, trivial⟩
  | cons f rest =>
      obtain ⟨⟨g₁, new⟩, hx, hxg⟩ := Option.map_eq_some_iff.mp hs
      cases hxg
      exact hexec g f a g₁ new rest hx hstacked.1 hstacked.2

end Code

end LinuxDrivers.Lib
