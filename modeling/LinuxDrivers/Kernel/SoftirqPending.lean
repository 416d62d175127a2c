/-
# `LinuxDrivers.Kernel.SoftirqPending` — lost pending bits strand tasklets

A tasklet on one of the two lists waits for the softirq of its list.  It is in
good hands if the bit of that softirq is pending and the semaphore has a token for
the softirq thread, or if some thread is inside a raise of the softirq or inside an
execution pass that will come to the list.

The pending word is not protected.  `pending |= 1 << nr` is a load and a store, so
of two raises that overlap the later store forgets the bit of the other one; and
`__do_softirq` loads the word and clears it in two steps, so a raise that falls in
between is cleared with the rest.  The token stays, the thread wakes up, finds
nothing pending and goes back to sleep, and the tasklet stays on its list until
somebody else raises the same softirq.

**Proved here.**

    a run of two schedulings after which a tasklet is stranded            (`softirq_lost_bit`)
    no store to the pending word drops a bit that was set since its load
      ⟹  no tasklet is ever stranded                                     (`softirq_not_stranded`)
-/
import LinuxDrivers.Kernel.Softirq

namespace LinuxDrivers.Kernel.Softirq

open LinuxDrivers.Lib

/-! ## Stranded tasklets -/

/-- The pending bit of the list's softirq. -/
def Shared.raised (g : Shared) (v : Vec) : Bool := g.pending.getLsbD v.nr

/-- The frame is inside a raise of the list's softirq. -/
def Frame.raises (v : Vec) : Frame → Bool
  | .raiseLoad nr | .raiseStore nr _ | .raiseUp nr => nr = v.nr
  | _ => false

/-- The frame is inside an execution pass that will take the list: it is about to,
or the bit is in its copy of the pending word, or it will be. -/
def Frame.willTake (v : Vec) (g : Shared) : Frame → Bool
  | .actionTake u => u = v
  | .doBits _ p h => h ≤ v.nr.val && p.getLsbD (v.nr.val - h)
  | .doClear _ p => p.getLsbD v.nr
  | .doTest | .doLoad _ => g.raised v
  | _ => false

/-- Every tasklet on a list is in good hands. -/
def NotStranded (c : Conf Shared (List Frame)) : Prop :=
  ∀ v : Vec, c.shared.list v ≠ [] →
    (c.shared.raised v = true ∧ 0 < c.shared.softirqSem) ∨
      ∃ (i : Nat) (stack : List Frame) (f : Frame), c.pool[i]? = some stack ∧ f ∈ stack ∧
        (f.raises v = true ∨ f.willTake v c.shared = true)

/-- The store a frame is about to make to the pending word keeps, or has copied,
every bit that is set. -/
def keepsBits (g : Shared) : Frame → Bool
  | .raiseStore nr v => g.pending &&& ~~~(v ||| bit nr) == 0
  | .doClear _ p => g.pending &&& ~~~p == 0
  | _ => true

/-- The condition: no store drops a pending bit that its thread has not seen. -/
def noLostBit (c : Conf Shared (List Frame)) (ia : Nat × Choice) : Bool :=
  match c.pool[ia.1]? with
  | some (f :: _) => keepsBits c.shared f
  | _ => true

/-! ## Bits -/

theorem getLsbD_of_and_not {p q : Word} (h : (p &&& ~~~q == 0) = true) (n : Fin 32)
    (hp : p.getLsbD n = true) : q.getLsbD n = true := by
  rw [beq_iff_eq] at h
  have hn := congrArg (fun w : Word => w.getLsbD n) h
  simpa [hp, n.isLt] using hn

theorem getLsbD_bit (n m : Fin 32) : (bit n).getLsbD m = decide (n = m) := by
  revert n m
  decide

/-- The bits of the copy move down as the executor moves up. -/
theorem getLsbD_shift (p : Word) {h n : Nat} (hn : h < n) :
    (p >>> 1).getLsbD (n - (h + 1)) = p.getLsbD (n - h) := by
  rw [BitVec.getLsbD_ushiftRight]
  congr 1
  omega

/-! ## Who looks after a list -/

/-- will set the bit -/
def raising (v : Vec) : Frame → Nat
  | .raiseLoad nr | .raiseStore nr _ => if nr = v.nr then 1 else 0
  | _ => 0

/-- has set the bit and will raise the semaphore -/
def raisingUp (v : Vec) : Frame → Nat
  | .raiseUp nr => if nr = v.nr then 1 else 0
  | _ => 0

/-- will look at the pending word -/
def looking : Frame → Nat
  | .doTest | .doLoad _ => 1
  | _ => 0

/-- has the bit in its copy and will clear the word -/
def clearing (v : Vec) : Frame → Nat
  | .doClear _ p => (p.getLsbD v.nr).toNat
  | _ => 0

/-- will take the list -/
def taking (v : Vec) : Frame → Nat
  | .doBits _ p h => (decide (h ≤ v.nr.val) && p.getLsbD (v.nr.val - h)).toNat
  | .actionTake u => if u = v then 1 else 0
  | _ => 0

/-- What a frame may be good for. -/
inductive Role where
  | raising
  | up
  | look
  | clear
  | taking

def weigh (v : Vec) (f : Frame) : Role → Nat
  | .raising => raising v f
  | .up => raisingUp v f
  | .look => looking f
  | .clear => clearing v f
  | .taking => taking v f

/-- The list is looked after, `n` counting the frames by what they are good for.
The second clause is what `NotStranded` asks for; the first one, which does not
speak of the semaphore, carries it over the step that raises the semaphore. -/
structure Served (v : Vec) (g : Shared) (n : Role → Nat) : Prop where
  bit : g.list v ≠ [] → g.raised v = true ∨ 0 < n .raising + n .taking
  token : g.list v ≠ [] → (g.raised v = true ∧ 0 < g.softirqSem + n .look) ∨
    0 < n .raising + n .up + n .clear + n .taking

variable {v : Vec} {g g' : Shared} {f : Frame} {new : List Frame} {a : Choice} {nr : Fin 32}
  {p : Word} {k : Nat} {n m r : Role → Nat}

/-- Steps that leave list and word alone and take neither token nor frame away. -/
theorem Served.step (h : Served v g n) (hl : g'.list v = g.list v) (hp : g'.pending = g.pending)
    (hs : g.softirqSem ≤ g'.softirqSem) (hm : ∀ k, n k ≤ m k) : Served v g' m := by
  have hr : g'.raised v = g.raised v := by rw [Shared.raised, hp]; rfl
  have h₁ := hm .raising
  have h₂ := hm .up
  have h₃ := hm .look
  have h₄ := hm .clear
  have h₅ := hm .taking
  constructor
  · rw [hl, hr]
    intro hne
    rcases h.bit hne with hb | hpos
    · exact .inl hb
    · exact .inr (by omega)
  · rw [hl, hr]
    intro hne
    rcases h.token hne with ⟨hb, hpos⟩ | hpos
    · exact .inl ⟨hb, by omega⟩
    · exact .inr (by omega)

/-- A frame that looks after nothing may be replaced by any others. -/
theorem Served.pass (h : Served v g (r + weigh v f)) (hf : ∀ k, weigh v f k = 0)
    (hl : g'.list v = g.list v) (hp : g'.pending = g.pending) (hs : g.softirqSem ≤ g'.softirqSem) :
    Served v g' (r + total (weigh v) new) := by
  refine h.step hl hp hs (fun k => Nat.add_le_add_left ?_ _)
  rw [hf k]
  exact Nat.zero_le _

/-- A list just pushed to is looked after by the raise that follows. -/
theorem Served.of_raising (h : 0 < n .raising) : Served v g n :=
  ⟨fun _ => .inr (by omega), fun _ => .inr (by omega)⟩

/-- An empty list needs nobody. -/
theorem Served.of_nil (h : g.list v = []) : Served v g n :=
  ⟨fun hne => absurd h hne, fun hne => absurd h hne⟩

/-- A raise that stores the word without dropping a bit. -/
theorem Served.store (hk : keepsBits g (.raiseStore nr p) = true)
    (h : Served v g (r + weigh v (.raiseStore nr p))) :
    Served v { g with pending := p ||| Softirq.bit nr } (r + weigh v (.raiseUp nr)) := by
  by_cases hnr : nr = v.nr
  · -- the raise is of this list: its bit is set now
    have hbit : (p ||| Softirq.bit nr).getLsbD v.nr = true := by
      simp [getLsbD_bit, hnr]
    have hup : (r + weigh v (.raiseUp nr)) .up = r .up + 1 := by
      show r .up + (if nr = v.nr then 1 else 0) = _
      rw [if_pos hnr]
    exact ⟨fun _ => .inl hbit, fun _ => .inr (by omega)⟩
  · have hkeep : g.raised v = true → (p ||| Softirq.bit nr).getLsbD v.nr = true :=
      getLsbD_of_and_not hk v.nr
    have hbefore : ∀ k, weigh v (.raiseStore nr p) k = 0 := by
      intro k
      cases k <;> first | rfl | exact if_neg hnr
    have hafter : Served v { g with pending := p ||| Softirq.bit nr } r := by
      rw [funext hbefore] at h
      exact ⟨fun hne => (h.bit hne).imp_left hkeep,
        fun hne => (h.token hne).imp_left (fun hb => ⟨hkeep hb.1, hb.2⟩)⟩
    exact hafter.step rfl rfl (Nat.le_refl _) (fun k => Nat.le_add_right _ _)

/-- The end of a raise: a token for whatever bit is set. -/
theorem Served.up (h : Served v g (r + weigh v (.raiseUp nr))) :
    Served v { g with softirqSem := g.softirqSem + 1 } r := by
  constructor
  · exact h.bit
  · intro hne
    rcases h.bit hne with hb | hpos
    · exact .inl ⟨hb, by show 0 < g.softirqSem + 1 + r .look; omega⟩
    · change 0 < r .raising + 0 + (r .taking + 0) at hpos
      exact .inr (by omega)

/-- The token turns into a thread that looks. -/
theorem Served.down (hsem : g.softirqSem = k + 1) (h : Served v g r) :
    Served v { g with softirqSem := k } (r + weigh v .doTest) := by
  constructor
  · exact h.bit
  · intro hne
    rcases h.token hne with ⟨hb, _⟩ | hpos
    · exact .inl ⟨hb, by show 0 < k + (r .look + 1); omega⟩
    · exact .inr hpos

/-- Nothing pending: whoever looks may as well go. -/
theorem Served.quiet (hp : g.pending = 0) (h : Served v g (r + weigh v .doTest)) :
    Served v g r := by
  have hb : g.raised v ≠ true := by simp [Shared.raised, hp]
  constructor
  · intro hne
    exact .inr ((h.bit hne).resolve_left hb)
  · intro hne
    exact .inr ((h.token hne).resolve_left (fun hx => hb hx.1))

/-- The executor copies the word: if it has looked, it has the bit. -/
theorem Served.load (h : Served v g (r + weigh v (.doLoad k))) :
    Served v g (r + weigh v (.doClear k g.pending)) := by
  constructor
  · exact h.bit
  · intro hne
    rcases h.token hne with ⟨hb, _⟩ | hpos
    · refine .inr ?_
      have hclear : (r + weigh v (.doClear k g.pending)) .clear = r .clear + 1 := by
        show r .clear + (g.raised v).toNat = _
        rw [hb]
        rfl
      omega
    · exact .inr (Nat.lt_of_lt_of_le hpos (by
        show r .raising + r .up + r .clear + r .taking ≤
          r .raising + r .up + (r .clear + (g.pending.getLsbD v.nr).toNat) + r .taking
        omega))

/-- The executor clears a word all bits of which it has. -/
theorem Served.clear (hk : keepsBits g (.doClear k p) = true)
    (h : Served v g (r + weigh v (.doClear k p))) :
    Served v { g with pending := 0 } (r + weigh v (.doBits k p 0)) := by
  have htaking : (r + weigh v (.doBits k p 0)) .taking = r .taking + (p.getLsbD v.nr).toNat := by
    show r .taking + (decide (0 ≤ v.nr.val) && p.getLsbD (v.nr.val - 0)).toNat = _
    simp
  have hpos : g.list v ≠ [] → 0 < (r + weigh v (.doBits k p 0)) .raising +
      (r + weigh v (.doBits k p 0)) .taking := by
    intro hne
    rcases h.bit hne with hb | hpos
    · have hp : p.getLsbD v.nr = true := getLsbD_of_and_not hk v.nr hb
      rw [htaking, hp, Bool.toNat_true]
      omega
    · change 0 < r .raising + r .taking at hpos
      show 0 < r .raising + _
      omega
  exact ⟨fun hne => .inr (hpos hne), fun hne => .inr (by have := hpos hne; omega)⟩

/-- Going on to the next bit of the copy: if it was the list's, its action is
called. -/
theorem taking_bits (v : Vec) (k h : Nat) (p : Word) :
    taking v (.doBits k p h) ≤
      (if p.getLsbD 0 then taking v (softirqVec h) else 0) +
        taking v (.doBits k (p >>> 1) (h + 1)) := by
  rcases Nat.lt_trichotomy h v.nr.val with hlt | heq | hgt
  · -- a bit further up
    have hshift := getLsbD_shift p hlt
    have hle : taking v (.doBits k p h) = taking v (.doBits k (p >>> 1) (h + 1)) := by
      simp [taking, hshift, Nat.le_of_lt hlt, Nat.succ_le_of_lt hlt]
    omega
  · have hvec : taking v (softirqVec h) = 1 := by
      subst heq
      cases v <;> rfl
    rw [hvec]
    subst heq
    simp only [taking, Nat.sub_self, Nat.le_refl, decide_true, Bool.true_and]
    split <;> simp_all
  · have hzero : taking v (.doBits k p h) = 0 := by
      simp [taking, Nat.not_le_of_lt hgt]
    omega

/-- An executor that leaves behind who takes the list if it would have. -/
theorem Served.bits {k i : Nat} (h : Served v g (r + weigh v (.doBits k p i)))
    (hw : taking v (.doBits k p i) ≤ total (taking v) new) :
    Served v g (r + total (weigh v) new) := by
  refine h.step rfl rfl (Nat.le_refl _) (fun k => Nat.add_le_add_left ?_ _)
  rw [total_apply]
  cases k with
  | taking => exact hw
  | _ => exact Nat.zero_le _

/-- One access of any frame that drops no bit keeps the list looked after. -/
theorem exec_served (hk : keepsBits g f = true) (hs : exec g f a = some (g', new))
    (h : Served v g (r + weigh v f)) : Served v g' (r + total (weigh v) new) := by
  cases f with
  | raiseLoad nr =>
      cases hs
      rw [total_singleton]
      exact h.step rfl rfl (Nat.le_refl _) (fun k => by cases k <;> exact Nat.le_refl _)
  | raiseStore nr p =>
      cases hs
      rw [total_singleton]
      exact h.store hk
  | raiseUp nr =>
      cases hs
      exact h.up
  | enqueue u t =>
      simp only [exec] at hs
      split at hs <;> cases hs
      by_cases hu : u = v
      · subst hu
        exact .of_raising (by simp [weigh, raising])
      · exact h.pass (fun k => by cases k <;> rfl) (setList_ne _ _ _ _ (Ne.symm hu)) rfl
          (Nat.le_refl _)
  | requeue u t rest =>
      simp only [exec] at hs
      split at hs <;> cases hs
      by_cases hu : u = v
      · subst hu
        exact .of_raising (by simp [weigh, raising])
      · exact h.pass (fun k => by cases k <;> rfl) (setList_ne _ _ _ _ (Ne.symm hu)) rfl
          (Nat.le_refl _)
  | actionTake u =>
      simp only [exec] at hs
      split at hs <;> cases hs
      by_cases hu : u = v
      · subst hu
        exact .of_nil (setList_same _ _ _)
      · exact h.pass (fun k => by cases k <;> first | rfl | exact if_neg hu)
          (setList_ne _ _ _ _ (Ne.symm hu)) rfl (Nat.le_refl _)
  | actionNext u rest =>
      cases rest with
      | nil =>
          cases hs
          exact h.pass (fun k => by cases k <;> rfl) rfl rfl (Nat.le_refl _)
      | cons t rest =>
          simp only [exec] at hs
          split at hs <;> cases hs <;>
            exact h.pass (fun k => by cases k <;> rfl) rfl rfl (Nat.le_refl _)
  | threadDown =>
      simp only [exec] at hs
      split at hs <;> cases hs
      rename_i n hsem
      rw [total_cons, total_singleton, add_comm (weigh v .doTest), ← add_assoc]
      exact h.down hsem
  | doTest =>
      cases hs
      split
      · rename_i hp
        exact h.quiet hp
      · rw [total_singleton]
        exact h.step rfl rfl (Nat.le_refl _) (fun k => by cases k <;> exact Nat.le_refl _)
  | doLoad retries =>
      cases hs
      rw [total_singleton]
      exact h.load
  | doClear retries p =>
      cases hs
      rw [total_singleton]
      exact h.clear hk
  | doBits retries p i =>
      have hbits := taking_bits v retries i p
      simp only [exec] at hs
      split at hs
      · rename_i hp
        cases hs
        exact h.bits (by simp [taking, hp])
      · split at hs
        · rename_i hbit
          cases hs
          rw [if_pos hbit] at hbits
          exact h.bits hbits
        · rename_i hbit
          cases hs
          rw [if_neg hbit, Nat.zero_add] at hbits
          exact h.bits hbits
  | kitUp =>
      cases hs
      exact h.pass (fun k => by cases k <;> rfl) rfl rfl (Nat.le_succ _)
  | _ =>
      simp only [exec] at hs
      (try split at hs) <;> cases hs <;>
        exact h.pass (fun k => by cases k <;> rfl) rfl rfl (Nat.le_refl _)

section
variable {c : Conf Shared (List Frame)}

theorem served (h : machine.Reach (noLostBit · ·) c) (v : Vec) :
    Served v c.shared (census (weigh v) c) := by
  refine Code.balance (weigh v) (Served v) ?_ ?_ ?_ h
  · intro c hc
    exact .of_nil (hc.1.2.2.1 v).1
  · intro g a f r _ hr
    exact hr.step rfl rfl (Nat.le_refl _) (fun k => Nat.le_add_right _ _)
  · intro c i a f rest g new r _ hok hp _ hs hr
    simp only [noLostBit, hp] at hok
    exact exec_served hok hs hr

/-- A frame that counts is one that `NotStranded` accepts. -/
theorem serves_of_weigh {k : Role} (hlook : k = .look → g.raised v = true) (hf : 0 < weigh v f k) :
    f.raises v = true ∨ f.willTake v g = true := by
  have hite : ∀ {p : Prop} [Decidable p], 0 < (if p then 1 else 0) → decide p = true := by
    intro p _ hp
    by_cases hp' : p
    · exact decide_eq_true hp'
    · rw [if_neg hp'] at hp
      exact absurd hp (Nat.lt_irrefl 0)
  have hbool : ∀ {b : Bool}, 0 < b.toNat → b = true := by
    intro b hb
    cases b with
    | false => exact absurd hb (Nat.lt_irrefl 0)
    | true => rfl
  cases k with
  | raising => cases f <;> first | exact .inl (hite hf) | exact absurd hf (Nat.lt_irrefl 0)
  | up => cases f <;> first | exact .inl (hite hf) | exact absurd hf (Nat.lt_irrefl 0)
  | look => cases f <;> first | exact .inr (hlook rfl) | exact absurd hf (Nat.lt_irrefl 0)
  | clear => cases f <;> first | exact .inr (hbool hf) | exact absurd hf (Nat.lt_irrefl 0)
  | taking =>
      cases f <;> first
        | exact .inr (hbool hf)
        | exact .inr (hite hf)
        | exact absurd hf (Nat.lt_irrefl 0)

/-- **No stranded tasklet, conditionally.**  In every run in which no store to the
pending word drops a bit its thread has not seen, every tasklet on a list is
waited for: its bit is pending with a token in the semaphore, or some thread is
inside a raise of its softirq or a pass that will take the list. -/
theorem softirq_not_stranded (h : machine.Reach (noLostBit · ·) c) : NotStranded c := by
  intro v hne
  have hserver : ∀ k : Role, (k = .look → c.shared.raised v = true) →
      0 < census (weigh v) c k →
      ∃ (i : Nat) (stack : List Frame) (f : Frame), c.pool[i]? = some stack ∧ f ∈ stack ∧
        (f.raises v = true ∨ f.willTake v c.shared = true) := by
    intro k hk hpos
    rw [census_apply] at hpos
    obtain ⟨i, stack, f, hi, hf, hw⟩ := exists_of_census_pos hpos
    exact ⟨i, stack, f, hi, hf, serves_of_weigh hk hw⟩
  rcases (served h v).token hne with ⟨hb, hpos⟩ | hpos
  · by_cases hsem : 0 < c.shared.softirqSem
    · exact .inl ⟨hb, hsem⟩
    · exact .inr (hserver .look (fun _ => hb) (by omega))
  · right
    rcases Nat.add_pos_iff_pos_or_pos.mp hpos with hpos | hpos
    · rcases Nat.add_pos_iff_pos_or_pos.mp hpos with hpos | hpos
      · rcases Nat.add_pos_iff_pos_or_pos.mp hpos with hpos | hpos
        · exact hserver .raising nofun hpos
        · exact hserver .up nofun hpos
      · exact hserver .clear nofun hpos
    · exact hserver .taking nofun hpos

/-- Such a run: a thread schedules tasklet 7; the softirq thread has taken its token
and copied the pending word, and will come to the list. -/
theorem softirq_not_stranded_once :
    ∃ g, NotStranded ⟨g, [[], [.doClear 10 0x20, .threadDown]]⟩ ∧ g.list .low = [7] ∧
      g.softirqSem = 0 := by
  have hinit : machine.Reach (noLostBit · ·) ⟨afterInit, [[], [.threadDown]]⟩ :=
    .init ⟨afterInit_init, by simp [code, Code.prog]⟩
  exact ⟨_, softirq_not_stranded (hinit.runOk
    (List.flatten [(0, .call (.taskletSchedule 7)) :: List.replicate 5 (0, .go),
      List.replicate 3 (1, .go)]) rfl), rfl, rfl⟩

/-- With the softirq threads asleep, the semaphore at zero and everybody else idle,
nobody comes for a list. -/
theorem stranded_of_asleep (hl : c.shared.list v ≠ []) (hs : c.shared.softirqSem = 0)
    (hp : ∀ stack ∈ c.pool, ∀ f ∈ stack, f = .threadDown) : ¬ NotStranded c := by
  intro h
  rcases h v hl with ⟨_, hpos⟩ | ⟨i, stack, f, hi, hf, hserve⟩
  · omega
  · have hdown := hp stack (List.mem_of_getElem? hi) f hf
    subst hdown
    rcases hserve with hserve | hserve <;> cases hserve

/-- **A lost bit.**  Thread 0 schedules tasklet 7 and is stopped after its load of
the pending word; thread 1 schedules the high-priority tasklet 8; then thread 0
stores the word without the bit of thread 1.  The softirq thread runs tasklet 7,
wakes up once more, finds nothing pending and sleeps: tasklet 8 stays on its list,
nothing is pending, the semaphore is at zero and nobody is on the way. -/
theorem softirq_lost_bit :
    ∃ c, machine.run ⟨afterInit, [[], [], [.threadDown]]⟩
        ([(0, .call (.taskletSchedule 7)), (0, .go), (0, .go), (0, .go),
          (1, .call (.taskletHiSchedule 8)), (1, .go), (1, .go), (1, .go), (1, .go), (1, .go),
          (0, .go), (0, .go)] ++ List.replicate 21 (2, .go)) = some c ∧
      c.shared.list .hi = [8] ∧ c.shared.pending = 0 ∧ ¬ NotStranded c := by
  refine ⟨_, rfl, rfl, rfl, ?_⟩
  have hpool : ∀ stack ∈ [[], [], [Frame.threadDown]], ∀ f ∈ stack, f = .threadDown := by
    simp
  exact stranded_of_asleep (v := .hi) (List.cons_ne_nil 8 []) rfl hpool

end

end LinuxDrivers.Kernel.Softirq
