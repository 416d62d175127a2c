/-
# `LinuxDrivers.Kernel.KthreadCreate` — `kthread_create` returns its own thread, asleep

The thread that `kthread_create` returns is found by its id, in a list that the thread has
entered itself in, and it is asleep because it has put itself to sleep.  What orders the two
sides is a completion, and what keeps the thread asleep is that nobody knows it:

    threads   an id in the list is that of a thread, live threads have different ids, and a
              thread that was made belongs to one call              (`Ids`, `Home`)
    sleep     who waits or is woken is a thread whose function may run; the task of one that
              was not woken is as its own thread has left it        (`Sleep`, `Rest`)
    results   a runner past its wait finds the thread that it made; a task that is known
              belongs to a call that has returned                   (`Creates`, `Knows`)

Each part is an invariant of the shared state together with one of every thread, and each
uses the parts above it.

**Proved here.**

    `kthread_create` returns the task of the thread it made, in state TASK_INTERRUPTIBLE and
    with its function not entered, no thread function is entered before the thread was woken,
    and `kthread_bind` finds no bug                     (`kthread_create_returns_own_thread`)
-/
import LinuxDrivers.Kernel.Kthread
import LinuxDrivers.Lib.Keyed

namespace LinuxDrivers.Kernel.Kthread

open LinuxDrivers.Lib LinuxDrivers.Kernel.Sched

/-! ## Threads and their ids -/

/-- The origin that a thread remembers: the call it was made for, or none. -/
def Pc.origin : Pc → Option (Option Nat)
  | .initTask o | .attachPid o => some o
  | .setState cr | .sync (.started cr) _ | .switch cr | .down cr | .testStop cr => some (some cr)
  | _ => none

structure Ids (g : Shared) : Prop where
  parent : ∀ t cr, g.parent t = some cr ↔ g.made cr = some t
  born : ∀ t, g.born t = false → g.parent t = none
  live : ∀ t ∈ g.live, g.born t = true
  distinct : ∀ t ∈ g.live, ∀ t' ∈ g.live, g.pid t = g.pid t' → t = t'
  nonneg : ∀ t, g.born t = true → 0 ≤ g.pid t
  entries : ∀ e ∈ g.pidTaskList, g.born e.2 = true ∧ e.1 = g.pid e.2

/-- What is said of thread `i`. -/
structure Home (i : Nat) (g : Shared) (pc : Pc) : Prop where
  born : pc ≠ .unborn → g.born i = true
  live : pc ≠ .dead → g.born i = true → i ∈ g.live
  origin : ∀ o, pc.origin = some o → g.parent i = o

section
variable {i j t : Nat} {g g' : Shared} {pc pc' : Pc} {a : Choice}

/-- Threads come by adoption and by `kernel_thread`, and go by `do_exit`. -/
theorem step_threads (hs : step j g pc a = some (g', pc')) :
    (g'.born = g.born ∧ g'.parent = g.parent ∧ g'.pid = g.pid ∧ g'.live = g.live ∧
        g'.made = g.made) ∨
      (∃ id, pc = .unborn ∧ g.born j = false ∧ g.idFree id ∧ g' = g.bear j id none) ∨
      (∃ cr direct t id, pc = .kernelThread cr direct ∧ g.born t = false ∧ g.idFree id ∧
        g' = { g.bear t id (some cr) with made := Function.update g.made cr (some t) }) ∨
      (pc = .exit ∧ g' = { g with live := g.live.erase j }) := by
  cases step_effect hs with
  | adopt hfree hid => exact .inr (.inl ⟨_, rfl, hfree, hid, rfl⟩)
  | spawn hfree hid => exact .inr (.inr (.inl ⟨_, _, _, _, rfl, hfree, hid, rfl⟩))
  | exit => exact .inr (.inr (.inr ⟨rfl, rfl⟩))
  | _ => exact .inl ⟨rfl, rfl, rfl, rfl, rfl⟩

/-- The list of ids changes by a thread's own entry. -/
theorem step_pidTaskList (hs : step j g pc a = some (g', pc')) :
    g'.pidTaskList = g.pidTaskList ∨
      ((∃ o, pc = .attachPid o) ∧ g'.pidTaskList = (g.pid j, j) :: g.pidTaskList) ∨
      (pc = .detachPid ∧ g'.pidTaskList = g.pidTaskList.eraseP (fun pt => pt.2 == j)) := by
  cases step_effect hs with
  | attach cr => exact .inr (.inl ⟨⟨_, rfl⟩, rfl⟩)
  | attachAdopted => exact .inr (.inl ⟨⟨_, rfl⟩, rfl⟩)
  | detach => exact .inr (.inr ⟨rfl, rfl⟩)
  | _ => exact .inl rfl

/-- A thread remembers its origin from its start. -/
theorem step_origin {o : Option Nat} (hs : step j g pc a = some (g', pc'))
    (ho : pc'.origin = some o) : pc.origin = some o ∨ pc = .unborn ∧ g'.parent j = o := by
  by_cases hpc : pc = .unborn
  · subst hpc
    refine .inr ⟨rfl, ?_⟩
    rcases step_unborn hs with ⟨cr, hparent, rfl, rfl⟩ | ⟨id, -, -, rfl, rfl⟩
    · cases ho
      exact hparent
    · cases ho
      simp [Shared.bear]
  · refine .inl ?_
    cases step_next hs with
    | begin | adopt => exact absurd rfl hpc
    | init | attach | setState | yield | sleep | down => exact ho
    | @inside s => cases s <;> exact ho
    | @back s =>
        cases s with
        | done cr direct => cases direct <;> exact ho
        | _ => exact ho
    | _ => cases ho

/-- A thread keeps its origin and its id. -/
theorem step_born (hs : step j g pc a = some (g', pc')) (h : g.born t = true) :
    g'.born t = true ∧ g'.parent t = g.parent t ∧ g'.pid t = g.pid t := by
  have hne : ∀ t', g.born t' = false → t ≠ t' := by
    rintro t' hfree rfl
    rw [h] at hfree
    cases hfree
  rcases step_threads hs with ⟨hborn, hparent, hpid, -, -⟩ | ⟨id, -, hfree, -, rfl⟩ |
    ⟨cr, direct, t', id, -, hfree, -, rfl⟩ | ⟨-, rfl⟩
  · rw [hborn, hparent, hpid]
    exact ⟨h, rfl, rfl⟩
  · simp [Shared.bear, hne j hfree, h]
  · simp [Shared.bear, hne t' hfree, h]
  · exact ⟨h, rfl, rfl⟩

theorem step_live (hs : step j g pc a = some (g', pc')) (ht : t ≠ j)
    (h : g.born t = true → t ∈ g.live) (hborn : g'.born t = true) : t ∈ g'.live := by
  rcases step_threads hs with ⟨hsame, -, -, hlive, -⟩ | ⟨id, -, -, -, rfl⟩ |
    ⟨cr, direct, t', id, -, -, -, rfl⟩ | ⟨-, rfl⟩
  · rw [hlive]
    exact h (hsame ▸ hborn)
  · simp only [Shared.bear, Function.update_of_ne ht] at hborn
    exact List.mem_cons_of_mem _ (h hborn)
  · by_cases hnew : t = t'
    · exact hnew ▸ List.mem_cons_self
    · simp only [Shared.bear, Function.update_of_ne hnew] at hborn
      exact List.mem_cons_of_mem _ (h hborn)
  · exact (List.mem_erase_of_ne ht).mpr (h hborn)

/-- A new thread, and what it does to the ids. -/
theorem Ids.bear {id : Int} {o : Option Nat} {made : Nat → Option Nat} (h : Ids g)
    (hfree : g.born t = false) (hid : g.idFree id)
    (hmade : ∀ t' cr, Function.update g.parent t o t' = some cr ↔ made cr = some t') :
    Ids { g.bear t id o with made := made } := by
  have hne : ∀ t', g.born t' = true → t' ≠ t := by
    rintro t' hborn rfl
    rw [hfree] at hborn
    cases hborn
  constructor
  · exact hmade
  · intro t' ht'
    simp only [Shared.bear, Function.update_apply] at ht' ⊢
    split at ht'
    · cases ht'
    · rename_i hne'
      rw [if_neg hne']
      exact h.born t' ht'
  · intro t' ht'
    rcases List.mem_cons.mp ht' with rfl | hold
    · simp [Shared.bear]
    · simp [Shared.bear, hne t' (h.live t' hold), h.live t' hold]
  · intro t₁ h₁ t₂ h₂ heq
    simp only [Shared.bear, Function.update_apply] at heq
    rcases List.mem_cons.mp h₁ with rfl | hold₁
    · rcases List.mem_cons.mp h₂ with rfl | hold₂
      · rfl
      · rw [if_pos rfl, if_neg (hne t₂ (h.live t₂ hold₂))] at heq
        exact absurd heq.symm (hid.2 t₂ hold₂)
    · rcases List.mem_cons.mp h₂ with rfl | hold₂
      · rw [if_pos rfl, if_neg (hne t₁ (h.live t₁ hold₁))] at heq
        exact absurd heq (hid.2 t₁ hold₁)
      · rw [if_neg (hne t₁ (h.live t₁ hold₁)), if_neg (hne t₂ (h.live t₂ hold₂))] at heq
        exact h.distinct t₁ hold₁ t₂ hold₂ heq
  · intro t' ht'
    simp only [Shared.bear, Function.update_apply] at ht' ⊢
    split
    · exact hid.1
    · rename_i hne'
      rw [if_neg hne'] at ht'
      exact h.nonneg t' ht'
  · intro e he
    obtain ⟨hborn, hpid⟩ := h.entries e he
    simp [Shared.bear, hne e.2 hborn, hborn, hpid]

/-- The list of ids apart, the accesses keep the threads in order. -/
theorem Ids.threads (h : Ids g) (hs : step j g pc a = some (g', pc'))
    (hnew : ∀ cr direct, pc = .kernelThread cr direct → g.made cr = none) :
    Ids { g' with pidTaskList := g.pidTaskList } := by
  rcases step_threads hs with ⟨hborn, hparent, hpid, hlive, hmade⟩ | ⟨id, -, hfree, hid, rfl⟩ |
    ⟨cr, direct, t, id, rfl, hfree, hid, rfl⟩ | ⟨-, rfl⟩
  · exact ⟨by rw [hparent, hmade]; exact h.parent, by rw [hborn, hparent]; exact h.born,
      by rw [hlive, hborn]; exact h.live, by rw [hlive, hpid]; exact h.distinct,
      by rw [hborn, hpid]; exact h.nonneg, by rw [hborn, hpid]; exact h.entries⟩
  · refine h.bear hfree hid ?_
    intro t' cr
    show _ ↔ g.made cr = some t'
    rw [← h.parent t' cr, Function.update_apply]
    split
    · rename_i heq
      rw [heq, h.born j hfree]
    · rfl
  · have hnone := hnew cr direct rfl
    refine h.bear hfree hid ?_
    intro t' cr'
    simp only [Function.update_apply]
    by_cases ht : t' = t
    · subst ht
      rw [if_pos rfl]
      by_cases hcr : cr' = cr
      · subst hcr
        simp
      · rw [if_neg hcr, ← h.parent t' cr', h.born t' hfree]
        simp [Ne.symm hcr]
    · rw [if_neg ht, h.parent t' cr']
      by_cases hcr : cr' = cr
      · subst hcr
        rw [if_pos rfl, hnone]
        simp [Ne.symm ht]
      · rw [if_neg hcr]
  · exact ⟨h.parent, h.born, fun t ht => h.live t (List.mem_of_mem_erase ht),
      fun t ht t' ht' => h.distinct t (List.mem_of_mem_erase ht) t' (List.mem_of_mem_erase ht'),
      h.nonneg, h.entries⟩

theorem Ids.step (h : Ids g) (hs : Kthread.step j g pc a = some (g', pc'))
    (hnew : ∀ cr direct, pc = .kernelThread cr direct → g.made cr = none) (hj : Home j g pc) :
    Ids g' := by
  obtain ⟨hparent, hborn, hlive, hdistinct, hnonneg, hentries⟩ := h.threads hs hnew
  refine ⟨hparent, hborn, hlive, hdistinct, hnonneg, ?_⟩
  intro e he
  rcases step_pidTaskList hs with hsame | ⟨⟨o, rfl⟩, hattach⟩ | ⟨-, hdetach⟩
  · rw [hsame] at he
    exact hentries e he
  · rw [hattach] at he
    rcases List.mem_cons.mp he with rfl | hold
    · obtain ⟨hb, -, hp⟩ := step_born hs (hj.born nofun)
      exact ⟨hb, hp.symm⟩
    · exact hentries e hold
  · rw [hdetach] at he
    exact hentries e (List.mem_of_mem_eraseP he)

/-- A thread that was made for a call is there. -/
theorem Ids.born_of_parent {cr : Nat} (h : Ids g) (hp : g.parent t = some cr) :
    g.born t = true := by
  by_contra hfree
  rw [h.born t (by simpa using hfree)] at hp
  cases hp

theorem Home.own (h : Home j g pc) (hs : Kthread.step j g pc a = some (g', pc')) (hids : Ids g) :
    Home j g' pc' := by
  rcases step_threads hs with ⟨hborn, hparent, -, hlive, -⟩ | ⟨id, rfl, -, -, rfl⟩ |
    ⟨cr, direct, t, id, rfl, -, -, rfl⟩ | ⟨rfl, rfl⟩
  · have hdead : pc ≠ .dead := by
      rintro rfl
      cases hs
    have hthere : g.born j = true := by
      by_cases hpc : pc = .unborn
      · subst hpc
        rcases step_unborn hs with ⟨cr, hp, -⟩ | ⟨id, -, -, rfl, -⟩
        · exact hids.born_of_parent hp
        · exact (congrFun hborn j).symm.trans (by simp [Shared.bear])
      · exact h.born hpc
    refine ⟨fun _ => hborn ▸ hthere, fun _ _ => hlive ▸ h.live hdead hthere, ?_⟩
    intro o ho
    rcases step_origin hs ho with hold | ⟨-, hnew⟩
    · exact hparent ▸ h.origin o hold
    · exact hnew
  · refine ⟨fun _ => by simp [Shared.bear], fun _ _ => List.mem_cons_self, ?_⟩
    intro o ho
    exact ((step_origin hs ho).resolve_left nofun).2
  · have hthere := h.born nofun
    refine ⟨fun _ => (step_born hs hthere).1,
      fun _ _ => List.mem_cons_of_mem _ (h.live nofun hthere), ?_⟩
    intro o ho
    rcases step_origin hs ho with hold | ⟨hpc, -⟩
    · cases hold
    · cases hpc
  · cases hs
    exact ⟨fun _ => h.born nofun, fun hne => absurd rfl hne, nofun⟩

/-- What is said of a thread is kept by the others. -/
theorem Home.other (h : Home i g pc) {q q' : Pc} (hs : Kthread.step j g q a = some (g', q'))
    (hij : i ≠ j) : Home i g' pc := by
  refine ⟨fun hpc => (step_born hs (h.born hpc)).1, ?_, ?_⟩
  · intro hdead
    exact step_live hs hij (h.live hdead)
  · intro o ho
    have hpc : pc ≠ .unborn := by
      rintro rfl
      cases ho
    rw [(step_born hs (h.born hpc)).2.1]
    exact h.origin o ho

end

section
variable {c : Conf Shared Pc}

theorem ids_home (h : machine.Reachable c) :
    Ids c.shared ∧ ∀ (i : Nat) (pc : Pc), c.pool[i]? = some pc → Home i c.shared pc := by
  refine Prog.rely (P := prog) Ids Home ?_ ?_ h
  · rintro c ⟨⟨-, hlive, hlist, -, -, hall⟩, hstart⟩
    refine ⟨?_, ?_⟩
    · constructor
      · intro t cr
        rw [(hall t).2.1, (hall cr).2.2.1]
        exact ⟨nofun, nofun⟩
      · intro t _
        exact (hall t).2.1
      · intro t ht
        rw [hlive] at ht
        cases ht
      · intro t ht
        rw [hlive] at ht
        cases ht
      · intro t ht
        rw [(hall t).1] at ht
        cases ht
      · intro e he
        rw [hlist] at he
        cases he
    · intro i pc hp
      obtain rfl := hstart pc (List.mem_of_getElem? hp)
      refine ⟨fun hne => absurd rfl hne, ?_, nofun⟩
      intro _ hborn
      rw [(hall i).1] at hborn
      cases hborn
  · intro c i a pc g pc' hreach _ hp hs hids hhome
    have hnew : ∀ cr direct, pc = .kernelThread cr direct → c.shared.made cr = none := by
      rintro cr direct rfl
      exact made_none hreach hp
    exact ⟨hids.step hs hnew hhome, hhome.own hs hids,
      fun j q hij _ hq => hq.other hs hij⟩

theorem ids (h : machine.Reachable c) : Ids c.shared := (ids_home h).1

theorem home (h : machine.Reachable c) {i : Nat} {pc : Pc} (hp : c.pool[i]? = some pc) :
    Home i c.shared pc :=
  (ids_home h).2 i pc hp

end

/-! ## Threads that are asleep stay asleep -/

/-- The code of thread `p` may run: it was adopted, or somebody has woken it. -/
def Adult (g : Shared) (p : Nat) : Prop :=
  g.born p = true ∧ g.parent p = none ∨ g.woken p = true

/-- The thread is found by its id. -/
def Listed (g : Shared) (t : Nat) : Prop := g.findTaskByPid (g.pid t) = some t

/-- Past the sleep in `kthread`. -/
def Pc.adult : Pc → Bool
  | .unborn | .initTask _ | .attachPid _ | .setState _ | .sync (.started _) _ | .switch _
  | .down _ | .panicked => false
  | _ => true

/-- The tasks that a thread is waking. -/
def Pc.wakes : Pc → List Nat
  | .wakeUp p _ => [p]
  | .sync _ pc => pc.entries
  | _ => []

/-- The task that a thread is going to wake. -/
def Pc.target : Pc → Option Nat
  | .wakeStore p _ | .stopLock p | .stopInit p | .stopStore p => some p
  | _ => none

/-- The task of a thread that was not woken, as it has left it. -/
def Pc.task : Pc → Option TaskStruct
  | .attachPid (some _) | .setState _ => some ⟨.running, 0⟩
  | .sync (.started _) _ | .switch _ | .down _ => some ⟨.interruptible, 0⟩
  | _ => none

def Pc.listed : Pc → Bool
  | .setState _ | .sync (.started _) _ | .switch _ | .down _ => true
  | _ => false

structure Sleep (g : Shared) : Prop where
  queue : ∀ x, ∀ p ∈ (g.comp x).taskList, Adult g p
  woken : ∀ t, g.woken t = true → g.known t = true
  entered : ∀ t, g.entered t = true → g.woken t = true

/-- What is said of thread `i`. -/
structure Rest (i : Nat) (g : Shared) (pc : Pc) : Prop where
  adult : pc.adult = true → Adult g i
  wakes : ∀ p ∈ pc.wakes, Adult g p
  target : ∀ p, pc.target = some p → g.known p = true
  task : ∀ task, pc.task = some task → g.woken i = true ∨ g.tasks i = task
  listed : pc.listed = true → g.woken i = true ∨ Listed g i

section
variable {i j p : Nat} {g g' : Shared} {pc pc' : Pc} {a : Choice}

/-- Who is woken. -/
theorem step_woken (hs : step j g pc a = some (g', pc')) :
    g'.woken = g.woken ∨
      ∃ q stop, pc = .wakeStore q stop ∧ g'.woken = Function.update g.woken q true := by
  cases step_effect hs with
  | wake q stop => exact .inr ⟨q, stop, rfl, rfl⟩
  | _ => exact .inl rfl

theorem step_woken_mono (hs : step j g pc a = some (g', pc')) (h : g.woken p = true) :
    g'.woken p = true := by
  rcases step_woken hs with hsame | ⟨q, stop, -, hwake⟩
  · rw [hsame]
    exact h
  · rw [hwake, Function.update_apply]
    split
    · rfl
    · exact h

/-- Which tasks are handed out. -/
theorem step_known (hs : step j g pc a = some (g', pc')) :
    g'.known = g.known ∨
      pc = .attachPid none ∧ g'.known = Function.update g.known j true ∨
      ∃ cr q, pc = .returned cr (.task q) ∧ g'.known = Function.update g.known q true ∧
        g'.finished = Function.update g.finished cr true := by
  cases step_effect hs with
  | attachAdopted => exact .inr (.inl ⟨rfl, rfl⟩)
  | publish cr q => exact .inr (.inr ⟨cr, q, rfl, rfl, rfl⟩)
  | _ => exact .inl rfl

theorem step_known_mono (hs : step j g pc a = some (g', pc')) (h : g.known p = true) :
    g'.known p = true := by
  rcases step_known hs with hsame | ⟨-, hknown⟩ | ⟨cr, q, -, hknown, -⟩
  · rw [hsame]
    exact h
  all_goals
    rw [hknown, Function.update_apply]
    split
    · rfl
    · exact h

theorem step_entered (hs : step j g pc a = some (g', pc')) :
    g'.entered = g.entered ∨
      ∃ cr, pc = .testStop cr ∧ g'.entered = Function.update g.entered j true := by
  cases step_effect hs with
  | enter cr => exact .inr ⟨cr, rfl, rfl⟩
  | _ => exact .inl rfl

/-- A task is changed by its own thread, and by those that wake it. -/
theorem step_tasks (hs : step j g pc a = some (g', pc')) (hp : p ≠ j) :
    g'.tasks p = g.tasks p ∨ p ∈ pc.wakes ∨ g'.woken p = true := by
  cases step_effect hs with
  | wake q stop =>
      by_cases hq : p = q
      · subst hq
        exact .inr (.inr (by simp [Shared.wakeStore]))
      · exact .inl (setTaskState_ne _ _ _ _ hq)
  | up q stop =>
      by_cases hq : p = q
      · exact .inr (.inl (List.mem_singleton.mpr hq))
      · exact .inl (semUp_ne _ _ _ hq)
  | @sync s pc pc₁ sh hstep =>
      by_cases hmem : p ∈ pc.entries
      · exact .inr (.inl hmem)
      · exact .inl (Completion.step_task hstep (.inl hp) hmem)
  | own _ task => exact .inl (Function.update_of_ne hp _ _)
  | _ => exact .inl rfl

/-- A queue has those that wait, and they are past their sleep in `kthread`. -/
theorem step_queue {x : Comp} (hs : step j g pc a = some (g', pc')) (hshape : Shaped pc)
    (hp : p ∈ (g'.comp x).taskList) :
    p ∈ (g.comp x).taskList ∨ p = j ∧ pc.adult = true := by
  cases step_effect hs with
  | create =>
      simp only [Function.update_apply] at hp
      split at hp
      · cases hp
      · split at hp
        · cases hp
        · exact .inl hp
  | stopInit q =>
      simp only [Function.update_apply] at hp
      split at hp
      · cases hp
      · exact .inl hp
  | @sync s pc pc₁ sh hstep =>
      simp only [Shared.put, Function.update_apply] at hp
      split at hp
      · rename_i hx
        subst hx
        rcases Completion.step_taskList hstep with hsame | ⟨w, rfl, hadd⟩ | ⟨-, hdel⟩
        · rw [hsame] at hp
          exact .inl hp
        · rw [hadd] at hp
          rcases List.mem_append.mp hp with hold | hnew
          · exact .inl hold
          · refine .inr ⟨List.mem_singleton.mp hnew, ?_⟩
            cases s with
            | started cr => cases hshape.2
            | _ => rfl
        · rw [hdel] at hp
          exact .inl (List.mem_of_mem_erase hp)
      · exact .inl hp
  | _ => exact .inl hp

theorem Adult.step (h : Adult g p) (hs : Kthread.step j g pc a = some (g', pc')) : Adult g' p := by
  rcases h with ⟨hborn, hparent⟩ | hwoken
  · obtain ⟨hborn', hparent', -⟩ := step_born hs hborn
    exact .inl ⟨hborn', hparent'.trans hparent⟩
  · exact .inr (step_woken_mono hs hwoken)

/-- Of a thread that was made for a call. -/
theorem Adult.woken_of_parent {cr : Nat} (h : Adult g p) (hp : g.parent p = some cr) :
    g.woken p = true := by
  rcases h with ⟨-, hnone⟩ | hwoken
  · rw [hnone] at hp
    cases hp
  · exact hwoken

/-- The ways into the code of a thread: it was adopted, or comes back from its sleep. -/
theorem step_adult (hs : step j g pc a = some (g', pc')) (h : pc'.adult = true) :
    pc.adult = true ∨ pc = .attachPid none ∨
      (∃ cr, pc = .switch cr ∧ (g.tasks j).state = .running) ∨
      ∃ cr, pc = .down cr ∧ 0 < (g.tasks j).sleepLock := by
  cases step_next hs with
  | attachAdopted => exact .inr (.inl rfl)
  | yield hrun => exact .inr (.inr (.inl ⟨_, rfl, hrun⟩))
  | down htoken => exact .inr (.inr (.inr ⟨_, rfl, htoken⟩))
  | begin | adopt | init | attach | setState | sleep | panic => cases h
  | @inside s | @back s =>
      cases s with
      | started cr => cases h
      | _ => exact .inl rfl
  | _ => exact .inl rfl

theorem step_wakes (hs : step j g pc a = some (g', pc')) (h : p ∈ pc'.wakes) :
    p ∈ pc.wakes ∨ (∃ x, p ∈ (g.comp x).taskList) ∨ ∃ stop, pc = .wakeStore p stop := by
  cases step_next hs with
  | inside hstep =>
      rcases Completion.step_entries hstep h with hold | hqueue
      · exact .inl hold
      · exact .inr (.inl ⟨_, hqueue⟩)
  | @back s =>
      cases s with
      | done cr direct => cases direct <;> cases h
      | _ => cases h
  | wakeStore q stop =>
      rw [List.mem_singleton.mp h]
      exact .inr (.inr ⟨stop, rfl⟩)
  | _ => cases h

theorem step_target (hs : step j g pc a = some (g', pc')) (h : pc'.target = some p) :
    pc.target = some p ∨ g.known p = true := by
  cases step_next hs with
  | wake hknown | stop hknown =>
      cases h
      exact .inr hknown
  | stopLock | stopInit | stopStore => exact .inl h
  | @back s =>
      cases s with
      | done cr direct => cases direct <;> cases h
      | _ => cases h
  | _ => cases h

/-- A thread asleep in `kthread` remembers the call it was made for. -/
theorem Pc.origin_of_task {task : TaskStruct} (h : pc.task = some task) :
    ∃ cr, pc.origin = some (some cr) := by
  cases pc with
  | attachPid o =>
      cases o with
      | none => cases h
      | some cr => exact ⟨cr, rfl⟩
  | sync s pc =>
      cases s with
      | started cr => exact ⟨cr, rfl⟩
      | _ => cases h
  | setState cr | switch cr | down cr => exact ⟨cr, rfl⟩
  | _ => cases h

/-- A thread that was not woken changes its task as `kthread` says. -/
theorem Rest.task_own {task : TaskStruct} (h : Rest j g pc) (hhome : Home j g pc)
    (hshape : Shaped pc) (hs : step j g pc a = some (g', pc')) (ht : pc'.task = some task) :
    g'.woken j = true ∨ g'.tasks j = task := by
  cases step_next hs with
  | init o =>
      cases hs
      cases o with
      | none => cases ht
      | some cr =>
          cases ht
          exact .inr (Function.update_self ..)
  | attach cr =>
      cases hs
      exact h.task task ht
  | setState cr =>
      cases hs
      cases ht
      refine (h.task _ rfl).imp id ?_
      intro htask
      show setTaskState g.tasks j .interruptible j = _
      rw [setTaskState_same, htask]
  | @inside s pc | @back s pc =>
      obtain ⟨sh, pc₁, hstep, rfl, -⟩ := step_sync hs
      cases s with
      | started cr =>
          have hold : g.woken j = true ∨ g.tasks j = ⟨.interruptible, 0⟩ := h.task _ rfl
          cases ht
          by_cases hmem : j ∈ pc.entries
          · exact .inl ((h.wakes j hmem).woken_of_parent (hhome.origin _ rfl))
          · refine hold.imp id ?_
            intro htask
            exact (Completion.step_task hstep (.inr hshape.2) hmem).trans htask
      | done cr direct => cases direct <;> cases ht
      | _ => cases ht
  | sleep cr =>
      simp only [step] at hs
      split at hs <;> cases hs
      exact h.task task ht
  | _ => cases ht

/-- The ways to a point where the thread is on the list: it was, or it has just entered. -/
theorem step_to_listed (hs : step j g pc a = some (g', pc')) (h : pc'.listed = true) :
    pc.listed = true ∧ g'.pidTaskList = g.pidTaskList ∧ g'.pid = g.pid ∧ g'.woken = g.woken ∨
      g'.pidTaskList = (g.pid j, j) :: g.pidTaskList ∧ g'.pid = g.pid := by
  cases step_next hs with
  | attach cr =>
      cases hs
      exact .inr ⟨rfl, rfl⟩
  | setState cr =>
      cases hs
      exact .inl ⟨rfl, rfl, rfl, rfl⟩
  | @inside s | @back s =>
      obtain ⟨sh, pc₁, -, rfl, -⟩ := step_sync hs
      cases s with
      | started cr => exact .inl ⟨rfl, rfl, rfl, rfl⟩
      | done cr direct => cases direct <;> cases h
      | _ => cases h
  | sleep cr =>
      simp only [step] at hs
      split at hs <;> cases hs
      exact .inl ⟨rfl, rfl, rfl, rfl⟩
  | _ => cases h

/-- Other threads do not come between a live thread and its id. -/
theorem Listed.other (h : Listed g i) (hij : i ≠ j) (hids : Ids g) (hlive : i ∈ g.live)
    (hj : Home j g pc) (hs : step j g pc a = some (g', pc')) : Listed g' i := by
  have hborn := hids.live i hlive
  have hpid := (step_born hs hborn).2.2
  have hne : pc ≠ .unborn → pc ≠ .dead → (g.pid j == g.pid i) = false := by
    intro hpc hdead
    rw [beq_eq_false_iff_ne]
    intro heq
    exact hij (hids.distinct j (hj.live hdead (hj.born hpc)) i hlive heq).symm
  unfold Listed Shared.findTaskByPid at h ⊢
  rw [hpid]
  rcases step_pidTaskList hs with hsame | ⟨⟨o, rfl⟩, hattach⟩ | ⟨rfl, hdetach⟩
  · rw [hsame]
    exact h
  · rw [hattach, List.find?_cons, hne nofun nofun]
    exact h
  · rw [hdetach, find?_eraseP]
    · exact h
    · intro e he hej
      rw [(hids.entries e he).2, eq_of_beq hej]
      exact hne nofun nofun

theorem Rest.other {q q' : Pc} (h : Rest i g pc) (hij : i ≠ j) (hi : Home i g pc) (hids : Ids g)
    (hj : Home j g q) (hrest : Rest j g q) (hs : step j g q a = some (g', q')) :
    Rest i g' pc := by
  refine ⟨fun hadult => (h.adult hadult).step hs, fun p hp => (h.wakes p hp).step hs,
    fun p hp => step_known_mono hs (h.target p hp), ?_, ?_⟩
  · intro task ht
    obtain ⟨cr, horigin⟩ := Pc.origin_of_task ht
    have hparent := hi.origin _ horigin
    rcases h.task task ht with hwoken | htask
    · exact .inl (step_woken_mono hs hwoken)
    · rcases step_tasks hs hij with hsame | hwakes | hwoken
      · exact .inr (hsame.trans htask)
      · exact .inl (step_woken_mono hs ((hrest.wakes i hwakes).woken_of_parent hparent))
      · exact .inl hwoken
  · intro hl
    have hpc : pc ≠ .unborn ∧ pc ≠ .dead := by
      constructor <;> (rintro rfl; cases hl)
    rcases h.listed hl with hwoken | hlisted
    · exact .inl (step_woken_mono hs hwoken)
    · exact .inr (hlisted.other hij hids (hi.live hpc.2 (hi.born hpc.1)) hj hs)

theorem Rest.own (h : Rest j g pc) (hsleep : Sleep g) (hhome : Home j g pc) (hshape : Shaped pc)
    (hs : step j g pc a = some (g', pc')) : Rest j g' pc' := by
  constructor
  · intro hadult
    rcases step_adult hs hadult with hold | rfl | ⟨cr, rfl, hrun⟩ | ⟨cr, rfl, hpos⟩
    · exact (h.adult hold).step hs
    · exact Adult.step (.inl ⟨hhome.born nofun, hhome.origin _ rfl⟩) hs
    · rcases h.task _ rfl with hwoken | htask
      · exact Adult.step (.inr hwoken) hs
      · rw [htask] at hrun
        cases hrun
    · rcases h.task _ rfl with hwoken | htask
      · exact Adult.step (.inr hwoken) hs
      · rw [htask] at hpos
        cases hpos
  · intro p hp
    rcases step_wakes hs hp with hold | ⟨x, hqueue⟩ | ⟨stop, rfl⟩
    · exact (h.wakes p hold).step hs
    · exact (hsleep.queue x p hqueue).step hs
    · cases hs
      exact .inr (by simp [Shared.wakeStore])
  · intro p hp
    rcases step_target hs hp with hold | hknown
    · exact step_known_mono hs (h.target p hold)
    · exact step_known_mono hs hknown
  · intro task ht
    exact h.task_own hhome hshape hs ht
  · intro hl
    rcases step_to_listed hs hl with ⟨hold, hlist, hpid, hwoken⟩ | ⟨hlist, hpid⟩
    · rw [Listed, Shared.findTaskByPid, hlist, hpid, hwoken]
      exact h.listed hold
    · refine .inr ?_
      rw [Listed, Shared.findTaskByPid, hlist, hpid]
      simp

theorem Sleep.step (h : Sleep g) (hrest : Rest j g pc) (hhome : Home j g pc)
    (hshape : Shaped pc) (hs : Kthread.step j g pc a = some (g', pc')) : Sleep g' := by
  constructor
  · intro x p hp
    rcases step_queue hs hshape hp with hold | ⟨rfl, hadult⟩
    · exact (h.queue x p hold).step hs
    · exact (hrest.adult hadult).step hs
  · intro t ht
    rcases step_woken hs with hsame | ⟨q, stop, rfl, hwake⟩
    · rw [hsame] at ht
      exact step_known_mono hs (h.woken t ht)
    · rw [hwake, Function.update_apply] at ht
      split at ht
      · rename_i hq
        exact step_known_mono hs (hq ▸ hrest.target q rfl)
      · exact step_known_mono hs (h.woken t ht)
  · intro t ht
    rcases step_entered hs with hsame | ⟨cr, rfl, henter⟩
    · rw [hsame] at ht
      exact step_woken_mono hs (h.entered t ht)
    · rw [henter, Function.update_apply] at ht
      split at ht
      · rename_i hj
        subst hj
        exact step_woken_mono hs ((hrest.adult rfl).woken_of_parent (hhome.origin _ rfl))
      · exact step_woken_mono hs (h.entered t ht)

end

section
variable {c : Conf Shared Pc}

theorem sleep_rest (h : machine.Reachable c) :
    Sleep c.shared ∧ ∀ (i : Nat) (pc : Pc), c.pool[i]? = some pc → Rest i c.shared pc := by
  refine Prog.rely (P := prog) Sleep Rest ?_ ?_ h
  · rintro c ⟨⟨hcomp, -, -, -, -, hall⟩, hstart⟩
    refine ⟨⟨?_, ?_, ?_⟩, ?_⟩
    · intro x p hp
      rw [hcomp x] at hp
      cases hp
    · intro t ht
      rw [(hall t).2.2.2.2.1] at ht
      cases ht
    · intro t ht
      rw [(hall t).2.2.2.2.2.1] at ht
      cases ht
    · intro i pc hp
      obtain rfl := hstart pc (List.mem_of_getElem? hp)
      exact ⟨nofun, nofun, nofun, nofun, nofun⟩
  · intro c i a pc g pc' hreach _ hp hs hsleep hrest
    have hhome := home hreach hp
    have hshape := shaped hreach hp
    exact ⟨hsleep.step hrest hhome hshape hs, hrest.own hsleep hhome hshape hs,
      fun j q hij hq hr => hr.other hij (home hreach hq) (ids hreach) hhome hrest hs⟩

end

/-! ## What a call of `kthread_create` returns -/

/-- Asleep in `kthread`, and found by its id. -/
def Parked (g : Shared) (t : Nat) : Prop :=
  (g.tasks t).state = .interruptible ∧ Listed g t ∧ t ∈ g.live

structure Creates (g : Shared) : Prop where
  counted : ∀ x, x ≠ .stop → (g.comp x).done ≠ 0 → 0 < (g.comp x).completed
  started : ∀ cr, 0 < (g.comp (.started cr)).completed →
    ∃ t, g.made cr = some t ∧ (g.woken t = true ∨ Parked g t)
  done : ∀ cr, 0 < (g.comp (.done cr)).completed →
    0 < (g.comp (.started cr)).completed ∧ ∃ t, g.made cr = some t ∧ g.result cr = .task t
  born : ∀ t, g.known t = true → g.born t = true
  known : ∀ t cr, g.known t = true → g.parent t = some cr → g.finished cr = true
  finished : ∀ cr, g.finished cr = true → 0 < (g.comp (.done cr)).completed

/-- Before the increment of `create->started`. -/
def Pc.unstarted : Pc → Bool
  | .unborn | .initTask _ | .attachPid _ | .setState _ => true
  | .sync (.started _) pc => before pc == 1
  | _ => false

/-- What a thread in a call knows about it. -/
def Knows (g : Shared) : Pc → Prop
  | .getId cr _ t => g.made cr = some t
  | .sync (.waitStarted cr _ pid) pc =>
      (∃ t, g.made cr = some t ∧ g.pid t = pid) ∧
        (pc.past = true → 0 < (g.comp (.started cr)).completed)
  | .findTask cr _ pid =>
      (∃ t, g.made cr = some t ∧ g.pid t = pid) ∧ 0 < (g.comp (.started cr)).completed
  | .storeResult cr _ r =>
      0 < (g.comp (.started cr)).completed ∧ ∃ t, g.made cr = some t ∧ r = .task t
  | .sync (.done cr _) pc =>
      if before pc = 1 then
        0 < (g.comp (.started cr)).completed ∧ ∃ t, g.made cr = some t ∧ g.result cr = .task t
      else 0 < (g.comp (.done cr)).completed
  | .sync (.waitDone cr) pc => pc.past = true → 0 < (g.comp (.done cr)).completed
  | .readResult cr => 0 < (g.comp (.done cr)).completed
  | .returned cr r => 0 < (g.comp (.done cr)).completed ∧ ∃ t, g.made cr = some t ∧ r = .task t
  | .bug _ => False
  | _ => True

/-- What is said of thread `i`. -/
structure Part (i : Nat) (g : Shared) (pc : Pc) : Prop where
  unstarted : pc.unstarted = true → ∀ cr, g.parent i = some cr →
    (g.comp (.started cr)).completed = 0
  knows : Knows g pc

section
variable {i j t cr : Nat} {g g' : Shared} {pc pc' : Pc} {a : Choice}

theorem step_made (hs : step j g pc a = some (g', pc'))
    (hnew : ∀ cr direct, pc = .kernelThread cr direct → g.made cr = none)
    (h : g.made cr = some t) : g'.made cr = some t := by
  cases step_effect hs with
  | @spawn v t' direct id hfree hid =>
      have hne : cr ≠ v := by
        rintro rfl
        rw [hnew cr direct rfl] at h
        cases h
      exact (Function.update_of_ne hne _ _).trans h
  | _ => exact h

theorem step_result (hs : step j g pc a = some (g', pc')) :
    g'.result = g.result ∨
      ∃ cr direct r, pc = .storeResult cr direct r ∧
        g'.result = Function.update g.result cr r := by
  cases step_effect hs with
  | store cr direct r => exact .inr ⟨cr, direct, r, rfl, rfl⟩
  | _ => exact .inl rfl

theorem step_finished (hs : step j g pc a = some (g', pc')) :
    g'.finished = g.finished ∨
      ∃ cr r, pc = .returned cr r ∧ g'.finished = Function.update g.finished cr true := by
  cases step_effect hs with
  | publish cr p => exact .inr ⟨cr, _, rfl, rfl⟩
  | finish cr r => exact .inr ⟨cr, r, rfl, rfl⟩
  | _ => exact .inl rfl

theorem step_finished_mono (hs : step j g pc a = some (g', pc')) (h : g.finished cr = true) :
    g'.finished cr = true := by
  rcases step_finished hs with hsame | ⟨v, r, -, hfin⟩
  · rw [hsame]
    exact h
  · rw [hfin, Function.update_apply]
    split
    · rfl
    · exact h

/-- A completion changes when it is initialised, and in a site that uses it. -/
theorem step_comp {x : Comp} (hs : step j g pc a = some (g', pc')) (hx : x ≠ .stop) :
    g'.comp x = g.comp x ∨
      g'.comp x = initCompletion ∧ (x = .started g.next ∨ x = .done g.next) ∨
      ∃ s cpc cpc' sh, pc = .sync s cpc ∧ s.comp = x ∧
        Completion.step j (g.view x) cpc .tick = some (sh, cpc') ∧
        g'.comp x = ⟨sh.done, sh.lock, sh.taskList, sh.completed, sh.succeeded⟩ := by
  cases step_effect hs with
  | create =>
      simp only [Function.update_apply]
      split
      · rename_i hdone
        exact .inr (.inl ⟨rfl, .inr hdone⟩)
      · split
        · rename_i hstarted
          exact .inr (.inl ⟨rfl, .inl hstarted⟩)
        · exact .inl rfl
  | stopInit p => exact .inl (Function.update_of_ne hx _ _)
  | @sync s cpc cpc' sh hstep =>
      by_cases hcomp : s.comp = x
      · subst hcomp
        exact .inr (.inr ⟨s, cpc, cpc', sh, rfl, rfl, hstep, Function.update_self ..⟩)
      · exact .inl (Function.update_of_ne (Ne.symm hcomp) _ _)
  | _ => exact .inl rfl

/-- The counts of the calls so far do not go back. -/
theorem Creates.completed_pos {x : Comp} (h : Creates g) (hnext : g.made g.next = none)
    (hs : step j g pc a = some (g', pc')) (hx : x ≠ .stop) (hpos : 0 < (g.comp x).completed) :
    0 < (g'.comp x).completed := by
  rcases step_comp hs hx with hsame | ⟨-, rfl | rfl⟩ | ⟨s, cpc, cpc', sh, -, -, hstep, hnew⟩
  · rw [hsame]
    exact hpos
  · obtain ⟨t, hmade, -⟩ := h.started _ hpos
    rw [hnext] at hmade
    cases hmade
  · obtain ⟨-, t, hmade, -⟩ := h.done _ hpos
    rw [hnext] at hmade
    cases hmade
  · rw [hnew]
    rcases Completion.step_done hstep with ⟨-, hcomp, -⟩ | ⟨-, -, rfl⟩ | ⟨w, -, -, rfl⟩
    · exact hcomp ▸ hpos
    · exact Nat.succ_pos _
    · exact hpos

/-- They go up by an increment. -/
theorem step_completed {x : Comp} (hs : step j g pc a = some (g', pc')) (hx : x ≠ .stop)
    (hpos : 0 < (g'.comp x).completed) :
    0 < (g.comp x).completed ∨ ∃ s, pc = .sync s .completeInc ∧ s.comp = x := by
  rcases step_comp hs hx with hsame | ⟨hinit, -⟩ | ⟨s, cpc, cpc', sh, rfl, hcomp, hstep, hnew⟩
  · rw [hsame] at hpos
    exact .inl hpos
  · rw [hinit] at hpos
    cases hpos
  · rw [hnew] at hpos
    rcases Completion.step_done hstep with ⟨-, hsame, -⟩ | ⟨rfl, -, -⟩ | ⟨w, -, -, rfl⟩
    · exact .inl (Nat.lt_of_lt_of_eq hpos hsame)
    · exact .inr ⟨s, rfl, hcomp⟩
    · exact .inl hpos

/-- What the other parts say about the step of thread `j`. -/
structure Around (j : Nat) (g : Shared) (pc : Pc) : Prop where
  ids : Ids g
  home : Home j g pc
  sleep : Sleep g
  rest : Rest j g pc
  shaped : Shaped pc
  next : g.made g.next = none
  new : ∀ cr direct, pc = .kernelThread cr direct → g.made cr = none

/-- A thread that is asleep in `kthread` stays there until it is woken. -/
theorem Parked.step (h : Parked g t) (hparent : g.parent t = some cr)
    (hpos : 0 < (g.comp (.started cr)).completed) (hj : Around j g pc)
    (hun : pc.unstarted = true → ∀ cr, g.parent j = some cr →
      (g.comp (.started cr)).completed = 0)
    (hs : Kthread.step j g pc a = some (g', pc')) : g'.woken t = true ∨ Parked g' t := by
  obtain ⟨hstate, hlisted, hlive⟩ := h
  by_cases htj : t = j
  · subst htj
    -- its own steps
    by_cases hadult : pc.adult = true
    · exact .inl (step_woken_mono hs ((hj.rest.adult hadult).woken_of_parent hparent))
    · by_cases hunst : pc.unstarted = true
      · have hzero := hun hunst cr hparent
        omega
      · cases pc with
        | sync s pc =>
            obtain ⟨sh, pc₁, hstep, rfl, -⟩ := step_sync hs
            cases s with
            | started v =>
                by_cases hmem : t ∈ pc.entries
                · exact .inl ((hj.rest.wakes t hmem).woken_of_parent hparent)
                · refine .inr ⟨?_, hlisted, hlive⟩
                  have hsame := Completion.step_task hstep (.inr hj.shaped.2) hmem
                  exact (congrArg TaskStruct.state hsame).trans hstate
            | _ => exact absurd rfl hadult
        | switch v =>
            simp only [Kthread.step] at hs
            split at hs <;> cases hs <;> exact .inr ⟨hstate, hlisted, hlive⟩
        | down v =>
            simp only [Kthread.step] at hs
            split at hs
            · cases hs
            · rename_i ts hd
              cases hs
              exact .inr ⟨(semDown_some hd).2.1.trans hstate, hlisted, hlive⟩
        | panicked => cases hs
        | unborn | initTask o | attachPid o | setState v => exact absurd rfl hunst
        | _ => exact absurd rfl hadult
  · rcases step_tasks hs htj with hsame | hwakes | hwoken
    · have hborn := hj.ids.live t hlive
      exact .inr ⟨by rw [hsame]; exact hstate, hlisted.other htj hj.ids hlive hj.home hs,
        step_live hs htj (fun _ => hlive) (step_born hs hborn).1⟩
    · exact .inl (step_woken_mono hs ((hj.rest.wakes t hwakes).woken_of_parent hparent))
    · exact .inl hwoken

/-- A thread at the increment of `create->started` is the one of the call, asleep. -/
theorem started_of_inc {s : Site} (hj : Around j g (.sync s .completeInc))
    (hs : s.comp = .started cr) : g.made cr = some j ∧ (g.woken j = true ∨ Parked g j) := by
  cases s with
  | started v =>
      obtain rfl := Comp.started.inj hs
      refine ⟨(hj.ids.parent j v).mp (hj.home.origin _ rfl), ?_⟩
      rcases hj.rest.task _ rfl with hwoken | htask
      · exact .inl hwoken
      · rcases hj.rest.listed rfl with hwoken | hlisted
        · exact .inl hwoken
        · exact .inr ⟨by rw [htask], hlisted, hj.home.live nofun (hj.home.born nofun)⟩
  | waitStarted v direct pid => cases hj.shaped.2
  | _ => cases hs

/-- A wait past its test knows that the completion was incremented. -/
theorem Part.counted {s : Site} {w : Completion.Wait} (h : Part j g (.sync s (.dec w)))
    (hj : Around j g (.sync s (.dec w))) (hx : s.comp ≠ .stop) : 0 < (g.comp s.comp).completed := by
  cases s with
  | waitStarted v direct pid => exact h.knows.2 rfl
  | waitDone v => exact h.knows rfl
  | started v | done v direct => cases hj.shaped.2
  | stopDone | waitStop => exact absurd rfl hx

theorem Creates.counted_step (h : Creates g) (hpart : Part j g pc) (hj : Around j g pc)
    (hs : Kthread.step j g pc a = some (g', pc')) {x : Comp} (hx : x ≠ .stop)
    (hdone : (g'.comp x).done ≠ 0) : 0 < (g'.comp x).completed := by
  rcases step_comp hs hx with hsame | ⟨hinit, -⟩ | ⟨s, cpc, cpc', sh, rfl, rfl, hstep, hnew⟩
  · rw [hsame] at hdone ⊢
    exact h.counted x hx hdone
  · rw [hinit] at hdone
    exact absurd rfl hdone
  · rw [hnew] at hdone ⊢
    rcases Completion.step_done hstep with ⟨hd, hc, -⟩ | ⟨-, -, rfl⟩ | ⟨w, rfl, -, rfl⟩
    · have hold : (g.comp s.comp).done ≠ 0 := fun hzero => hdone (hd.trans hzero)
      exact Nat.lt_of_lt_of_eq (h.counted _ hx hold) hc.symm
    · exact Nat.succ_pos _
    · exact hpart.counted hj hx

theorem Creates.started_step (h : Creates g) (hpart : Part j g pc) (hj : Around j g pc)
    (hs : Kthread.step j g pc a = some (g', pc'))
    (hpos : 0 < (g'.comp (.started cr)).completed) :
    ∃ t, g'.made cr = some t ∧ (g'.woken t = true ∨ Parked g' t) := by
  rcases step_completed (x := .started cr) hs nofun hpos with hold | ⟨s, rfl, hcomp⟩
  · obtain ⟨t, hmade, hparked⟩ := h.started cr hold
    refine ⟨t, step_made hs hj.new hmade, ?_⟩
    rcases hparked with hwoken | hparked
    · exact .inl (step_woken_mono hs hwoken)
    · exact hparked.step ((hj.ids.parent t cr).mpr hmade) hold hj hpart.unstarted hs
  · obtain ⟨hmade, hparked⟩ := started_of_inc hj hcomp
    obtain ⟨sh, pc₁, hstep, rfl, -⟩ := step_sync hs
    cases hstep
    exact ⟨j, hmade, hparked⟩

theorem Creates.done_step (h : Creates g) (hpart : Part j g pc) (hj : Around j g pc)
    (hrunner : ∀ cr, places cr pc .post = 1 → (g.comp (.done cr)).completed = 0)
    (hs : Kthread.step j g pc a = some (g', pc')) (hpos : 0 < (g'.comp (.done cr)).completed) :
    0 < (g'.comp (.started cr)).completed ∧
      ∃ t, g'.made cr = some t ∧ g'.result cr = .task t := by
  rcases step_completed (x := .done cr) hs nofun hpos with hold | ⟨s, rfl, hcomp⟩
  · obtain ⟨hstarted, t, hmade, hresult⟩ := h.done cr hold
    refine ⟨h.completed_pos hj.next hs nofun hstarted, t, step_made hs hj.new hmade, ?_⟩
    rcases step_result hs with hsame | ⟨v, direct, r, rfl, hstore⟩
    · rw [hsame]
      exact hresult
    · have hne : cr ≠ v := by
        rintro rfl
        have hzero := hrunner cr (if_pos rfl)
        omega
      rw [hstore, Function.update_of_ne hne]
      exact hresult
  · cases s with
    | done v direct =>
        obtain rfl := Comp.done.inj hcomp
        obtain ⟨hstarted, t, hmade, hresult⟩ := hpart.knows
        obtain ⟨sh, pc₁, hstep, rfl, -⟩ := step_sync hs
        exact ⟨h.completed_pos hj.next hs nofun hstarted, t, hmade, hresult⟩
    | waitDone v => cases hj.shaped.2
    | _ => cases hcomp

theorem Creates.known_step (h : Creates g) (hpart : Part j g pc) (hj : Around j g pc)
    (hs : Kthread.step j g pc a = some (g', pc')) (hknown : g'.known t = true) :
    g'.born t = true ∧ ∀ cr, g'.parent t = some cr → g'.finished cr = true := by
  have hold : g.known t = true → g'.born t = true ∧
      ∀ cr, g'.parent t = some cr → g'.finished cr = true := by
    intro hk
    obtain ⟨hborn, hparent, -⟩ := step_born hs (h.born t hk)
    refine ⟨hborn, fun cr hp => step_finished_mono hs (h.known t cr hk (hparent ▸ hp))⟩
  rcases step_known hs with hsame | ⟨rfl, hadopt⟩ | ⟨v, q, rfl, hpublish, hfin⟩
  · rw [hsame] at hknown
    exact hold hknown
  · rw [hadopt, Function.update_apply] at hknown
    split at hknown
    · rename_i ht
      subst ht
      obtain ⟨hborn, hparent, -⟩ := step_born hs (hj.home.born nofun)
      refine ⟨hborn, ?_⟩
      intro cr hp
      rw [hparent, hj.home.origin _ rfl] at hp
      cases hp
    · exact hold hknown
  · rw [hpublish, Function.update_apply] at hknown
    split at hknown
    · rename_i ht
      subst ht
      obtain ⟨-, q, hmade, hq⟩ := hpart.knows
      obtain rfl := Result.task.inj hq
      have hp := (hj.ids.parent t v).mpr hmade
      obtain ⟨hborn, hparent, -⟩ := step_born hs (hj.ids.born_of_parent hp)
      refine ⟨hborn, ?_⟩
      intro cr hcr
      rw [hparent, hp] at hcr
      obtain rfl := Option.some.inj hcr
      rw [hfin]
      exact Function.update_self ..
    · exact hold hknown

theorem Creates.step (h : Creates g) (hpart : Part j g pc) (hj : Around j g pc)
    (hrunner : ∀ cr, places cr pc .post = 1 → (g.comp (.done cr)).completed = 0)
    (hs : Kthread.step j g pc a = some (g', pc')) : Creates g' := by
  refine ⟨fun x hx hdone => h.counted_step hpart hj hs hx hdone,
    fun cr hpos => h.started_step hpart hj hs hpos,
    fun cr hpos => h.done_step hpart hj hrunner hs hpos,
    fun t hknown => (h.known_step hpart hj hs hknown).1,
    fun t cr hknown => (h.known_step hpart hj hs hknown).2 cr, ?_⟩
  intro cr hfin
  rcases step_finished hs with hsame | ⟨v, r, rfl, hnew⟩
  · rw [hsame] at hfin
    exact h.completed_pos hj.next hs nofun (h.finished cr hfin)
  · rw [hnew, Function.update_apply] at hfin
    split at hfin
    · rename_i hv
      subst hv
      exact h.completed_pos hj.next hs nofun hpart.knows.1
    · exact h.completed_pos hj.next hs nofun (h.finished cr hfin)

/-! ### Kept by the other threads -/

theorem Part.unstarted_other {q q' : Pc} (h : Part i g pc) (hij : i ≠ j) (hc : Creates g)
    (hj : Around j g q) (hs : step j g q a = some (g', q')) (hun : pc.unstarted = true)
    (hp : g'.parent i = some cr) : (g'.comp (.started cr)).completed = 0 := by
  by_contra hne
  rcases step_completed (x := .started cr) hs nofun (Nat.pos_of_ne_zero hne) with
    hold | ⟨s, rfl, hcomp⟩
  · by_cases hborn : g.born i = true
    · rw [(step_born hs hborn).2.1] at hp
      have hzero := h.unstarted hun cr hp
      omega
    · -- the thread has just been made
      have hnone := hj.ids.born i (Bool.eq_false_iff.mpr hborn)
      rcases step_threads hs with ⟨-, hparent, -⟩ | ⟨id, -, -, -, rfl⟩ |
        ⟨v, direct, t, id, rfl, -, -, rfl⟩ | ⟨-, rfl⟩
      · rw [hparent, hnone] at hp
        cases hp
      · simp [Shared.bear, hij, hnone] at hp
      · obtain ⟨t', hmade, -⟩ := hc.started cr hold
        have hv : v = cr := by
          simp only [Shared.bear, Function.update_apply] at hp
          split at hp
          · exact Option.some.inj hp
          · rw [hnone] at hp
            cases hp
        rw [← hv, hj.new v direct rfl] at hmade
        cases hmade
      · rw [hnone] at hp
        cases hp
  · have hmade := (started_of_inc hj hcomp).1
    by_cases hi : g.born i = true
    · rw [(step_born hs hi).2.1] at hp
      rw [(hj.ids.parent i cr).mp hp] at hmade
      exact hij (Option.some.inj hmade)
    · have hnone := hj.ids.born i (Bool.eq_false_iff.mpr hi)
      obtain ⟨sh, pc₁, -, rfl, -⟩ := step_sync hs
      exact absurd (hnone.symm.trans hp) nofun

theorem Part.other {q q' : Pc} (h : Part i g pc) (hij : i ≠ j) (hc : Creates g)
    (hj : Around j g q) (hs : step j g q a = some (g', q'))
    (hresult : ∀ cr, places cr pc .post = 1 → g'.result cr = g.result cr) : Part i g' pc := by
  have hpos : ∀ x, x ≠ .stop → 0 < (g.comp x).completed → 0 < (g'.comp x).completed :=
    fun x hx hold => hc.completed_pos hj.next hs hx hold
  have hmade : ∀ cr t, g.made cr = some t → g'.made cr = some t :=
    fun cr t hold => step_made hs hj.new hold
  have hpid : ∀ cr t, g.made cr = some t → g'.pid t = g.pid t := by
    intro cr t hold
    exact (step_born hs (hj.ids.born_of_parent ((hj.ids.parent t cr).mpr hold))).2.2
  refine ⟨fun hun cr hp => h.unstarted_other hij hc hj hs hun hp, ?_⟩
  have hknows := h.knows
  cases pc with
  | getId v direct t => exact hmade v t hknows
  | findTask v direct pid =>
      obtain ⟨⟨t, ht, hid⟩, hstarted⟩ := hknows
      exact ⟨⟨t, hmade v t ht, (hpid v t ht).trans hid⟩, hpos _ nofun hstarted⟩
  | storeResult v direct r =>
      obtain ⟨hstarted, t, ht, hr⟩ := hknows
      exact ⟨hpos _ nofun hstarted, t, hmade v t ht, hr⟩
  | sync s pc =>
      cases s with
      | waitStarted v direct pid =>
          obtain ⟨⟨t, ht, hid⟩, hpast⟩ := hknows
          exact ⟨⟨t, hmade v t ht, (hpid v t ht).trans hid⟩, fun hp => hpos _ nofun (hpast hp)⟩
      | done v direct =>
          simp only [Knows] at hknows ⊢
          split at hknows
          · rename_i hbefore
            obtain ⟨hstarted, t, ht, hr⟩ := hknows
            have hpost : places v (.sync (.done v direct) pc) .post = 1 := by simp [hbefore]
            rw [if_pos hbefore]
            exact ⟨hpos _ nofun hstarted, t, hmade v t ht, (hresult v hpost).trans hr⟩
          · rename_i hbefore
            rw [if_neg hbefore]
            exact hpos _ nofun hknows
      | waitDone v => exact fun hp => hpos _ nofun (hknows hp)
      | _ => trivial
  | readResult v => exact hpos _ nofun hknows
  | returned v r =>
      obtain ⟨hdone, t, ht, hr⟩ := hknows
      exact ⟨hpos _ nofun hdone, t, hmade v t ht, hr⟩
  | bug v => exact hknows
  | _ => trivial

/-! ### Kept by the thread itself -/

/-- The way to the increment of `create->started`. -/
theorem step_unstarted (hs : step j g pc a = some (g', pc')) (hshape : Shaped pc)
    (h : pc'.unstarted = true) : pc.unstarted = true ∧ ∀ s, pc ≠ .sync s .completeInc := by
  cases step_next hs with
  | begin | adopt | init | attach | setState => exact ⟨rfl, nofun⟩
  | @inside s pc pc₁ sh hstep hfin =>
      cases s with
      | started v =>
          have hbefore : before pc₁ = 1 := eq_of_beq h
          have hne : pc ≠ .completeInc := by
            rintro rfl
            cases hstep
            cases hbefore
          rw [step_before hstep hshape.2 hne] at hbefore
          refine ⟨beq_of_eq hbefore, ?_⟩
          rintro s hsync
          exact hne (Pc.sync.inj hsync).2
      | _ => cases h
  | @back s =>
      cases s with
      | done cr direct => cases direct <;> cases h
      | _ => cases h
  | _ => cases h

theorem Part.unstarted_own (h : Part j g pc) (hj : Around j g pc)
    (hs : step j g pc a = some (g', pc')) (hun : pc'.unstarted = true)
    (hp : g'.parent j = some cr) : (g'.comp (.started cr)).completed = 0 := by
  obtain ⟨hold, hnot⟩ := step_unstarted hs hj.shaped hun
  have hparent : g.parent j = some cr := by
    rcases step_threads hs with ⟨-, hsame, -⟩ | ⟨id, -, -, -, rfl⟩ | ⟨v, direct, t, id, rfl, -⟩ |
      ⟨-, rfl⟩
    · exact hsame ▸ hp
    · simp [Shared.bear] at hp
    · cases hold
    · exact hp
  have hzero := h.unstarted hold cr hparent
  by_contra hne
  rcases step_completed (x := .started cr) hs nofun (Nat.pos_of_ne_zero hne) with hpos | ⟨s, hpc, -⟩
  · omega
  · exact hnot s hpc

/-- A wait that is over has gone past its test. -/
theorem past_of_finished {pc : Completion.Pc} (h : pc.waiting = true) (hfin : finished pc = true) :
    pc.past = true := by
  cases pc with
  | returned success w =>
      cases success <;> cases w <;> first | rfl | cases h
  | idle => cases h
  | _ => cases hfin

/-- A wait goes past its test when the completion was incremented. -/
theorem Creates.past {x : Comp} {cpc cpc' : Completion.Pc} {sh : Completion.Shared}
    (h : Creates g) (hx : x ≠ .stop)
    (hstep : Completion.step j (g.view x) cpc .tick = some (sh, cpc'))
    (hold : cpc.past = true → 0 < (g.comp x).completed) (hpast : cpc'.past = true) :
    0 < (g.comp x).completed := by
  rcases Completion.step_past hstep hpast with hp | hdone
  · exact hold hp
  · exact h.counted x hx hdone

/-- The task of a call that has not returned is asleep. -/
theorem Creates.parked (h : Creates g) (hsleep : Sleep g) (hids : Ids g)
    (hmade : g.made cr = some t) (hpos : 0 < (g.comp (.started cr)).completed)
    (hfin : g.finished cr = false) : g.woken t = false ∧ Parked g t := by
  have hnot : g.woken t = false := by
    cases hw : g.woken t with
    | false => rfl
    | true =>
        rw [h.known t cr (hsleep.woken t hw) ((hids.parent t cr).mpr hmade)] at hfin
        cases hfin
  obtain ⟨t', hmade', hparked⟩ := h.started cr hpos
  rw [hmade] at hmade'
  obtain rfl := Option.some.inj hmade'
  refine ⟨hnot, hparked.resolve_left ?_⟩
  rw [hnot]
  exact Bool.false_ne_true

/-- What the runner finds is the thread it made. -/
theorem Creates.find {pid : Int} (h : Creates g) (hsleep : Sleep g) (hids : Ids g)
    (hmade : g.made cr = some t) (hpid : g.pid t = pid)
    (hpos : 0 < (g.comp (.started cr)).completed) (hfin : g.finished cr = false) :
    g.findTaskByPid pid = some t := by
  obtain ⟨-, -, hlisted, -⟩ := h.parked hsleep hids hmade hpos hfin
  rw [← hpid]
  exact hlisted

/-- The sites. -/
theorem Part.knows_sync {s : Site} {cpc : Completion.Pc} (h : Part j g (.sync s cpc))
    (hc : Creates g) (hj : Around j g (.sync s cpc))
    (hs : step j g (.sync s cpc) a = some (g', pc')) : Knows g' pc' := by
  have hpos : ∀ x, x ≠ .stop → 0 < (g.comp x).completed → 0 < (g'.comp x).completed :=
    fun x hx hold => hc.completed_pos hj.next hs hx hold
  have hknows := h.knows
  obtain ⟨sh, pc₁, hstep, rfl, rfl⟩ := step_sync hs
  cases s with
  | waitStarted v direct pid =>
      obtain ⟨hmade, hold⟩ := hknows
      have hpast : pc₁.past = true → 0 < ((g.put (.started v) sh).comp (.started v)).completed :=
        fun hp => hpos _ nofun (hc.past nofun hstep hold hp)
      cases hfin : finished pc₁ with
      | true =>
          refine ⟨hmade, hpast (past_of_finished ?_ hfin)⟩
          refine Completion.step_waiting hstep hj.shaped.2 ?_
          rintro rfl
          cases hj.shaped.1
      | false => exact ⟨hmade, hpast⟩
  | waitDone v =>
      have hpast : pc₁.past = true → 0 < ((g.put (.done v) sh).comp (.done v)).completed :=
        fun hp => hpos _ nofun (hc.past nofun hstep hknows hp)
      cases hfin : finished pc₁ with
      | true =>
          refine hpast (past_of_finished ?_ hfin)
          refine Completion.step_waiting hstep hj.shaped.2 ?_
          rintro rfl
          cases hj.shaped.1
      | false => exact hpast
  | done v direct =>
      by_cases hinc : cpc = .completeInc
      · subst hinc
        cases hstep
        simp [Knows, finished, before, Shared.put, Shared.view, Site.comp]
      · have hbefore := step_before hstep hj.shaped.2 hinc
        simp only [Knows] at hknows
        cases hfin : finished pc₁ with
        | true =>
            have hzero : before pc₁ = 0 := by
              cases pc₁ <;> first | rfl | cases hfin
            rw [if_neg (by omega)] at hknows
            cases direct with
            | true => exact hpos _ nofun hknows
            | false => trivial
        | false =>
            show Knows (g.put (.done v) sh) (.sync (.done v direct) pc₁)
            simp only [Knows]
            rw [hbefore]
            split at hknows
            · rename_i hone
              rw [if_pos hone]
              exact ⟨hpos _ nofun hknows.1, hknows.2⟩
            · rename_i hone
              rw [if_neg hone]
              exact hpos _ nofun hknows
  | started v | stopDone | waitStop => cases finished pc₁ <;> trivial

theorem Part.own (h : Part j g pc) (hc : Creates g) (hj : Around j g pc)
    (hrunner : ∀ cr, places cr pc .post = 1 → (g.comp (.done cr)).completed = 0)
    (hcreator : ∀ cr, places cr pc .creator = 1 → g.finished cr = false)
    (hs : step j g pc a = some (g', pc')) : Part j g' pc' := by
  refine ⟨fun hun cr hp => h.unstarted_own hj hs hun hp, ?_⟩
  have hknows := h.knows
  cases pc with
  | sync s cpc => exact h.knows_sync hc hj hs
  | kernelThread v direct =>
      obtain ⟨t, id, -, -, rfl, rfl⟩ := step_kernelThread hs
      exact Function.update_self ..
  | getId v direct t =>
      have hborn := hj.ids.born_of_parent ((hj.ids.parent t v).mpr hknows)
      have hpid := hj.ids.nonneg t hborn
      cases hs
      rw [if_neg (Int.not_lt.mpr hpid)]
      exact ⟨⟨t, hknows, rfl⟩, nofun⟩
  | findTask v direct pid =>
      obtain ⟨⟨t, hmade, hpid⟩, hstarted⟩ := hknows
      have hfin : g.finished v = false := by
        cases hf : g.finished v with
        | false => rfl
        | true =>
            have hzero := hrunner v (if_pos rfl)
            have hdone := hc.finished v hf
            omega
      cases hs
      rw [hc.find hj.sleep hj.ids hmade hpid hstarted hfin]
      exact ⟨hstarted, t, hmade, rfl⟩
  | storeResult v direct r =>
      obtain ⟨hstarted, t, hmade, rfl⟩ := hknows
      cases hs
      exact ⟨hstarted, t, hmade, Function.update_self ..⟩
  | queueWork v =>
      cases hs
      exact nofun
  | readResult v =>
      cases hs
      exact ⟨hknows, (hc.done v hknows).2⟩
  | returned v r =>
      obtain ⟨hdone, t, hmade, rfl⟩ := hknows
      simp only [step] at hs
      split at hs
      · -- `kthread_bind` finds the task asleep
        have hparked := (hc.parked hj.sleep hj.ids hmade (hc.done v hdone).1
          (hcreator v (if_pos rfl))).2
        cases hs
        rw [kthreadBindBug, hparked.1]
        exact ⟨hdone, t, hmade, rfl⟩
      · cases hs
        trivial
      · cases hs
        trivial
  | _ => cases step_next hs <;> trivial

end

section
variable {c : Conf Shared Pc}

theorem creates_part (h : machine.Reachable c) :
    Creates c.shared ∧ ∀ (i : Nat) (pc : Pc), c.pool[i]? = some pc → Part i c.shared pc := by
  refine Prog.rely (P := prog) Creates Part ?_ ?_ h
  · rintro c ⟨⟨hcomp, -, -, -, -, hall⟩, hstart⟩
    have hzero : ∀ x, ¬ 0 < (c.shared.comp x).completed := by
      intro x hpos
      rw [hcomp x] at hpos
      cases hpos
    refine ⟨⟨?_, fun _ hpos => absurd hpos (hzero _), fun _ hpos => absurd hpos (hzero _),
      ?_, ?_, ?_⟩, ?_⟩
    · intro x _ hdone
      rw [hcomp x] at hdone
      exact absurd rfl hdone
    · intro t hk
      rw [(hall t).2.2.2.1] at hk
      cases hk
    · intro t cr hk
      rw [(hall t).2.2.2.1] at hk
      cases hk
    · intro cr hf
      rw [(hall cr).2.2.2.2.2.2] at hf
      cases hf
    · intro i pc hp
      obtain rfl := hstart pc (List.mem_of_getElem? hp)
      exact ⟨fun _ cr _ => Nat.eq_zero_of_not_pos (hzero _), trivial⟩
  · intro c i a pc g pc' hreach _ hp hs hc hpart
    have hnew : ∀ cr direct, pc = .kernelThread cr direct → c.shared.made cr = none := by
      rintro cr direct rfl
      exact made_none hreach hp
    obtain ⟨hsleep, hrest⟩ := sleep_rest hreach
    have hj : Around i c.shared pc := ⟨ids hreach, home hreach hp, hsleep, hrest i pc hp,
      shaped hreach hp, made_next hreach, hnew⟩
    refine ⟨hc.step hpart hj (fun cr => runner_unfinished hreach hp) hs,
      hpart.own hc hj (fun cr => runner_unfinished hreach hp)
        (fun cr => creator_unfinished hreach hp) hs, ?_⟩
    intro k q hk hq hpk
    refine hpk.other hk hc hj hs ?_
    intro cr hpost
    rcases step_result hs with hsame | ⟨v, direct, r, rfl, hstore⟩
    · rw [hsame]
    · have hne : cr ≠ v := by
        rintro rfl
        exact hk (runner_unique hreach hq hp hpost (if_pos rfl))
      rw [hstore, Function.update_of_ne hne]

/-- What `kthread_create` promises when it returns `r`: the task of the thread that it made,
which sleeps and has not entered its function. -/
def Returns (g : Shared) (cr : Nat) (r : Result) : Prop :=
  ∃ t, g.made cr = some t ∧ r = .task t ∧ (g.tasks t).state = .interruptible ∧
    g.entered t = false

theorem returned_own {i cr : Nat} {r : Result} (h : machine.Reachable c)
    (hp : c.pool[i]? = some (.returned cr r)) : Returns c.shared cr r := by
  obtain ⟨hc, hpart⟩ := creates_part h
  obtain ⟨hsleep, -⟩ := sleep_rest h
  obtain ⟨hdone, t, hmade, rfl⟩ := (hpart i _ hp).knows
  have hfin : c.shared.finished cr = false := creator_unfinished h hp (if_pos rfl)
  obtain ⟨hwoken, hparked⟩ := hc.parked hsleep (ids h) hmade (hc.done cr hdone).1 hfin
  refine ⟨t, hmade, rfl, hparked.1, ?_⟩
  cases he : c.shared.entered t with
  | false => rfl
  | true =>
      rw [hsleep.entered t he] at hwoken
      cases hwoken

/-- **`kthread_create` returns its own thread.**  Whatever the interleaving of the calls of
`kthread_create`, through the helper queue or not, of the starts, sleeps and ends of the
threads, of wake-ups and of `kthread_stop`, and whatever ids are reused: a call returns the
task of the thread that it made, in state TASK_INTERRUPTIBLE and with its function not entered;
no function is entered before the thread was woken or stopped; and the `BUG_ON` of
`kthread_bind` is not reached. -/
theorem kthread_create_returns_own_thread (c : Conf Shared Pc) (h : machine.Reachable c) :
    (∀ (i : Nat) cr r, c.pool[i]? = some (.returned cr r) → Returns c.shared cr r) ∧
      (∀ t, c.shared.entered t = true → c.shared.woken t = true) ∧
      ∀ (i : Nat) cr, c.pool[i]? ≠ some (.bug cr) :=
  ⟨fun _ _ _ hp => returned_own h hp, (sleep_rest h).1.entered,
    fun i _ hp => ((creates_part h).2 i _ hp).knows⟩

/-- Thread 0 makes thread 1 and wakes it; with the helper queue set up, thread 0 has thread 2
made, and thread 1 is the worker that makes it. -/
def twoCalls : List (Nat × Choice) :=
  List.flatten
    [[(0, .adopt 1), (0, .go), (0, .go), (0, .kthreadCreate), (0, .go), (0, .spawn 1 7)],
      List.replicate 7 (0, .go), List.replicate 12 (1, .go), List.replicate 13 (0, .go),
      [(0, .kthreadBind), (0, .go), (0, .wakeUpProcess 1), (0, .go), (0, .go), (0, .helperInit),
        (1, .go), (1, .go), (0, .kthreadCreate), (0, .go), (0, .go), (1, .runWork),
        (1, .spawn 2 9), (1, .go)],
      List.replicate 8 (2, .go), List.replicate 10 (1, .go), List.replicate 5 (0, .go)]

/-- Such a run. -/
theorem kthread_create_returns_own_thread_twice :
    ∃ c, machine.Reachable c ∧ c.pool = [.returned 1 (.task 2), .run, .switch 1] ∧
      c.shared.entered 1 = true ∧
      (∀ (i : Nat) cr r, c.pool[i]? = some (.returned cr r) → Returns c.shared cr r) ∧
      (∀ t, c.shared.entered t = true → c.shared.woken t = true) ∧
      ∀ (i : Nat) cr, c.pool[i]? ≠ some (.bug cr) := by
  let g : Shared :=
    { tasks := fun _ => ⟨.running, 0⟩, comp := fun _ => initCompletion, pid := fun _ => 0,
      live := [], pidTaskList := [], helper := false, worklist := [], result := fun _ => .null,
      stopLock := false, stopK := none, stopErr := 0, next := 0, born := fun _ => false,
      parent := fun _ => none, made := fun _ => none, known := fun _ => false,
      woken := fun _ => false, entered := fun _ => false, finished := fun _ => false }
  have hinit : machine.Reachable ⟨g, [.unborn, .unborn, .unborn]⟩ :=
    .init ⟨⟨fun _ => rfl, rfl, rfl, rfl, rfl, fun _ => ⟨rfl, rfl, rfl, rfl, rfl, rfl, rfl⟩⟩,
      by simp [prog]⟩
  have hrun : (machine.run ⟨g, [.unborn, .unborn, .unborn]⟩ twoCalls).map
      (fun c => (c.pool, c.shared.entered 1)) =
      some ([.returned 1 (.task 2), .run, .switch 1], true) := by
    decide
  obtain ⟨c, hc, hat⟩ := Option.map_eq_some_iff.mp hrun
  obtain ⟨hpool, hentered⟩ := Prod.mk.inj hat
  have hreach := hinit.run _ hc
  exact ⟨c, hreach, hpool, hentered, kthread_create_returns_own_thread c hreach⟩

end

end LinuxDrivers.Kernel.Kthread
