/-
# `LinuxDrivers.Usb.PluginLock` — the start-up barrier of USB storage

The storage service takes `plugin_lock` once and leaves it locked, so that sessions wait
for the first device:

    start_storage_service        lock
    plugin_handler (index)       current_index = index; unlock
    Root::_create_session        lock; unlock; a session for current_index

`plugin_handler` runs for every device that is plugged in.  The first time it opens the
barrier.  After that the lock is free, or a session creation has it.

**Proved here.**

    every unlock is right as long as at most one device was plugged in, and not longer;
    sessions get the index of a device that was plugged in in any case
                                                        (`plugin_lock_iff`)
-/
import LinuxDrivers.Basic
import LinuxDrivers.Lib.Interleave
import Mathlib.Logic.Function.Basic

namespace LinuxDrivers.Usb.PluginLock

open LinuxDrivers.Lib

/-! ## The code -/

/-- Who has locked `plugin_lock`. -/
inductive Holder where
  /-- `start_storage_service` -/
  | barrier
  /-- a thread that creates a session -/
  | creator (thread : Nat)
  deriving DecidableEq, Repr

/-- An unlock: of what its caller may unlock, and of what there was. -/
structure Unlock where
  entitled : Holder
  found : Option Holder
  deriving DecidableEq, Repr

/-- The lock was held, and for the caller to open. -/
def Unlock.Right (u : Unlock) : Prop := u.found = some u.entitled

instance (u : Unlock) : Decidable u.Right := inferInstanceAs (Decidable (_ = _))

structure Shared where
  pluginLock : Option Holder
  currentIndex : Int
  /-- the `sdev` of `usb_devices` -/
  devices : Nat → Option Nat
  /-- the indices for which `plugin_handler` has run, that is, set `current_index` -/
  plugged : List Int
  /-- the indices of the sessions that were created -/
  sessions : List Int
  unlocks : List Unlock

/-- After `start_storage_service`. -/
def Shared.init : Shared where
  pluginLock := some .barrier
  currentIndex := -1
  devices := fun _ => none
  plugged := []
  sessions := []
  unlocks := []

def ddeKitLockUnlock (g : Shared) (entitled : Holder) : Shared :=
  { g with pluginLock := none, unlocks := ⟨entitled, g.pluginLock⟩ :: g.unlocks }

/-- Where a thread is. -/
inductive Point where
  | idle
  /-- in `dde_linux26_block_dev_add`: `capacity(i)` -/
  | capacity (i : Nat)
  /-- in `plugin_handler`: `current_index = usb_index` -/
  | setIndex (i : Nat)
  /-- in `plugin_handler`: `dde_kit_lock_unlock` -/
  | openBarrier
  /-- in `_create_session`: `dde_kit_lock_lock` -/
  | lock
  /-- in `_create_session`: `dde_kit_lock_unlock` -/
  | unlock
  /-- in `_create_session`: the session is made -/
  | create
  deriving DecidableEq, Repr

inductive Choice where
  | go
  /-- `dde_linux26_block_dev_add(sdev)` -/
  | devAdd (sdev : Nat)
  /-- `_create_session` with the quota and the buffer size of its arguments -/
  | createSession (ramQuota txBufSize : Nat)
  deriving DecidableEq, Repr

/-- The table of devices has `slots` entries (`MAX_USB_INDEX`). -/
structure Config where
  slots : Nat
  sessionSize : Nat

/-- Thread `t` does one step.  A full table refuses the device, and too small a quota the
session. -/
def step (cfg : Config) (t : Nat) (g : Shared) : Point → Choice → Option (Shared × Point)
  | .idle, .devAdd sdev =>
      match (List.range cfg.slots).find? (fun i => (g.devices i).isNone) with
      | none => some (g, .idle)
      | some i => some ({ g with devices := Function.update g.devices i (some sdev) }, .capacity i)
  | .idle, .createSession ramQuota txBufSize =>
      if ramQuota < cfg.sessionSize then some (g, .idle)
      else if txBufSize > ramQuota - cfg.sessionSize then some (g, .idle)
      else some (g, .lock)
  | .idle, .go => none
  | .capacity i, _ => some (g, .setIndex i)
  | .setIndex i, _ => some ({ g with currentIndex := i, plugged := i :: g.plugged }, .openBarrier)
  | .openBarrier, _ => some (ddeKitLockUnlock g .barrier, .idle)
  | .lock, _ =>
      if g.pluginLock = none then some ({ g with pluginLock := some (.creator t) }, .unlock)
      else none
  | .unlock, _ => some (ddeKitLockUnlock g (.creator t), .create)
  | .create, _ => some ({ g with sessions := g.currentIndex :: g.sessions }, .idle)

def prog (cfg : Config) : Prog Shared Point Choice where
  init g := g = .init
  start p := p = .idle
  step := step cfg

abbrev machine (cfg : Config) : Machine (Conf Shared Point) (Nat × Choice) := (prog cfg).machine

/-- How often `plugin_handler` has unlocked. -/
def Shared.opened (g : Shared) : Nat := g.unlocks.countP (·.entitled = .barrier)

/-! ## The steps -/

/-- What one step of thread `t` does. -/
inductive Does (t : Nat) (g : Shared) : Point → Shared → Point → Prop
  /-- a call begins, is refused, or goes on without the lock -/
  | quiet {p p' : Point} (devices : Nat → Option Nat)
      (hp' : p' = .idle ∨ p' = .lock ∨ ∃ i, p' = .capacity i ∨ p' = .setIndex i) :
      Does t g p { g with devices := devices } p'
  | setIndex (i : Nat) :
      Does t g (.setIndex i) { g with currentIndex := i, plugged := i :: g.plugged } .openBarrier
  | openBarrier : Does t g .openBarrier (ddeKitLockUnlock g .barrier) .idle
  | lock (hfree : g.pluginLock = none) :
      Does t g .lock { g with pluginLock := some (.creator t) } .unlock
  | unlock : Does t g .unlock (ddeKitLockUnlock g (.creator t)) .create
  | create : Does t g .create { g with sessions := g.currentIndex :: g.sessions } .idle

theorem step_does {cfg : Config} {t : Nat} {g g' : Shared} {p p' : Point} {a : Choice}
    (hs : step cfg t g p a = some (g', p')) : Does t g p g' p' := by
  cases p with
  | idle =>
      cases a with
      | go => cases hs
      | devAdd sdev =>
          simp only [step] at hs
          split at hs
          · cases hs
            exact .quiet g.devices (.inl rfl)
          · cases hs
            exact .quiet _ (.inr (.inr ⟨_, .inl rfl⟩))
      | createSession ramQuota txBufSize =>
          simp only [step] at hs
          split at hs
          · cases hs
            exact .quiet g.devices (.inl rfl)
          · split at hs
            · cases hs
              exact .quiet g.devices (.inl rfl)
            · cases hs
              exact .quiet g.devices (.inr (.inl rfl))
  | capacity i =>
      cases hs
      exact .quiet g.devices (.inr (.inr ⟨i, .inr rfl⟩))
  | setIndex i =>
      cases hs
      exact .setIndex i
  | openBarrier =>
      cases hs
      exact .openBarrier
  | lock =>
      simp only [step] at hs
      split at hs
      · rename_i hfree
        cases hs
        exact .lock hfree
      · cases hs
  | unlock =>
      cases hs
      exact .unlock
  | create =>
      cases hs
      exact .create

/-! ## The invariant -/

/-- The barrier stands until the first device, and the unlocks are right until the
second one. -/
structure Opened (g : Shared) : Prop where
  closed : g.opened = 0 ↔ g.pluginLock = some .barrier
  right : (∀ u ∈ g.unlocks, u.Right) ↔ g.opened ≤ 1
  plugged : 0 < g.opened → g.plugged ≠ []
  index : g.plugged ≠ [] → g.currentIndex ∈ g.plugged
  sessions : ∀ i ∈ g.sessions, i ∈ g.plugged

/-- What holds at a point of thread `t`. -/
def Here (t : Nat) (g : Shared) : Point → Prop
  | .openBarrier => g.plugged ≠ []
  | .unlock => 0 < g.opened ∧ (g.opened ≤ 1 → g.pluginLock = some (.creator t))
  | .create => 0 < g.opened
  | _ => True

section
variable {g : Shared} {t : Nat}

theorem opened_unlock (g : Shared) (h : Holder) :
    (ddeKitLockUnlock g h).opened = g.opened + if h = .barrier then 1 else 0 := by
  simp [Shared.opened, ddeKitLockUnlock, List.countP_cons]

theorem right_unlock (g : Shared) (h : Holder) :
    (∀ u ∈ (ddeKitLockUnlock g h).unlocks, u.Right) ↔
      g.pluginLock = some h ∧ ∀ u ∈ g.unlocks, u.Right := by
  simp [ddeKitLockUnlock, Unlock.Right]

/-- A device opens the barrier, or unlocks what is not its own. -/
theorem Opened.openBarrier (hg : Opened g) (hplugged : g.plugged ≠ []) :
    Opened (ddeKitLockUnlock g .barrier) where
  closed := by
    rw [opened_unlock]
    exact iff_of_false (by simp) nofun
  right := by
    rw [opened_unlock, right_unlock, ← hg.closed, hg.right]
    simp only [if_true]
    omega
  plugged _ := hplugged
  index := hg.index
  sessions := hg.sessions

theorem Opened.unlock (hg : Opened g) (ht : Here t g .unlock) :
    Opened (ddeKitLockUnlock g (.creator t)) where
  closed := by
    rw [opened_unlock]
    refine iff_of_false ?_ nofun
    have := ht.1
    simp only [reduceCtorEq, if_false]
    omega
  right := by
    rw [opened_unlock, right_unlock, hg.right]
    simp only [reduceCtorEq, if_false, Nat.add_zero]
    exact and_iff_right_of_imp ht.2
  plugged h := by
    rw [opened_unlock] at h
    exact hg.plugged h
  index := hg.index
  sessions := hg.sessions

variable {g' : Shared} {p p' : Point}

/-- A step keeps the shared part and brings its thread to a point where it belongs. -/
theorem Opened.does (hg : Opened g) (ht : Here t g p) (hs : Does t g p g' p') :
    Opened g' ∧ Here t g' p' := by
  cases hs with
  | quiet devices hp' =>
      refine ⟨⟨hg.closed, hg.right, hg.plugged, hg.index, hg.sessions⟩, ?_⟩
      rcases hp' with rfl | rfl | ⟨i, rfl | rfl⟩ <;> trivial
  | setIndex i =>
      refine ⟨⟨hg.closed, hg.right, fun _ => List.cons_ne_nil _ _, fun _ => List.mem_cons_self, ?_⟩,
        List.cons_ne_nil _ _⟩
      exact fun j hj => List.mem_cons_of_mem _ (hg.sessions j hj)
  | openBarrier => exact ⟨hg.openBarrier ht, trivial⟩
  | lock hfree =>
      -- a lock that is free is not the barrier any more
      have hopened : g.opened ≠ 0 := by
        rw [Ne, hg.closed, hfree]
        nofun
      exact ⟨⟨iff_of_false hopened nofun, hg.right, hg.plugged, hg.index, hg.sessions⟩,
        Nat.pos_of_ne_zero hopened, fun _ => rfl⟩
  | unlock =>
      refine ⟨hg.unlock ht, ?_⟩
      show 0 < (ddeKitLockUnlock g (.creator t)).opened
      rw [opened_unlock]
      exact ht.1
  | create =>
      refine ⟨⟨hg.closed, hg.right, hg.plugged, hg.index, ?_⟩, trivial⟩
      intro j hj
      rcases List.mem_cons.mp hj with rfl | hj
      · exact hg.index (hg.plugged ht)
      · exact hg.sessions j hj

/-- At a point of another thread, all that can change is the lock and how often it was
opened. -/
theorem Here.mono {j : Nat} {q : Point} (hq : Here j g q) (hplugged : g.plugged ≠ [] → g'.plugged ≠ [])
    (hopened : g.opened ≤ g'.opened)
    (hlock : 0 < g.opened → g'.opened ≤ 1 → g.pluginLock = some (.creator j) →
      g'.pluginLock = some (.creator j)) : Here j g' q := by
  cases q with
  | openBarrier => exact hplugged hq
  | unlock =>
      refine ⟨hq.1.trans_le hopened, ?_⟩
      intro hle
      exact hlock hq.1 hle (hq.2 (hopened.trans hle))
  | create => exact hq.trans_le hopened
  | _ => trivial

theorem Here.other (ht : Here t g p) (hs : Does t g p g' p') {j : Nat} (hj : j ≠ t) {q : Point}
    (hq : Here j g q) : Here j g' q := by
  cases hs with
  | quiet devices hp' => exact hq.mono id le_rfl (fun _ _ h => h)
  | setIndex i => exact hq.mono (fun _ => List.cons_ne_nil _ _) le_rfl (fun _ _ h => h)
  | openBarrier =>
      have hopened := opened_unlock g .barrier
      simp only [if_true] at hopened
      refine hq.mono id (by omega) ?_
      intro hpos hle
      omega
  | lock hfree =>
      refine hq.mono id le_rfl ?_
      intro _ _ hlock
      rw [hfree] at hlock
      cases hlock
  | unlock =>
      have hopened := opened_unlock g (.creator t)
      simp only [reduceCtorEq, if_false, Nat.add_zero] at hopened
      refine hq.mono id hopened.ge ?_
      intro _ hle hlock
      -- the lock belongs to the thread that unlocks it
      have hown := ht.2 (hopened ▸ hle)
      rw [hown, Option.some.injEq, Holder.creator.injEq] at hlock
      exact absurd hlock.symm hj
  | create => exact hq.mono id le_rfl (fun _ _ h => h)

end

/-- **The barrier.**  In every state that any number of devices and session creations can
reach: all unlocks were right if and only if at most one of them was made for a device
that was plugged in; and every session was created with the index of such a device. -/
theorem plugin_lock_iff {cfg : Config} {c : Conf Shared Point} (h : (machine cfg).Reachable c) :
    ((∀ u ∈ c.shared.unlocks, u.Right) ↔ c.shared.opened ≤ 1) ∧
      ∀ i ∈ c.shared.sessions, i ∈ c.shared.plugged := by
  have hall : Opened c.shared ∧ ∀ (t : Nat) (p : Point), c.pool[t]? = some p → Here t c.shared p := by
    refine Prog.rely (P := prog cfg) Opened Here ?_ ?_ h
    · rintro c ⟨hg, hpool⟩
      rw [show c.shared = .init from hg]
      refine ⟨⟨by simp [Shared.opened, Shared.init], by simp [Shared.opened, Shared.init], nofun,
        fun h => absurd rfl h, nofun⟩, ?_⟩
      intro t p hp
      rw [show p = .idle from hpool p (List.mem_of_getElem? hp)]
      trivial
    · intro c t a p g p' _ _ _ hs hg ht
      obtain ⟨hg', ht'⟩ := hg.does ht (step_does hs)
      exact ⟨hg', ht', fun j q hj _ hq => ht.other (step_does hs) hj hq⟩
  exact ⟨hall.1.right, hall.1.sessions⟩

/-- The table of the source. -/
def source : Config := ⟨4, 4096⟩

/-- A device, and two sessions one after the other. -/
theorem plugin_lock_one_device :
    ∃ c, (machine source).run ⟨.init, [.idle, .idle]⟩ [(1, .createSession 8192 4096),
        (0, .devAdd 7), (0, .go), (0, .go), (0, .go), (1, .go), (1, .go), (1, .go),
        (1, .createSession 8192 4096), (1, .go), (1, .go), (1, .go)] = some c ∧
      c.shared.opened = 1 ∧ c.shared.sessions = [0, 0] ∧ ∀ u ∈ c.shared.unlocks, u.Right := by
  have hinit : (machine source).Reachable ⟨.init, [.idle, .idle]⟩ :=
    .init ⟨rfl, by simp [prog]⟩
  have hrun : ((machine source).run ⟨.init, [.idle, .idle]⟩ [(1, .createSession 8192 4096),
      (0, .devAdd 7), (0, .go), (0, .go), (0, .go), (1, .go), (1, .go), (1, .go),
      (1, .createSession 8192 4096), (1, .go), (1, .go), (1, .go)]).map
        (fun c => (c.shared.opened, c.shared.sessions)) = some (1, [0, 0]) := by decide
  obtain ⟨c, hc, hvals⟩ := Option.map_eq_some_iff.mp hrun
  obtain ⟨hopened, hsessions⟩ := Prod.mk.inj hvals
  exact ⟨c, hc, hopened, hsessions, (plugin_lock_iff (hinit.run _ hc)).1.mpr hopened.le⟩

/-- **A free lock is unlocked.**  Two devices are plugged in. -/
theorem plugin_lock_two_devices :
    ∃ c, (machine source).run ⟨.init, [.idle]⟩ [(0, .devAdd 7), (0, .go), (0, .go), (0, .go),
        (0, .devAdd 8), (0, .go), (0, .go), (0, .go)] = some c ∧
      ⟨.barrier, none⟩ ∈ c.shared.unlocks ∧ ¬ ∀ u ∈ c.shared.unlocks, u.Right := by
  have hrun : ((machine source).run ⟨.init, [.idle]⟩ [(0, .devAdd 7), (0, .go), (0, .go), (0, .go),
      (0, .devAdd 8), (0, .go), (0, .go), (0, .go)]).map (fun c => c.shared.unlocks) =
        some [⟨.barrier, none⟩, ⟨.barrier, some .barrier⟩] := by decide
  obtain ⟨c, hc, hunlocks⟩ := Option.map_eq_some_iff.mp hrun
  refine ⟨c, hc, ?_⟩
  rw [hunlocks]
  decide

end LinuxDrivers.Usb.PluginLock
