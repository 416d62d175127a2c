/-
# `LinuxDrivers.Input.EvdevSlots` — the slots of the input event devices

`evdev.c` is a handler of Linux' input core.  The core tells it about each input device:

    evdev_connect       takes the first free of 16 slots and opens the device
    evdev_disconnect    wipes the slot, or closes the device if the slot `isopen`

Nothing ever sets `isopen`.

**Proved here.**

    the table is right along every history in which only connected handles are
    disconnected                                        (`evdev_slots_right`)
    the users of the input devices are counted right exactly as long as nothing is
    disconnected and no opening is interrupted          (`evdev_users_paired_iff`)
-/
import LinuxDrivers.Basic
import LinuxDrivers.Lib.History
import Mathlib.Data.Fintype.Card
import Mathlib.Data.List.FinRange
import Mathlib.Logic.Function.Basic

namespace LinuxDrivers.Input.EvdevSlots

open LinuxDrivers.Lib

variable {D H : Type}

/-! ## The code -/

/-- `EVDEV_DEVICES` -/
def evdevDevices : Nat := 16

/-- An index of `evdev_devices`.  It stands for the `struct evdev` and for the handle in
it too. -/
abbrev Slot := Fin evdevDevices

/-- `struct input_handle`; `D` and `H` are the addresses of devices and handlers. -/
structure InputHandle (D H : Type) where
  /-- `private` -/
  priv : Option Slot
  /-- `open` -/
  opens : Int
  dev : Option D
  handler : Option H
  deriving DecidableEq

structure Evdev (D H : Type) where
  /-- `exists` -/
  present : Int
  isopen : Int
  devn : Slot
  name : String
  handle : InputHandle D H
  deriving DecidableEq

/-- What `memset` leaves. -/
def Evdev.zero : Evdev D H := ⟨0, 0, (0 : Fin 16), "", ⟨none, 0, none, none⟩⟩

/-- What is used of a `struct input_dev`. -/
structure InputDev where
  users : Word
  grab : Option Slot
  deriving DecidableEq

/-- What an opening meets: the result of `mutex_lock_interruptible`, and that of the
device's `open` if it has one. -/
structure Opening where
  lock : Int
  «open» : Option Int

/-- The result, the handle and the device. -/
def inputOpenDevice (handle : InputHandle D H) (dev : InputDev) (o : Opening) :
    Int × InputHandle D H × InputDev :=
  if o.lock ≠ 0 then (o.lock, handle, dev)
  else
    let handle := { handle with opens := handle.opens + 1 }
    let err := if dev.users = 0 then o.open.getD 0 else 0
    let dev := { dev with users := dev.users + 1 }
    let handle := if err ≠ 0 then { handle with opens := handle.opens - 1 } else handle
    (err, handle, dev)

def inputReleaseDevice (n : Slot) (dev : InputDev) : InputDev :=
  if dev.grab = some n then { dev with grab := none } else dev

def inputCloseDevice (n : Slot) (handle : InputHandle D H) (dev : InputDev) :
    InputHandle D H × InputDev :=
  let dev := inputReleaseDevice n dev
  ({ handle with opens := handle.opens - 1 }, { dev with users := dev.users - 1 })

/-- `evdev_devices` and the input devices. -/
structure Memory (D H : Type) where
  table : Slot → Evdev D H
  input : D → InputDev

/-- The loop of `evdev_connect`. -/
def freeSlot (table : Slot → Evdev D H) : Option Slot :=
  (List.finRange evdevDevices).find? (fun devn => (table devn).present == 0)

/-- The slot after `memset` and the assignments of `evdev_connect`. -/
def Evdev.connected (devn : Slot) (handler : H) (dev : D) : Evdev D H where
  present := 1
  isopen := 0
  devn := devn
  name := "event" ++ toString devn.val
  handle := { priv := some devn, opens := 0, dev := some dev, handler := some handler }

section
variable [DecidableEq D]

/-- The slot whose handle is returned, or `none` for `NULL`. -/
def evdevConnect (m : Memory D H) (handler : H) (dev : D) (o : Opening) :
    Option Slot × Memory D H :=
  match freeSlot m.table with
  | none => (none, m)
  | some devn =>
      let evdev := Evdev.connected devn handler dev
      let (_, handle, input) := inputOpenDevice evdev.handle (m.input dev) o
      (some devn, ⟨Function.update m.table devn { evdev with handle := handle },
        Function.update m.input dev input⟩)

/-- `none` if a null pointer is followed. -/
def evdevDisconnect (m : Memory D H) (handle : Slot) : Option (Memory D H) := do
  let evdev ← (m.table handle).handle.priv
  let table := Function.update m.table evdev { m.table evdev with present := 0 }
  if (table evdev).isopen ≠ 0 then
    let dev ← (table handle).handle.dev
    let (closed, input) := inputCloseDevice handle (table handle).handle (m.input dev)
    some ⟨Function.update table handle { table handle with handle := closed },
      Function.update m.input dev input⟩
  else
    some ⟨Function.update table (table evdev).devn .zero, m.input⟩

/-! ## Histories of calls -/

/-- The calls of the input core. -/
inductive Call (D H : Type) where
  | connect (handler : H) (dev : D) (o : Opening)
  | disconnect (handle : Slot)

/-- A handle that was returned and not yet disconnected, with what it was made from. -/
structure Connection (D H : Type) where
  slot : Slot
  dev : D
  handler : H
  deriving DecidableEq

structure State (D H : Type) where
  mem : Memory D H
  connected : List (Connection D H)

/-- No slot is used yet, and the devices may have other users. -/
def init (input : D → InputDev) : State D H := ⟨⟨fun _ => .zero, input⟩, []⟩

def step (s : State D H) : Call D H → State D H
  | .connect handler dev o =>
      match evdevConnect s.mem handler dev o with
      | (none, m) => ⟨m, s.connected⟩
      | (some n, m) => ⟨m, ⟨n, dev, handler⟩ :: s.connected⟩
  | .disconnect n =>
      match evdevDisconnect s.mem n with
      | none => s
      | some m => ⟨m, s.connected.filter (·.slot ≠ n)⟩

/-- Only connected handles are disconnected. -/
def legal (s : State D H) : Call D H → Bool
  | .connect _ _ _ => true
  | .disconnect n => s.connected.any (·.slot = n)

/-! ## What is asked of the table -/

/-- The slot holds what was given when the handle was connected. -/
structure Connection.Kept (c : Connection D H) (e : Evdev D H) : Prop where
  dev : e.handle.dev = some c.dev
  handler : e.handle.handler = some c.handler
  priv : e.handle.priv = some c.slot

/-- The connected handles have slots of their own and keep what they were given. -/
structure Intact (s : State D H) : Prop where
  distinct : (s.connected.map (·.slot)).Nodup
  kept : ∀ c ∈ s.connected, c.Kept (s.mem.table c.slot)

/-- The call returns what it should, touches no other slot, and leaves an intact table. -/
def Right (s : State D H) (call : Call D H) : Prop :=
  Intact (step s call) ∧
    match call with
    | .connect handler dev o =>
        (evdevConnect s.mem handler dev o).1 = none ↔ s.connected.length = 16
    | .disconnect n =>
        ∃ m, evdevDisconnect s.mem n = some m ∧ ∀ k, k ≠ n → m.table k = s.mem.table k

/-! ## What is asked of the user counts -/

/-- The handles that are connected to a device. -/
def State.handles (s : State D H) (d : D) : Nat := s.connected.countP (·.dev = d)

/-- After the call, the users each device has got since the beginning are its handles. -/
def Paired (input : D → InputDev) (s : State D H) (call : Call D H) : Prop :=
  ∀ d, ((step s call).mem.input d).users = (input d).users + .ofNat 32 ((step s call).handles d)

/-- The condition: nothing is disconnected, and the mutex of a device that gets a slot is
taken. -/
def opensOnly (s : State D H) : Call D H → Bool
  | .connect _ _ o => o.lock = 0 || (freeSlot s.mem.table).isNone
  | .disconnect _ => false

end

/-! ## What a call does -/

section
variable {m : Memory D H} {n : Slot}

theorem freeSlot_some {table : Slot → Evdev D H} (h : freeSlot table = some n) :
    (table n).present = 0 := by
  simpa using List.find?_some h

theorem freeSlot_none {table : Slot → Evdev D H} :
    freeSlot table = none ↔ ∀ n, (table n).present ≠ 0 := by
  simp [freeSlot]

/-- An opening changes the open count of a handle, and counts a user unless it was
interrupted. -/
theorem inputOpenDevice_eq (handle : InputHandle D H) (dev : InputDev) (o : Opening) :
    ∃ err opens, inputOpenDevice handle dev o = (err, { handle with opens := opens },
      if o.lock = 0 then { dev with users := dev.users + 1 } else dev) := by
  rw [inputOpenDevice]
  by_cases hlock : o.lock = 0
  · simp only [hlock, ne_eq, not_true_eq_false, if_false, if_true]
    generalize (if dev.users = 0 then o.open.getD 0 else 0) = err
    by_cases herr : err = 0
    · exact ⟨err, handle.opens + 1, by simp only [herr, not_true_eq_false, if_false]⟩
    · exact ⟨err, handle.opens + 1 - 1, by simp only [herr, not_false_eq_true, if_true]⟩
  · simp only [ne_eq, hlock, not_false_eq_true, if_true, if_false]
    exact ⟨_, _, rfl⟩

variable [DecidableEq D]

theorem evdevConnect_none (handler : H) (dev : D) (o : Opening) (h : freeSlot m.table = none) :
    evdevConnect m handler dev o = (none, m) := by
  simp only [evdevConnect, h]

/-- A device that gets a slot gets it for the values of the call. -/
theorem evdevConnect_some (handler : H) (dev : D) (o : Opening)
    (h : freeSlot m.table = some n) :
    ∃ opens, evdevConnect m handler dev o = (some n,
      { table := Function.update m.table n { Evdev.connected n handler dev with
          handle := { (Evdev.connected n handler dev).handle with opens := opens } }
        input := Function.update m.input dev (if o.lock = 0 then
          { m.input dev with users := (m.input dev).users + 1 } else m.input dev) }) := by
  obtain ⟨err, opens, hopen⟩ :=
    inputOpenDevice_eq (Evdev.connected n handler dev).handle (m.input dev) o
  refine ⟨opens, ?_⟩
  simp only [evdevConnect, h, hopen]

/-- Disconnecting a handle that is not open wipes its slot. -/
theorem evdevDisconnect_eq (hpriv : (m.table n).handle.priv = some n)
    (hopen : (m.table n).isopen = 0) (hdevn : (m.table n).devn = n) :
    evdevDisconnect m n = some { m with table := Function.update m.table n .zero } := by
  simp only [evdevDisconnect, hpriv, Option.bind_eq_bind, Option.bind_some,
    Function.update_self, hopen, hdevn, ne_eq, not_true_eq_false, if_false,
    Function.update_idem]

end

/-! ## The invariant of the table -/

section
variable {s : State D H} {n : Slot}

/-- Beside what is asked: the slots in use are those of the connected handles, none is
open, and each knows its number. -/
structure Table (s : State D H) : Prop extends Intact s where
  present : ∀ n, (s.mem.table n).present ≠ 0 ↔ n ∈ s.connected.map (·.slot)
  closed : ∀ n, (s.mem.table n).isopen = 0
  devn : ∀ c ∈ s.connected, (s.mem.table c.slot).devn = c.slot

theorem Table.init (input : D → InputDev) : Table (init input : State D H) where
  distinct := .nil
  kept := nofun
  present _ := by simp [EvdevSlots.init, Evdev.zero]
  closed _ := rfl
  devn := nofun

/-- No slot is free if and only if all sixteen are connected. -/
theorem Table.full_iff (hs : Table s) :
    freeSlot s.mem.table = none ↔ s.connected.length = 16 := by
  have hcard : (s.connected.map (·.slot)).toFinset.card = s.connected.length := by
    rw [List.toFinset_card_of_nodup hs.distinct, List.length_map]
  rw [freeSlot_none, ← hcard]
  show _ ↔ _ = Fintype.card Slot
  rw [Finset.card_eq_iff_eq_univ, Finset.eq_univ_iff_forall]
  simp only [hs.present, List.mem_toFinset]

end

section
variable [DecidableEq D] {s : State D H} {n : Slot}

theorem Table.connect (hs : Table s) (handler : H) (dev : D) (o : Opening) :
    Table (step s (.connect handler dev o)) := by
  cases hfree : freeSlot s.mem.table with
  | none =>
      simp only [step, evdevConnect_none handler dev o hfree]
      exact hs
  | some n =>
      obtain ⟨opens, hconnect⟩ := evdevConnect_some handler dev o hfree
      simp only [step, hconnect]
      have hnew : n ∉ s.connected.map (·.slot) := by
        rw [← hs.present, freeSlot_some hfree]
        exact fun h => h rfl
      have hother : ∀ c ∈ s.connected, c.slot ≠ n := by
        rintro c hc rfl
        exact hnew (List.mem_map_of_mem hc)
      refine ⟨⟨?_, ?_⟩, ?_, ?_, ?_⟩
      · exact List.nodup_cons.mpr ⟨hnew, hs.distinct⟩
      · intro c hc
        rcases List.mem_cons.mp hc with rfl | hc
        · simp only [Function.update_self]
          exact ⟨rfl, rfl, rfl⟩
        · simp only [Function.update_of_ne (hother c hc)]
          exact hs.kept c hc
      · intro k
        rcases eq_or_ne k n with rfl | hk
        · simp [Evdev.connected]
        · simp only [Function.update_of_ne hk, List.map_cons, List.mem_cons, hk, false_or]
          exact hs.present k
      · intro k
        rcases eq_or_ne k n with rfl | hk
        · simp only [Function.update_self]
          rfl
        · simp only [Function.update_of_ne hk]
          exact hs.closed k
      · intro c hc
        rcases List.mem_cons.mp hc with rfl | hc
        · simp only [Function.update_self]
          rfl
        · simp only [Function.update_of_ne (hother c hc)]
          exact hs.devn c hc

theorem Table.disconnect_eq (hs : Table s) (hn : legal s (.disconnect n) = true) :
    evdevDisconnect s.mem n =
      some { s.mem with table := Function.update s.mem.table n .zero } := by
  obtain ⟨c, hc, rfl⟩ : ∃ c ∈ s.connected, c.slot = n := by simpa [legal] using hn
  exact evdevDisconnect_eq (hs.kept c hc).priv (hs.closed _) (hs.devn c hc)

theorem Table.disconnect (hs : Table s) (hn : legal s (.disconnect n) = true) :
    Table (step s (.disconnect n)) := by
  simp only [step, hs.disconnect_eq hn]
  have hstill : ∀ c ∈ s.connected.filter (·.slot ≠ n), c ∈ s.connected ∧ c.slot ≠ n := by
    intro c hc
    simpa using hc
  refine ⟨⟨hs.distinct.sublist (List.filter_sublist.map _), ?_⟩, ?_, ?_, ?_⟩
  · intro c hc
    simp only [Function.update_of_ne (hstill c hc).2]
    exact hs.kept c (hstill c hc).1
  · intro k
    rcases eq_or_ne k n with rfl | hk
    · simp [Evdev.zero]
    · simp only [Function.update_of_ne hk, hs.present, List.mem_map, List.mem_filter]
      constructor
      · rintro ⟨c, hc, rfl⟩
        exact ⟨c, ⟨hc, by simpa using hk⟩, rfl⟩
      · rintro ⟨c, hc, rfl⟩
        exact ⟨c, hc.1, rfl⟩
  · intro k
    rcases eq_or_ne k n with rfl | hk
    · simp only [Function.update_self]
      rfl
    · simp only [Function.update_of_ne hk]
      exact hs.closed k
  · intro c hc
    simp only [Function.update_of_ne (hstill c hc).2]
    exact hs.devn c (hstill c hc).1

theorem Table.step (s : State D H) (call : Call D H) (hs : Table s) (hlegal : legal s call = true) :
    Table (step s call) := by
  cases call with
  | connect handler dev o => exact hs.connect handler dev o
  | disconnect n => exact hs.disconnect hlegal

theorem Table.right (s : State D H) (call : Call D H) (hs : Table s)
    (hlegal : legal s call = true) : Right s call := by
  refine ⟨(hs.step s call hlegal).toIntact, ?_⟩
  cases call with
  | connect handler dev o =>
      rw [← hs.full_iff]
      cases hfree : freeSlot s.mem.table with
      | none => simp [evdevConnect_none handler dev o hfree]
      | some n =>
          obtain ⟨opens, hconnect⟩ := evdevConnect_some handler dev o hfree
          simp [hconnect]
  | disconnect n =>
      refine ⟨_, hs.disconnect_eq hlegal, ?_⟩
      intro k hk
      exact Function.update_of_ne hk _ _

/-- **The slots.**  Along every history in which only connected handles are disconnected:
the connected handles have different slots and keep what they were given, `evdev_connect`
returns `NULL` exactly if sixteen handles are connected, and `evdev_disconnect` touches no
other slot. -/
theorem evdev_slots_right (input : D → InputDev) (calls : List (Call D H))
    (hlegal : Along step (legal · ·) (init input) calls) :
    Along step Right (init input) calls :=
  Along.of_invariant Table.right Table.step calls _ (.init input) hlegal

end

/-- A slot is used again after a disconnect. -/
theorem evdev_slots_right_reuse :
    Along step Right (init (fun _ => ⟨0, none⟩) : State Nat Unit)
      [.connect () 0 ⟨0, none⟩, .connect () 1 ⟨0, none⟩, .disconnect (0 : Fin 16),
        .connect () 2 ⟨0, none⟩] :=
  evdev_slots_right _ _ (by decide)

/-! ## The user counts -/

section
variable [DecidableEq D] {s : State D H} {n : Slot} {input : D → InputDev}

/-- The user counts are right. -/
def Counted (input : D → InputDev) (s : State D H) : Prop :=
  ∀ d, (s.mem.input d).users = (input d).users + .ofNat 32 (s.handles d)

theorem Counted.init (input : D → InputDev) : Counted input (init input : State D H) := by
  intro d
  show (input d).users = (input d).users + 0
  rw [add_zero]

theorem handles_cons (s : State D H) (c : Connection D H) (m : Memory D H) (d : D) :
    State.handles ⟨m, c :: s.connected⟩ d = s.handles d + if c.dev = d then 1 else 0 := by
  simp [State.handles, List.countP_cons]

/-- A device that gets a slot is counted unless its opening is interrupted. -/
theorem Counted.connect_iff (hs : Counted input s) (handler : H) (dev : D) (o : Opening) :
    Counted input (step s (.connect handler dev o)) ↔
      opensOnly s (.connect handler dev o) = true := by
  cases hfree : freeSlot s.mem.table with
  | none =>
      simp only [step, evdevConnect_none handler dev o hfree, opensOnly, hfree, Option.isNone_none,
        Bool.or_true, iff_true]
      exact hs
  | some n =>
      obtain ⟨opens, hconnect⟩ := evdevConnect_some handler dev o hfree
      simp only [step, hconnect, opensOnly, hfree, Option.isNone_some, Bool.or_false,
        decide_eq_true_eq]
      constructor
      · intro hcounted
        by_contra hlock
        -- the handle is there, and its device has no user more than before
        have hdev := hcounted dev
        simp only [Function.update_self, if_neg hlock, handles_cons, if_true, hs dev] at hdev
        have hsame := congrArg BitVec.toNat (add_left_cancel hdev)
        simp only [BitVec.toNat_ofNat] at hsame
        omega
      · intro hlock d
        rcases eq_or_ne d dev with rfl | hd
        · simp only [Function.update_self, if_pos hlock, handles_cons, if_true, hs d]
          rw [BitVec.ofNat_add, add_assoc]
          rfl
        · simp only [Function.update_of_ne hd, handles_cons, if_neg hd.symm]
          exact hs d

theorem handles_le (hs : Table s) (d : D) : s.handles d ≤ 16 := by
  have hlength : (s.connected.map (·.slot)).length ≤ Fintype.card Slot := hs.distinct.length_le_card
  rw [List.length_map] at hlength
  exact List.countP_le_length.trans hlength

/-- A disconnected handle stays counted. -/
theorem Counted.not_disconnect (hs : Counted input s) (ht : Table s)
    (hn : legal s (.disconnect n) = true) : ¬ Counted input (step s (.disconnect n)) := by
  intro hcounted
  obtain ⟨c, hc, rfl⟩ : ∃ c ∈ s.connected, c.slot = n := by simpa [legal] using hn
  have hdev := hcounted c.dev
  simp only [step, ht.disconnect_eq hn, hs c.dev] at hdev
  have hless : (s.connected.filter (·.slot ≠ c.slot)).countP (·.dev = c.dev) <
      s.connected.countP (·.dev = c.dev) := by
    rw [List.countP_eq_countP_filter_add s.connected _ (·.slot ≠ c.slot)]
    refine Nat.lt_add_of_pos_right (List.countP_pos_iff.mpr ⟨c, ?_, by simp⟩)
    simpa using hc
  have hsame := congrArg BitVec.toNat (add_left_cancel hdev)
  have hle : s.connected.countP (·.dev = c.dev) ≤ 16 := handles_le ht c.dev
  simp only [State.handles, BitVec.toNat_ofNat] at hsame
  omega

/-- **Opened and closed in pairs.**  Along every history, after each call every input
device has as many users more as it has connected handles, if and only if no handle is
ever disconnected and no opening is interrupted. -/
theorem evdev_users_paired_iff (input : D → InputDev) (calls : List (Call D H))
    (hlegal : Along step (legal · ·) (init input) calls) :
    Along step (Paired input) (init input) calls ↔
      Along step (opensOnly · ·) (init input) calls := by
  refine Along.iff_of_invariant (I := fun s => Table s ∧ Counted input s) ?_ ?_ calls _
    ⟨.init input, .init input⟩ hlegal
  · rintro s call ⟨ht, hs⟩ hl
    cases call with
    | connect handler dev o => exact hs.connect_iff handler dev o
    | disconnect n => exact iff_of_false (hs.not_disconnect ht hl) Bool.false_ne_true
  · rintro s call ⟨ht, hs⟩ hl hok
    refine ⟨ht.step s call hl, ?_⟩
    cases call with
    | connect handler dev o => exact (hs.connect_iff handler dev o).mpr hok
    | disconnect n => cases hok

end

/-- Two devices, one of which has a user already. -/
theorem evdev_users_paired_connects :
    Along step (Paired (fun d => ⟨d, none⟩))
      (init (fun d => ⟨d, none⟩) : State Word Unit)
      [.connect () 0 ⟨0, none⟩, .connect () 1 ⟨0, some (-5)⟩] :=
  (evdev_users_paired_iff _ _ (by decide)).mpr (by decide)

/-- **A device stays open.**  Its handle is connected and disconnected. -/
theorem evdev_device_stays_open :
    Along step (legal · ·) (init (fun _ => ⟨0, none⟩) : State Nat Unit)
        [.connect () 0 ⟨0, none⟩, .disconnect (0 : Fin 16)] ∧
      ¬ Along step (Paired (fun _ => ⟨0, none⟩))
        (init (fun _ => ⟨0, none⟩) : State Nat Unit)
        [.connect () 0 ⟨0, none⟩, .disconnect (0 : Fin 16)] := by
  refine ⟨by decide, ?_⟩
  rintro ⟨-, hpaired, -⟩
  have hzero := hpaired 0
  revert hzero
  decide

end LinuxDrivers.Input.EvdevSlots
