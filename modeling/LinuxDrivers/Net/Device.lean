/-
# `LinuxDrivers.Net.Device` — references to network devices

`dev_get_by_index` and `dev_get_by_name` take a reference to the device they find, and
their caller has to drop it with `dev_put`.  Four functions of the driver's interface
call them:

    dde_linux26_net_tx              drops it, but not if there is no memory for the packet
    dde_linux26_net_get_mac_addr    never drops it
    dde_linux26_wifi_atheros_idx    never drops it, and uses the device unchecked
    dde_linux26_wifi_set_essid      never drops it, and uses the device unchecked

**Proved here.**

    the calls that return with the references as they were are those of the first two
    that find no device, and the transmissions with memory for the packet, unless they
    never return because the driver never takes it      (`net_device_references_iff`)
-/
import LinuxDrivers.Basic
import LinuxDrivers.Lib.History
import Mathlib.Logic.Function.Basic

namespace LinuxDrivers.Net.Device

open LinuxDrivers.Lib

/-! ## Devices -/

/-- What is used of a `struct net_device` beside its reference count.  Names end before
their zero. -/
structure NetDevice where
  ifindex : Word
  name : List Char
  devAddr : List (BitVec 8)

/-- The registered devices, by their addresses `D`, in the order of the hash chains. -/
structure Registry (D : Type) where
  devices : List D
  info : D → NetDevice

structure State (D : Type) where
  refcnt : D → Word
  /-- the packets that drivers took, the last one first -/
  sent : List (D × List (BitVec 8))

variable {D : Type}

/-- `IFNAMSIZ` -/
def ifnamsiz : Nat := 16

/-- `__dev_get_by_name` -/
def devByName (net : Registry D) (name : List Char) : Option D :=
  net.devices.find? (fun d => (net.info d).name.take ifnamsiz == name.take ifnamsiz)

/-- `__dev_get_by_index` -/
def devByIndex (net : Registry D) (ifindex : Word) : Option D :=
  net.devices.find? (fun d => (net.info d).ifindex == ifindex)

/-! ## Transmission -/

/-- The loop of `dde_linux26_net_tx`.  `answers` are the results of `hard_start_xmit`, each
at a time when the queue is not stopped; with them used up the loop goes on. -/
def xmit (s : State D) (dev : D) (packet : List (BitVec 8)) : List Int → Option (State D)
  | [] => none
  | answer :: answers =>
      if answer ≠ 0 then xmit s dev packet answers
      else some { s with sent := (dev, packet) :: s.sent }

/-- The loop is left with the first answer that takes the packet, and the references stay
as they are. -/
theorem xmit_cases (s : State D) (dev : D) (packet : List (BitVec 8)) :
    ∀ answers : List Int, (0 ∉ answers ∧ xmit s dev packet answers = none) ∨
      ∃ s', xmit s dev packet answers = some s' ∧ s'.refcnt = s.refcnt := by
  intro answers
  induction answers with
  | nil => exact .inl ⟨List.not_mem_nil, rfl⟩
  | cons answer answers ih =>
      rw [xmit]
      by_cases ha : answer = 0
      · rw [if_neg (not_not_intro ha)]
        exact .inr ⟨_, rfl, rfl⟩
      · rw [if_pos ha, List.mem_cons, not_or]
        exact ih.imp_left (fun h => ⟨⟨Ne.symm ha, h.1⟩, h.2⟩)

section
variable [DecidableEq D]

/-! ## References -/

def devHold (s : State D) (dev : D) : State D :=
  { s with refcnt := Function.update s.refcnt dev (s.refcnt dev + 1) }

def devPut (s : State D) (dev : D) : State D :=
  { s with refcnt := Function.update s.refcnt dev (s.refcnt dev - 1) }

variable (net : Registry D)

def devGetByName (s : State D) (name : List Char) : Option D × State D :=
  match devByName net name with
  | none => (none, s)
  | some dev => (some dev, devHold s dev)

def devGetByIndex (s : State D) (ifindex : Word) : Option D × State D :=
  match devByIndex net ifindex with
  | none => (none, s)
  | some dev => (some dev, devHold s dev)

/-! ## The interface -/

/-- The functions return `none` where they do not return: in the loop, or at a null
pointer that is followed.  `memory` is the outcome of `alloc_skb`. -/
def ddeLinux26NetTx (s : State D) (ifIndex : Word) (packet : List (BitVec 8)) (memory : Bool)
    (answers : List Int) : Option (Int × State D) :=
  match devGetByIndex net s ifIndex with
  | (none, s) => some (-1, s)
  | (some dev, s) =>
      if memory then (xmit s dev packet answers).map (fun s => (0, devPut s dev))
      else some (-1, s)

/-- The address is written only if there is a device. -/
def ddeLinux26NetGetMacAddr (s : State D) (ifIndex : Word) :
    (Int × Option (List (BitVec 8))) × State D :=
  match devGetByIndex net s ifIndex with
  | (none, s) => ((-1, none), s)
  | (some dev, s) => ((0, some (net.info dev).devAddr), s)

def ddeLinux26WifiAtherosIdx (s : State D) : Option (Word × State D) :=
  match devGetByName net s ['a', 't', 'h', '0'] with
  | (none, _) => none
  | (some dev, s) => some ((net.info dev).ifindex, s)

def enodev : Int := 19

/-- `wireless_process_ioctl` with `SIOCSIWESSID`: it looks the device up without taking a
reference.  `answer` is that of the driver. -/
def wirelessProcessIoctl (name : List Char) (answer : Int) : Int :=
  match devByName net name with
  | none => -enodev
  | some _ => answer

/-- The flag is whether a failure is printed. -/
def ddeLinux26WifiSetEssid (s : State D) (idx : Word) (answer : Int) : Option (Bool × State D) :=
  match devGetByIndex net s idx with
  | (none, _) => none
  | (some dev, s) =>
      some (wirelessProcessIoctl net ((net.info dev).name.take ifnamsiz) answer ≠ 0, s)

/-! ## Histories of calls -/

inductive Call where
  | netTx (ifIndex : Word) (packet : List (BitVec 8)) (memory : Bool) (answers : List Int)
  | netGetMacAddr (ifIndex : Word)
  | wifiAtherosIdx
  | wifiSetEssid (idx : Word) (answer : Int)
  deriving DecidableEq

/-- The state after the call, if it returns. -/
def returned (s : State D) : Call → Option (State D)
  | .netTx ifIndex packet memory answers =>
      (ddeLinux26NetTx net s ifIndex packet memory answers).map (·.2)
  | .netGetMacAddr ifIndex => some (ddeLinux26NetGetMacAddr net s ifIndex).2
  | .wifiAtherosIdx => (ddeLinux26WifiAtherosIdx net s).map (·.2)
  | .wifiSetEssid idx answer => (ddeLinux26WifiSetEssid net s idx answer).map (·.2)

def step (s : State D) (c : Call) : State D := (returned net s c).getD s

/-- The driver never takes the packet. -/
def refused : Call → Bool
  | .netTx _ _ _ answers => !answers.contains 0
  | _ => false

/-- The call returns with the references as they were; only with a packet that is never
taken it may not return. -/
def Balanced (s : State D) (c : Call) : Prop :=
  match returned net s c with
  | some s' => s'.refcnt = s.refcnt
  | none => refused c = true

/-- The condition. -/
def putsBack : Call → Bool
  | .netTx ifIndex _ memory _ => memory || (devByIndex net ifIndex).isNone
  | .netGetMacAddr ifIndex => (devByIndex net ifIndex).isNone
  | .wifiAtherosIdx => false
  | .wifiSetEssid _ _ => false

/-! ## One call -/

variable {net} {s : State D} {dev : D}

/-- A reference that is taken shows. -/
theorem devHold_refcnt_ne : (devHold s dev).refcnt ≠ s.refcnt := by
  intro h
  have hdev := congrFun h dev
  simp only [devHold, Function.update_self] at hdev
  exact absurd hdev (by simp)

theorem devPut_devHold (s : State D) (dev : D) :
    (devPut (devHold s dev) dev).refcnt = s.refcnt := by
  simp [devPut, devHold]

theorem netTx_iff (s : State D) (ifIndex : Word) (packet : List (BitVec 8)) (memory : Bool)
    (answers : List Int) :
    Balanced net s (.netTx ifIndex packet memory answers) ↔
      memory = true ∨ devByIndex net ifIndex = none := by
  simp only [Balanced, returned, ddeLinux26NetTx, devGetByIndex]
  cases devByIndex net ifIndex with
  | none => simp
  | some dev =>
      cases memory with
      | false => simp [devHold_refcnt_ne]
      | true =>
          refine iff_of_true ?_ (.inl rfl)
          rcases xmit_cases (devHold s dev) dev packet answers with ⟨hnever, hx⟩ | ⟨s', hx, href⟩
          · simpa [hx, refused] using hnever
          · simp only [hx, if_true, Option.map_some]
            rw [← devPut_devHold s dev, devPut, devPut, href]

theorem balanced_iff (s : State D) (c : Call) : Balanced net s c ↔ putsBack net c = true := by
  cases c with
  | netTx ifIndex packet memory answers =>
      rw [netTx_iff, putsBack, Bool.or_eq_true, Option.isNone_iff_eq_none]
  | netGetMacAddr ifIndex =>
      simp only [Balanced, returned, ddeLinux26NetGetMacAddr, devGetByIndex, putsBack]
      cases devByIndex net ifIndex with
      | none => simp
      | some dev => simp [devHold_refcnt_ne]
  | wifiAtherosIdx =>
      simp only [Balanced, returned, ddeLinux26WifiAtherosIdx, devGetByName, putsBack]
      cases devByName net ['a', 't', 'h', '0'] with
      | none => simp [refused]
      | some dev => simp [devHold_refcnt_ne]
  | wifiSetEssid idx answer =>
      simp only [Balanced, returned, ddeLinux26WifiSetEssid, devGetByIndex, putsBack]
      cases devByIndex net idx with
      | none => simp [refused]
      | some dev => simp [devHold_refcnt_ne]

end

/-! ## The result -/

/-- **References.**  Along every history, each call returns with every device's reference
count as it was, or is a transmission that does not return since the driver never takes the
packet, if and only if the calls are transmissions with memory for the packet, and
transmissions and `dde_linux26_net_get_mac_addr` for devices that do not exist. -/
theorem net_device_references_iff [DecidableEq D] (net : Registry D) (s : State D)
    (calls : List Call) :
    Along (step net) (Balanced net) s calls ↔ ∀ c ∈ calls, putsBack net c = true := by
  induction calls generalizing s with
  | nil => exact iff_of_true trivial nofun
  | cons c calls ih => rw [Along, balanced_iff, ih, List.forall_mem_cons]

/-- One device. -/
def single : Registry Unit := ⟨[()], fun _ => ⟨1, ['a', 't', 'h', '0'], [2, 0, 0, 0, 0, 1]⟩⟩

/-- **Three references are left.**  The index of the wireless device, its address, and a
packet there is no memory for. -/
theorem net_device_references_left :
    let calls := [.wifiAtherosIdx, .netGetMacAddr 1, .netTx 1 [1] false [0]]
    (calls.foldl (step single) ⟨fun _ => 1, []⟩).refcnt () = 4 ∧
      ¬ Along (step single) (Balanced single) ⟨fun _ => 1, []⟩ calls := by
  refine ⟨by decide, ?_⟩
  rintro ⟨href, -⟩
  have hcount := congrFun href ()
  revert hcount
  decide

end LinuxDrivers.Net.Device
