/-
# `LinuxDrivers.AudioOut.DeviceTable` — the sound devices and their descriptors

`dde.c` opens the ALSA devices of all cards when it starts, and keeps them in a table of 32
slots.  The emulation of `open`, `fcntl` and `ioctl` looks a device up by its name or by its
descriptor:

    scan      for each card:  wipe the next slot;  open the control device;  if that fails,
              go on with the next card.  Set the name and the descriptor, slot + 3.
              For each playback device of the card the same
    open      the first slot with the name;  none: ENOENT;  other access mode: EACCES
    fcntl, ioctl, hardware buffer
              the first slot with the descriptor;  none: EBADF

A lookup goes over all slots.  One that is not in use has the name "" and the descriptor 0.  The
lookup of a hardware buffer takes every device for a playback device.

**Proved here.**

    what is found for each name and each descriptor         (`alsa_devices_iff`)
-/
import LinuxDrivers.Basic
import LinuxDrivers.Lib.Keyed
import Mathlib.Data.List.Nodup

namespace LinuxDrivers.AudioOut.DeviceTable

open LinuxDrivers.Lib

/-! ## The table -/

def maxDevices : Nat := 32

/-- `SNDRV_CARDS` -/
def sndrvCards : Nat := 8

/-- `SNDRV_MINOR_PCMS` -/
def sndrvMinorPcms : Nat := 8

/-- `SNDRV_MINOR_PCM_PLAYBACK` -/
def sndrvMinorPcmPlayback : Nat := 16

def oAccmode : Word := 3

def oRdwr : Word := 2

/-- A device: the control device of a card, or one of its playback devices. -/
inductive Node where
  | control (card : Nat)
  | playback (card pcm : Nat)
  deriving DecidableEq, Repr

/-- The name, which is never as long as the 32 bytes there are for it. -/
def Node.name : Node → String
  | .control card => "/dev/snd/controlC" ++ toString card
  | .playback card pcm => "/dev/snd/pcmC" ++ toString card ++ "D" ++ toString pcm ++ "p"

/-- `SNDRV_MINOR` -/
def sndrvMinor (card dev : Nat) : Nat := card <<< 5 ||| dev

/-- `MKDEV(CONFIG_SND_MAJOR, ..)` -/
def Node.rdev : Node → Nat
  | .control card => 116 <<< 20 ||| sndrvMinor card 0
  | .playback card pcm => 116 <<< 20 ||| sndrvMinor card (sndrvMinorPcmPlayback + pcm)

/-- What the driver's `open` leaves in `file.private_data`: a `snd_ctl_file`, or a `snd_pcm_file`
with the substream of the device. -/
inductive PrivateData where
  | sndCtlFile (card : Nat)
  | sndPcmFile (substream : Node)
  deriving DecidableEq, Repr

def Node.privateData : Node → PrivateData
  | .control card => .sndCtlFile card
  | .playback card pcm => .sndPcmFile (.playback card pcm)

/-- `struct _sound_device` -/
structure SoundDevice where
  fd : Int
  name : String
  /-- `inode.i_rdev` -/
  iRdev : Nat
  /-- `file.f_flags` -/
  fFlags : Word
  /-- `file.f_op` is set -/
  isOpen : Bool
  /-- `file.private_data` -/
  privateData : Option PrivateData
  deriving DecidableEq, Repr

structure Scan where
  alsaDevices : List SoundDevice
  devNum : Nat
  pcms : Nat
  /-- history: the devices that were opened, in their order -/
  opened : List Node
  deriving DecidableEq, Repr

/-- The table is zero before the scan. -/
def start : Scan := ⟨List.replicate maxDevices ⟨0, "", 0, 0, false, none⟩, 0, 0, []⟩

/-- A slot that was wiped for a device. -/
def wiped (node : Node) : SoundDevice := ⟨0, "", node.rdev, oRdwr, false, none⟩

/-- A slot with the device that was opened. -/
def inUse (devNum : Nat) (node : Node) : SoundDevice :=
  ⟨devNum + 3, node.name, node.rdev, oRdwr, true, some node.privateData⟩

/-- One device is tried; `opens` says which ones `alsa_fops->open` succeeds for. -/
def tryOpen (opens : Node → Bool) (s : Scan) (node : Node) : Scan :=
  if opens node then
    { alsaDevices := s.alsaDevices.set s.devNum (inUse s.devNum node)
      devNum := s.devNum + 1
      pcms := match node with
        | .control _ => s.pcms
        | .playback _ _ => s.pcms + 1
      opened := s.opened ++ [node] }
  else { s with alsaDevices := s.alsaDevices.set s.devNum (wiped node) }

/-- The body of the inner loop; once the table is full, the loop is left. -/
def scanPcm (opens : Node → Bool) (card : Nat) (s : Scan) (pcm : Nat) : Scan :=
  if s.devNum < maxDevices then tryOpen opens s (.playback card pcm) else s

def scanCard (opens : Node → Bool) (s : Scan) (card : Nat) : Scan :=
  if s.devNum < maxDevices then
    let s := tryOpen opens s (.control card)
    if opens (.control card) then (List.range sndrvMinorPcms).foldl (scanPcm opens card) s else s
  else s

/-- `dde_linux26_audio_init_devices` -/
def audioInitDevices (opens : Node → Bool) : Scan :=
  (List.range sndrvCards).foldl (scanCard opens) start

/-! ## The lookups -/

def getDevByName (t : List SoundDevice) (name : String) : Option SoundDevice :=
  t.find? (·.name == name)

def getDevByFd (t : List SoundDevice) (fd : Int) : Option SoundDevice :=
  t.find? (·.fd == fd)

inductive Errno where
  | enoent
  | eacces
  | ebadf
  | driver (errno : Int)
  deriving DecidableEq, Repr

/-- How a call ends, unless it follows a null pointer, or one that it takes for what it is not. -/
inductive Outcome (α : Type) where
  | ok (value : α)
  | error (errno : Errno)
  | crash
  | wild
  deriving DecidableEq, Repr

def «open» (t : List SoundDevice) (file : String) (flags : Word) : Outcome Int :=
  match getDevByName t file with
  | none => .error .enoent
  | some dev => if flags &&& oAccmode ≠ dev.fFlags then .error .eacces else .ok dev.fd

inductive FcntlCmd where
  | setfl
  | getfl
  | other
  deriving DecidableEq, Repr

/-- The value is the device that was found, and what is returned. -/
def fcntl (t : List SoundDevice) (fd : Int) (cmd : FcntlCmd) : Outcome (SoundDevice × Word) :=
  match getDevByFd t fd with
  | none => .error .ebadf
  | some dev =>
      match cmd with
      | .setfl => .ok (dev, 0)
      | .getfl => .ok (dev, dev.fFlags)
      | .other => .error .ebadf

/-- `driver` is what `unlocked_ioctl` of a device returns. -/
def ioctl (t : List SoundDevice) (driver : Nat → Int) (fd : Int) : Outcome SoundDevice :=
  match getDevByFd t fd with
  | none => .error .ebadf
  | some dev =>
      if dev.isOpen then
        if driver dev.iRdev ≠ 0 then .error (.driver (-driver dev.iRdev)) else .ok dev
      else .crash

/-- `dde_linux26_get_hwbuf_by_fd`: `private_data` is taken for a `snd_pcm_file`, whose
`substream->runtime->dma_area` is returned; `dmaArea` is that of each substream.  The first field of
a `snd_ctl_file` is no substream. -/
def getHwbufByFd (t : List SoundDevice) (dmaArea : Node → Word) (fd : Int) : Outcome Word :=
  match getDevByFd t fd with
  | none => .crash
  | some dev =>
      match dev.privateData with
      | none => .crash
      | some (.sndCtlFile _) => .wild
      | some (.sndPcmFile substream) => .ok (dmaArea substream)

/-! ## What the table is for -/

/-- All devices, in the order of the scan. -/
def cardNodes (card : Nat) : List Node :=
  .control card :: (List.range sndrvMinorPcms).map (.playback card)

def allNodes : List Node := (List.range sndrvCards).flatMap cardNodes

/-- A slot that is not in use. -/
structure Blank (dev : SoundDevice) : Prop where
  fd : dev.fd = 0
  name : dev.name = ""
  fFlags : dev.fFlags &&& oAccmode = dev.fFlags
  privateData : dev.privateData = none

theorem Blank.wiped (node : Node) : Blank (wiped node) where
  fd := rfl
  name := rfl
  fFlags := show oRdwr &&& oAccmode = oRdwr by decide
  privateData := rfl

/-- The table is the devices that were opened, and then slots that are not in use. -/
structure Filled (s : Scan) (tried : List Node) : Prop where
  table : ∃ rest, s.alsaDevices = s.opened.mapIdx inUse ++ rest ∧ (∀ dev ∈ rest, Blank dev) ∧
    s.opened.length + rest.length = maxDevices
  devNum : s.devNum = s.opened.length
  opened : s.opened.Sublist tried

theorem Filled.start : Filled start [] where
  table := by
    refine ⟨List.replicate maxDevices ⟨0, "", 0, 0, false, none⟩, rfl, ?_, rfl⟩
    intro dev hdev
    rw [List.eq_of_mem_replicate hdev]
    exact ⟨rfl, rfl, rfl, rfl⟩
  devNum := rfl
  opened := List.Sublist.refl _

section

variable (opens : Node → Bool) {s : Scan} {tried : List Node}

/-- What was not tried is not opened. -/
theorem Filled.more (h : Filled s tried) (more : List Node) : Filled s (tried ++ more) where
  table := h.table
  devNum := h.devNum
  opened := h.opened.trans (List.sublist_append_left _ _)

theorem Filled.tryOpen (h : Filled s tried) (hroom : s.devNum < maxDevices) (node : Node) :
    Filled (tryOpen opens s node) (tried ++ [node]) := by
  obtain ⟨rest, htable, hblank, hlength⟩ := h.table
  cases rest with
  | nil =>
      have := h.devNum
      rw [List.length_nil] at hlength
      omega
  | cons dev rest =>
      obtain ⟨_, hrest⟩ := List.forall_mem_cons.mp hblank
      have hset : ∀ new, s.alsaDevices.set s.devNum new = s.opened.mapIdx inUse ++ new :: rest := by
        intro new
        have hlen : s.devNum = (s.opened.mapIdx inUse).length := by
          rw [List.length_mapIdx, h.devNum]
        rw [htable, hlen, List.set_append_right _ _ (Nat.le_refl _), Nat.sub_self]
        rfl
      unfold DeviceTable.tryOpen
      cases hopens : opens node with
      | true =>
          refine ⟨⟨rest, ?_, hrest, ?_⟩, ?_, ?_⟩
          · show s.alsaDevices.set s.devNum (inUse s.devNum node) =
              (s.opened ++ [node]).mapIdx inUse ++ _
            rw [hset, List.mapIdx_concat, h.devNum, List.append_assoc]
            rfl
          · show (s.opened ++ [node]).length + rest.length = maxDevices
            simp only [List.length_append, List.length_cons, List.length_nil] at hlength ⊢
            omega
          · show s.devNum + 1 = (s.opened ++ [node]).length
            rw [List.length_append, h.devNum]
            rfl
          · exact h.opened.append (List.Sublist.refl _)
      | false =>
          refine ⟨⟨wiped node :: rest, hset _, ?_, hlength⟩, h.devNum, (h.more _).opened⟩
          exact List.forall_mem_cons.mpr ⟨Blank.wiped node, hrest⟩

theorem Filled.scanPcm (h : Filled s tried) (card pcm : Nat) :
    Filled (scanPcm opens card s pcm) (tried ++ [.playback card pcm]) := by
  unfold DeviceTable.scanPcm
  split
  · exact h.tryOpen opens ‹_› _
  · exact h.more _

theorem Filled.scanPcms (h : Filled s tried) (card : Nat) (pcms : List Nat) :
    Filled (pcms.foldl (DeviceTable.scanPcm opens card) s)
      (tried ++ pcms.map (.playback card)) := by
  induction pcms generalizing s tried with
  | nil => exact h.more []
  | cons pcm pcms ih =>
      have hnext := ih (h.scanPcm opens card pcm)
      rw [List.append_assoc] at hnext
      exact hnext

theorem Filled.scanCard (h : Filled s tried) (card : Nat) :
    Filled (scanCard opens s card) (tried ++ cardNodes card) := by
  unfold DeviceTable.scanCard
  split
  · have hcontrol := h.tryOpen opens ‹_› (.control card)
    split
    · have hpcms := hcontrol.scanPcms opens card (List.range sndrvMinorPcms)
      rw [List.append_assoc] at hpcms
      exact hpcms
    · have hmore := hcontrol.more ((List.range sndrvMinorPcms).map (.playback card))
      rw [List.append_assoc] at hmore
      exact hmore
  · exact h.more _

/-- The table after the scan. -/
theorem Filled.audioInitDevices : Filled (audioInitDevices opens) allNodes := by
  have hcards : ∀ (cards : List Nat) (s : Scan) (tried : List Node), Filled s tried →
      Filled (cards.foldl (DeviceTable.scanCard opens) s) (tried ++ cards.flatMap cardNodes) := by
    intro cards
    induction cards with
    | nil => exact fun s tried h => h.more []
    | cons card cards ih =>
        intro s tried h
        have hnext := ih _ _ (h.scanCard opens card)
        rw [List.append_assoc] at hnext
        exact hnext
  exact hcards _ _ _ Filled.start

end

/-! ## Names

The numbers in a name have one digit, so that it says which device it is of. -/

def Node.Digits : Node → Prop
  | .control card => card < 10
  | .playback card pcm => card < 10 ∧ pcm < 10

theorem toList_toString : ∀ n < 10, (toString n).toList = [Nat.digitChar n] := by decide

theorem digitChar_inj : ∀ n < 10, ∀ k < 10, Nat.digitChar n = Nat.digitChar k → n = k := by decide

theorem control_chars {card : Nat} (h : card < 10) :
    (Node.control card).name.toList = "/dev/snd/controlC".toList ++ [Nat.digitChar card] := by
  show ("/dev/snd/controlC" ++ toString card).toList = _
  rw [String.toList_append, toList_toString _ h]

theorem playback_chars {card pcm : Nat} (hcard : card < 10) (hpcm : pcm < 10) :
    (Node.playback card pcm).name.toList =
      "/dev/snd/pcmC".toList ++ [Nat.digitChar card] ++ ['D'] ++ [Nat.digitChar pcm] ++ ['p'] := by
  show ("/dev/snd/pcmC" ++ toString card ++ "D" ++ toString pcm ++ "p").toList = _
  rw [String.toList_append, String.toList_append, String.toList_append, String.toList_append,
    toList_toString _ hcard, toList_toString _ hpcm]
  rfl

/-- A playback device has a shorter name than a control device. -/
theorem lengths_ne {c d e : Char} : ("/dev/snd/controlC".toList ++ [c]).length ≠
    ("/dev/snd/pcmC".toList ++ [d] ++ ['D'] ++ [e] ++ ['p']).length := by
  have hcontrol : "/dev/snd/controlC".toList.length = 17 := by decide
  have hpcm : "/dev/snd/pcmC".toList.length = 13 := by decide
  simp only [List.length_append, List.length_singleton, hcontrol, hpcm]
  omega

theorem Node.name_inj {a b : Node} (ha : a.Digits) (hb : b.Digits) (h : a.name = b.name) :
    a = b := by
  have hchars := congrArg String.toList h
  cases a with
  | control card =>
      cases b with
      | control card' =>
          rw [control_chars ha, control_chars hb] at hchars
          have hdigit := List.append_cancel_left hchars
          rw [digitChar_inj _ ha _ hb (List.head_eq_of_cons_eq hdigit)]
      | playback card' pcm' =>
          rw [control_chars ha, playback_chars hb.1 hb.2] at hchars
          exact absurd (congrArg List.length hchars) lengths_ne
  | playback card pcm =>
      cases b with
      | control card' =>
          rw [control_chars hb, playback_chars ha.1 ha.2] at hchars
          exact absurd (congrArg List.length hchars).symm lengths_ne
      | playback card' pcm' =>
          rw [playback_chars ha.1 ha.2, playback_chars hb.1 hb.2] at hchars
          simp only [List.append_assoc] at hchars
          have hrest := List.append_cancel_left hchars
          simp only [List.cons_append, List.nil_append, List.cons.injEq, true_and, and_true]
            at hrest
          rw [digitChar_inj _ ha.1 _ hb.1 hrest.1, digitChar_inj _ ha.2 _ hb.2 hrest.2]

theorem Node.name_ne_empty (node : Node) : node.name ≠ "" := by
  intro h
  have hchars := congrArg String.toList h
  cases node with
  | control card =>
      have happend : ("/dev/snd/controlC" ++ toString card).toList = [] := hchars
      rw [String.toList_append] at happend
      exact absurd (List.append_eq_nil_iff.mp happend).1 (by decide)
  | playback card pcm =>
      have happend :
          ("/dev/snd/pcmC" ++ toString card ++ "D" ++ toString pcm ++ "p").toList = [] := hchars
      rw [String.toList_append] at happend
      exact absurd (List.append_eq_nil_iff.mp happend).2 (by decide)

theorem allNodes_digits : ∀ node ∈ allNodes, node.Digits := by
  intro node hnode
  obtain ⟨card, hcard, hnode⟩ := List.mem_flatMap.mp hnode
  have hcard : card < 8 := List.mem_range.mp hcard
  rcases List.mem_cons.mp hnode with rfl | hnode
  · show card < 10
    omega
  · obtain ⟨pcm, hpcm, rfl⟩ := List.mem_map.mp hnode
    have hpcm : pcm < 8 := List.mem_range.mp hpcm
    show card < 10 ∧ pcm < 10
    omega

theorem allNodes_nodup : allNodes.Nodup := by decide

/-! ## What is found -/

/-- Device `i` was opened, and has its descriptor. -/
def Scan.HasFd (s : Scan) (node : Node) (fd : Int) : Prop :=
  ∃ i : Nat, s.opened[i]? = some node ∧ fd = i + 3

theorem map_name_inUse (nodes : List Node) :
    (nodes.mapIdx inUse).map (·.name) = nodes.map (·.name) := by
  refine List.ext_getElem (by simp) ?_
  intro i _ _
  simp [inUse]

theorem map_fd_inUse (nodes : List Node) :
    (nodes.mapIdx inUse).map (·.fd) =
      (List.range nodes.length).map (fun i : Nat => (i : Int) + 3) := by
  refine List.ext_getElem (by simp) ?_
  intro i _ _
  simp [inUse]

theorem mem_inUse {nodes : List Node} {dev : SoundDevice} :
    dev ∈ nodes.mapIdx inUse ↔ ∃ i node, nodes[i]? = some node ∧ dev = inUse i node := by
  rw [List.mem_mapIdx]
  constructor
  · rintro ⟨i, hi, rfl⟩
    exact ⟨i, _, List.getElem?_eq_getElem hi, rfl⟩
  · rintro ⟨i, node, hnode, rfl⟩
    obtain ⟨hi, rfl⟩ := List.getElem?_eq_some_iff.mp hnode
    exact ⟨i, hi, rfl⟩

section

variable {s : Scan} (h : Filled s allNodes)

include h

theorem Filled.names_nodup : ((s.opened.mapIdx inUse).map (·.name)).Nodup := by
  rw [map_name_inUse]
  refine List.Nodup.map_on ?_ (allNodes_nodup.sublist h.opened)
  intro a ha b hb hab
  exact Node.name_inj (allNodes_digits a (h.opened.mem ha))
    (allNodes_digits b (h.opened.mem hb)) hab

omit h in
theorem fds_nodup (nodes : List Node) : ((nodes.mapIdx inUse).map (·.fd)).Nodup := by
  rw [map_fd_inUse]
  refine List.Nodup.map ?_ List.nodup_range
  intro i j hij
  simpa using hij

/-- A device is found by its name and by its descriptor. -/
theorem Filled.find_inUse {i : Nat} {node : Node} (hnode : s.opened[i]? = some node) :
    getDevByName s.alsaDevices node.name = some (inUse i node) ∧
      getDevByFd s.alsaDevices (i + 3) = some (inUse i node) := by
  obtain ⟨rest, htable, -⟩ := h.table
  have hmem : inUse i node ∈ s.opened.mapIdx inUse := mem_inUse.mpr ⟨i, node, hnode, rfl⟩
  rw [htable]
  exact ⟨find?_append_of_mem h.names_nodup hmem, find?_append_of_mem (fds_nodup _) hmem⟩

/-- Nothing else is found, unless it is looked for what is not in use. -/
theorem Filled.find_none {κ : Type} [DecidableEq κ] (key : SoundDevice → κ) {blank k : κ}
    (hblank : ∀ dev, Blank dev → key dev = blank)
    (hused : ∀ i node, s.opened[i]? = some node → key (inUse i node) ≠ k)
    (hok : s.opened.length = maxDevices ∨ k ≠ blank) :
    s.alsaDevices.find? (key · == k) = none := by
  obtain ⟨rest, htable, hrest, hlength⟩ := h.table
  rw [htable]
  refine find?_append_none ?_ ?_
  · intro dev hdev
    obtain ⟨i, node, hnode, rfl⟩ := mem_inUse.mp hdev
    exact hused i node hnode
  · intro dev hdev
    rcases hok with hfull | hne
    · have : 0 < rest.length := List.length_pos_of_mem hdev
      omega
    · rw [hblank dev (hrest dev hdev)]
      exact hne.symm

theorem Filled.find_name_none {name : String} (hname : ∀ node ∈ s.opened, node.name ≠ name)
    (hok : s.opened.length = maxDevices ∨ name ≠ "") : getDevByName s.alsaDevices name = none :=
  h.find_none (·.name) (fun _ hblank => hblank.name)
    (fun _ node hnode => hname node (List.mem_of_getElem? hnode)) hok

theorem Filled.find_fd_none {fd : Int} (hfd : ∀ node, ¬ s.HasFd node fd)
    (hok : s.opened.length = maxDevices ∨ fd ≠ 0) : getDevByFd s.alsaDevices fd = none :=
  h.find_none (·.fd) (fun _ hblank => hblank.fd)
    (fun i node hnode hkey => hfd node ⟨i, hnode, hkey.symm⟩) hok

/-- As long as a slot is not in use, what all such slots have in common finds it. -/
theorem Filled.find_unused {κ : Type} [DecidableEq κ] (key : SoundDevice → κ) {blank : κ}
    (hblank : ∀ dev, Blank dev → key dev = blank)
    (hused : ∀ i node, key (inUse i node) ≠ blank) (hroom : s.opened.length ≠ maxDevices) :
    ∃ dev, Blank dev ∧ s.alsaDevices.find? (key · == blank) = some dev := by
  obtain ⟨rest, htable, hrest, hlength⟩ := h.table
  have hne : rest ≠ [] := by
    rintro rfl
    rw [List.length_nil] at hlength
    omega
  have hdevs : ∀ dev ∈ s.opened.mapIdx inUse, key dev ≠ blank := by
    intro dev hdev
    obtain ⟨i, node, _, rfl⟩ := mem_inUse.mp hdev
    exact hused i node
  obtain ⟨dev, hdev, hfind⟩ :=
    find?_append_blank key blank hdevs (fun dev hdev => hblank dev (hrest dev hdev)) hne
  rw [htable]
  exact ⟨dev, hrest dev hdev, hfind⟩

theorem Filled.find_empty_name (hroom : s.opened.length ≠ maxDevices) :
    ∃ dev, Blank dev ∧ getDevByName s.alsaDevices "" = some dev :=
  h.find_unused (·.name) (fun _ hblank => hblank.name) (fun _ node => node.name_ne_empty) hroom

theorem Filled.find_fd_zero (hroom : s.opened.length ≠ maxDevices) :
    ∃ dev, Blank dev ∧ getDevByFd s.alsaDevices 0 = some dev := by
  refine h.find_unused (·.fd) (fun _ hblank => hblank.fd) (fun i node => ?_) hroom
  show (i : Int) + 3 ≠ 0
  omega

/-! ## The calls -/

/-- A device is opened by its name. -/
theorem Filled.open_name {i : Nat} {node : Node} (hnode : s.opened[i]? = some node) (flags : Word) :
    «open» s.alsaDevices node.name flags =
      if flags &&& oAccmode ≠ oRdwr then .error .eacces else .ok (i + 3) := by
  rw [«open», (h.find_inUse hnode).1]
  rfl

/-- What `open` returns is right for a name exactly if the name is not the one of slots that are
not in use, or there are none. -/
theorem Filled.open_exact_iff (name : String) :
    (∀ flags fd, «open» s.alsaDevices name flags = .ok fd ↔
        ∃ node, node.name = name ∧ s.HasFd node fd ∧ flags &&& oAccmode = oRdwr) ↔
      s.opened.length = maxDevices ∨ name ≠ "" := by
  constructor
  · intro hopen
    by_contra hnot
    obtain ⟨hroom, hname⟩ := not_or.mp hnot
    obtain ⟨dev, hblank, hfind⟩ := h.find_empty_name hroom
    have hok : «open» s.alsaDevices name dev.fFlags = .ok dev.fd := by
      rw [«open», not_not.mp hname, hfind]
      exact if_neg (not_not.mpr hblank.fFlags)
    obtain ⟨node, hnode, -⟩ := (hopen _ _).mp hok
    exact node.name_ne_empty (hnode.trans (not_not.mp hname))
  · intro hok flags fd
    by_cases hknown : ∃ node ∈ s.opened, node.name = name
    · obtain ⟨node, hmem, rfl⟩ := hknown
      obtain ⟨i, hi⟩ := List.mem_iff_getElem?.mp hmem
      rw [h.open_name hi]
      constructor
      · intro heq
        split at heq
        · cases heq
        · cases heq
          exact ⟨node, rfl, ⟨i, hi, rfl⟩, not_not.mp ‹_›⟩
      · rintro ⟨node', hname, ⟨j, hj, rfl⟩, hflags⟩
        -- the slot the name leads to is the same
        have hsame := (h.find_inUse hj).1
        rw [hname, (h.find_inUse hi).1] at hsame
        have hfd : (i : Int) + 3 = j + 3 := congrArg SoundDevice.fd (Option.some.inj hsame)
        rw [if_neg (not_not.mpr hflags), hfd]
    · have hnone : ∀ node ∈ s.opened, node.name ≠ name :=
        fun node hmem hname => hknown ⟨node, hmem, hname⟩
      rw [«open», h.find_name_none hnone hok]
      refine iff_of_false nofun ?_
      rintro ⟨node, hname, ⟨i, hi, _⟩, _⟩
      exact hnone node (List.mem_of_getElem? hi) hname

/-- A descriptor leads back to its device. -/
theorem Filled.reaches {node : Node} {fd : Int} (hfd : s.HasFd node fd) :
    ∃ dev, dev.name = node.name ∧ dev.iRdev = node.rdev ∧
      (∀ driver : Nat → Int, driver node.rdev = 0 → ioctl s.alsaDevices driver fd = .ok dev) ∧
      fcntl s.alsaDevices fd .getfl = .ok (dev, oRdwr) := by
  obtain ⟨i, hi, rfl⟩ := hfd
  have hfind := (h.find_inUse hi).2
  refine ⟨inUse i node, rfl, rfl, ?_, ?_⟩
  · intro driver hdriver
    rw [ioctl, hfind]
    show (if driver node.rdev ≠ 0 then _ else Outcome.ok (inUse i node)) = _
    rw [hdriver]
    rfl
  · rw [fcntl, hfind]
    rfl

/-- And to its hardware buffer, exactly if it is a playback device. -/
theorem Filled.hwbuf_iff {node : Node} {fd : Int} (hfd : s.HasFd node fd)
    (dmaArea : Node → Word) :
    getHwbufByFd s.alsaDevices dmaArea fd = .ok (dmaArea node) ↔
      ∃ card pcm, node = .playback card pcm := by
  obtain ⟨i, hi, rfl⟩ := hfd
  rw [getHwbufByFd, (h.find_inUse hi).2]
  cases node with
  | control card =>
      refine iff_of_false ?_ ?_
      · intro hok
        have hwild : (Outcome.wild : Outcome Word) = .ok (dmaArea (.control card)) := hok
        cases hwild
      · rintro ⟨card', pcm, hnode⟩
        cases hnode
  | playback card pcm => exact iff_of_true rfl ⟨card, pcm, rfl⟩

/-- Any other descriptor is rejected exactly if it is not 0, or there are no slots that are not in
use. -/
theorem Filled.reject_iff {fd : Int} (hfd : ∀ node, ¬ s.HasFd node fd) :
    ((∀ driver, ioctl s.alsaDevices driver fd = .error .ebadf) ∧
        ∀ cmd, fcntl s.alsaDevices fd cmd = .error .ebadf) ↔
      s.opened.length = maxDevices ∨ fd ≠ 0 := by
  constructor
  · rintro ⟨-, hfcntl⟩
    by_contra hnot
    obtain ⟨hroom, hzero⟩ := not_or.mp hnot
    obtain ⟨dev, -, hfind⟩ := h.find_fd_zero hroom
    have hget := hfcntl .getfl
    rw [fcntl, not_not.mp hzero, hfind] at hget
    cases hget
  · intro hok
    have hfind := h.find_fd_none hfd hok
    constructor
    · intro driver
      rw [ioctl, hfind]
    · intro cmd
      rw [fcntl, hfind]

/-- The lookup of a hardware buffer does not check. -/
theorem Filled.hwbuf_crash {fd : Int} (hfd : ∀ node, ¬ s.HasFd node fd)
    (dmaArea : Node → Word) : getHwbufByFd s.alsaDevices dmaArea fd = .crash := by
  by_cases hok : s.opened.length = maxDevices ∨ fd ≠ 0
  · rw [getHwbufByFd, h.find_fd_none hfd hok]
  · obtain ⟨hroom, hzero⟩ := not_or.mp hok
    obtain ⟨dev, hblank, hfind⟩ := h.find_fd_zero hroom
    rw [getHwbufByFd, not_not.mp hzero, hfind]
    dsimp only
    rw [hblank.privateData]

end

/-! ## The result -/

/-- **What is found for each name and each descriptor.**  Whatever devices can be opened: `open`
returns descriptors for the names of devices that were opened, and no others, exactly if the name is
not empty or the table is full.  No two devices have one descriptor, and each leads back to its
device in `ioctl` and `fcntl`; to its hardware buffer it leads exactly if it is a playback device.
A descriptor of no device is rejected by `ioctl` and `fcntl` exactly if it is not 0 or the table is
full, and the lookup of its hardware buffer follows a null pointer. -/
theorem alsa_devices_iff (opens : Node → Bool) :
    (∀ name, (∀ flags fd, «open» (audioInitDevices opens).alsaDevices name flags = .ok fd ↔
        ∃ node, node.name = name ∧ (audioInitDevices opens).HasFd node fd ∧
          flags &&& oAccmode = oRdwr) ↔
      (audioInitDevices opens).opened.length = maxDevices ∨ name ≠ "") ∧
    (∀ node node' fd, (audioInitDevices opens).HasFd node fd →
      (audioInitDevices opens).HasFd node' fd → node = node') ∧
    (∀ node fd, (audioInitDevices opens).HasFd node fd →
      ∃ dev, dev.name = node.name ∧ dev.iRdev = node.rdev ∧
        (∀ driver : Nat → Int, driver node.rdev = 0 →
          ioctl (audioInitDevices opens).alsaDevices driver fd = .ok dev) ∧
        fcntl (audioInitDevices opens).alsaDevices fd .getfl = .ok (dev, oRdwr)) ∧
    (∀ node fd, (audioInitDevices opens).HasFd node fd → ∀ dmaArea,
      getHwbufByFd (audioInitDevices opens).alsaDevices dmaArea fd = .ok (dmaArea node) ↔
        ∃ card pcm, node = .playback card pcm) ∧
    (∀ fd, (∀ node, ¬ (audioInitDevices opens).HasFd node fd) →
      (((∀ driver, ioctl (audioInitDevices opens).alsaDevices driver fd = .error .ebadf) ∧
          ∀ cmd, fcntl (audioInitDevices opens).alsaDevices fd cmd = .error .ebadf) ↔
        (audioInitDevices opens).opened.length = maxDevices ∨ fd ≠ 0) ∧
      ∀ dmaArea, getHwbufByFd (audioInitDevices opens).alsaDevices dmaArea fd = .crash) := by
  have h := Filled.audioInitDevices opens
  refine ⟨h.open_exact_iff, ?_, fun node fd => h.reaches, fun node fd => h.hwbuf_iff, ?_⟩
  · rintro node node' fd ⟨i, hi, hfd⟩ ⟨j, hj, hfd'⟩
    have hij : i = j := by omega
    subst hij
    exact Option.some.inj (hi.symm.trans hj)
  · exact fun fd hfd => ⟨h.reject_iff hfd, h.hwbuf_crash hfd⟩

/-- **The name of nothing.**  With one card that has one playback device, the empty name opens
descriptor 0, and an `ioctl` on it follows a null pointer.  The hardware buffer of the control
device, descriptor 3, is looked for behind a pointer to something else. -/
theorem empty_name_opens :
    let t := (audioInitDevices fun node =>
      node == .control 0 || node == .playback 0 0).alsaDevices
    «open» t "" oRdwr = .ok 0 ∧ ioctl t (fun _ => 0) 0 = .crash ∧
      fcntl t 0 .setfl ≠ .error .ebadf ∧ «open» t "/dev/snd/controlC0" oRdwr = .ok 3 ∧
      getHwbufByFd t (fun _ => 0) 3 = .wild := by
  decide +kernel

end LinuxDrivers.AudioOut.DeviceTable
