/-
# `LinuxDrivers.Usb.Vhcd` — requests at the virtual host controller

The USB core hands a request (an URB) to the virtual host controller with
`vhcd_urb_enqueue`, and the rule is: the controller returns an error, or it gives the
request back by `usb_hcd_giveback_urb`, and never both.  The ways through the function:

    halted         `-ENODEV`
    rejected       given back, 0
    addressed      `SET_ADDRESS`, which is done here: given back, 0
    unlinked       the status of the request is returned as the result
    unsupported    `-EINVAL`, after a reference was taken and `hcpriv` was set
    handed over    a reference is taken and the request goes to the server, 0

The server ends a request by `dde_linux26_usb_vhcd_urb_complete`.  The reason of a
rejection is in a local variable; the status of the request does not get it, and the
completion does not set the status either.

**Proved here.**

    the rule is kept exactly if no request is unsupported, and none has the status 0 where
    it would be taken for unlinked                      (`vhcd_ownership_iff`)
    requests come back with their final status exactly if they are addresses, or were
    unlinked before                                     (`vhcd_final_status_iff`)
-/
import LinuxDrivers.Basic
import LinuxDrivers.Lib.History
import Mathlib.Logic.Function.Basic

namespace LinuxDrivers.Usb.Vhcd

open LinuxDrivers.Lib

/-! ## Requests -/

def einprogress : Int := 115

def einval : Int := 22

def enodev : Int := 19

/-- `struct usb_ctrlrequest` -/
structure CtrlRequest where
  bRequestType : BitVec 8
  bRequest : BitVec 8
  wValue : BitVec 16
  wIndex : BitVec 16
  wLength : BitVec 16
  deriving DecidableEq, Repr

def usbReqSetAddress : BitVec 8 := 0x05

def usbReqGetDescriptor : BitVec 8 := 0x06

/-- What is used of a `struct urb`. -/
structure Urb where
  pipe : Word
  /-- `dev->portnum` -/
  portnum : Word
  setupPacket : Option CtrlRequest
  status : Int
  /-- the reference count -/
  kref : Int
  useCount : Int
  hcpriv : Word
  deriving DecidableEq, Repr

inductive PipeType where
  | isochronous
  | interrupt
  | control
  | bulk
  deriving DecidableEq, Repr

/-- The two highest bits. -/
def usbPipetype (pipe : Word) : PipeType :=
  if pipe >>> 30 = 0 then .isochronous
  else if pipe >>> 30 = 1 then .interrupt
  else if pipe >>> 30 = 2 then .control
  else .bulk

def usbPipedevice (pipe : Word) : Word := pipe >>> 8 &&& 0x7f

def usbPipeendpoint (pipe : Word) : Word := pipe >>> 15 &&& 0xf

def usbPipein (pipe : Word) : Word := pipe &&& 0x80

def usbGetUrb (urb : Urb) : Urb := { urb with kref := urb.kref + 1 }

def usbPutUrb (urb : Urb) : Urb := { urb with kref := urb.kref - 1 }

/-- `usb_hcd_giveback_urb`, with the reference of the core. -/
def usbHcdGivebackUrb (urb : Urb) : Urb := usbPutUrb { urb with useCount := urb.useCount - 1 }

/-! ## The controller -/

/-- What the driver of the device sees of a request that is given back, and the result
the controller had come to. -/
structure Giveback where
  status : Int
  ret : Int
  deriving DecidableEq, Repr

/-- The arguments of `dde_linux26_usb_vhcd_submit_control_urb_cb` beside the request. -/
structure ControlUrb where
  portNum : Word
  endpoint : Word
  dirIn : Word
  size : Nat
  req : Option CtrlRequest
  deriving DecidableEq, Repr

/-- What a call has come to. -/
structure Outcome where
  ret : Int
  urb : Urb
  given : List Giveback
  submitted : Option ControlUrb
  deriving DecidableEq, Repr

/-- The label `no_need_xmit`. -/
def noNeedXmit (ret : Int) (urb : Urb) : Outcome :=
  ⟨0, usbHcdGivebackUrb urb, [⟨urb.status, ret⟩], none⟩

/-- The label `out`. -/
def out (vhcd : Word) (urb : Urb) : Outcome :=
  if urb.status ≠ -einprogress then ⟨urb.status, urb, [], none⟩
  else if usbPipetype urb.pipe = .isochronous then noNeedXmit (-einval) urb
  else
    let urb := usbGetUrb { urb with hcpriv := vhcd }
    match usbPipetype urb.pipe with
    | .control =>
        ⟨0, urb, [], some ⟨urb.portnum, usbPipeendpoint urb.pipe, usbPipein urb.pipe, 8,
          urb.setupPacket⟩⟩
    | .interrupt => ⟨-einval, urb, [], none⟩
    | .bulk => ⟨-einval, urb, [], none⟩
    | .isochronous => ⟨-einval, urb, [], none⟩

/-- A request to the device number 0. -/
inductive Trap where
  | invalid
  | setAddress
  | getDescriptor
  deriving DecidableEq, Repr

def trap (urb : Urb) : Trap :=
  match urb.setupPacket with
  | none => .invalid
  | some ctrlreq =>
      if usbPipetype urb.pipe ≠ .control then .invalid
      else if ctrlreq.bRequest = usbReqSetAddress then .setAddress
      else if ctrlreq.bRequest = usbReqGetDescriptor then .getDescriptor
      else .invalid

/-- `state` is that of the controller, `vhcd` the address of its own data. -/
def vhcdUrbEnqueue (vhcd state : Word) (urb : Urb) : Outcome :=
  if state &&& 1 = 0 then ⟨-enodev, urb, [], none⟩
  else if usbPipedevice urb.pipe = 0 then
    match trap urb with
    | .invalid => noNeedXmit (-einval) urb
    | .setAddress =>
        noNeedXmit 0 (if urb.status = -einprogress then { urb with status := 0 } else urb)
    | .getDescriptor => out vhcd urb
  else out vhcd urb

/-- `none` if `hcpriv` is not the controller's.  `data` overwrites the setup packet. -/
def ddeLinux26UsbVhcdUrbComplete (vhcd : Word) (urb : Urb) (data : CtrlRequest) :
    Option Outcome :=
  let urb := { urb with setupPacket := urb.setupPacket.map (fun _ => data) }
  if urb.hcpriv = vhcd then
    let urb := { urb with hcpriv := 0 }
    some ⟨0, usbPutUrb (usbHcdGivebackUrb urb), [⟨urb.status, 0⟩], none⟩
  else none

/-! ## The core -/

/-- Who has a request: the driver of the device, the core (on the way to the controller),
the server, or nobody any more. -/
inductive Owner where
  | driver
  | core
  | server
  | lost
  deriving DecidableEq, Repr

structure Slot where
  urb : Urb
  owner : Owner
  /-- the references the controller has taken and not dropped -/
  held : Int
  /-- the status at submission -/
  entry : Int
  deriving DecidableEq, Repr

/-- What `usb_unlink_urb`, `usb_kill_urb` and the disabling of an endpoint set. -/
inductive Reason where
  | econnreset
  | enoent
  | eshutdown
  deriving DecidableEq, Repr

def Reason.status : Reason → Int
  | .econnreset => -104
  | .enoent => -2
  | .eshutdown => -108

/-- Calls, each with the request `u` it is about. -/
inductive Call (U : Type) where
  /-- the driver submits the request, with these contents -/
  | submit (u : U) (pipe portnum : Word) (setupPacket : Option CtrlRequest) (status : Int)
  /-- the core calls the controller -/
  | enqueue (u : U) (state : Word)
  /-- `usb_hcd_unlink_urb` -/
  | unlink (u : U) (reason : Reason)
  /-- the server completes the request -/
  | complete (u : U) (data : CtrlRequest)

abbrev State (U : Type) := U → Slot

/-- The references of the controller after a call: what it took and dropped, without the
one of the core, which a giveback drops. -/
def Slot.heldAfter (slot : Slot) (o : Outcome) : Int :=
  slot.held + (o.urb.kref - slot.urb.kref) + o.given.length

/-- An URB that has an `hcpriv` is not submitted. -/
def Slot.submit (slot : Slot) (pipe portnum : Word) (setupPacket : Option CtrlRequest)
    (status : Int) : Slot :=
  if slot.urb.hcpriv ≠ 0 then slot
  else
    let urb := usbGetUrb { slot.urb with pipe, portnum, setupPacket, status }
    { slot with
      urb := { urb with useCount := urb.useCount + 1 }, owner := .core, entry := status }

/-- After an error the core drops its own reference. -/
def Slot.enqueue (vhcd state : Word) (slot : Slot) : Slot :=
  let o := vhcdUrbEnqueue vhcd state slot.urb
  { slot with
    urb := if o.ret ≠ 0 then usbPutUrb { o.urb with useCount := o.urb.useCount - 1 } else o.urb
    owner :=
      if o.submitted.isSome then .server
      else if o.ret ≠ 0 ∨ o.given ≠ [] then .driver
      else .lost
    held := slot.heldAfter o }

/-- `vhcd_urb_dequeue` does nothing. -/
def Slot.unlink (slot : Slot) (reason : Reason) : Slot :=
  if slot.owner ≠ .driver ∧ slot.urb.status = -einprogress then
    { slot with urb := { slot.urb with status := reason.status } }
  else slot

def Slot.complete (vhcd : Word) (slot : Slot) (data : CtrlRequest) : Slot :=
  match ddeLinux26UsbVhcdUrbComplete vhcd slot.urb data with
  | none => slot
  | some o => { slot with urb := o.urb, owner := .driver, held := slot.heldAfter o }

section
variable {U : Type} (vhcd : Word)

def Call.about : Call U → U
  | .submit u _ _ _ _ => u
  | .enqueue u _ => u
  | .unlink u _ => u
  | .complete u _ => u

def Slot.after (slot : Slot) : Call U → Slot
  | .submit _ pipe portnum setupPacket status => slot.submit pipe portnum setupPacket status
  | .enqueue _ state => slot.enqueue vhcd state
  | .unlink _ reason => slot.unlink reason
  | .complete _ data => slot.complete vhcd data

/-- A call is about one request and leaves the others alone. -/
def step [DecidableEq U] (s : State U) (call : Call U) : State U :=
  Function.update s call.about ((s call.about).after vhcd call)

/-- The driver submits what it has, and the server completes what it got. -/
def legal (s : State U) : Call U → Bool
  | .submit u _ _ _ _ => (s u).owner = .driver
  | .enqueue u _ => (s u).owner = .core
  | .unlink _ _ => true
  | .complete u _ => (s u).owner = .server

/-- Nothing has been submitted. -/
def init (kref : U → Int) : State U := fun u => ⟨⟨0, 0, none, 0, kref u, 0, 0⟩, .driver, 0, 0⟩

/-! ## What is asked of the controller -/

/-- An error, and the request as it was; or 0, and the request given back with no
reference left; or 0, and the request at the server, which gives it back. -/
def Owned (s : State U) : Call U → Prop
  | .enqueue u state =>
      let o := vhcdUrbEnqueue vhcd state (s u).urb
      (o.ret ≠ 0 ∧ o.given = [] ∧ o.urb.kref = (s u).urb.kref ∧ o.urb.hcpriv = (s u).urb.hcpriv) ∨
        (o.ret = 0 ∧ o.given.length = 1 ∧ o.submitted = none ∧ (s u).heldAfter o = 0) ∨
        (o.ret = 0 ∧ o.given = [] ∧ o.submitted.isSome)
  | .complete u data =>
      ∃ o, ddeLinux26UsbVhcdUrbComplete vhcd (s u).urb data = some o ∧
        o.given.length = 1 ∧ (s u).heldAfter o = 0
  | _ => True

/-- A request that was in progress when it was submitted has another status when it is
given back, and a negative one if it was rejected. -/
def Giveback.Final (g : Giveback) (entry : Int) : Prop :=
  entry = -einprogress → g.status ≠ -einprogress ∧ (g.ret < 0 → g.status < 0)

def Settled (s : State U) : Call U → Prop
  | .enqueue u state =>
      ∀ g ∈ (vhcdUrbEnqueue vhcd state (s u).urb).given, g.Final (s u).entry
  | .complete u data =>
      ∀ o, ddeLinux26UsbVhcdUrbComplete vhcd (s u).urb data = some o →
        ∀ g ∈ o.given, g.Final (s u).entry
  | _ => True

end

/-! ## The ways through `vhcd_urb_enqueue` -/

inductive Exit where
  | halted
  | rejected
  | addressed
  | unlinked
  | unsupported
  | handedOver
  deriving DecidableEq, Repr

/-- The way a request takes from the label `out` on. -/
def exitOut (urb : Urb) : Exit :=
  if urb.status ≠ -einprogress then .unlinked
  else
    match usbPipetype urb.pipe with
    | .isochronous => .rejected
    | .control => .handedOver
    | .interrupt => .unsupported
    | .bulk => .unsupported

def exit (state : Word) (urb : Urb) : Exit :=
  if state &&& 1 = 0 then .halted
  else if usbPipedevice urb.pipe = 0 then
    match trap urb with
    | .invalid => .rejected
    | .setAddress => .addressed
    | .getDescriptor => exitOut urb
  else exitOut urb

/-- What the controller does on each way. -/
def Exit.outcome (vhcd : Word) (urb : Urb) : Exit → Outcome
  | .halted => ⟨-enodev, urb, [], none⟩
  | .rejected => noNeedXmit (-einval) urb
  | .addressed =>
      noNeedXmit 0 (if urb.status = -einprogress then { urb with status := 0 } else urb)
  | .unlinked => ⟨urb.status, urb, [], none⟩
  | .unsupported => ⟨-einval, usbGetUrb { urb with hcpriv := vhcd }, [], none⟩
  | .handedOver =>
      ⟨0, usbGetUrb { urb with hcpriv := vhcd }, [], some ⟨urb.portnum,
        usbPipeendpoint urb.pipe, usbPipein urb.pipe, 8, urb.setupPacket⟩⟩

theorem out_eq (vhcd : Word) (urb : Urb) : out vhcd urb = (exitOut urb).outcome vhcd urb := by
  rw [out, exitOut]
  by_cases hstatus : urb.status = -einprogress
  · rw [if_neg (not_not_intro hstatus), if_neg (not_not_intro hstatus)]
    cases htype : usbPipetype urb.pipe with
    | isochronous => rfl
    | interrupt => simp [usbGetUrb, htype, Exit.outcome]
    | control => simp [usbGetUrb, htype, Exit.outcome]
    | bulk => simp [usbGetUrb, htype, Exit.outcome]
  · rw [if_pos hstatus, if_pos hstatus]
    rfl

theorem vhcdUrbEnqueue_eq (vhcd state : Word) (urb : Urb) :
    vhcdUrbEnqueue vhcd state urb = (exit state urb).outcome vhcd urb := by
  rw [vhcdUrbEnqueue, exit, out_eq]
  split
  · rfl
  · split
    · cases trap urb with
      | invalid => rfl
      | setAddress => rfl
      | getDescriptor => rfl
    · rfl

section
variable {U : Type} {vhcd : Word} {s : State U} {u : U} {slot : Slot}

/-! ## Ownership -/

/-- The condition: no request is of a kind that is not supported, and the status that is
returned for an unlinked request is an error. -/
def sound (s : State U) : Call U → Bool
  | .enqueue u state =>
      match exit state (s u).urb with
      | .unsupported => false
      | .unlinked => (s u).urb.status ≠ 0
      | _ => true
  | _ => true

/-- The controller has one reference to each request at the server, and no other. -/
structure Slot.Accounted (vhcd : Word) (slot : Slot) : Prop where
  free : slot.owner = .driver ∨ slot.owner = .core → slot.held = 0
  busy : slot.owner = .server → slot.held = 1 ∧ slot.urb.hcpriv = vhcd

theorem Slot.Accounted.submit (h : slot.Accounted vhcd) (howner : slot.owner = .driver)
    (pipe portnum : Word) (setupPacket : Option CtrlRequest) (status : Int) :
    (slot.submit pipe portnum setupPacket status).Accounted vhcd := by
  rw [Slot.submit]
  split
  · exact h
  · exact ⟨fun _ => h.free (.inl howner), nofun⟩

theorem Slot.Accounted.unlink (h : slot.Accounted vhcd) (reason : Reason) :
    (slot.unlink reason).Accounted vhcd := by
  rw [Slot.unlink]
  split
  · exact ⟨h.free, h.busy⟩
  · exact h

/-- A request comes back from the server with no reference left. -/
theorem Slot.Accounted.complete (h : slot.Accounted vhcd) (howner : slot.owner = .server)
    (data : CtrlRequest) :
    ∃ o, ddeLinux26UsbVhcdUrbComplete vhcd slot.urb data = some o ∧ o.given.length = 1 ∧
      slot.heldAfter o = 0 := by
  obtain ⟨hheld, hpriv⟩ := h.busy howner
  refine ⟨_, if_pos hpriv, rfl, ?_⟩
  simp only [Slot.heldAfter, usbPutUrb, usbHcdGivebackUrb, hheld, List.length_singleton]
  omega

theorem Slot.Accounted.complete_slot (h : slot.Accounted vhcd) (howner : slot.owner = .server)
    (data : CtrlRequest) : (slot.complete vhcd data).Accounted vhcd := by
  obtain ⟨o, hcomplete, -, hheld⟩ := h.complete howner data
  rw [Slot.complete, hcomplete]
  exact ⟨fun _ => hheld, nofun⟩

/-- The references taken on a way through `vhcd_urb_enqueue`. -/
def Exit.taken : Exit → Int
  | .unsupported => 1
  | .handedOver => 1
  | _ => 0

theorem heldAfter_outcome (slot : Slot) (e : Exit) :
    slot.heldAfter (e.outcome vhcd slot.urb) = slot.held + e.taken := by
  cases e with
  | halted => simp [Slot.heldAfter, Exit.outcome, Exit.taken]
  | rejected =>
      simp [Slot.heldAfter, Exit.outcome, Exit.taken, noNeedXmit, usbHcdGivebackUrb, usbPutUrb]
  | addressed =>
      simp only [Slot.heldAfter, Exit.outcome, Exit.taken, noNeedXmit, usbHcdGivebackUrb, usbPutUrb]
      split
      · simp
      · simp
  | unlinked => simp [Slot.heldAfter, Exit.outcome, Exit.taken]
  | unsupported => simp [Slot.heldAfter, Exit.outcome, Exit.taken, usbGetUrb]
  | handedOver => simp [Slot.heldAfter, Exit.outcome, Exit.taken, usbGetUrb]

/-- One call of `vhcd_urb_enqueue` keeps to the rule exactly under the condition. -/
theorem owned_enqueue_iff (h : (s u).Accounted vhcd) (howner : (s u).owner = .core)
    (state : Word) : Owned vhcd s (.enqueue u state) ↔ sound s (.enqueue u state) = true := by
  have hheld := h.free (.inr howner)
  simp only [Owned, sound, vhcdUrbEnqueue_eq, heldAfter_outcome, hheld]
  cases exit state (s u).urb with
  | halted => simp [Exit.outcome, enodev]
  | rejected => simp [Exit.outcome, Exit.taken, noNeedXmit]
  | addressed => simp [Exit.outcome, Exit.taken, noNeedXmit]
  | unlinked => simp [Exit.outcome]
  | unsupported => simp [Exit.outcome, einval, usbGetUrb]
  | handedOver => simp [Exit.outcome]

/-- What is left by a call that keeps to the rule. -/
theorem Slot.Accounted.enqueue (h : (s u).Accounted vhcd) (howner : (s u).owner = .core)
    (state : Word) (hsound : sound s (.enqueue u state) = true) :
    ((s u).enqueue vhcd state).Accounted vhcd := by
  have hheld := h.free (.inr howner)
  simp only [sound] at hsound
  rw [Slot.enqueue, vhcdUrbEnqueue_eq, heldAfter_outcome, hheld]
  cases hexit : exit state (s u).urb with
  | halted => exact ⟨fun _ => rfl, nofun⟩
  | rejected => exact ⟨fun _ => rfl, nofun⟩
  | addressed => exact ⟨fun _ => rfl, nofun⟩
  | unlinked =>
      have hstatus : (s u).urb.status ≠ 0 := by simpa [hexit] using hsound
      refine ⟨fun _ => rfl, ?_⟩
      simp [Exit.outcome, hstatus]
  | unsupported => simp [hexit] at hsound
  | handedOver => exact ⟨nofun, fun _ => ⟨rfl, rfl⟩⟩

theorem Slot.Accounted.after {call : Call U} (h : (s call.about).Accounted vhcd)
    (hl : legal s call = true) (hsound : sound s call = true) :
    ((s call.about).after vhcd call).Accounted vhcd := by
  cases call with
  | submit u pipe portnum setupPacket status => exact h.submit (of_decide_eq_true hl) ..
  | enqueue u state => exact h.enqueue (of_decide_eq_true hl) state hsound
  | unlink u reason => exact h.unlink reason
  | complete u data => exact h.complete_slot (of_decide_eq_true hl) data

/-- **Ownership.**  Along every history of requests, whatever their pipes, setup packets
and status, and in whatever state the controller is: every call returns an error and
leaves the request as it was, or gives it back once, at once or by the server, with no
reference left; if and only if the calls meet the condition. -/
theorem vhcd_ownership_iff [DecidableEq U] (vhcd : Word) (kref : U → Int) (calls : List (Call U))
    (hlegal : Along (step vhcd) (legal · ·) (init kref) calls) :
    Along (step vhcd) (Owned vhcd) (init kref) calls ↔
      Along (step vhcd) (sound · ·) (init kref) calls := by
  refine Along.iff_of_invariant (I := fun s => ∀ u, (s u).Accounted vhcd) ?_ ?_ calls _
    (fun u => ⟨fun _ => rfl, nofun⟩) hlegal
  · intro s call hs hl
    cases call with
    | submit u pipe portnum setupPacket status => exact iff_of_true trivial rfl
    | enqueue u state => exact owned_enqueue_iff (hs u) (of_decide_eq_true hl) state
    | unlink u reason => exact iff_of_true trivial rfl
    | complete u data =>
        exact iff_of_true ((hs u).complete (of_decide_eq_true hl) data) rfl
  · intro s call hs hl hsound
    exact (Function.forall_update_iff s (fun _ slot => slot.Accounted vhcd)).mpr
      ⟨(hs call.about).after hl hsound, fun u _ => hs u⟩

/-- A descriptor is read by the server, and an address is set. -/
theorem vhcd_ownership_control :
    Along (step 1) (Owned 1) (init (fun _ : Unit => 1))
      [.submit () 0x80000080 1 (some ⟨0x80, 6, 0x100, 0, 8⟩) (-115), .enqueue () 1,
        .complete () ⟨18, 1, 0, 0, 0⟩,
        .submit () 0x80000000 1 (some ⟨0, 5, 1, 0, 0⟩) (-115), .enqueue () 1] :=
  (vhcd_ownership_iff _ _ _ (by decide)).mpr (by decide)

/-- **A reference is left.**  A bulk request to the device 1 is answered by an error. -/
theorem vhcd_reference_left :
    Along (step 1) (legal · ·) (init (fun _ : Unit => 1))
        [.submit () 0xc0000100 1 none (-115), .enqueue () 1] ∧
      ¬ Along (step 1) (Owned 1) (init (fun _ : Unit => 1))
        [.submit () 0xc0000100 1 none (-115), .enqueue () 1] := by
  refine ⟨by decide, ?_⟩
  rintro ⟨-, howned, -⟩
  revert howned
  simp only [Owned]
  decide

/-! ## The final status -/

/-- The condition: a request that is rejected, or completed by the server, has been
unlinked in the meantime. -/
def unlinkedBefore (s : State U) : Call U → Bool
  | .enqueue u state =>
      (s u).entry ≠ -einprogress || (s u).urb.status ≠ -einprogress ||
        exit state (s u).urb ≠ .rejected
  | .complete u _ => (s u).entry ≠ -einprogress || (s u).urb.status ≠ -einprogress
  | _ => true

/-- A request on its way to the controller is in progress or unlinked, and one at the
server belongs to the controller. -/
structure Slot.Marked (vhcd : Word) (slot : Slot) : Prop where
  negative : slot.owner = .core → slot.entry = -einprogress → slot.urb.status < 0
  hcpriv : slot.owner = .server → slot.urb.hcpriv = vhcd

theorem Slot.Marked.submit (h : slot.Marked vhcd) (pipe portnum : Word)
    (setupPacket : Option CtrlRequest) (status : Int) :
    (slot.submit pipe portnum setupPacket status).Marked vhcd := by
  rw [Slot.submit]
  split
  · exact h
  · refine ⟨fun _ hentry => ?_, nofun⟩
    show status < 0
    rw [show status = -einprogress from hentry]
    decide

theorem Reason.status_neg (reason : Reason) : reason.status < 0 := by
  cases reason with
  | econnreset => decide
  | enoent => decide
  | eshutdown => decide

theorem Slot.Marked.unlink (h : slot.Marked vhcd) (reason : Reason) :
    (slot.unlink reason).Marked vhcd := by
  rw [Slot.unlink]
  split
  · exact ⟨fun _ _ => reason.status_neg, h.hcpriv⟩
  · exact h

/-- The controller leaves no request with the core. -/
theorem enqueue_owner_ne_core (slot : Slot) (state : Word) :
    (slot.enqueue vhcd state).owner ≠ .core := by
  simp only [Slot.enqueue]
  split
  · nofun
  · split
    · nofun
    · nofun

theorem Slot.Marked.enqueue (slot : Slot) (state : Word) :
    (slot.enqueue vhcd state).Marked vhcd := by
  refine ⟨fun howner => absurd howner (enqueue_owner_ne_core slot state), ?_⟩
  simp only [Slot.enqueue, vhcdUrbEnqueue_eq]
  cases exit state slot.urb with
  | halted => nofun
  | rejected => nofun
  | addressed => nofun
  | unlinked =>
      simp only [Exit.outcome, Option.isSome_none, Bool.false_eq_true, if_false]
      intro howner
      by_cases hstatus : slot.urb.status = 0
      · simp [hstatus] at howner
      · simp [hstatus] at howner
  | unsupported => nofun
  | handedOver => exact fun _ => rfl

theorem Slot.Marked.complete (h : slot.Marked vhcd) (data : CtrlRequest) :
    (slot.complete vhcd data).Marked vhcd := by
  rw [Slot.complete]
  split
  · exact h
  · exact ⟨nofun, nofun⟩

theorem Slot.Marked.after {call : Call U} (h : (s call.about).Marked vhcd) :
    ((s call.about).after vhcd call).Marked vhcd := by
  cases call with
  | submit u pipe portnum setupPacket status => exact h.submit ..
  | enqueue u state => exact .enqueue ..
  | unlink u reason => exact h.unlink reason
  | complete u data => exact h.complete data

theorem Giveback.final_iff {g : Giveback} {entry : Int}
    (hneg : entry = -einprogress → g.ret < 0 → g.status < 0) :
    g.Final entry ↔ entry ≠ -einprogress ∨ g.status ≠ -einprogress := by
  constructor
  · intro hfinal
    by_cases hentry : entry = -einprogress
    · exact .inr (hfinal hentry).1
    · exact .inl hentry
  · rintro (hentry | hstatus) hin
    · exact absurd hin hentry
    · exact ⟨hstatus, hneg hin⟩

theorem settled_enqueue_iff (h : (s u).Marked vhcd) (howner : (s u).owner = .core)
    (state : Word) :
    Settled vhcd s (.enqueue u state) ↔ unlinkedBefore s (.enqueue u state) = true := by
  simp only [Settled, unlinkedBefore, vhcdUrbEnqueue_eq]
  cases exit state (s u).urb with
  | halted => simp [Exit.outcome]
  | rejected =>
      simp only [Exit.outcome, noNeedXmit, List.mem_singleton, forall_eq, ne_eq,
        not_true_eq_false, decide_false, Bool.or_false, Bool.or_eq_true, decide_eq_true_eq]
      exact Giveback.final_iff (fun hentry _ => h.negative howner hentry)
  | addressed =>
      refine iff_of_true ?_ (by simp)
      simp only [Exit.outcome, noNeedXmit, List.mem_singleton, forall_eq]
      refine fun _ => ⟨?_, nofun⟩
      split
      · show (0 : Int) ≠ -einprogress
        decide
      · assumption
  | unlinked => simp [Exit.outcome]
  | unsupported => simp [Exit.outcome]
  | handedOver => simp [Exit.outcome]

theorem settled_complete_iff (h : (s u).Marked vhcd) (howner : (s u).owner = .server)
    (data : CtrlRequest) :
    Settled vhcd s (.complete u data) ↔ unlinkedBefore s (.complete u data) = true := by
  simp only [Settled, unlinkedBefore, ddeLinux26UsbVhcdUrbComplete, if_pos (h.hcpriv howner),
    Option.some.injEq, forall_eq', List.mem_singleton, forall_eq, Bool.or_eq_true,
    decide_eq_true_eq]
  exact Giveback.final_iff nofun

/-- **The final status.**  Along every history of requests: whenever a request that was in
progress at its submission is given back, it has another status, and a negative one if it
was rejected; if and only if every request that is rejected or completed by the server was
unlinked before. -/
theorem vhcd_final_status_iff [DecidableEq U] (vhcd : Word) (kref : U → Int)
    (calls : List (Call U)) (hlegal : Along (step vhcd) (legal · ·) (init kref) calls) :
    Along (step vhcd) (Settled vhcd) (init kref) calls ↔
      Along (step vhcd) (unlinkedBefore · ·) (init kref) calls := by
  refine Along.iff_of_invariant (I := fun s => ∀ u, (s u).Marked vhcd) ?_ ?_ calls _
    (fun u => ⟨nofun, nofun⟩) hlegal
  · intro s call hs hl
    cases call with
    | submit u pipe portnum setupPacket status => exact iff_of_true trivial rfl
    | enqueue u state => exact settled_enqueue_iff (hs u) (of_decide_eq_true hl) state
    | unlink u reason => exact iff_of_true trivial rfl
    | complete u data => exact settled_complete_iff (hs u) (of_decide_eq_true hl) data
  · intro s call hs _ _
    exact (Function.forall_update_iff s (fun _ slot => slot.Marked vhcd)).mpr
      ⟨(hs call.about).after, fun u _ => hs u⟩

/-- An address is set, and a descriptor is not waited for. -/
theorem vhcd_final_status_unlinked :
    Along (step 1) (Settled 1) (init (fun _ : Unit => 1))
      [.submit () 0x80000000 1 (some ⟨0, 5, 1, 0, 0⟩) (-115), .enqueue () 1,
        .submit () 0x80000100 1 (some ⟨0x80, 6, 0x100, 0, 8⟩) (-115), .enqueue () 1,
        .unlink () .econnreset, .complete () ⟨18, 1, 0, 0, 0⟩] :=
  (vhcd_final_status_iff _ _ _ (by decide)).mpr (by decide)

/-- **In progress for ever.**  The server reads the descriptor, and a request that is not
known is rejected; both come back in progress. -/
theorem vhcd_in_progress :
    Along (step 1) (legal · ·) (init (fun _ : Unit => 1))
        [.submit () 0x80000080 1 (some ⟨0x80, 6, 0x100, 0, 8⟩) (-115), .enqueue () 1,
          .complete () ⟨18, 1, 0, 0, 0⟩] ∧
      ¬ Along (step 1) (Settled 1) (init (fun _ : Unit => 1))
        [.submit () 0x80000080 1 (some ⟨0x80, 6, 0x100, 0, 8⟩) (-115), .enqueue () 1,
          .complete () ⟨18, 1, 0, 0, 0⟩] ∧
      ¬ Along (step 1) (Settled 1) (init (fun _ : Unit => 1))
        [.submit () 0x80000000 1 (some ⟨0, 9, 1, 0, 0⟩) (-115), .enqueue () 1] := by
  refine ⟨by decide, ?_, ?_⟩
  · rintro ⟨-, -, hsettled, -⟩
    exact (hsettled _ rfl _ (List.mem_singleton_self _) rfl).1 rfl
  · rintro ⟨-, hsettled, -⟩
    exact (hsettled _ (List.mem_singleton_self _) rfl).1 rfl

end

end LinuxDrivers.Usb.Vhcd
