/-
# `LinuxDrivers.Usb.ControlUrb` — what a control request allocates

A control request for a virtual USB device allocates three things, and most of its ways out leave
some of them behind:

    dde_linux26_usb_vdev_submit_control_urb           URB   context   setup buffer
        no URB
        no context                                    free
        SET_INTERFACE, CLEAR_FEATURE (halt)           left  left
        no setup buffer: memcpy to NULL               left  left
        usb_submit_urb fails                          left  left      left
        usb_submit_urb succeeds                       (the handler)   left
    urb_completion_handler                            free  free

The URB is counted: the host controller driver has a reference of its own from the submission to
the end of the completion, and the last one to drop it frees it.  Of that driver it is assumed what
the kernel's comment says, that it gives a URB back if it has taken it, and only then, and once.

**Proved here.**

    nothing is freed twice, the callback comes exactly once for a URB that was submitted, and
    what was allocated is released only where an allocation failed        (`control_urb_iff`)
-/
import LinuxDrivers.Basic
import LinuxDrivers.Lib.Machine

namespace LinuxDrivers.Usb.ControlUrb

open LinuxDrivers.Lib

/-! ## Requests -/

/-- `struct usb_ctrlrequest`, the 8 bytes of a setup packet -/
structure CtrlRequest where
  bRequestType : BitVec 8
  bRequest : BitVec 8
  wValue : BitVec 16
  wIndex : BitVec 16
  wLength : BitVec 16
  deriving DecidableEq, Repr

structure Request where
  /-- `dev->devnum` -/
  devnum : Word
  endpoint : Word
  directionInput : Word
  data : CtrlRequest
  deriving DecidableEq, Repr

/-- How `usb_submit_urb` ends: with an error before or after the host controller driver has got its
reference, or not with an error. -/
inductive Submission where
  | refused
  | failed
  | accepted
  deriving DecidableEq, Repr

/-- What becomes of the allocations and of the submission. -/
structure Outcome where
  urb : Bool
  context : Bool
  setup : Bool
  submission : Submission
  deriving DecidableEq, Repr

/-- `USB_REQ_SET_INTERFACE` for an interface -/
def CtrlRequest.setInterface (req : CtrlRequest) : Bool :=
  req.bRequest == 0x0B && req.bRequestType == 0x01

/-- `USB_REQ_CLEAR_FEATURE` for an endpoint, `USB_ENDPOINT_HALT` -/
def CtrlRequest.clearHalt (req : CtrlRequest) : Bool :=
  req.bRequest == 0x01 && req.bRequestType == 0x02 && req.wValue == 0

/-! ## Pipes -/

/-- `PIPE_CONTROL << 30` -/
def pipeControl : Word := (2 : Word) <<< 30

/-- `USB_DIR_IN` -/
def usbDirIn : Word := 0x80

def createPipe (devnum endpoint : Word) : Word := (devnum <<< 8) ||| (endpoint <<< 15)

def usbSndctrlpipe (devnum endpoint : Word) : Word := pipeControl ||| createPipe devnum endpoint

def usbRcvctrlpipe (devnum endpoint : Word) : Word :=
  pipeControl ||| createPipe devnum endpoint ||| usbDirIn

def Request.pipe (r : Request) : Word :=
  if r.directionInput ≠ 0 then usbRcvctrlpipe r.devnum r.endpoint
  else usbSndctrlpipe r.devnum r.endpoint

/-! ## Allocations -/

/-- How often something has been allocated and freed. -/
structure Count where
  allocated : Nat
  freed : Nat
  deriving DecidableEq, Repr

/-- What there is of a request: its allocations, the URB, and (history) what has happened to it. -/
structure Ledger where
  urbs : Count
  contexts : Count
  setups : Count
  /-- `urb->kref` -/
  kref : Nat
  /-- `urb->pipe`, once it is set -/
  pipe : Option Word
  /-- the setup packet the URB points to -/
  setupPacket : Option CtrlRequest
  submitted : Bool
  /-- the host controller driver has it -/
  inFlight : Bool
  callbacks : Nat
  /-- the thread has written to `NULL` -/
  faulted : Bool
  deriving DecidableEq, Repr

def Ledger.empty : Ledger where
  urbs := ⟨0, 0⟩
  contexts := ⟨0, 0⟩
  setups := ⟨0, 0⟩
  kref := 0
  pipe := none
  setupPacket := none
  submitted := false
  inFlight := false
  callbacks := 0
  faulted := false

def usbAllocUrb (l : Ledger) : Ledger :=
  { l with urbs := { l.urbs with allocated := l.urbs.allocated + 1 }, kref := 1 }

def usbGetUrb (l : Ledger) : Ledger := { l with kref := l.kref + 1 }

/-- `usb_free_urb`, which is `usb_put_urb` as well: the last reference frees the URB. -/
def usbFreeUrb (l : Ledger) : Ledger :=
  if l.kref = 1 then { l with kref := 0, urbs := { l.urbs with freed := l.urbs.freed + 1 } }
  else { l with kref := l.kref - 1 }

def allocContext (l : Ledger) : Ledger :=
  { l with contexts := { l.contexts with allocated := l.contexts.allocated + 1 } }

/-- `usb_buffer_alloc` for the setup packet, and the `memcpy` into it -/
def allocSetup (data : CtrlRequest) (l : Ledger) : Ledger :=
  { l with
    setups := { l.setups with allocated := l.setups.allocated + 1 }
    setupPacket := some data }

/-- `usb_submit_urb`, with `usb_hcd_submit_urb` -/
def usbSubmitUrb (submission : Submission) (l : Ledger) : Ledger :=
  match submission with
  | .refused => l
  | .failed => usbFreeUrb (usbGetUrb l)
  | .accepted => { usbGetUrb l with submitted := true, inFlight := true }

/-- `dde_linux26_usb_vdev_submit_control_urb` -/
def submitControlUrb (r : Request) (o : Outcome) : Ledger :=
  if !o.urb then .empty
  else
    let l := usbAllocUrb .empty
    if !o.context then usbFreeUrb l
    else
      let l := allocContext l
      if r.data.setInterface then l
      else if r.data.clearHalt then l
      else
        let l := { l with pipe := some r.pipe }
        if !o.setup then { l with faulted := true }
        else usbSubmitUrb o.submission (allocSetup r.data l)

def urbCompletionHandler (l : Ledger) : Ledger :=
  let l := { l with callbacks := l.callbacks + 1 }
  let l := { l with contexts := { l.contexts with freed := l.contexts.freed + 1 } }
  usbFreeUrb l

/-- `usb_hcd_giveback_urb` -/
def usbHcdGivebackUrb (l : Ledger) : Ledger :=
  usbFreeUrb (urbCompletionHandler { l with inFlight := false })

/-! ## Runs

The requests that were made, each with its ledger; they end in any order. -/

inductive Call where
  | submit (r : Request) (o : Outcome)
  | giveback (i : Nat)
  deriving DecidableEq, Repr

/-- The host controller driver gives back only what it has. -/
def step (ledgers : List Ledger) : Call → Option (List Ledger)
  | .submit r o => some (ledgers ++ [submitControlUrb r o])
  | .giveback i =>
      match ledgers[i]? with
      | none => none
      | some l => if l.inFlight then some (ledgers.set i (usbHcdGivebackUrb l)) else none

def machine : Machine (List Ledger) Call where
  init ledgers := ledgers = []
  step := step

/-- Requests and outcomes of these kinds. -/
def allowed (uses : Request → Outcome → Prop) (_ : List Ledger) : Call → Prop
  | .submit r o => uses r o
  | .giveback _ => True

/-! ## What is to hold of a request -/

/-- Allocated once at most, and freed no more often than allocated. -/
def Count.Once (c : Count) : Prop := c.allocated ≤ 1 ∧ c.freed ≤ c.allocated

instance (c : Count) : Decidable c.Once :=
  inferInstanceAs (Decidable (c.allocated ≤ 1 ∧ c.freed ≤ c.allocated))

structure Ledger.Once (l : Ledger) : Prop where
  urbs : l.urbs.Once
  contexts : l.contexts.Once
  setups : l.setups.Once
  callbacks : l.callbacks = if l.submitted && !l.inFlight then 1 else 0

/-- All that was allocated has been freed. -/
structure Ledger.Released (l : Ledger) : Prop where
  urbs : l.urbs.freed = l.urbs.allocated
  contexts : l.contexts.freed = l.contexts.allocated
  setups : l.setups.freed = l.setups.allocated

/-! ## What becomes of a request -/

/-- The ways a request can be, whose allocations had these outcomes. -/
inductive Fate (o : Outcome) (l : Ledger) : Prop
  /-- an allocation has failed in time -/
  | spared : o.urb = false ∨ o.context = false → l.urbs = ⟨0, 0⟩ ∨ l.urbs = ⟨1, 1⟩ →
      l.contexts = ⟨0, 0⟩ → l.setups = ⟨0, 0⟩ → l.callbacks = 0 → l.submitted = false →
      l.inFlight = false → Fate o l
  /-- the function has returned without a submission -/
  | abandoned : o.urb = true → o.context = true → l.urbs = ⟨1, 0⟩ → l.contexts = ⟨1, 0⟩ →
      l.setups = ⟨0, 0⟩ ∨ l.setups = ⟨1, 0⟩ → l.callbacks = 0 → l.submitted = false →
      l.inFlight = false → Fate o l
  /-- the host controller driver has it -/
  | flying : o.urb = true → o.context = true → l.urbs = ⟨1, 0⟩ → l.contexts = ⟨1, 0⟩ →
      l.setups = ⟨1, 0⟩ → l.kref = 2 → l.callbacks = 0 → l.submitted = true →
      l.inFlight = true → Fate o l
  /-- it is completed -/
  | completed : o.urb = true → o.context = true → l.urbs = ⟨1, 1⟩ → l.contexts = ⟨1, 1⟩ →
      l.setups = ⟨1, 0⟩ → l.callbacks = 1 → l.submitted = true → l.inFlight = false → Fate o l

section

variable {r : Request} {o : Outcome} {l : Ledger}

/-- The exits of the function. -/
theorem submit_cases (r : Request) (o : Outcome) :
    o.urb = false ∧ submitControlUrb r o = .empty ∨
    o.context = false ∧ submitControlUrb r o = usbFreeUrb (usbAllocUrb .empty) ∨
    o.urb = true ∧ o.context = true ∧
      (submitControlUrb r o = allocContext (usbAllocUrb .empty) ∨
        submitControlUrb r o =
          { allocContext (usbAllocUrb .empty) with pipe := some r.pipe, faulted := true } ∨
        submitControlUrb r o = usbSubmitUrb o.submission (allocSetup r.data
          { allocContext (usbAllocUrb .empty) with pipe := some r.pipe })) := by
  obtain ⟨urb, context, setup, submission⟩ := o
  cases urb with
  | false => exact .inl ⟨rfl, rfl⟩
  | true =>
      cases context with
      | false => exact .inr (.inl ⟨rfl, rfl⟩)
      | true =>
          refine .inr (.inr ⟨rfl, rfl, ?_⟩)
          simp only [submitControlUrb, Bool.not_true, Bool.false_eq_true, if_false]
          split
          · exact .inl rfl
          · split
            · exact .inl rfl
            · cases setup with
              | false => exact .inr (.inl rfl)
              | true => exact .inr (.inr rfl)

theorem submit_fate (r : Request) (o : Outcome) : Fate o (submitControlUrb r o) := by
  rcases submit_cases r o with ⟨hurb, h⟩ | ⟨hcontext, h⟩ | ⟨hurb, hcontext, h | h | h⟩
  · rw [h]
    exact .spared (.inl hurb) (.inl rfl) rfl rfl rfl rfl rfl
  · rw [h]
    exact .spared (.inr hcontext) (.inr rfl) rfl rfl rfl rfl rfl
  · rw [h]
    exact .abandoned hurb hcontext rfl rfl (.inl rfl) rfl rfl rfl
  · rw [h]
    exact .abandoned hurb hcontext rfl rfl (.inl rfl) rfl rfl rfl
  · rw [h]
    cases o.submission with
    | refused => exact .abandoned hurb hcontext rfl rfl (.inr rfl) rfl rfl rfl
    | failed => exact .abandoned hurb hcontext rfl rfl (.inr rfl) rfl rfl rfl
    | accepted => exact .flying hurb hcontext rfl rfl rfl rfl rfl rfl rfl

/-- The completion: both references to the URB are dropped, and nobody has kept the setup
buffer. -/
theorem giveback_fate (h : Fate o l) (hfly : l.inFlight = true) :
    Fate o (usbHcdGivebackUrb l) ∧ (usbHcdGivebackUrb l).inFlight = false := by
  cases h with
  | spared _ _ _ _ _ _ hno => exact absurd (hfly.symm.trans hno) (by decide)
  | abandoned _ _ _ _ _ _ _ hno => exact absurd (hfly.symm.trans hno) (by decide)
  | completed _ _ _ _ _ _ _ hno => exact absurd (hfly.symm.trans hno) (by decide)
  | flying hurb hcontext hurbs hcontexts hsetups hkref hcallbacks hsubmitted _ =>
      have hend : usbHcdGivebackUrb l =
          { l with
            urbs := ⟨1, 1⟩
            contexts := ⟨1, 1⟩
            kref := 0
            callbacks := 1
            inFlight := false } := by
        simp [usbHcdGivebackUrb, urbCompletionHandler, usbFreeUrb, hkref, hurbs, hcontexts,
          hcallbacks]
      rw [hend]
      exact ⟨.completed hurb hcontext rfl rfl hsetups rfl hsubmitted rfl, rfl⟩

theorem Count.Once.of {c : Count} (h : c = ⟨0, 0⟩ ∨ c = ⟨1, 0⟩ ∨ c = ⟨1, 1⟩) : c.Once := by
  rcases h with rfl | rfl | rfl
  · decide
  · decide
  · decide

theorem Fate.once (h : Fate o l) : l.Once := by
  cases h with
  | spared _ hurbs hcontexts hsetups hcallbacks hsubmitted _ =>
      refine ⟨.of (hurbs.imp_right .inr), .of (.inl hcontexts),
        .of (.inl hsetups), ?_⟩
      rw [hcallbacks, hsubmitted]
      rfl
  | abandoned _ _ hurbs hcontexts hsetups hcallbacks hsubmitted _ =>
      refine ⟨.of (.inr (.inl hurbs)), .of (.inr (.inl hcontexts)),
        .of (hsetups.imp_right .inl), ?_⟩
      rw [hcallbacks, hsubmitted]
      rfl
  | flying _ _ hurbs hcontexts hsetups _ hcallbacks _ hfly =>
      refine ⟨.of (.inr (.inl hurbs)), .of (.inr (.inl hcontexts)),
        .of (.inr (.inl hsetups)), ?_⟩
      rw [hcallbacks, hfly, Bool.not_true, Bool.and_false]
      rfl
  | completed _ _ hurbs hcontexts hsetups hcallbacks hsubmitted hfly =>
      refine ⟨.of (.inr (.inr hurbs)), .of (.inr (.inr hcontexts)),
        .of (.inr (.inl hsetups)), ?_⟩
      rw [hcallbacks, hsubmitted, hfly]
      rfl

/-- Everything is released where an allocation has failed in time, and only there. -/
theorem Fate.released_iff (h : Fate o l) (hfly : l.inFlight = false) :
    l.Released ↔ o.urb = false ∨ o.context = false := by
  cases h with
  | spared hfailed hurbs hcontexts hsetups _ _ _ =>
      refine ⟨fun _ => hfailed, fun _ => ⟨?_, ?_, ?_⟩⟩
      · rcases hurbs with hurbs | hurbs
        · rw [hurbs]
        · rw [hurbs]
      · rw [hcontexts]
      · rw [hsetups]
  | abandoned hurb hcontext hurbs _ _ _ _ _ =>
      rw [hurb, hcontext]
      refine ⟨fun hreleased => ?_, by simp⟩
      have := hreleased.urbs
      rw [hurbs] at this
      cases this
  | flying _ _ _ _ _ _ _ _ hyes => exact absurd (hyes.symm.trans hfly) (by decide)
  | completed hurb hcontext _ _ hsetups _ _ _ =>
      rw [hurb, hcontext]
      refine ⟨fun hreleased => ?_, by simp⟩
      have := hreleased.setups
      rw [hsetups] at this
      cases this

end

/-! ## Every run -/

section

variable {uses : Request → Outcome → Prop} {ledgers : List Ledger}

/-- What every run keeps. -/
theorem reach_fate (h : machine.Reach (allowed uses) ledgers) :
    ∀ l ∈ ledgers, ∃ r o, uses r o ∧ Fate o l := by
  induction h with
  | init hinit =>
      rw [show _ = [] from hinit]
      intro l hl
      cases hl
  | @step ledgers ledgers' call _ hok hstep ih =>
      cases call with
      | submit r o =>
          cases hstep
          intro l hl
          rcases List.mem_append.mp hl with hold | hnew
          · exact ih l hold
          · rw [List.mem_singleton.mp hnew]
            exact ⟨r, o, hok, submit_fate r o⟩
      | giveback i =>
          simp only [machine, step] at hstep
          cases hi : ledgers[i]? with
          | none =>
              rw [hi] at hstep
              cases hstep
          | some l₀ =>
              simp only [hi] at hstep
              split at hstep
              · rename_i hfly
                cases hstep
                intro l hl
                rcases List.mem_or_eq_of_mem_set hl with hold | rfl
                · exact ih l hold
                · obtain ⟨r, o, huse, hfate⟩ := ih l₀ (List.mem_of_getElem? hi)
                  exact ⟨r, o, huse, (giveback_fate hfate hfly).1⟩
              · cases hstep

/-- Every request can be brought to its end. -/
theorem reach_end (r : Request) (o : Outcome) (huse : uses r o) :
    ∃ l, machine.Reach (allowed uses) [l] ∧ Fate o l ∧ l.inFlight = false := by
  have hsubmit : machine.Reach (allowed uses) [submitControlUrb r o] :=
    .step (.submit r o) (.init rfl) huse rfl
  have hfate := submit_fate r o
  cases hfly : (submitControlUrb r o).inFlight with
  | false => exact ⟨_, hsubmit, hfate, hfly⟩
  | true =>
      obtain ⟨hfate', hfly'⟩ := giveback_fate hfate hfly
      refine ⟨_, .step (.giveback 0) hsubmit trivial ?_, hfate', hfly'⟩
      simp only [machine, step, List.getElem?_cons_zero, hfly, if_true, List.set_cons_zero]

end

/-- For requests and outcomes of any kinds, and in every run: nothing is freed more often than it
was allocated, and the callback has come exactly once for every URB that was submitted and given
back, and not at all for the others.  And all that a request has allocated is freed by its end,
whatever the run, if and only if the allocation of the URB or of the context always fails. -/
theorem control_urb_iff (uses : Request → Outcome → Prop) :
    (∀ ledgers, machine.Reach (allowed uses) ledgers → ∀ l ∈ ledgers, l.Once) ∧
    ((∀ ledgers, machine.Reach (allowed uses) ledgers →
        ∀ l ∈ ledgers, l.inFlight = false → l.Released) ↔
      ∀ r o, uses r o → o.urb = false ∨ o.context = false) := by
  refine ⟨?_, ?_, ?_⟩
  · intro ledgers h l hl
    obtain ⟨r, o, _, hfate⟩ := reach_fate h l hl
    exact hfate.once
  · intro h r o huse
    obtain ⟨l, hreach, hfate, hfly⟩ := reach_end r o huse
    exact (hfate.released_iff hfly).mp (h [l] hreach l List.mem_cons_self hfly)
  · intro hfail ledgers h l hl hfly
    obtain ⟨r, o, huse, hfate⟩ := reach_fate h l hl
    exact (hfate.released_iff hfly).mpr (hfail r o huse)

/-- `GET_DESCRIPTOR`, submitted and completed: the setup buffer is left. -/
theorem control_urb_setup_left :
    (machine.run [] [.submit ⟨1, 0, 1, ⟨0x80, 6, 0x100, 0, 18⟩⟩ ⟨true, true, true, .accepted⟩,
        .giveback 0]).map (·.map (fun l => (l.urbs, l.contexts, l.setups, l.callbacks))) =
      some [(⟨1, 1⟩, ⟨1, 1⟩, ⟨1, 0⟩, 1)] := by
  decide

end LinuxDrivers.Usb.ControlUrb
