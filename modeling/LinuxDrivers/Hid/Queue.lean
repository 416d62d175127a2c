/-
# `LinuxDrivers.Hid.Queue` — the queues of reports to and from a device

`usbhid_submit_report` (`drivers/usb/input/hid-core.c`) puts a report into one of two rings: the
one of the interrupt pipe, for output reports of a device that has such a pipe, or the one of the
control pipe, for everything else.  Each ring has one URB, and a flag that says that the URB is
under way:

    usbhid_submit_report   enters the report, and submits the URB unless the flag is set
    hid_submit_out, _ctrl  fill the URB from the entry at the tail and give it to the controller
    hid_irq_out, hid_ctrl  run when the URB is done: they move the tail on, or up to the head if
                           the device is gone, and submit the URB again if there is an entry left

A ring and its flag belong to a lock, so each of these is one step.  The values of a report do not:
any thread may set them at any time, and `hid_output_report` reads them when the URB is filled, not
when the report is entered.

**Proved here.**  For all runs, with any mix of threads that set values and submit reports, of
transfers that succeed or fail, and of URBs that the controller takes or refuses
(`reports_reach_device`):

    the flag of a ring is set exactly while its URB is under way, the URB carries the oldest entry,
    and it is never submitted while it is under way
    the entries are finished in the order they were submitted in, each once
    a ring whose URB is not under way is empty, or the controller has refused the URB
    a report is turned away exactly if its ring is full, or if it is a question and the device does
    not like questions
    once the ring of a report is empty, the device has the values of the report, unless they were
    changed and not submitted since, or the last transfer of it has failed

An answer to `Get_Report` changes the values as any thread may: the driver takes what it can read
of it, which need not be what the device has.  How the bytes of a report carry its values, and which
reports fit the buffers, is in `Hid.Report`.
-/
import LinuxDrivers.Lib.Machine
import LinuxDrivers.Lib.Ring
import LinuxDrivers.Hid.Parser

namespace LinuxDrivers.Hid.Queue

open LinuxDrivers.Lib

/-! ## Entries and transfers -/

/-- `USB_DIR_OUT`, `USB_DIR_IN` -/
inductive Dir where
  | out
  | input
  deriving DecidableEq, Repr

/-- A report is known by its type and its number. -/
structure ReportRef where
  type : ReportType
  id : Nat
  deriving DecidableEq, Repr

structure HidControlFifo where
  dir : Dir
  report : ReportRef
  deriving DecidableEq, Repr

/-- `HID_OUTPUT_FIFO_SIZE` and `HID_CONTROL_FIFO_SIZE`, as powers of two -/
def hidOutputFifoBits : Nat := 6
def hidControlFifoBits : Nat := 8

/-- What of `urb->status` the completion handlers look at: success, `-ESHUTDOWN` or another. -/
inductive Status where
  | success
  | shutdown
  | error
  deriving DecidableEq, Repr

variable {V : Type}

/-- What a URB carries: the values of a report for the device, or a question for them. -/
inductive Transfer (V : Type) where
  | setReport (r : ReportRef) (v : V)
  | getReport (r : ReportRef)
  deriving DecidableEq, Repr

/-- How `hid_submit_out` and `hid_submit_ctrl` fill the URB. -/
def fill (value : ReportRef → V) (e : HidControlFifo) : Transfer V :=
  match e.dir with
  | .out => .setReport e.report (value e.report)
  | .input => .getReport e.report

def Transfer.entry : Transfer V → HidControlFifo
  | .setReport r _ => ⟨.out, r⟩
  | .getReport r => ⟨.input, r⟩

/-- The values the device has after a transfer. -/
def Transfer.deliver (t : Transfer V) (agreed : ReportRef → V) : ReportRef → V :=
  match t with
  | .setReport r v => Function.update agreed r v
  | .getReport _ => agreed

/-! ## A ring and its URB -/

/-- `urb` is what the controller has of the URB.  The rest is history: the result of the last
`usb_submit_urb`, whether one was for a URB under way, the entries so far, and those that are
finished, with their success. -/
structure Pipe (V : Type) (k : Nat) where
  fifo : Ring HidControlFifo k
  running : Bool
  urb : Option (Transfer V)
  failed : Bool
  twice : Bool
  accepted : List HidControlFifo
  finished : List (HidControlFifo × Bool)

variable {k : Nat}

/-- `hid_submit_out`, `hid_submit_ctrl`: `ok` says whether the controller takes the URB, which it
never does if it has it already. -/
def hidSubmit (value : ReportRef → V) (ok : Bool) (p : Pipe V k) : Pipe V k :=
  if ok ∧ p.urb = none then
    { p with urb := some (fill value p.fifo.oldest), failed := false }
  else { p with failed := true, twice := p.twice || p.urb.isSome }

/-- The URB is submitted, and the flag cleared again if that fails. -/
def launch (value : ReportRef → V) (ok : Bool) (p : Pipe V k) : Pipe V k :=
  let p := hidSubmit value ok p
  if p.failed then { p with running := false } else p

/-- The part of `usbhid_submit_report` under the lock; `none` if the ring is full. -/
def submitReport (value : ReportRef → V) (ok : Bool) (e : HidControlFifo) (p : Pipe V k) :
    Option (Pipe V k) :=
  match p.fifo.push e with
  | none => none
  | some fifo =>
      let p := { p with fifo := fifo, accepted := p.accepted ++ [e] }
      if p.running then some p else some (launch value ok { p with running := true })

/-- The entries a completion removes. -/
def removed (status : Status) (p : Pipe V k) : List HidControlFifo :=
  if status = .shutdown then p.fifo.contents else [p.fifo.oldest]

/-- The part of `hid_irq_out` and `hid_ctrl` that they have in common. -/
def finish (value : ReportRef → V) (status : Status) (ok : Bool) (p : Pipe V k) : Pipe V k :=
  let p := { p with
    urb := none
    finished := p.finished ++ (removed status p).map (·, decide (status = .success))
    fifo := if status = .shutdown then p.fifo.clear else p.fifo.pop }
  if p.fifo.head ≠ p.fifo.tail then launch value ok p else { p with running := false }

/-! ## The device -/

/-- Whether there is a pipe for output reports, and the quirk `HID_QUIRK_NOGET`. -/
structure Device where
  urbout : Bool
  noGet : Bool
  deriving DecidableEq, Repr

/-- Reports for the device that go through the interrupt pipe. -/
def Device.interrupt (d : Device) (r : ReportRef) : Bool :=
  d.urbout && decide (r.type = .output)

/-- `value` has the values of the reports, `agreed` the ones that the last successful transfer to
the device carried.  `pending` marks the reports that were changed after they were last submitted,
by a thread or by an answer, `unknown` those of which the last transfer failed, or that had none
yet. -/
structure State (V : Type) where
  out : Pipe V hidOutputFifoBits
  ctrl : Pipe V hidControlFifoBits
  value : ReportRef → V
  agreed : ReportRef → V
  pending : ReportRef → Bool
  unknown : ReportRef → Bool

/-- The marks after an entry. -/
def cleared (pending : ReportRef → Bool) (e : HidControlFifo) : ReportRef → Bool :=
  match e.dir with
  | .out => Function.update pending e.report false
  | .input => pending

def State.submitted (s : State V) (e : HidControlFifo) : State V :=
  { s with pending := cleared s.pending e }

def usbhidSubmitReport (d : Device) (e : HidControlFifo) (ok : Bool) (s : State V) : State V :=
  if d.noGet ∧ e.dir = .input then s
  else if e.dir = .out ∧ d.interrupt e.report then
    match submitReport s.value ok e s.out with
    | none => s
    | some out => { s with out := out }.submitted e
  else
    match submitReport s.value ok e s.ctrl with
    | none => s
    | some ctrl => { s with ctrl := ctrl }.submitted e

/-- What the transfer and the end of the entries mean for the device. -/
def State.settle (s : State V) (t : Transfer V) (status : Status) (gone : List HidControlFifo) :
    State V :=
  { s with
    agreed := if status = .success then t.deliver s.agreed else s.agreed
    unknown := fun r => if ⟨.out, r⟩ ∈ gone then decide (status ≠ .success) else s.unknown r }

/-- The values of a report are changed. -/
def State.change (s : State V) (r : ReportRef) (v : V) : State V :=
  { s with
    value := Function.update s.value r v
    pending := Function.update s.pending r true }

/-- `hid_input_report` for the answer to a question: it finds the report by the type of the one
asked for and the number in the data.  `v` are the values after it, whatever the device has. -/
def State.hidInputReport (s : State V) (type : ReportType) (id : Nat) (v : V) : State V :=
  s.change ⟨type, id⟩ v

def hidIrqOut (status : Status) (ok : Bool) (s : State V) : Option (State V) :=
  match s.out.urb with
  | none => none
  | some t =>
      let s := s.settle t status (removed status s.out)
      some { s with out := finish s.value status ok s.out }

/-- Only the answer to a question that succeeded is looked at. -/
def State.answered (s : State V) (status : Status) (e : HidControlFifo)
    (answer : Option (Nat × V)) : State V :=
  match status, e.dir, answer with
  | .success, .input, some (id, v) => s.hidInputReport e.report.type id v
  | _, _, _ => s

/-- `answer` is the number of the report that `hid_input_report` finds in the buffer, if any, and
its values afterwards. -/
def hidCtrl (status : Status) (answer : Option (Nat × V)) (ok : Bool) (s : State V) :
    Option (State V) :=
  match s.ctrl.urb with
  | none => none
  | some t =>
      let s := s.settle t status (removed status s.ctrl)
      let s := s.answered status s.ctrl.fifo.oldest answer
      some { s with ctrl := finish s.value status ok s.ctrl }

/-! ## The machine -/

inductive Action (V : Type) where
  | store (r : ReportRef) (v : V)
  | submit (e : HidControlFifo) (ok : Bool)
  | irqOut (status : Status) (ok : Bool)
  | ctrl (status : Status) (answer : Option (Nat × V)) (ok : Bool)

def step (d : Device) (s : State V) : Action V → Option (State V)
  | .store r v => some (s.change r v)
  | .submit e ok => some (usbhidSubmitReport d e ok s)
  | .irqOut status ok => hidIrqOut status ok s
  | .ctrl status answer ok => hidCtrl status answer ok s

structure Pipe.Fresh (p : Pipe V k) : Prop where
  fifo : p.fifo.head = p.fifo.tail
  running : p.running = false
  urb : p.urb = none
  twice : p.twice = false
  accepted : p.accepted = []
  finished : p.finished = []

structure Start (s : State V) : Prop where
  out : s.out.Fresh
  ctrl : s.ctrl.Fresh
  unknown : ∀ r, s.unknown r = true

def machine (d : Device) : Machine (State V) (Action V) where
  init := Start
  step := step d

/-! ## What a ring does -/

structure Pipe.Ok (p : Pipe V k) : Prop where
  running : p.running = p.urb.isSome
  carries : ∀ t, p.urb = some t → ∃ rest, p.fifo.contents = t.entry :: rest
  idle : p.urb = none → p.fifo.contents = [] ∨ p.failed = true
  twice : p.twice = false
  history : p.accepted = p.finished.map Prod.fst ++ p.fifo.contents

/-- The entries that the URB has not been filled with. -/
def Pipe.waiting (p : Pipe V k) : List HidControlFifo :=
  if p.urb.isSome then p.fifo.contents.tail else p.fifo.contents

/-- The URB stays where it is, or is filled from the first of the entries. -/
inductive Serves (value : ReportRef → V) :
    List HidControlFifo → Option (Transfer V) → List HidControlFifo → Prop
  | stays (es) : Serves value es none es
  | sends (e es) : Serves value (e :: es) (some (fill value e)) es

@[simp] theorem fill_entry (value : ReportRef → V) (e : HidControlFifo) :
    (fill value e).entry = e := by
  obtain ⟨dir, r⟩ := e
  cases dir <;> rfl

variable {p p' : Pipe V k} {s : State V} {r : ReportRef} {urb : Option (Transfer V)}
  {es : List HidControlFifo}

theorem Pipe.Fresh.ok (h : p.Fresh) : p.Ok := by
  have hempty := p.fifo.contents_eq_nil_iff.mpr h.fifo
  constructor
  · rw [h.running, h.urb]
    rfl
  · intro t ht
    rw [h.urb] at ht
    cases ht
  · intro _
    exact .inl hempty
  · exact h.twice
  · rw [h.accepted, h.finished, hempty]
    rfl

theorem Pipe.waiting_none (h : p.urb = none) : p.waiting = p.fifo.contents := by
  rw [Pipe.waiting, h]
  rfl

theorem Pipe.Ok.contents (h : p.Ok) {t : Transfer V} (ht : p.urb = some t) :
    p.fifo.contents = t.entry :: p.waiting := by
  obtain ⟨rest, hrest⟩ := h.carries t ht
  rw [Pipe.waiting, ht, hrest]
  rfl

/-- A URB is not under way without an entry. -/
theorem Pipe.Ok.drained (h : p.Ok) (hempty : p.fifo.contents = []) : p.urb = none := by
  cases hurb : p.urb with
  | none => rfl
  | some t =>
      rw [h.contents hurb] at hempty
      cases hempty

/-- The oldest entry is the one under way. -/
theorem Pipe.Ok.oldest (h : p.Ok) {t : Transfer V} (ht : p.urb = some t) :
    p.fifo.oldest = t.entry ∧ p.fifo.pop.contents = p.waiting := by
  have hcontents := h.contents ht
  have hne : p.fifo.head ≠ p.fifo.tail := by
    intro heq
    rw [p.fifo.contents_eq_nil_iff.mpr heq] at hcontents
    cases hcontents
  rw [Ring.contents_pop hne] at hcontents
  exact List.cons.inj hcontents

/-- A ring with an entry whose URB is to be submitted. -/
theorem launch_ok (value : ReportRef → V) (ok : Bool) (hurb : p.urb = none)
    (hrunning : p.running = true) (htwice : p.twice = false)
    (hhistory : p.accepted = p.finished.map Prod.fst ++ p.fifo.contents)
    (hne : p.fifo.head ≠ p.fifo.tail) :
    (launch value ok p).Ok ∧
      Serves value p.fifo.contents (launch value ok p).urb (launch value ok p).waiting := by
  have hpop := Ring.contents_pop hne
  cases ok with
  | false =>
      have hlaunch : launch value false p =
          { p with urb := none, failed := true, twice := false, running := false } := by
        simp [launch, hidSubmit, hurb, htwice]
      rw [hlaunch]
      exact ⟨⟨rfl, nofun, fun _ => .inr rfl, rfl, hhistory⟩, .stays _⟩
  | true =>
      have hlaunch : launch value true p =
          { p with urb := some (fill value p.fifo.oldest), failed := false } := by
        simp [launch, hidSubmit, hurb]
      rw [hlaunch]
      refine ⟨⟨hrunning, ?_, nofun, htwice, hhistory⟩, ?_⟩
      · intro t ht
        cases ht
        rw [fill_entry]
        exact ⟨_, hpop⟩
      · show Serves value p.fifo.contents (some (fill value p.fifo.oldest)) p.fifo.contents.tail
        rw [hpop]
        exact .sends _ _

@[simp] theorem launch_fifo (value : ReportRef → V) (ok : Bool) (p : Pipe V k) :
    (launch value ok p).fifo = p.fifo := by
  unfold launch hidSubmit
  split <;> rfl

/-- An entry waits behind the others, or the URB is filled from the first of them. -/
theorem submitReport_ok (hp : p.Ok) {value : ReportRef → V} {ok : Bool} {e : HidControlFifo}
    (h : submitReport value ok e p = some p') :
    p'.Ok ∧ p'.fifo.contents = p.fifo.contents ++ [e] ∧
      (p'.urb = p.urb ∧ p'.waiting = p.waiting ++ [e] ∨
        p.urb = none ∧ Serves value (p.waiting ++ [e]) p'.urb p'.waiting) := by
  unfold submitReport at h
  split at h
  · cases h
  · rename_i fifo hpush
    have hcontents := Ring.contents_push hpush
    have hhistory : p.accepted ++ [e] = p.finished.map Prod.fst ++ fifo.contents := by
      rw [hp.history, hcontents, List.append_assoc]
    simp only at h
    split at h
    · rename_i hrunning
      cases h
      obtain ⟨t, ht⟩ := Option.isSome_iff_exists.mp (hp.running ▸ hrunning)
      have hfirst := hp.contents ht
      rw [hfirst] at hcontents
      refine ⟨⟨hp.running, ?_, ?_, hp.twice, hhistory⟩, Ring.contents_push hpush, .inl ⟨rfl, ?_⟩⟩
      · intro t' ht'
        cases ht.symm.trans ht'
        exact ⟨_, hcontents⟩
      · intro hnone
        cases ht.symm.trans hnone
      · show (if p.urb.isSome then fifo.contents.tail else fifo.contents) = _
        rw [ht, hcontents]
        rfl
    · rename_i hidle
      cases h
      have hurb : p.urb = none := by
        rw [hp.running] at hidle
        exact Option.not_isSome_iff_eq_none.mp hidle
      have hne : fifo.head ≠ fifo.tail := by
        intro heq
        rw [fifo.contents_eq_nil_iff.mpr heq] at hcontents
        simp at hcontents
      obtain ⟨hok, hserves⟩ := launch_ok (p := { p with
          fifo := fifo, accepted := p.accepted ++ [e], running := true }) value ok hurb rfl hp.twice
        hhistory hne
      rw [hcontents, ← p.waiting_none hurb] at hserves
      exact ⟨hok, by rw [launch_fifo, hcontents], .inr ⟨hurb, hserves⟩⟩

/-- A report is turned away only if the ring is full. -/
theorem submitReport_none_iff (value : ReportRef → V) (ok : Bool) (e : HidControlFifo)
    (p : Pipe V k) : submitReport value ok e p = none ↔ p.fifo.contents.length + 1 = 2 ^ k := by
  rw [← p.fifo.push_eq_none_iff e]
  unfold submitReport
  split
  · rename_i hnone
    exact iff_of_true rfl hnone
  · rename_i fifo hsome
    rw [hsome]
    simp only
    split <;> exact iff_of_false nofun nofun

theorem submitReport_some (hp : p.Ok) {value : ReportRef → V} {ok : Bool} {e : HidControlFifo}
    (h : submitReport value ok e p = some p') : p' ≠ p ∧ p.fifo.contents.length + 1 ≠ 2 ^ k := by
  constructor
  · rintro rfl
    have hcontents := (submitReport_ok hp h).2.1
    simp at hcontents
  · intro hfull
    cases h.symm.trans ((submitReport_none_iff value ok e p).mpr hfull)

/-- What is left after a completion. -/
def left (status : Status) (p : Pipe V k) : List HidControlFifo :=
  if status = .shutdown then [] else p.waiting

theorem removed_left (hp : p.Ok) {t : Transfer V} (ht : p.urb = some t) (status : Status) :
    p.fifo.contents = removed status p ++ left status p := by
  unfold removed left
  split
  · rw [List.append_nil]
  · rw [hp.contents ht, (hp.oldest ht).1]
    rfl

theorem finish_ok (hp : p.Ok) {t : Transfer V} (ht : p.urb = some t) (value : ReportRef → V)
    (status : Status) (ok : Bool) :
    (finish value status ok p).Ok ∧ (finish value status ok p).fifo.contents = left status p ∧
      Serves value (left status p) (finish value status ok p).urb
        (finish value status ok p).waiting := by
  have hfifo : (if status = .shutdown then p.fifo.clear else p.fifo.pop).contents =
      left status p := by
    unfold left
    split
    · exact p.fifo.contents_clear
    · exact (hp.oldest ht).2
  have hhistory : p.accepted =
      (p.finished ++ (removed status p).map (·, decide (status = .success))).map Prod.fst ++
        left status p := by
    rw [hp.history, removed_left hp ht status]
    simp [Function.comp_def]
  have hrunning : p.running = true := by
    rw [hp.running, ht]
    rfl
  unfold finish
  generalize hgone : (if status = .shutdown then p.fifo.clear else p.fifo.pop) = fifo at hfifo
  simp only
  split
  · rename_i hne
    obtain ⟨hok, hserves⟩ := launch_ok (p := { p with
        urb := none
        finished := p.finished ++ (removed status p).map (·, decide (status = .success))
        fifo := fifo }) value ok rfl hrunning hp.twice (by rw [hhistory, hfifo]) hne
    rw [hfifo] at hserves
    exact ⟨hok, by rw [launch_fifo, hfifo], hserves⟩
  · rename_i heq
    have hempty : fifo.contents = [] := fifo.contents_eq_nil_iff.mpr (not_not.mp heq)
    rw [hfifo] at hempty
    refine ⟨⟨rfl, nofun, fun _ => .inl (hfifo.trans hempty), hp.twice, ?_⟩, hfifo, ?_⟩
    · show p.accepted = _ ++ fifo.contents
      rw [hhistory, hfifo]
    · show Serves value (left status p) none fifo.contents
      rw [hfifo]
      exact .stays _

/-! ## What the device knows -/

/-- The values the device has once the URB is done. -/
def wire (urb : Option (Transfer V)) (agreed : ReportRef → V) : ReportRef → V :=
  match urb with
  | some t => t.deliver agreed
  | none => agreed

theorem deliver_other {t : Transfer V} (h : t.entry ≠ ⟨.out, r⟩) (agreed : ReportRef → V) :
    t.deliver agreed r = agreed r := by
  cases t with
  | setReport r' v =>
      refine Function.update_of_ne ?_ v agreed
      rintro rfl
      exact h rfl
  | getReport r' => rfl

/-- What the device has of a report depends on nothing but what it had of it. -/
theorem wire_congr (urb : Option (Transfer V)) {agreed agreed' : ReportRef → V} {r : ReportRef}
    (h : agreed r = agreed' r) : wire urb agreed r = wire urb agreed' r := by
  cases urb with
  | none => exact h
  | some t =>
      cases t with
      | getReport q => exact h
      | setReport q v =>
          show Function.update agreed q v r = Function.update agreed' q v r
          by_cases hq : r = q
          · subst hq
            rw [Function.update_self, Function.update_self]
          · rw [Function.update_of_ne hq, Function.update_of_ne hq, h]

theorem fill_deliver (value agreed : ReportRef → V) (r : ReportRef) :
    (fill value ⟨.out, r⟩).deliver agreed r = value r := by
  show Function.update agreed r (value r) r = value r
  rw [Function.update_self]

/-- What holds of a report whose URB is not under way, with the entries `es` left: the device has
its values, or it is going to get them, or it is known that it may not have them. -/
def Waits (s : State V) (es : List HidControlFifo) (r : ReportRef) : Prop :=
  s.value r = s.agreed r ∨ ⟨.out, r⟩ ∈ es ∨ s.pending r = true ∨ s.unknown r = true

/-- The same for a URB that may be under way.  If it is under way with the values of the report,
an earlier failure does not matter. -/
def Known (s : State V) (urb : Option (Transfer V)) (es : List HidControlFifo) (r : ReportRef) :
    Prop :=
  s.value r = wire urb s.agreed r ∨ ⟨.out, r⟩ ∈ es ∨ s.pending r = true ∨
    s.unknown r = true ∧ urb.map Transfer.entry ≠ some ⟨.out, r⟩

theorem Known.waits (h : Known s none es r) : Waits s es r := by
  rcases h with hvalue | hes | hpending | ⟨hunknown, -⟩
  · exact .inl hvalue
  · exact .inr (.inl hes)
  · exact .inr (.inr (.inl hpending))
  · exact .inr (.inr (.inr hunknown))

/-- The device is going to get the values of a report that has an entry. -/
theorem Serves.reaches {es rest : List HidControlFifo} (h : Serves s.value es urb rest)
    (hes : ⟨.out, r⟩ ∈ es) : s.value r = wire urb s.agreed r ∨ ⟨.out, r⟩ ∈ rest := by
  cases h with
  | stays => exact .inr hes
  | sends e =>
      rcases List.mem_cons.mp hes with rfl | hmem
      · exact .inl (fill_deliver s.value s.agreed r).symm
      · exact .inr hmem

theorem Serves.known {es rest : List HidControlFifo} (h : Serves s.value es urb rest)
    (hw : Waits s es r) : Known s urb rest r := by
  by_cases hes : (⟨.out, r⟩ : HidControlFifo) ∈ es
  · rcases h.reaches hes with hvalue | hmem
    · exact .inl hvalue
    · exact .inr (.inl hmem)
  · -- the URB is not filled with this report
    have hentry : urb.map Transfer.entry ≠ some ⟨.out, r⟩ := by
      cases h with
      | stays => nofun
      | sends e =>
          intro heq
          rw [Option.map_some, fill_entry] at heq
          exact hes (Option.some.inj heq ▸ List.mem_cons_self)
    have hwire : wire urb s.agreed r = s.agreed r := by
      cases urb with
      | none => rfl
      | some t => exact deliver_other (fun heq => hentry (congrArg some heq)) s.agreed
    rcases hw with hvalue | hmem | hpending | hunknown
    · exact .inl (hvalue.trans hwire.symm)
    · exact absurd hmem hes
    · exact .inr (.inr (.inl hpending))
    · exact .inr (.inr (.inr ⟨hunknown, hentry⟩))

theorem submitReport_reaches (hp : p.Ok) {ok : Bool} {r : ReportRef}
    (h : submitReport s.value ok ⟨.out, r⟩ p = some p') :
    s.value r = wire p'.urb s.agreed r ∨ ⟨.out, r⟩ ∈ p'.waiting := by
  have hmem : (⟨.out, r⟩ : HidControlFifo) ∈ p.waiting ++ [⟨.out, r⟩] :=
    List.mem_append_right _ (List.mem_singleton_self _)
  obtain ⟨-, -, ⟨-, hwaiting⟩ | ⟨-, hserves⟩⟩ := submitReport_ok hp h
  · rw [hwaiting]
    exact .inr hmem
  · exact hserves.reaches hmem

theorem submitReport_known (hp : p.Ok) {ok : Bool} {e : HidControlFifo}
    (h : submitReport s.value ok e p = some p') {r : ReportRef} (hr : Known s p.urb p.waiting r) :
    Known s p'.urb p'.waiting r := by
  obtain ⟨-, -, ⟨hurb, hwaiting⟩ | ⟨hurb, hserves⟩⟩ := submitReport_ok hp h
  · rw [hurb, hwaiting]
    rcases hr with hvalue | hes | hrest
    · exact .inl hvalue
    · exact .inr (.inl (List.mem_append_left _ hes))
    · exact .inr (.inr hrest)
  · refine hserves.known ?_
    rw [hurb] at hr
    rcases hr.waits with hvalue | hes | hrest
    · exact .inl hvalue
    · exact .inr (.inl (List.mem_append_left _ hes))
    · exact .inr (.inr hrest)

/-- A transfer that is done, for a report of its own ring. -/
theorem settle_waits (hp : p.Ok) {t : Transfer V} (ht : p.urb = some t) (status : Status)
    {r : ReportRef} (h : Known s p.urb p.waiting r) :
    Waits (s.settle t status (removed status p)) (left status p) r := by
  rw [ht] at h
  have hfirst : t.entry ∈ removed status p := by
    unfold removed
    split
    · rw [hp.contents ht]
      exact List.mem_cons_self
    · rw [(hp.oldest ht).1]
      exact List.mem_singleton_self _
  by_cases hgone : (⟨.out, r⟩ : HidControlFifo) ∈ removed status p
  · cases status with
    | success =>
        have hentry : t.entry = ⟨.out, r⟩ := by
          have hmem : (⟨.out, r⟩ : HidControlFifo) ∈ [p.fifo.oldest] := hgone
          rw [(hp.oldest ht).1] at hmem
          exact (List.mem_singleton.mp hmem).symm
        rcases h with hvalue | hes | hpending | ⟨-, hne⟩
        · exact .inl hvalue
        · exact .inr (.inl hes)
        · exact .inr (.inr (.inl hpending))
        · exact absurd (congrArg some hentry) hne
    | shutdown => exact .inr (.inr (.inr (if_pos hgone)))
    | error => exact .inr (.inr (.inr (if_pos hgone)))
  · have hentry : t.entry ≠ ⟨.out, r⟩ := by
      intro heq
      rw [heq] at hfirst
      exact hgone hfirst
    have hagreed : (s.settle t status (removed status p)).agreed r = s.agreed r := by
      show (if status = .success then t.deliver s.agreed else s.agreed) r = _
      split
      · exact deliver_other hentry s.agreed
      · rfl
    rcases h with hvalue | hes | hpending | ⟨hunknown, -⟩
    · exact .inl (hvalue.trans ((deliver_other hentry s.agreed).trans hagreed.symm))
    · -- it waits in the ring, and the ring has lost nothing but what was removed
      have hmem : (⟨.out, r⟩ : HidControlFifo) ∈ removed status p ++ left status p := by
        rw [← removed_left hp ht status, hp.contents ht]
        exact List.mem_cons_of_mem _ hes
      exact .inr (.inl ((List.mem_append.mp hmem).resolve_left hgone))
    · exact .inr (.inr (.inl hpending))
    · exact .inr (.inr (.inr ((if_neg hgone).trans hunknown)))

/-- A transfer that is done, for a report that its ring has nothing of. -/
theorem settle_other {t : Transfer V} {status : Status} {gone : List HidControlFifo}
    (hentry : t.entry ≠ ⟨.out, r⟩) (hgone : (⟨.out, r⟩ : HidControlFifo) ∉ gone)
    {urb : Option (Transfer V)} {es : List HidControlFifo} (h : Known s urb es r) :
    Known (s.settle t status gone) urb es r := by
  have hagreed : wire urb (s.settle t status gone).agreed r = wire urb s.agreed r := by
    apply wire_congr
    show (if status = .success then t.deliver s.agreed else s.agreed) r = s.agreed r
    split
    · exact deliver_other hentry s.agreed
    · rfl
  rcases h with hvalue | hes | hpending | ⟨hunknown, hne⟩
  · exact .inl (hvalue.trans hagreed.symm)
  · exact .inr (.inl hes)
  · exact .inr (.inr (.inl hpending))
  · exact .inr (.inr (.inr ⟨(if_neg hgone).trans hunknown, hne⟩))

/-! ## All runs -/

/-- The URB and the entries of the ring that a report goes through on its way to the device. -/
def State.lane (s : State V) (d : Device) (r : ReportRef) :
    Option (Transfer V) × List HidControlFifo :=
  if d.interrupt r then (s.out.urb, s.out.waiting) else (s.ctrl.urb, s.ctrl.waiting)

structure Inv (d : Device) (s : State V) : Prop where
  out : s.out.Ok
  ctrl : s.ctrl.Ok
  outRouted : ∀ e ∈ s.out.fifo.contents, d.interrupt e.report = true
  ctrlRouted : ∀ e ∈ s.ctrl.fifo.contents, e.dir = .out → d.interrupt e.report = false
  known : ∀ r, Known s (s.lane d r).1 (s.lane d r).2 r

section

variable {d : Device} {s s' : State V}

theorem lane_out {r : ReportRef} (h : d.interrupt r = true) :
    s.lane d r = (s.out.urb, s.out.waiting) := if_pos h

theorem lane_ctrl {r : ReportRef} (h : d.interrupt r = false) :
    s.lane d r = (s.ctrl.urb, s.ctrl.waiting) := by
  unfold State.lane
  rw [h]
  rfl

theorem Start.inv (h : Start s) : Inv d s := by
  have hout := s.out.fifo.contents_eq_nil_iff.mpr h.out.fifo
  have hctrl := s.ctrl.fifo.contents_eq_nil_iff.mpr h.ctrl.fifo
  refine ⟨h.out.ok, h.ctrl.ok, ?_, ?_, ?_⟩
  · intro e he
    rw [hout] at he
    cases he
  · intro e he
    rw [hctrl] at he
    cases he
  · intro r
    refine .inr (.inr (.inr ⟨h.unknown r, ?_⟩))
    unfold State.lane
    split
    · rw [h.out.urb]
      nofun
    · rw [h.ctrl.urb]
      nofun

/-- A change is pending, and leaves the other reports alone. -/
theorem Known.change {urb : Option (Transfer V)} {es : List HidControlFifo} {r : ReportRef}
    (h : Known s urb es r) (q : ReportRef) (v : V) : Known (s.change q v) urb es r := by
  by_cases hq : r = q
  · subst hq
    refine .inr (.inr (.inl ?_))
    simp only [State.change, Function.update_self]
  · simp only [Known, State.change, Function.update_of_ne hq]
    exact h

theorem Inv.change (h : Inv d s) (r : ReportRef) (v : V) : Inv d (s.change r v) :=
  ⟨h.out, h.ctrl, h.outRouted, h.ctrlRouted, fun q => (h.known q).change r v⟩

/-- A report that is entered is not pending any more, and the others are what they were. -/
theorem Known.submitted {urb : Option (Transfer V)} {es : List HidControlFifo} {e : HidControlFifo}
    {r : ReportRef} (h : Known s urb es r)
    (he : e = ⟨.out, r⟩ → s.value r = wire urb s.agreed r ∨ ⟨.out, r⟩ ∈ es) :
    Known (s.submitted e) urb es r := by
  obtain ⟨dir, q⟩ := e
  cases dir with
  | input => exact h
  | out =>
      by_cases hq : r = q
      · subst hq
        rcases he rfl with hvalue | hes
        · exact .inl hvalue
        · exact .inr (.inl hes)
      · have hpending : Function.update s.pending q false r = s.pending r :=
          Function.update_of_ne hq false s.pending
        show s.value r = _ ∨ _ ∨ Function.update s.pending q false r = true ∨ _
        rw [hpending]
        exact h

theorem Inv.submitOut (h : Inv d s) {e : HidControlFifo} {ok : Bool}
    {p : Pipe V hidOutputFifoBits} (hroute : d.interrupt e.report = true)
    (hp : submitReport s.value ok e s.out = some p) : Inv d ({ s with out := p }.submitted e) := by
  obtain ⟨hok, hcontents, -⟩ := submitReport_ok h.out hp
  refine ⟨hok, h.ctrl, ?_, h.ctrlRouted, ?_⟩
  · intro x hx
    have hmem : x ∈ s.out.fifo.contents ++ [e] := hcontents ▸ hx
    rcases List.mem_append.mp hmem with hold | hnew
    · exact h.outRouted x hold
    · rw [List.mem_singleton.mp hnew]
      exact hroute
  · intro r
    have hknown := h.known r
    cases hr : d.interrupt r with
    | true =>
        rw [lane_out hr] at hknown ⊢
        refine Known.submitted (s := { s with out := p }) (submitReport_known h.out hp hknown) ?_
        rintro rfl
        exact submitReport_reaches h.out hp
    | false =>
        rw [lane_ctrl hr] at hknown ⊢
        refine Known.submitted (s := { s with out := p }) hknown ?_
        rintro rfl
        cases hr.symm.trans hroute

theorem Inv.submitCtrl (h : Inv d s) {e : HidControlFifo} {ok : Bool}
    {p : Pipe V hidControlFifoBits} (hroute : e.dir = .out → d.interrupt e.report = false)
    (hp : submitReport s.value ok e s.ctrl = some p) :
    Inv d ({ s with ctrl := p }.submitted e) := by
  obtain ⟨hok, hcontents, -⟩ := submitReport_ok h.ctrl hp
  refine ⟨h.out, hok, h.outRouted, ?_, ?_⟩
  · intro x hx
    have hmem : x ∈ s.ctrl.fifo.contents ++ [e] := hcontents ▸ hx
    rcases List.mem_append.mp hmem with hold | hnew
    · exact h.ctrlRouted x hold
    · rw [List.mem_singleton.mp hnew]
      exact hroute
  · intro r
    have hknown := h.known r
    cases hr : d.interrupt r with
    | true =>
        rw [lane_out hr] at hknown ⊢
        refine Known.submitted (s := { s with ctrl := p }) hknown ?_
        rintro rfl
        cases hr.symm.trans (hroute rfl)
    | false =>
        rw [lane_ctrl hr] at hknown ⊢
        refine Known.submitted (s := { s with ctrl := p }) (submitReport_known h.ctrl hp hknown) ?_
        rintro rfl
        exact submitReport_reaches h.ctrl hp

theorem Inv.submit (h : Inv d s) (e : HidControlFifo) (ok : Bool) :
    Inv d (usbhidSubmitReport d e ok s) := by
  unfold usbhidSubmitReport
  split
  · exact h
  · split
    · rename_i hout
      split
      · exact h
      · rename_i p hp
        exact h.submitOut hout.2 hp
    · rename_i hother
      split
      · exact h
      · rename_i p hp
        refine h.submitCtrl ?_ hp
        intro hdir
        exact Bool.eq_false_iff.mpr (fun hroute => hother ⟨hdir, hroute⟩)

/-- The entries that go belong to the reports of the ring. -/
theorem routed_other {p : Pipe V k} (hp : p.Ok) {t : Transfer V} (ht : p.urb = some t)
    (status : Status) {b : Bool}
    (hroute : ∀ e ∈ p.fifo.contents, e.dir = .out → d.interrupt e.report = b)
    {r : ReportRef} (hr : d.interrupt r ≠ b) :
    t.entry ≠ ⟨.out, r⟩ ∧ (⟨.out, r⟩ : HidControlFifo) ∉ removed status p := by
  have hnot : (⟨.out, r⟩ : HidControlFifo) ∉ p.fifo.contents := fun hmem => hr (hroute _ hmem rfl)
  constructor
  · intro heq
    rw [hp.contents ht, heq] at hnot
    exact hnot List.mem_cons_self
  · intro hmem
    rw [removed_left hp ht status] at hnot
    exact hnot (List.mem_append_left _ hmem)

theorem Inv.irqOut (h : Inv d s) {status : Status} {ok : Bool}
    (hs : hidIrqOut status ok s = some s') : Inv d s' := by
  unfold hidIrqOut at hs
  split at hs
  · cases hs
  · rename_i t ht
    cases hs
    obtain ⟨hok, hcontents, hserves⟩ := finish_ok h.out ht s.value status ok
    refine ⟨hok, h.ctrl, ?_, h.ctrlRouted, ?_⟩
    · intro e he
      have hmem : e ∈ left status s.out := hcontents ▸ he
      apply h.outRouted
      rw [removed_left h.out ht status]
      exact List.mem_append_right _ hmem
    · intro r
      have hknown := h.known r
      cases hr : d.interrupt r with
      | true =>
          rw [lane_out hr] at hknown ⊢
          exact Serves.known (s := s.settle t status (removed status s.out)) hserves
            (settle_waits h.out ht status hknown)
      | false =>
          rw [lane_ctrl hr] at hknown ⊢
          obtain ⟨hentry, hgone⟩ := routed_other h.out ht status (fun e he _ => h.outRouted e he)
            (r := r) (by simp [hr])
          exact settle_other hentry hgone hknown

theorem answered_cases (s : State V) (status : Status) (e : HidControlFifo)
    (answer : Option (Nat × V)) :
    s.answered status e answer = s ∨ ∃ r v, s.answered status e answer = s.change r v := by
  unfold State.answered
  split
  · exact .inr ⟨_, _, rfl⟩
  · exact .inl rfl

/-- What `hid_ctrl` does before it submits the next transfer. -/
theorem Inv.settleCtrl (h : Inv d s) {t : Transfer V} (ht : s.ctrl.urb = some t)
    (status : Status) (answer : Option (Nat × V)) :
    ∃ u, (s.settle t status (removed status s.ctrl)).answered status s.ctrl.fifo.oldest answer = u ∧
      u.out = s.out ∧ u.ctrl = s.ctrl ∧
      (∀ r, d.interrupt r = true → Known u s.out.urb s.out.waiting r) ∧
      ∀ r, d.interrupt r = false → Known u none (left status s.ctrl) r := by
  have hout : ∀ r, d.interrupt r = true →
      Known (s.settle t status (removed status s.ctrl)) s.out.urb s.out.waiting r := by
    intro r hr
    obtain ⟨hentry, hgone⟩ := routed_other h.ctrl ht status h.ctrlRouted (r := r) (by simp [hr])
    have hknown := h.known r
    rw [lane_out hr] at hknown
    exact settle_other hentry hgone hknown
  have hctrl : ∀ r, d.interrupt r = false →
      Known (s.settle t status (removed status s.ctrl)) none (left status s.ctrl) r := by
    intro r hr
    have hknown := h.known r
    rw [lane_ctrl hr] at hknown
    exact Serves.known (.stays _) (settle_waits h.ctrl ht status hknown)
  refine ⟨_, rfl, ?_⟩
  rcases answered_cases (s.settle t status (removed status s.ctrl)) status s.ctrl.fifo.oldest
    answer with heq | ⟨q, v, heq⟩
  · rw [heq]
    exact ⟨rfl, rfl, hout, hctrl⟩
  · rw [heq]
    exact ⟨rfl, rfl, fun r hr => (hout r hr).change q v, fun r hr => (hctrl r hr).change q v⟩

theorem Inv.ctrlDone (h : Inv d s) {status : Status} {answer : Option (Nat × V)} {ok : Bool}
    (hs : hidCtrl status answer ok s = some s') : Inv d s' := by
  unfold hidCtrl at hs
  split at hs
  · cases hs
  · rename_i t ht
    obtain ⟨u, hu, hout, hctrl, hknown, hleft⟩ := h.settleCtrl ht status answer
    have hs' : s' = { u with ctrl := finish u.value status ok s.ctrl } := by
      rw [← hctrl, ← hu]
      exact (Option.some.inj hs).symm
    subst hs'
    obtain ⟨hok, hcontents, hserves⟩ := finish_ok h.ctrl ht u.value status ok
    refine ⟨hout ▸ h.out, hok, hout ▸ h.outRouted, ?_, ?_⟩
    · intro e he
      have hmem : e ∈ left status s.ctrl := hcontents ▸ he
      apply h.ctrlRouted
      rw [removed_left h.ctrl ht status]
      exact List.mem_append_right _ hmem
    · intro r
      cases hr : d.interrupt r with
      | true =>
          rw [lane_out hr]
          have hsame := hknown r hr
          rw [← hout] at hsame
          exact hsame
      | false =>
          rw [lane_ctrl hr]
          exact Serves.known (s := u) hserves (hleft r hr).waits

/-- A report is turned away, or its ring has an entry more. -/
theorem usbhidSubmitReport_eq_iff (h : Inv d s) (e : HidControlFifo) (ok : Bool) :
    usbhidSubmitReport d e ok s = s ↔ (d.noGet = true ∧ e.dir = .input) ∨
      if e.dir = .out ∧ d.interrupt e.report = true then s.out.fifo.contents.length = 63
      else s.ctrl.fifo.contents.length = 255 := by
  unfold usbhidSubmitReport
  split
  · rename_i hasked
    exact iff_of_true rfl (.inl hasked)
  · rename_i hasked
    rw [or_iff_right hasked]
    split
    · cases hp : submitReport s.value ok e s.out with
      | none => exact iff_of_true rfl (Nat.succ.inj ((submitReport_none_iff _ _ _ _).mp hp))
      | some p =>
          obtain ⟨hne, hroom⟩ := submitReport_some h.out hp
          refine iff_of_false ?_ (fun hfull => hroom (congrArg (· + 1) hfull))
          exact fun heq => hne (congrArg State.out heq)
    · cases hp : submitReport s.value ok e s.ctrl with
      | none => exact iff_of_true rfl (Nat.succ.inj ((submitReport_none_iff _ _ _ _).mp hp))
      | some p =>
          obtain ⟨hne, hroom⟩ := submitReport_some h.ctrl hp
          refine iff_of_false ?_ (fun hfull => hroom (congrArg (· + 1) hfull))
          exact fun heq => hne (congrArg State.ctrl heq)

end

/-- What holds in every state of every run: see the head of the file. -/
theorem reports_reach_device (d : Device) (s : State V) (h : (machine d).Reachable s) :
    s.out.Ok ∧ s.ctrl.Ok ∧
      (∀ e ok, usbhidSubmitReport d e ok s = s ↔ (d.noGet = true ∧ e.dir = .input) ∨
        if e.dir = .out ∧ d.interrupt e.report = true then s.out.fifo.contents.length = 63
        else s.ctrl.fifo.contents.length = 255) ∧
      ∀ r, (if d.interrupt r then s.out.fifo.contents else s.ctrl.fifo.contents) = [] →
        s.pending r = false → s.unknown r = false → s.agreed r = s.value r := by
  have hinv : Inv d s := by
    induction h with
    | init hstart => exact Start.inv hstart
    | step a _ _ hstep ih =>
        cases a with
        | store r v =>
            cases hstep
            exact ih.change r v
        | submit e ok =>
            cases hstep
            exact ih.submit e ok
        | irqOut status ok => exact ih.irqOut hstep
        | ctrl status answer ok => exact ih.ctrlDone hstep
  refine ⟨hinv.out, hinv.ctrl, usbhidSubmitReport_eq_iff hinv, ?_⟩
  intro r hempty hpending hunknown
  have hlane : s.lane d r = (none, []) := by
    cases hr : d.interrupt r with
    | true =>
        rw [hr] at hempty
        rw [lane_out hr, hinv.out.drained hempty, Pipe.waiting_none (hinv.out.drained hempty)]
        exact congrArg (Prod.mk none) hempty
    | false =>
        rw [hr] at hempty
        rw [lane_ctrl hr, hinv.ctrl.drained hempty, Pipe.waiting_none (hinv.ctrl.drained hempty)]
        exact congrArg (Prod.mk none) hempty
  have hknown := hinv.known r
  rw [hlane] at hknown
  rcases hknown.waits with hvalue | hes | hmark | hmark
  · exact hvalue.symm
  · cases hes
  · cases hpending.symm.trans hmark
  · cases hunknown.symm.trans hmark

section

private def led : ReportRef := ⟨.output, 1⟩

private def feature : ReportRef := ⟨.feature, 2⟩

private def idlePipe (k : Nat) : Pipe Nat k :=
  ⟨.empty ⟨.out, led⟩, false, none, false, false, [], []⟩

private def plugged : State Nat :=
  ⟨idlePipe _, idlePipe _, fun _ => 0, fun _ => 0, fun _ => false, fun _ => true⟩

/-- The controller refuses the first URB.  When the next one is filled from the same entry, it has
the values of that time, and the entry that is left has the last ones.  The answer of the device is
sent back to it. -/
theorem reports_reach_device_led :
    ∃ s, (machine ⟨true, false⟩).Reachable s ∧
      s.out.finished.map Prod.snd = [true, false, true] ∧
      s.agreed led = 1 ∧ s.value led = 1 ∧ s.agreed feature = 9 ∧ s.value feature = 9 := by
  have hrun : ((machine ⟨true, false⟩).run plugged
      [.store led 5, .submit ⟨.out, led⟩ false, .store led 7, .submit ⟨.input, feature⟩ true,
        .submit ⟨.out, led⟩ true, .store led 1, .submit ⟨.out, led⟩ true, .irqOut .success true,
        .ctrl .success (some (2, 9)) true, .irqOut .error true, .irqOut .success true,
        .submit ⟨.out, feature⟩ true, .ctrl .success none true]).map
      (fun s => (s.out.finished.map Prod.snd, s.out.fifo.contents ++ s.ctrl.fifo.contents,
        [led, feature].map (fun r => (s.pending r, s.unknown r, s.value r)))) =
      some ([true, false, true], [], [(false, false, 1), (false, false, 9)]) := by
    decide
  obtain ⟨s, hs, hat⟩ := Option.map_eq_some_iff.mp hrun
  simp only [Prod.mk.injEq, List.append_eq_nil_iff, List.map_cons, List.map_nil, List.cons.injEq,
    and_true] at hat
  obtain ⟨hfinished, ⟨hout, hctrl⟩, ⟨hledp, hledu, hled⟩, hfeatp, hfeatu, hfeat⟩ := hat
  have hstart : Start plugged :=
    ⟨⟨rfl, rfl, rfl, rfl, rfl, rfl⟩, ⟨rfl, rfl, rfl, rfl, rfl, rfl⟩, fun _ => rfl⟩
  have hreach := Machine.Reachable.run (.init hstart) _ hs
  obtain ⟨-, -, -, hknown⟩ := reports_reach_device _ s hreach
  exact ⟨s, hreach, hfinished, (hknown led hout hledp hledu).trans hled, hled,
    (hknown feature hctrl hfeatp hfeatu).trans hfeat, hfeat⟩

end

end LinuxDrivers.Hid.Queue
