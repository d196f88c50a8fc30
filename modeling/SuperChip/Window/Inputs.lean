import SuperChip.Keymap
import SuperChip.Machine.Speed

/-!
# Keys in a window

A window tells when a key is pressed and when it is let go, so both are passed on to the machine as
they come.  Letting go of escape, or closing the window, ends the program; the events after that are
still worked off.
-/

namespace SuperChip.Window

/-- Something that happens to a window. -/
inductive Input
  /-- A key is pressed. -/
  | down (code : Int)
  /-- A key is let go. -/
  | up (code : Int)
  /-- The window is closed. -/
  | close
  /-- Something that does not matter. -/
  | other
  deriving DecidableEq, Repr

/-- The code of the escape key. -/
def escape : Int := 27

/-- The code of the function key F5. -/
def resetKey : Int := 1073741886

/-- The codes of the keys that make the machine faster: plus, equals and the plus of the number
pad. -/
def fasterKeys : List Int := [43, 61, 1073741911]

/-- The codes of the keys that make the machine slower: minus and the minus of the number pad. -/
def slowerKeys : List Int := [45, 1073741910]

/-- Presses or releases the key of the machine that a code stands for. -/
def passOn (keymap : Keymap) (m : Machine) (code : Int) (down : Bool) : Machine :=
  match keymap.key? code with
  | some key => { m with keys := m.keys.setIfInBounds key down }
  | none => m

/-- What a key asks of the host when it is pressed. -/
def control (m : Machine) (code : Int) : Machine × Option Fault :=
  if code = resetKey then
    match m.restoreSpeed with
    | (m, none) => (m.requestReset, none)
    | failed => failed
  else if code ∈ fasterKeys then m.faster
  else if code ∈ slowerKeys then m.slower
  else (m, none)

/-- Works off an input.  The answer is whether the program is to end. -/
def Input.handle (keymap : Keymap) (m : Machine) : Input → Machine × Except Fault Bool
  | .down code =>
    match control m code with
    | (m, none) => (passOn keymap m code true, .ok false)
    | (m, some f) => (m, .error f)
  | .up code => if code = escape then (m, .ok true) else (passOn keymap m code false, .ok false)
  | .close => (m, .ok true)
  | .other => (m, .ok false)

/-- Works off inputs, up to one that meets a fault.  The answer is whether the program is to end. -/
def poll (keymap : Keymap) : List Input → Bool → Machine → Machine × Except Fault Bool
  | [], quit, m => (m, .ok quit)
  | input :: inputs, quit, m =>
    match input.handle keymap m with
    | (m, .ok ends) => poll keymap inputs (quit || ends) m
    | (m, .error f) => (m, .error f)

end SuperChip.Window
