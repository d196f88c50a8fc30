import SuperChip.Choice

/-!
# Front ends

The ways to show and play a machine, and which of them is taken.
-/

namespace SuperChip

/-- How a machine is shown and played. -/
inductive FrontEnd
  /-- In a window. -/
  | window
  /-- In a terminal. -/
  | terminal
  /-- Not at all. -/
  | headless
  deriving DecidableEq, Repr

/-- The front ends that are there. -/
structure Installed where
  /-- Whether windows are there. -/
  window : Bool := true
  /-- Whether terminals are there. -/
  terminal : Bool := true
  deriving DecidableEq, Repr

namespace FrontEnd

/-- The name of a front end on the command line. -/
def name : FrontEnd → String
  | .window => "pygame"
  | .terminal => "curses"
  | .headless => "null"

/-- The front end with a name. -/
def ofName? (name : String) : Option FrontEnd :=
  [window, terminal, headless].find? (·.name = name)

/-- Chooses a front end: the wanted one, or else a window before a terminal.  Without a value, there
is nothing that could be missing, and no front end either. -/
def choose (installed : Installed) : Choice FrontEnd → Except Fault (Option FrontEnd)
  | .usual =>
    if installed.window then .ok (some .window)
    else if installed.terminal then .ok (some .terminal)
    else .error .frontEndMissing
  | .blank => .ok none
  | .value .window => if installed.window then .ok (some .window) else .error .windowMissing
  | .value .terminal => if installed.terminal then .ok (some .terminal) else .error .terminalMissing
  | .value .headless => .ok (some .headless)

/-- A front end is found by its name. -/
@[simp] theorem ofName?_name (f : FrontEnd) : ofName? f.name = some f := by cases f <;> decide

end FrontEnd

end SuperChip
