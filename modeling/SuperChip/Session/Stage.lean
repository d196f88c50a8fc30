import SuperChip.Options
import SuperChip.Terminal.Inputs
import SuperChip.Terminal.Screen
import SuperChip.Window.Screen
import SuperChip.Window.Tone

/-!
# Stages

A stage is what a session sets up around a machine: a screen, the inputs and the sound of one front
end.  Setting up a part and putting it away are kept as a list of acts, the newest one first, so
that it can be told which parts are still set up.
-/

namespace SuperChip

namespace Session

/-- The name of the program, which is also the title of a window. -/
def name : String := "SuperChocMachine"

/-- A part of a stage. -/
inductive Part
  | screen | inputs | sound
  deriving DecidableEq, Repr

/-- What is done with a part of a stage. -/
inductive Act
  /-- It is set up. -/
  | enter (p : Part)
  /-- It is put away. -/
  | leave (p : Part)
  deriving DecidableEq, Repr

/-- The screen of a front end. -/
inductive View
  /-- A window. -/
  | window (s : Window.Screen)
  /-- A terminal. -/
  | terminal (s : Terminal.Screen)
  /-- A screen that nobody sees. -/
  | headless (s : Screen)

namespace View

/-- How well the cursor is to be seen, for a choice of it: not at all, unless something is said. -/
def cursorMode : Choice Int → Option Int
  | .usual => some 0
  | .blank => none
  | .value mode => some mode

/-- Sets up the screen of a front end. -/
def enter (o : Options) : FrontEnd → Except Fault View
  | .window => (Window.Screen.create o.scale o.smoothing o.palette name).map .window
  | .terminal => (Terminal.Screen.enter o.scale (cursorMode o.cursorMode) {}).map .terminal
  | .headless => .ok (.headless {})

/-- Takes over what a machine has told. -/
def attend (log : List Event) : View → View
  | .window s => .window { s with base := s.base.attend log }
  | .terminal s => .terminal { s with base := s.base.attend log }
  | .headless s => .headless (s.attend log)

/-- Shows the waiting frame. -/
def refresh : View → View × Option Fault
  | .window s =>
    match s.refresh with
    | (s, .ok _) => (.window s, none)
    | (s, .error f) => (.window s, some f)
  | .terminal s =>
    match s.refresh with
    | (s, .ok _) => (.terminal s, none)
    | (s, .error f) => (.terminal s, some f)
  | .headless s => (.headless s.refresh.1, none)

/-- Rings the bell of a terminal. -/
def ringBell : View → View
  | .terminal s => .terminal s.ringBell
  | v => v

/-- Puts the screen away. -/
def leave : View → View
  | .terminal s => .terminal s.leave
  | v => v

/-- The commands given to a terminal, in their order. -/
def commands : View → List Terminal.Command
  | .terminal s => s.commands.reverse
  | _ => []

end View

/-- The sound of a front end. -/
inductive Sound
  /-- No sound. -/
  | silent
  /-- The bell of a terminal. -/
  | bell
  /-- A tone of a window. -/
  | tone (s : Window.Speaker)

namespace Sound

/-- Sets up the sound of a front end.  A terminal is silent if nothing is said, a window is not. -/
def enter (mute : Choice Bool) : FrontEnd → Except Fault Sound
  | .window =>
    if mute = .value true then .ok .silent
    else
      (Window.Speaker.enter Window.toneFrequency Window.toneLength Window.toneVolume).map .tone
  | .terminal => .ok (if mute = .usual ∨ mute = .value true then .silent else .bell)
  | .headless => .ok .silent

/-- Sounds the alert tone. -/
def play (v : View) : Sound → View × Sound
  | .silent => (v, .silent)
  | .bell => (v.ringBell, .bell)
  | .tone s => (v, .tone s.play)

/-- Puts the sound away. -/
def leave : Sound → Sound
  | .tone s => .tone s.leave
  | s => s

end Sound

/-- The inputs for a front end accept its keymap.  A terminal reads characters. -/
def enterInputs (keymap : Choice String) (frontEnd : FrontEnd) : Except Fault Unit := do
  let text ← keymap.resolve Keymap.standard .textBlank
  match frontEnd with
  | .terminal =>
    let _ ← Terminal.Inputs.ofKeymap text
  | .window | .headless =>
    let _ ← Keymap.parse false text

end Session

end SuperChip
