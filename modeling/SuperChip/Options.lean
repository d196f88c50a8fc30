import SuperChip.FrontEnd
import SuperChip.Numeral.Reader

/-!
# Options

What the user may choose on the command line, and what each switch of the command line does to it.
-/

namespace SuperChip

/-- The choices of the user. -/
structure Options where
  /-- The name of the file that holds the program. -/
  file : String
  /-- The instructions to execute in a second. -/
  clockSpeed : Choice Int := .usual
  /-- The front end. -/
  frontEnd : Choice FrontEnd := .usual
  /-- By how much the picture is stretched, or how wide it is. -/
  scale : Choice Int := .usual
  /-- How often the picture is smoothed. -/
  smoothing : Choice Int := .usual
  /-- Whether the alert tone is off. -/
  mute : Choice Bool := .usual
  /-- The text of the keymap. -/
  keymap : Choice String := .usual
  /-- How well the cursor of a terminal is to be seen. -/
  cursorMode : Choice Int := .usual
  /-- The text of the palette of a window. -/
  palette : Choice String := .usual
  /-- The seed of the random source. -/
  seed : Choice Int := .usual
  /-- Whether each instruction is traced. -/
  debug : Bool := false
  deriving DecidableEq, Repr

namespace Options

/-- The switches of the command line. -/
inductive Switch
  | help | clockSpeed | frontEnd | scale | smoothing | mute | keymap | cursorMode | palette | seed
  | debug
  deriving DecidableEq, Repr

namespace Switch

/-- Each way to write a switch. -/
def spellings : List (String × Switch) :=
  [("-h", help), ("--help", help), ("-c", clockSpeed), ("--clock_speed", clockSpeed),
    ("-r", frontEnd), ("--renderer", frontEnd), ("-s", scale), ("--scale", scale),
    ("-f", smoothing), ("--smoothing", smoothing), ("-m", mute), ("--mute", mute),
    ("-k", keymap), ("--keymap", keymap), ("--curses_cursor_mode", cursorMode),
    ("--pygame_palette", palette), ("--seed", seed), ("-d", debug), ("--debug", debug)]

/-- Whether a value belongs to a switch. -/
def takesValue : Switch → Bool
  | help | debug => false
  | _ => true

/-- The options with a switch set to a value, if the switch accepts it. -/
def set (s : Switch) (o : Options) (value : String) : Option Options :=
  let number := Numeral.readDecimal? value.toList
  match s with
  | help | debug => none
  | clockSpeed => number.map fun n ↦ { o with clockSpeed := .value n }
  | frontEnd => (FrontEnd.ofName? value).map fun f ↦ { o with frontEnd := .value f }
  | scale => number.map fun n ↦ { o with scale := .value n }
  | smoothing => number.map fun n ↦ { o with smoothing := .value n }
  | mute =>
    match number with
    | some 0 => some { o with mute := .value false }
    | some 1 => some { o with mute := .value true }
    | _ => none
  | keymap => some { o with keymap := .value value }
  | cursorMode => do
    let n ← number
    if 0 ≤ n ∧ n ≤ 2 then return { o with cursorMode := .value n } else none
  | palette => some { o with palette := .value value }
  | seed => number.map fun n ↦ { o with seed := .value n }

/-- The options with a switch set to no value. -/
def setBlank (s : Switch) (o : Options) : Options :=
  match s with
  | help | debug => o
  | clockSpeed => { o with clockSpeed := .blank }
  | frontEnd => { o with frontEnd := .blank }
  | scale => { o with scale := .blank }
  | smoothing => { o with smoothing := .blank }
  | mute => { o with mute := .blank }
  | keymap => { o with keymap := .blank }
  | cursorMode => { o with cursorMode := .blank }
  | palette => { o with palette := .blank }
  | seed => { o with seed := .blank }

end Switch

end Options

end SuperChip
