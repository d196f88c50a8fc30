import SuperChip.Capacity
import SuperChip.Choice
import SuperChip.Screen
import SuperChip.Span

/-!
# Screens in a terminal

A terminal shows a pixel as a few blanks in a row, reversed if the pixel is lit.  The picture is
written on a pad, a sheet of its own that may be larger than the terminal: the title is in its top
row, the picture in the rows below.  The pad has one row and one column more than that, since the
last place of a pad cannot be written to.

The texts of a pixel and of the title are as long as the screen is stretched, so there may be no
room for them.

A terminal is reached through a library, which may refuse what it is asked for: a pad that is too
large for it, say, or a text that it cannot show.  What was done before a refusal stays done.  Only
taking over the terminal, ringing its bell and giving it back are never refused here.

Whatever is done to the terminal is kept as a list of commands, the newest one first.
-/

namespace SuperChip.Terminal

/-- A command to the terminal. -/
inductive Command
  /-- Takes over the terminal. -/
  | enter
  /-- Shows what is typed, or does not. -/
  | echo (on : Bool)
  /-- Hands over each character as it is typed, or whole lines. -/
  | eachCharacter (on : Bool)
  /-- Hands over function keys as single numbers. -/
  | functionKeys (on : Bool)
  /-- Sets how well the cursor is seen: not, normally, or very well; no mode says nothing of it. -/
  | cursor (mode : Option Int)
  /-- Makes a new pad. -/
  | newPad (rows columns : Int)
  /-- Writes on the pad. -/
  | write (row column : Int) (text : String) (reversed : Bool)
  /-- Clears the terminal. -/
  | clear
  /-- Takes note of the size of the terminal. -/
  | resize (rows columns : Int)
  /-- Brings the terminal up to date. -/
  | update
  /-- Shows the pad, up to a last row and a last column of the terminal. -/
  | showPad (lastRow lastColumn : Int)
  /-- Rings the bell. -/
  | bell
  /-- Gives the terminal back. -/
  | leave
  deriving DecidableEq, Repr

/-- The library through which a terminal is reached, as far as it is a matter of its make. -/
structure Library where
  /-- The fault with which it refuses a command, given the commands so far, the newest one first. -/
  refusal? : List Command → Command → Option Fault := fun _ _ ↦ none
  /-- Whether it shows a character as it is, in a cell of its own. -/
  isPlain : Char → Bool := fun _ ↦ true

/-- The terminal as it is outside the program. -/
structure Surroundings where
  /-- The number of rows. -/
  rows : Int := 24
  /-- The number of columns. -/
  columns : Int := 80
  /-- Whether the terminal can take note of its size. -/
  resizable : Bool := true
  deriving DecidableEq, Repr

/-- The size of the terminal, as rows and columns. -/
def Surroundings.size (surroundings : Surroundings) : Int × Int :=
  (surroundings.rows, surroundings.columns)

/-- How a terminal of another size is brought up to date. -/
def Surroundings.renewal (surroundings : Surroundings) : List Command :=
  if surroundings.resizable
  then [.clear, .resize surroundings.rows surroundings.columns, .update]
  else [.clear, .update]

/-- A screen in a terminal. -/
structure Screen where
  /-- What it has in common with other screens. -/
  base : SuperChip.Screen
  /-- The terminal as it is. -/
  surroundings : Surroundings := {}
  /-- The library through which it is reached. -/
  library : Library := {}
  /-- How much room there is for texts. -/
  capacity : Capacity := .usual
  /-- Whether there is a pad. -/
  hasPad : Bool := false
  /-- The title. -/
  title : List Char := []
  /-- The size of the terminal when it was last looked at, as rows and columns. -/
  seen : Int × Int := (-1, -1)
  /-- How well the cursor is to be seen, if that is said. -/
  cursorMode : Option Int := some 0
  /-- The commands so far, the newest one first. -/
  commands : List Command := []

namespace Screen

/-- The stretch for which no other is given. -/
def defaultScale : Int := 2

/-- Gives commands to the terminal, in their order. -/
def command (s : Screen) (commands : List Command) : Screen :=
  { s with commands := commands.reverse ++ s.commands }

/-- Gives commands to the terminal, in their order, up to one that the library refuses. -/
def request : List Command → Screen → Screen × Option Fault
  | [], s => (s, none)
  | command :: commands, s =>
    match s.library.refusal? s.commands command with
    | none => request commands (s.command [command])
    | some f => (s, some f)

/-- Takes over the terminal, if there is room for the text of a pixel. -/
def enter (scale : Choice Int) (cursorMode : Option Int) (surroundings : Surroundings)
    (library : Library := {}) (capacity : Capacity := .usual) : Except Fault Screen := do
  let scale ← scale.resolve defaultScale .numberBlank
  let _ ← Capacity.text scale capacity
  let s : Screen := { base := { scale }, cursorMode, surroundings, library, capacity }
  return s.command
    [.enter, .echo false, .eachCharacter true, .functionKeys true, .cursor cursorMode]

/-- Gives the terminal back.  The cursor is set back to normal if it was anything else. -/
def leave (s : Screen) : Screen :=
  let s := { s with hasPad := false }.command [.eachCharacter false, .echo true]
  let s := if s.cursorMode = some 1 then s else s.command [.cursor (some 1)]
  s.command [.leave]

/-! ## The title -/

/-- The number of columns of the picture. -/
def lineWidth (s : Screen) : Int := s.base.width * s.base.scale

/-- The title, cut or filled up with blanks to the width of the picture, if there is room for it. -/
def titleLine (s : Screen) : Except Fault (List Char) := do
  let line := s.title.take (bound s.title.length s.lineWidth)
  let width ← Capacity.text s.lineWidth s.capacity
  return line ++ List.replicate (width - line.length) ' '

/-- Writes the title on the pad. -/
def drawTitle (s : Screen) : Screen × Option Fault :=
  if s.hasPad then
    match s.titleLine with
    | .ok line => s.request [.write 0 0 (String.ofList line) true]
    | .error f => (s, some f)
  else (s, none)

/-- Sets the title. -/
def setTitle (s : Screen) (title : String) : Screen × Option Fault :=
  { s with title := title.toList }.drawTitle

/-! ## The picture -/

/-- Gets ready for frames of another size, with a new pad unless they are empty.  If the pad is
refused, the size is noted all the same, and the old pad, if there is one, stays. -/
def resize (s : Screen) (width height : Int) : Screen × Option Fault :=
  let s := { s with base := s.base.resize width height }
  if width = 0 ∨ height = 0 then (s, none)
  else
    match s.request [.newPad (height + 2) (s.lineWidth + 1)] with
    | (s, none) => { s with hasPad := true }.drawTitle
    | refused => refused

/-- The text of a pixel. -/
def pixelText (s : Screen) : String := String.ofList (List.replicate s.base.scale.toNat ' ')

/-- Writes a pixel on the pad, given its text and its place in the picture. -/
def writePixel (s : Screen) (text : String) (place : Nat) (pixel : UInt8) : Screen × Option Fault :=
  if s.base.width = 0 then (s, some .divisionByZero)
  else
    let row := (place : Int).fdiv s.base.width
    let column := (place : Int).fmod s.base.width
    s.request [.write (row + 1) (column * s.base.scale) text (pixel != 0)]

/-- Takes note of the size of the terminal.  If it is another one than before, everything is to be
shown anew. -/
def noteSize (s : Screen) : Screen × Option Fault :=
  if s.seen = s.surroundings.size then (s, none)
  else
    match s.request s.surroundings.renewal with
    | (s, none) => ({ s with seen := s.surroundings.size }, none)
    | refused => refused

/-- Shows the pad, in a terminal whose size is taken note of. -/
def showPad (s : Screen) : Screen × Option Fault :=
  match s.noteSize with
  | (s, none) => s.request [.showPad (s.surroundings.rows - 1) (s.surroundings.columns - 1)]
  | refused => refused

/-- Writes pixels on the pad, the first one at `place`, up to one that meets a fault. -/
def writePixels (text : String) : List UInt8 → Nat → Screen → Screen × Option Fault
  | [], _, s => (s, none)
  | pixel :: pixels, place, s =>
    match s.writePixel text place pixel with
    | (s, none) => writePixels text pixels (place + 1) s
    | failed => failed

/-- Writes the pixels of a frame on the pad and shows it, if there is a pad. -/
def paint (s : Screen) (pixels : Array UInt8) : Screen × Option Fault :=
  if s.hasPad then
    match writePixels s.pixelText pixels.toList 0 s with
    | (s, none) => s.showPad
    | failed => failed
  else (s, none)

/-- Carries out orders, up to one that meets a fault. -/
def obey : List Order → Screen → Screen × Option Fault
  | [], s => (s, none)
  | .resize width height :: orders, s =>
    match s.resize width height with
    | (s, none) => obey orders s
    | failed => failed
  | .paint pixels :: orders, s =>
    match s.paint pixels with
    | (s, none) => obey orders s
    | failed => failed

/-- Shows the waiting frame, and says whether there was one. -/
def refresh (s : Screen) : Screen × Except Fault Bool :=
  match s.base.next? with
  | none => (s, .ok false)
  | some (base, orders) =>
    match obey orders { s with base } with
    | (s, none) => ({ s with base := s.base.countShown }, .ok true)
    | (s, some f) => (s, .error f)

/-- Rings the bell. -/
def ringBell (s : Screen) : Screen := s.command [.bell]

end Screen

end SuperChip.Terminal
