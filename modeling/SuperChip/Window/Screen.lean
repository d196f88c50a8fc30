import SuperChip.Capacity
import SuperChip.Screen
import SuperChip.Window.Palette

/-!
# Screens in a window

The picture in a window is twice as wide as it is high.  A frame is painted in the colours of the
palette and stretched over the whole picture, each place of which shows the pixel that is nearest to
it.

Columns and rows are counted in 32 bits with a sign: of a greater number only its lowest 32 bits
count.

The window has the size of the picture as far as that can be: it has at least one column and one
row, which are black if they lie outside the picture, and a picture of no size at all gets a window
as large as the desktop.
-/

namespace SuperChip.Window

/-! ## Sizes -/

/-- A size, in columns and rows. -/
structure Size where
  /-- The number of columns. -/
  columns : Nat
  /-- The number of rows. -/
  rows : Nat
  deriving DecidableEq, Repr

namespace Size

/-- The size of the desktop. -/
def desktop : Size := ⟨1024, 768⟩

/-- The most columns, and the most rows, of a window. -/
def greatest : Nat := 16384

/-- How many columns or rows a number is counted as. -/
def side (n : Int) : Int := n.bmod 0x100000000

/-- A number is counted as itself exactly if it fits into 32 bits with a sign. -/
theorem side_eq_self_iff {n : Int} : side n = n ↔ -0x80000000 ≤ n ∧ n < 0x80000000 := by
  simp only [side, Int.bmod]
  omega

/-- The size of the picture for a width, if a window can be as large as that. -/
def ofWidth (width : Int) : Except Fault Size :=
  let columns := side width
  let rows := side (width / 2)
  if width < Capacity.least ∨ Capacity.greatest < width then .error .widthOutOfRange
  else if columns < 0 ∨ rows < 0 then .error .negativeWindow
  else if greatest < columns ∨ greatest < rows then .error .windowTooLarge
  else .ok ⟨columns.toNat, rows.toNat⟩

/-- The size of the window for a picture of a size. -/
def window (s : Size) : Size :=
  if s.columns = 0 ∧ s.rows = 0 then desktop else ⟨max 1 s.columns, max 1 s.rows⟩

/-- The number of places. -/
def area (s : Size) : Nat := s.columns * s.rows

/-- A window has at least one place. -/
theorem area_window_pos (s : Size) : 0 < s.window.area := by
  unfold window
  split
  · decide
  · exact Nat.mul_pos (Nat.le_max_left ..) (Nat.le_max_left ..)

end Size

/-! ## The screen -/

/-- A screen in a window. -/
structure Screen where
  /-- What it has in common with other screens. -/
  base : SuperChip.Screen
  /-- The size of the picture. -/
  size : Size
  /-- How often the picture is to be smoothed. -/
  smoothing : Choice Int
  /-- The colour of pixels that are off. -/
  background : Rgb
  /-- The colour of pixels that are on. -/
  foreground : Rgb
  /-- The title of the window. -/
  title : String
  /-- The frame that was painted last. -/
  painted : Option Frame := none
  deriving DecidableEq, Repr

namespace Screen

/-- The width for which no other is given. -/
def defaultWidth : Int := 512

/-- Opens a black window. -/
def create (width : Choice Int) (smoothing : Choice Int) (palette : Choice String)
    (title : String) : Except Fault Screen := do
  let palette ← Palette.parse palette
  let background ← Rgb.ofInt palette.background
  let foreground ← Rgb.ofInt palette.foreground
  let scale ← width.resolve defaultWidth .numberBlank
  let size ← Size.ofWidth scale
  return { base := { scale }, size, smoothing, background, foreground, title }

/-- Sets the title of the window.  A title with a null character is refused. -/
def setTitle (s : Screen) (title : String) : Screen × Option Fault :=
  if title.contains '\x00' then (s, some .nullCharacter) else ({ s with title }, none)

/-- The colour of a pixel. -/
def colour (s : Screen) (pixel : UInt8) : Rgb := if pixel = 0 then s.background else s.foreground

/-- The colour at a place of the window. -/
def colourAt (s : Screen) (column row : Nat) : Rgb :=
  match s.painted with
  | none => Rgb.black
  | some frame =>
    if column < s.size.columns ∧ row < s.size.rows then
      let x := column * frame.width.toNat / s.size.columns
      let y := row * frame.height.toNat / s.size.rows
      s.colour (frame.pixels.getD (y * frame.width.toNat + x) 0)
    else Rgb.black

/-- The colours of the window, row by row. -/
def picture (s : Screen) : Array Rgb :=
  let { columns, .. } := s.size.window
  Array.ofFn fun place : Fin s.size.window.area ↦
    s.colourAt (place.val % columns) (place.val / columns)

/-- Paints the pixels of a frame, unless frames are empty. -/
def paint (s : Screen) (pixels : Array UInt8) : Except Fault Screen :=
  let { width, height, .. } := s.base
  if width = 0 ∨ height = 0 then .ok s
  else if Size.side width ≠ width ∨ Size.side height ≠ height then .error .numberTooLarge
  else if width < 0 ∨ height < 0 then .error .negativeSize
  else if (pixels.size : Int) ≠ width * height then .error .lengthMismatch
  else do
    let _ ← s.smoothing.resolve 0 .numberBlank
    return { s with painted := some { pixels, width, height } }

/-- Carries out orders, up to one that meets a fault. -/
def obey : List Order → Screen → Screen × Option Fault
  | [], s => (s, none)
  | .resize width height :: orders, s =>
    obey orders { s with base := s.base.resize width height }
  | .paint pixels :: orders, s =>
    match s.paint pixels with
    | .ok s => obey orders s
    | .error f => (s, some f)

/-- Shows the waiting frame, and says whether there was one. -/
def refresh (s : Screen) : Screen × Except Fault Bool :=
  match s.base.next? with
  | none => (s, .ok false)
  | some (base, orders) =>
    match obey orders { s with base } with
    | (s, none) => ({ s with base := s.base.countShown }, .ok true)
    | (s, some f) => (s, .error f)

end Screen

end SuperChip.Window
