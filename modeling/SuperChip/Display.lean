import SuperChip.Event
import SuperChip.Memory
import SuperChip.Sprite

/-!
# Display

The picture that programs draw on, in low resolution (64 by 32) or high resolution (128 by 64).  The
pixels are stored row by row, one byte each, `0x00` for off and `0xFF` for on.  Coordinates wrap
around both edges.

Programs draw by flipping pixels.  A flip that switches a pixel off is a collision, and is told to
the program.  The picture is handed over for display only when it is flushed, and only if something
was done to it since the last flush.
-/

namespace SuperChip

/-- A display. -/
structure Display where
  /-- Whether the display is in high resolution. -/
  high : Bool := false
  /-- The pixels. -/
  pixels : Memory := Memory.blank (64 * 32)
  /-- Whether something was done to the picture since the last flush. -/
  dirty : Bool := true
  /-- Whether anyone is told about flushes and changes of resolution. -/
  observed : Bool := true
  deriving DecidableEq, Repr

namespace Display

/-- The number of pixels in a row. -/
def width (d : Display) : Nat := if d.high then 128 else 64

/-- The number of rows. -/
def height (d : Display) : Nat := if d.high then 64 else 32

/-- A row has at least one pixel. -/
theorem width_pos (d : Display) : 0 < d.width := by unfold width; split <;> decide

/-- There is at least one row. -/
theorem height_pos (d : Display) : 0 < d.height := by unfold height; split <;> decide

/-! ## Resolution -/

/-- A blank picture in the given resolution. -/
def blankAt (d : Display) (high : Bool) : Display :=
  { d with high, dirty := true, pixels := Memory.blank (if high then 128 * 64 else 64 * 32) }

/-- Switches to a resolution.  The picture is lost, unless it has that resolution already. -/
def setResolution (d : Display) (high : Bool) : Display :=
  if high = d.high then d else d.blankAt high

/-- What switching to a resolution tells. -/
def resolutionEvents (d : Display) (high : Bool) : List Event :=
  if high = d.high ∨ ¬ d.observed then [] else [.resolution high]

/-! ## Pixels -/

/-- Switches all pixels off. -/
def clear (d : Display) : Display := { d with pixels := d.pixels.clear, dirty := true }

/-- The location of a pixel in the store. -/
def location (d : Display) (x y : Int) : Int := y % d.height * d.width + x % d.width

/-- Whether a pixel is on. -/
def get (d : Display) (x y : Int) : Except Fault Bool :=
  return (← d.pixels.read (d.location x y)) != 0

/-- Flips a pixel, and says whether it is on then. -/
def toggle (d : Display) (x y : Int) : Except Fault (Display × Bool) := do
  let flipped := (← d.pixels.read (d.location x y)) ^^^ 0xFF
  let pixels ← d.pixels.write (d.location x y) flipped.toNat
  return ({ d with pixels, dirty := true }, flipped != 0)

/-- Flips the given pixels in turn, and says whether one of them was switched off. -/
def toggleAll (d : Display) (cells : List (Int × Int)) : Except Fault (Display × Bool) :=
  cells.foldlM (fun (d, collided) (x, y) ↦ do
    let (d, on) ← d.toggle x y
    return (d, collided || !on)) (d, false)

/-- Draws a sprite with its top left corner at a position, and says whether it collided. -/
def draw (d : Display) (x y : Nat) (s : Sprite) : Except Fault (Display × Bool) :=
  d.toggleAll (s.cells.map fun (column, row) ↦ ((x + column : Nat), (y + row : Nat)))

/-! ## Scrolling

What is blanked here is so little that every host has room for it. -/

/-- Scrolls by a distance with `move`.  Nothing happens at distance zero, and the whole picture goes
if the distance reaches `extent`. -/
def scroll (d : Display) (distance : Int) (extent : Nat)
    (move : Nat → Except Fault Memory) : Except Fault Display :=
  if distance < 0 then .error (.negativeScroll distance)
  else if distance = 0 then .ok d
  else if extent ≤ distance then .ok d.clear
  else do
    let pixels ← move distance.toNat
    return { d with pixels, dirty := true }

/-- Moves the picture up by a number of rows; the rows at the bottom are blank then. -/
def scrollUp (d : Display) (rows : Int) : Except Fault Display :=
  d.scroll rows d.height fun n ↦
    (d.pixels.shift (-(n * d.width : Nat))).zeroBlock
      ((d.height * d.width : Nat) - (n * d.width : Nat)) (n * d.width : Nat)

/-- Moves the picture down by a number of rows; the rows at the top are blank then. -/
def scrollDown (d : Display) (rows : Int) : Except Fault Display :=
  d.scroll rows d.height fun n ↦
    (d.pixels.shift (n * d.width : Nat)).zeroBlock 0 (n * d.width : Nat)

/-- Moves the picture to the left by a number of columns.  What leaves a row at its start comes out
at the end of the row above, and is erased there. -/
def scrollLeft (d : Display) (columns : Int) : Except Fault Display :=
  d.scroll columns d.width fun n ↦
    (List.range d.height).foldlM
      (fun pixels row ↦ pixels.zeroBlock ((d.width * (row + 1) : Nat) - (n : Int)) n)
      (d.pixels.shift (-(n : Int)))

/-- Moves the picture to the right by a number of columns.  What leaves a row at its end comes out
at the start of the row below, and is erased there. -/
def scrollRight (d : Display) (columns : Int) : Except Fault Display :=
  d.scroll columns d.width fun n ↦
    (List.range d.height).foldlM
      (fun pixels row ↦ pixels.zeroBlock (d.width * row : Nat) n)
      (d.pixels.shift n)

/-! ## Flushing -/

/-- The picture as it is handed over. -/
def frame (d : Display) : Frame :=
  { pixels := d.pixels.bytes, width := d.width, height := d.height }

/-- Takes note that the picture has been handed over. -/
def flush (d : Display) : Display := { d with dirty := false }

/-- What a flush tells: the picture, if something was done to it. -/
def flushEvents (d : Display) : List Event :=
  if d.dirty ∧ d.observed then [.redraw d.frame] else []

end Display

end SuperChip
