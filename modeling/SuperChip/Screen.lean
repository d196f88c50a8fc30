import SuperChip.Event

/-!
# Screens

A screen shows the pictures that a machine hands over.  The machine draws at its own pace and the
screen is refreshed at another, so between them is a slot with room for one frame.  A frame that
finds the slot full takes the place of the older one, which is never shown.

What a refresh has to do is given as a list of orders, which each kind of screen carries out in its
own way.
-/

namespace SuperChip

/-! ## The slot -/

/-- Room for one frame. -/
abbrev FrameSlot := Option Frame

namespace FrameSlot

/-- Puts a frame in the slot, unless it is full. -/
def put? (slot : FrameSlot) (frame : Frame) : Option FrameSlot :=
  if slot.isNone then some (some frame) else none

/-- Takes the frame from the slot, unless it is empty. -/
def take? (slot : FrameSlot) : Option (Frame × FrameSlot) := slot.map (·, none)

/-- Puts a frame in the slot; if it is full, the frame in it is dropped first. -/
def offer (slot : FrameSlot) (frame : Frame) : FrameSlot :=
  match slot.put? frame with
  | some slot => slot
  | none =>
    let emptied := ((slot.take?).map (·.2)).getD slot
    (emptied.put? frame).getD emptied

/-- A frame that is put in the slot is the one that is taken from it next. -/
@[simp] theorem offer_eq (slot : FrameSlot) (frame : Frame) : slot.offer frame = some frame := by
  cases slot <;> rfl

end FrameSlot

/-! ## The screen -/

/-- What a screen has to do to show a frame. -/
inductive Order
  /-- Get ready for frames of another size. -/
  | resize (width height : Int)
  /-- Show the pixels of a frame. -/
  | paint (pixels : Array UInt8)
  deriving DecidableEq, Repr

/-- What all kinds of screens have in common. -/
structure Screen where
  /-- By how much pixels are stretched, or how wide the picture is. -/
  scale : Int := 1
  /-- The width of the frames shown. -/
  width : Int := 0
  /-- The height of the frames shown. -/
  height : Int := 0
  /-- Whether the machine is in high resolution. -/
  high : Bool := false
  /-- The number of frames shown. -/
  shown : Nat := 0
  /-- The frame waiting to be shown. -/
  slot : FrameSlot := none
  deriving DecidableEq, Repr

namespace Screen

/-- Takes over a frame from the machine. -/
def draw (s : Screen) (frame : Frame) : Screen := { s with slot := s.slot.offer frame }

/-- Takes note of the resolution of the machine. -/
def setHigh (s : Screen) (high : Bool) : Screen := { s with high }

/-- Sets the size of the frames shown. -/
def resize (s : Screen) (width height : Int) : Screen := { s with width, height }

/-- The orders for showing a frame. -/
def orders (s : Screen) (frame : Frame) : List Order :=
  (if frame.width = s.width ∧ frame.height = s.height then []
    else [.resize frame.width frame.height]) ++ [.paint frame.pixels]

/-- Counts a frame as shown. -/
def countShown (s : Screen) : Screen := { s with shown := s.shown + 1 }

/-- The screen without its waiting frame, and the orders for showing that frame. -/
def next? (s : Screen) : Option (Screen × List Order) :=
  s.slot.take?.map fun (frame, slot) ↦ ({ s with slot }, s.orders frame)

/-- Carries out an order on a screen that nobody sees: only sizes are kept. -/
def obey (s : Screen) : Order → Screen
  | .resize width height => s.resize width height
  | .paint _ => s

/-- Shows the waiting frame on a screen that nobody sees, and tells the orders it carried out. -/
def refresh (s : Screen) : Screen × List Order :=
  match s.next? with
  | none => (s, [])
  | some (s, orders) => ((orders.foldl obey s).countShown, orders)

/-- Takes over what a machine has told, given the newest event first. -/
def attend (s : Screen) (log : List Event) : Screen :=
  log.reverse.foldl (fun s event ↦
    match event with
    | .redraw frame => s.draw frame
    | .resolution high => s.setHigh high
    | _ => s) s

end Screen

end SuperChip
