/-!
# Events

What the machine tells the world around it while it works.  Events are kept in a log, the newest one
first.
-/

namespace SuperChip

/-- A picture handed over for display, one byte for each pixel in row order. -/
structure Frame where
  /-- The pixels, zero for off. -/
  pixels : Array UInt8
  /-- The number of pixels in a row. -/
  width : Int
  /-- The number of rows. -/
  height : Int
  deriving DecidableEq, Repr

/-- Something that the machine tells the world. -/
inductive Event
  /-- The picture has changed. -/
  | redraw (frame : Frame)
  /-- The resolution has changed. -/
  | resolution (high : Bool)
  /-- The alert tone is to sound, for the `count`-th time. -/
  | tone (count : Nat)
  /-- A line of the live trace. -/
  | trace (line : String)
  /-- A report on a word that is no instruction. -/
  | report (text : String)
  deriving DecidableEq, Repr

/-- The text that a log leaves on the live trace, each entry on lines of its own. -/
def Event.traceText (log : List Event) : String :=
  String.join <| log.reverse.filterMap fun
    | .trace line => some (line ++ "\n")
    | _ => none

/-- The text that a log leaves among the reports, each entry on lines of its own. -/
def Event.reportText (log : List Event) : String :=
  String.join <| log.reverse.filterMap fun
    | .report text => some (text ++ "\n")
    | _ => none

end SuperChip
