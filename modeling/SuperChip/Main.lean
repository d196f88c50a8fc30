import SuperChip.Options.Parse
import SuperChip.Session

/-!
# The command

Reads the command line and plays a session without a screen.  The trace goes to the standard output
and the reports to the standard error output as they are told, and the machine keeps time with the
clock of the system.
-/

namespace SuperChip.Command

/-- The front ends of this command: there is neither a window nor a terminal to draw on. -/
def installed : Installed := { window := false, terminal := false }

/-- How to use the command. -/
def usage : String :=
  "usage: superchip [-h] [-c CLOCK_SPEED] [-r pygame|curses|null] [-s SCALE] [-f SMOOTHING]\n" ++
  "                 [-m 0|1] [-k KEYMAP] [--curses_cursor_mode 0|1|2]\n" ++
  "                 [--pygame_palette PALETTE] [--seed SEED] [-d] filename\n"

/-- What stands under the name of a file. -/
def readEntry (name : String) : IO Entry := do
  try
    return .file (← IO.FS.readBinFile name).toList
  catch
    | .noFileOrDirectory .. => return .missing
    | .inappropriateType .. => return .directory
    | e => throw e

/-- The time of the system, in seconds. -/
def now : IO Float := return Float.ofNat (← IO.monoNanosNow) / 1000000000.0

/-- The state of the host: the time, and how long to wait. -/
structure Clock where
  /-- The time, in seconds. -/
  time : Float
  /-- How long to wait, in seconds. -/
  wait : Float := 0.0

/-- A host with the clock of the system, which is set before each turn. -/
def host : Host Clock where
  clock s := (s.time, s)
  sleep time s := { s with wait := s.wait + time }
  cancelled m s := (.ok false, m, s)

/-- Writes what a machine has told, and forgets it. -/
def tell (m : Machine) : IO Machine := do
  IO.print (Event.traceText m.log)
  IO.eprint (Event.reportText m.log)
  return { m with log := [] }

/-- Runs to the end. -/
partial def live (r : Run Clock) : IO (Option Fault) := do
  match Run.turn host { r with host := { time := ← now } } with
  | .inl outcome =>
    let _ ← tell outcome.machine
    match outcome.ending with
    | .failed f => return some f
    | _ => return none
  | .inr r =>
    let machine ← tell r.machine
    if 0.0 < r.host.wait then IO.sleep (r.host.wait * 1000.0).toUInt32
    live { r with machine }

/-- A machine with the program loaded. -/
def prepare (o : Options) (entry : Entry) (entropy : Int) : Except Fault Machine := do
  let chosen ← FrontEnd.choose installed o.frontEnd
  let program ← entry.content
  let some frontEnd := chosen | .error .frontEndBlank
  Session.enterInputs o.keymap frontEnd
  let m ← Session.machine o entropy
  m.load program

/-- Plays a session with some options, and tells the fault that ended it. -/
def play (o : Options) : IO (Option Fault) := do
  IO.print Session.introduction
  match prepare o (← readEntry o.file) (← IO.monoNanosNow) with
  | .error f => return some f
  | .ok m => live (Run.start host m { time := ← now })

end SuperChip.Command

/-- Reads the command line and plays a session. -/
def main (args : List String) : IO UInt32 := do
  match SuperChip.Options.parse args with
  | .error .help =>
    IO.print SuperChip.Command.usage
    return 0
  | .error .usage =>
    IO.eprint SuperChip.Command.usage
    return 2
  | .ok o =>
    match ← SuperChip.Command.play o with
    | none => return 0
    | some f =>
      IO.eprintln f.message
      return 1
