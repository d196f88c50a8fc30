import SuperChip.Display
import SuperChip.Font
import SuperChip.Instruction
import SuperChip.Numeral.Double
import SuperChip.Random
import SuperChip.Registers

/-!
# The machine

The state of a machine and what its host may do to it: load a program, press and release keys, ask
for a reset, change the speed of the processor.

A program sees the memory, the registers, the display, the keypad, the two timers and the random
source.  The rest is the host's: the time owed to the timers, the speed, the counters, the records
of the monitor, and the log of everything that the machine has told the world.
-/

namespace SuperChip

/-- What the machine records of the instructions that it executes. -/
structure Monitor where
  /-- Whether each instruction is traced. -/
  live : Bool := false
  /-- The words that are no instruction and were executed, each with its address; the newest one
  first. -/
  unsupported : List (Address × Word) := []
  /-- The addresses that were reported. -/
  reported : List Address := []
  deriving DecidableEq, Repr

/-- A machine. -/
structure Machine where
  /-- The memory, 4096 bytes. -/
  memory : Memory := Font.memory 4096
  /-- The registers and the call stack. -/
  registers : Registers := {}
  /-- The display. -/
  display : Display := {}
  /-- The keys that are down. -/
  keys : Vector Bool 16 := Vector.replicate 16 false
  /-- The delay timer. -/
  delay : Int := 0
  /-- The sound timer. -/
  sound : Int := 0
  /-- The address of the instruction being executed. -/
  current : Address := 0x200
  /-- Whether the program has ended. -/
  halted : Bool := false
  /-- Where random bytes come from. -/
  random : RandomSource
  /-- Whether a reset was asked for and not yet made. -/
  resetRequested : Bool := false
  /-- The time, in seconds, that is owed to the timers. -/
  owed : Float := 0.0
  /-- The instructions to execute in a second; zero or less for no limit. -/
  clockSpeed : Int := 1000
  /-- The time for one instruction, in seconds, if there is a limit. -/
  interval : Option Float := none
  /-- The instructions executed in the last second of a run. -/
  opsPerSecond : Nat := 0
  /-- The ticks of the timers in the last second of a run. -/
  ticksPerSecond : Nat := 0
  /-- The number of tones sounded so far. -/
  tones : Nat := 0
  /-- The records of the monitor. -/
  monitor : Monitor := {}
  /-- What the machine has told the world, the newest event first. -/
  log : List Event := []

namespace Machine

/-- Where programs are loaded. -/
def programStart : Nat := 0x200

/-- The room for a program, in bytes. -/
def programRoom : Nat := 4096 - programStart

/-- The speed of a machine for which no other is given. -/
def defaultSpeed : Int := 1000

/-! ## The log -/

/-- Tells the world some events, in their order. -/
def tell (m : Machine) (events : List Event) : Machine := { m with log := events.reverse ++ m.log }

/-! ## Speed -/

/-- The time for one instruction at a speed: none at zero or below, where there is no limit. -/
def intervalOf (speed : Int) : Except Fault (Option Float) :=
  if speed ≤ 0 then .ok none
  else do
    let x ← Numeral.toDouble speed
    return some (1.0 / x)

/-- Sets the speed.  If no double is near enough to it for an interval, the old interval stays. -/
def setClockSpeed (m : Machine) (speed : Int) : Machine × Option Fault :=
  let m := { m with clockSpeed := speed }
  match intervalOf speed with
  | .ok interval => ({ m with interval }, none)
  | .error f => (m, some f)

/-- A new machine. -/
def powerOn (random : RandomSource) (speed : Int) (observed : Bool) : Except Fault Machine := do
  let interval ← intervalOf speed
  return { random, display := { observed }, clockSpeed := speed, interval }

/-! ## Programs and keys -/

/-- Puts a program where programs start. -/
def load (m : Machine) (program : List UInt8) : Except Fault Machine :=
  if programRoom < program.length then .error (.programTooLarge program.length)
  else do
    let memory ← m.memory.writeBlock programStart program
    return { m with memory }

/-- Puts a program of `count` equal bytes where programs start. -/
def loadFill (m : Machine) (byte : UInt8) (count : Nat) : Except Fault Machine :=
  if programRoom < count then .error (.programTooLarge count)
  else m.load (List.replicate count byte)

/-- A program of equal bytes is loaded like any other. -/
theorem loadFill_eq (m : Machine) (byte : UInt8) (count : Nat) :
    m.loadFill byte count = m.load (List.replicate count byte) := by
  unfold loadFill load
  split <;> simp_all

/-- Presses or releases a key. -/
def setKey (m : Machine) (key : Int) (down : Bool) : Except Fault Machine :=
  if 0 ≤ key ∧ key < 16 then .ok { m with keys := m.keys.setIfInBounds key.toNat down }
  else .error (.noSuchKey key)

/-- Releases all keys. -/
def clearKeys (m : Machine) : Machine := { m with keys := Vector.replicate 16 false }

/-! ## The display -/

/-- Switches the display to a resolution. -/
def setResolution (m : Machine) (high : Bool) : Machine :=
  { m.tell (m.display.resolutionEvents high) with display := m.display.setResolution high }

/-- Hands over the picture, if something was done to it. -/
def flush (m : Machine) : Machine :=
  { m.tell m.display.flushEvents with display := m.display.flush }

/-! ## Reset -/

/-- Starts again.  Memory and the user flags are left as they are, and so is all that belongs to the
host, except the time owed to the timers. -/
def reset (m : Machine) : Machine :=
  let m := { m with registers := m.registers.reset }
  let m := m.setResolution false
  let m := { m with display := m.display.clear }
  { m.clearKeys with
    delay := 0, sound := 0, owed := 0.0, current := m.registers.pc, halted := false }

/-- Asks for a reset, which a run makes before its next instruction. -/
def requestReset (m : Machine) : Machine := { m with resetRequested := true }

end Machine

end SuperChip
