import SuperChip.Instruction.Disassembly
import SuperChip.Machine.Basic

/-!
# Traces and reports

The text that shows the state of a machine before an instruction.  A line gives the registers, `VF`
first, the timers, the address and word of the instruction, and its text.  A dump adds the user
flags and the call stack, the oldest return address first.

A word that is no instruction is recorded each time it is executed, and reported the first time that
one is executed at its address.
-/

namespace SuperChip

open Numeral (hex)

/-- The bytes of a bank in base sixteen, the last one first. -/
def Bank.text (b : Bank) : String :=
  String.join (b.toList.reverse.map fun byte ↦ hex 2 byte.toNat)

namespace Machine

/-- The state of the machine before an instruction, in a line. -/
def traceLine (m : Machine) (w : Word) : String :=
  "V: 0x" ++ m.registers.v.text ++
  " I: 0x" ++ hex 4 m.registers.index ++
  " DT: 0x" ++ hex 2 m.delay ++
  " ST: 0x" ++ hex 2 m.sound ++
  " PC: 0x" ++ hex 3 m.current.toNat ++
  " OP: 0x" ++ hex 4 w.toNat ++
  " IN: " ++ (Instruction.decode w).text

/-- The call stack, the oldest return address first. -/
def stackText (m : Machine) : String :=
  if m.registers.stack.isEmpty then " (Empty)"
  else String.join (m.registers.stack.reverse.map fun a ↦ " 0x" ++ hex 3 a.toNat)

/-- The state of the machine before an instruction, in full. -/
def dump (m : Machine) (w : Word) : String :=
  m.traceLine w ++ "\nRPL: 0x" ++ m.registers.flags.text ++ "\nStack:" ++ m.stackText

/-- The report on a word that is no instruction. -/
def unsupportedReport (m : Machine) (w : Word) : String :=
  "Opcode 0x" ++ hex 4 w.toNat ++ " at address 0x" ++ hex 3 m.current.toNat ++
  " is not emulated, skipping.\n" ++ m.dump w

/-- Records a word that is no instruction. -/
def recordUnsupported (m : Machine) (w : Word) : Machine :=
  let unsupported := (m.current, w) :: m.monitor.unsupported
  if m.current ∈ m.monitor.reported then
    { m with monitor := { m.monitor with unsupported } }
  else
    let reported := m.current :: m.monitor.reported
    { m.tell [.report (m.unsupportedReport w)] with
      monitor := { m.monitor with unsupported, reported } }

/-- Traces a word about to be executed, if the trace is live. -/
def trace (m : Machine) (w : Word) : Machine :=
  if m.monitor.live then m.tell [.trace (m.traceLine w)] else m

/-- Switches the live trace on or off. -/
def setLive (m : Machine) (live : Bool) : Machine :=
  { m with monitor := { m.monitor with live } }

end Machine

end SuperChip
