import SuperChip.Machine.Basic

/-!
# Changing the speed

The host's keys make the machine faster or slower by a tenth, or bring it back to the usual speed.
The factor is the double nearest to 1.1, and the product or quotient is cut to an integer.  A
machine without a speed limit is left alone.
-/

namespace SuperChip.Machine

/-- The factor between one speed and the next. -/
def speedStep : Float := 1.1

/-- The next higher speed. -/
def fasterSpeed (speed : Int) : Except Fault Int := do
  let x ← Numeral.toDouble speed
  let n ← Numeral.truncate (x * speedStep)
  return n + 1

/-- The next lower speed, which is at least one. -/
def slowerSpeed (speed : Int) : Except Fault Int := do
  let x ← Numeral.toDouble speed
  let n ← Numeral.truncate (x / speedStep)
  return max 1 n

/-- Changes a limited speed as `next` says. -/
def changeSpeed (m : Machine) (next : Int → Except Fault Int) : Machine × Option Fault :=
  if m.clockSpeed ≤ 0 then (m, none)
  else
    match next m.clockSpeed with
    | .ok speed => m.setClockSpeed speed
    | .error f => (m, some f)

/-- Makes the machine faster. -/
def faster (m : Machine) : Machine × Option Fault := m.changeSpeed fasterSpeed

/-- Makes the machine slower. -/
def slower (m : Machine) : Machine × Option Fault := m.changeSpeed slowerSpeed

/-- Brings the machine back to the usual speed. -/
def restoreSpeed (m : Machine) : Machine × Option Fault := m.setClockSpeed defaultSpeed

end SuperChip.Machine
