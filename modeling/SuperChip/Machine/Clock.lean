import SuperChip.Machine.Basic

/-!
# The clock of the timers

The timers count down sixty times a second, and the picture is handed over as often.  Time is added
up between instructions and paid out in whole periods, so a slow host makes several ticks in a row
rather than slow timers.

A period is taken from the time owed by a subtraction of doubles.  Where the time owed is so large
that the subtraction does not change it, the catching up would never end; this is found out by the
first such subtraction, and there is no result.
-/

namespace SuperChip.Machine

/-- The time between two ticks, in seconds. -/
def tickInterval : Float := 1.0 / 60.0

/-- Counts the timers down once and hands over the picture.  A tone sounds when the sound timer
comes down to zero. -/
def tick (m : Machine) : Machine :=
  let m := if 0 < m.delay then { m with delay := m.delay - 1 } else m
  let m :=
    if 0 < m.sound then
      let m := { m with sound := m.sound - 1 }
      if m.sound = 0 then { m with tones := m.tones + 1 }.tell [.tone (m.tones + 1)] else m
    else m
  m.flush

/-- Pays out the time owed in whole periods, and adds their number to `ticks`. -/
def payOut (m : Machine) (ticks : Nat) : Option (Machine × Nat) :=
  if tickInterval ≤ m.owed then
    let left := m.owed - tickInterval
    if left.toBits.toNat < m.owed.toBits.toNat then
      payOut { m.tick with owed := left } (ticks + 1)
    else none
  else some (m, ticks)
termination_by m.owed.toBits.toNat

/-- Adds some time to the time owed and pays it out.  The result is the number of ticks; there is
none if the paying out never ends. -/
def advanceClock (m : Machine) (elapsed : Float) : Option (Machine × Nat) := do
  let (m, ticks) ← { m with owed := m.owed + elapsed }.payOut 0
  return (if m.owed < 0.0 then { m with owed := 0.0 } else m, ticks)

end SuperChip.Machine
