import SuperChip.Machine.Clock
import SuperChip.Machine.Execute

/-!
# Operations

Everything that can be done to a machine from outside, in one type: what its host does to it, what
happens to it as time goes by, what is done to its display directly, and the bookkeeping of a run.
Operations may come in any order.  One that is refused leaves what it leaves, and the next one goes
on from there.
-/

namespace SuperChip

/-- Something that is done to a machine. -/
inductive Operation
  /-- A program is loaded. -/
  | load (program : List UInt8)
  /-- A key is pressed or released. -/
  | setKey (key : Int) (down : Bool)
  /-- All keys are released. -/
  | clearKeys
  /-- A reset is asked for. -/
  | requestReset
  /-- The machine is reset. -/
  | reset
  /-- The speed is set. -/
  | setClockSpeed (speed : Int)
  /-- The live trace is switched on or off. -/
  | setLive (live : Bool)
  /-- The instruction at the program counter is executed. -/
  | step
  /-- An instruction is executed that does not lie in memory. -/
  | execute (word : Int)
  /-- The timers count down once. -/
  | tick
  /-- Some time goes by. -/
  | advanceClock (elapsed : Float)
  /-- A pixel is flipped. -/
  | toggle (x y : Int)
  /-- All pixels are switched off. -/
  | clear
  /-- The resolution is switched. -/
  | setResolution (high : Bool)
  /-- The picture is moved up. -/
  | scrollUp (rows : Int)
  /-- The picture is moved down. -/
  | scrollDown (rows : Int)
  /-- The picture is moved to the left. -/
  | scrollLeft (columns : Int)
  /-- The picture is moved to the right. -/
  | scrollRight (columns : Int)
  /-- The picture is handed over. -/
  | flush
  /-- A run forgets the reset that was asked for, since it is about to make it. -/
  | dropRequest
  /-- A run shows its counters. -/
  | showCounters (ops ticks : Nat)

namespace Machine

/-- What a refusable change leaves: the machine as it was, if it is refused. -/
def attempt (m : Machine) : Except Fault Machine → Machine × Option Fault
  | .ok m' => (m', none)
  | .error f => (m, some f)

/-- What a change keeps unless it is refused, it keeps in any case. -/
theorem attempt_induction {P : Machine → Prop} {m : Machine} {r : Except Fault Machine} (hm : P m)
    (hr : ∀ m', r = .ok m' → P m') : P (m.attempt r).1 := by
  cases r with
  | ok m' => exact hr m' rfl
  | error f => exact hm

/-- Flips a pixel. -/
def toggle (m : Machine) (x y : Int) : Except Fault Machine := do
  let (display, _) ← m.display.toggle x y
  return { m with display }

/-- The machine after an operation, and the fault that the operation met.  There is no machine if
the operation never comes to its end. -/
def operate (m : Machine) : Operation → Option (Machine × Option Fault)
  | .load program => some (m.attempt (m.load program))
  | .setKey key down => some (m.attempt (m.setKey key down))
  | .clearKeys => some (m.clearKeys, none)
  | .requestReset => some (m.requestReset, none)
  | .reset => some (m.reset, none)
  | .setClockSpeed speed => some (m.setClockSpeed speed)
  | .setLive live => some (m.setLive live, none)
  | .step => some m.step
  | .execute word => some (m.execute (Word.ofInt word))
  | .tick => some (m.tick, none)
  | .advanceClock elapsed => (m.advanceClock elapsed).map fun (m, _) ↦ (m, none)
  | .toggle x y => some (m.attempt (m.toggle x y))
  | .clear => some ({ m with display := m.display.clear }, none)
  | .setResolution high => some (m.setResolution high, none)
  | .scrollUp rows => some (m.attempt (m.scroll (·.scrollUp rows)))
  | .scrollDown rows => some (m.attempt (m.scroll (·.scrollDown rows)))
  | .scrollLeft columns => some (m.attempt (m.scroll (·.scrollLeft columns)))
  | .scrollRight columns => some (m.attempt (m.scroll (·.scrollRight columns)))
  | .flush => some (m.flush, none)
  | .dropRequest => some ({ m with resetRequested := false }, none)
  | .showCounters ops ticks =>
    some ({ m with opsPerSecond := ops, ticksPerSecond := ticks }, none)

/-- The machine after some operations, faults or not. -/
def operateAll : Machine → List Operation → Option Machine
  | m, [] => some m
  | m, o :: ops =>
    match m.operate o with
    | none => none
    | some (m', _) => m'.operateAll ops

/-- Operations that come to their end have come through the first one. -/
theorem exists_of_operateAll_cons {m n : Machine} {o : Operation} {ops : List Operation}
    (hn : m.operateAll (o :: ops) = some n) :
    ∃ r, m.operate o = some r ∧ r.1.operateAll ops = some n := by
  rw [operateAll] at hn
  split at hn
  · cases hn
  next m' f ho => exact ⟨(m', f), ho, hn⟩

/-- Operations that are done one list after the other. -/
theorem operateAll_append (m : Machine) (ops ops' : List Operation) :
    m.operateAll (ops ++ ops') = (m.operateAll ops).bind (·.operateAll ops') := by
  induction ops generalizing m with
  | nil => rfl
  | cons o ops ih =>
    rw [List.cons_append, operateAll, operateAll]
    cases m.operate o with
    | none => rfl
    | some r => exact ih r.1

/-- What each operation keeps, all of them keep. -/
theorem operateAll_induction {P : Machine → Prop} {m m' : Machine} {ops : List Operation}
    (hP : ∀ m o r, P m → m.operate o = some r → P r.1) (hm : P m)
    (hops : m.operateAll ops = some m') : P m' := by
  induction ops generalizing m with
  | nil =>
    cases hops
    exact hm
  | cons o ops ih =>
    rw [operateAll] at hops
    cases ho : m.operate o with
    | none =>
      rw [ho] at hops
      cases hops
    | some r =>
      rw [ho] at hops
      exact ih (hP m o r hm ho) hops

end Machine

end SuperChip
