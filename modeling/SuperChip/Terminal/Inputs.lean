import SuperChip.Machine.Speed
import SuperChip.Terminal.Typing

/-!
# Keys at a terminal

A terminal tells when a character is typed but not when its key is let go.  A key counts as held for
a short time after its character was last seen; as long as the key is down, the character is
repeated within that time.

The machine is told only of keys that have changed since it was last told.  A reset releases all
keys of the machine, so after asking for one the inputs forget what they have told, and tell it
again at the next poll.
-/

namespace SuperChip.Terminal

/-- How long a key counts as held, in seconds. -/
def holdTime : Float := 0.2

/-- The room in the queue. -/
def queueCapacity : Int := 16

/-- The inputs from a terminal. -/
structure Inputs where
  /-- The keymap. -/
  keymap : Keymap
  /-- The times until which the keys count as held. -/
  timers : Vector Float 16 := Vector.replicate 16 0.0
  /-- The keys that the machine was told are down. -/
  reported : Vector Bool 16 := Vector.replicate 16 false
  /-- The numbers waiting, the oldest one first. -/
  queue : List Int := []

namespace Inputs

/-- The inputs for the text of a keymap. -/
def ofKeymap (text : String) : Except Fault Inputs := do
  let keymap ← Keymap.parse true text
  return { keymap }

/-- Puts numbers in the queue, as long as there is room. -/
def put (inputs : Inputs) : List Int → Inputs × Option Fault
  | [] => (inputs, none)
  | code :: codes =>
    match put? queueCapacity inputs.queue code with
    | none => (inputs, some .queueFull)
    | some queue => put { inputs with queue } codes

/-- Holds a key from `now` on.  The number of the key counts from the last key if it is negative. -/
def hold (inputs : Inputs) (now : Float) (code : Int) : Except Fault Inputs :=
  match position? 16 code with
  | none => .error .indexOutOfRange
  | some k => .ok { inputs with timers := inputs.timers.setIfInBounds k (now + holdTime) }

/-- How a queue was worked off. -/
inductive Drained
  /-- All of it, with a request for a reset or without one. -/
  | all (reset : Bool)
  /-- Up to a request to end the program. -/
  | quit
  /-- Up to a fault. -/
  | failed (fault : Fault)
  deriving DecidableEq, Repr

/-- Works off numbers from the queue; those that are left stay in it. -/
def drain (now : Float) (reset : Bool) :
    List Int → Inputs → Machine → Inputs × Machine × Drained
  | [], inputs, m => ({ inputs with queue := [] }, m, .all reset)
  | code :: rest, inputs, m =>
    let inputs := { inputs with queue := rest }
    match Control.ofCode? code with
    | some .quit => (inputs, m, .quit)
    | some .reset =>
      match m.restoreSpeed with
      | (m, none) => drain now true rest inputs m.requestReset
      | (m, some f) => (inputs, m, .failed f)
    | some .faster =>
      match m.faster with
      | (m, none) => drain now reset rest inputs m
      | (m, some f) => (inputs, m, .failed f)
    | some .slower =>
      match m.slower with
      | (m, none) => drain now reset rest inputs m
      | (m, some f) => (inputs, m, .failed f)
    | none =>
      match inputs.hold now code with
      | .ok inputs => drain now reset rest inputs m
      | .error f => (inputs, m, .failed f)

/-- Whether a key counts as held. -/
def isHeld (inputs : Inputs) (now : Float) (key : Key) : Bool := now < inputs.timers.get key

/-- Tells the machine of a key if it has changed. -/
def report (inputs : Inputs) (m : Machine) (now : Float) (key : Key) : Inputs × Machine :=
  let down := inputs.isHeld now key
  if down = inputs.reported.get key then (inputs, m)
  else
    ({ inputs with reported := inputs.reported.setIfInBounds key down },
      { m with keys := m.keys.setIfInBounds key down })

/-- Tells the machine of all keys that have changed. -/
def reportAll (inputs : Inputs) (m : Machine) (now : Float) : Inputs × Machine :=
  (List.finRange 16).foldl (fun (inputs, m) key ↦ inputs.report m now key) (inputs, m)

/-- Works off the queue and tells the machine of changed keys.  The answer is whether the program is
to end. -/
def poll (inputs : Inputs) (m : Machine) (now : Float) : Inputs × Machine × Except Fault Bool :=
  match drain now false inputs.queue inputs m with
  | (inputs, m, .quit) => (inputs, m, .ok true)
  | (inputs, m, .failed f) => (inputs, m, .error f)
  | (inputs, m, .all true) =>
    ({ inputs with reported := Vector.replicate 16 false }, m, .ok false)
  | (inputs, m, .all false) =>
    let (inputs, m) := inputs.reportAll m now
    (inputs, m, .ok false)

end Inputs

end SuperChip.Terminal
