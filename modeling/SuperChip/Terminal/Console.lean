import SuperChip.Machine.Run
import SuperChip.Terminal.Inputs

/-!
# A machine at a terminal

The inputs from a terminal and the machine that they tell of keys go on side by side.  Numbers come
into the queue, the inputs are polled, and the machine makes a reset that was asked for when it gets
round to it, be it before the next poll or some polls later.

A history keeps what matters for the keys.
-/

namespace SuperChip.Terminal

/-- Something that matters for the keys of a machine. -/
inductive Happening
  /-- A poll has asked for a reset, and the inputs have forgotten what the machine was told. -/
  | asked
  /-- A poll has told the machine of changed keys; these are the ones that count as held. -/
  | told (held : Key → Bool)
  /-- The machine has been reset. -/
  | reset

/-- The inputs from a terminal and their machine. -/
structure Console where
  /-- The inputs. -/
  inputs : Inputs
  /-- The machine. -/
  machine : Machine
  /-- What has happened to the keys so far, the newest first. -/
  history : List Happening := []

namespace Console

/-- Something that is done at a terminal. -/
inductive Move
  /-- A number is put in the queue if there is room. -/
  | put (code : Int)
  /-- The inputs are polled at some time. -/
  | poll (now : Float)
  /-- The machine makes the reset that was asked for, if one was. -/
  | reset

/-- New inputs and their machine. -/
def start (keymap : Keymap) (machine : Machine) : Console where
  inputs := { keymap }
  machine := machine

/-- What a poll means for the keys.  A poll that comes to a bad end, or that ends the program, means
nothing for them. -/
def happening? (c : Console) (now : Float) : Option Happening :=
  match Inputs.drain now false c.inputs.queue c.inputs c.machine with
  | (_, _, .all true) => some .asked
  | (inputs, _, .all false) => some (.told (inputs.isHeld now))
  | _ => none

/-- The console after a poll. -/
def poll (c : Console) (now : Float) : Console :=
  let (inputs, machine, _) := c.inputs.poll c.machine now
  { inputs, machine, history := (c.happening? now).toList ++ c.history }

/-- What becomes of the console when something is done. -/
def move (c : Console) : Move → Console
  | .put code => { c with inputs := (c.inputs.put [code]).1 }
  | .poll now => c.poll now
  | .reset =>
    if c.machine.resetRequested then
      { c with machine := Run.resetIfRequested c.machine, history := .reset :: c.history }
    else c

/-- The console after some moves. -/
def after (c : Console) (moves : List Move) : Console := moves.foldl move c

/-- What each move keeps, all of them keep. -/
theorem after_induction {P : Console → Prop} (hP : ∀ c m, P c → P (c.move m)) {c : Console}
    (hc : P c) (moves : List Move) : P (c.after moves) :=
  moves.foldlRecOn move hc fun c hc m _ ↦ hP c m hc

end Console

end SuperChip.Terminal
