import SuperChip.Entry
import SuperChip.Machine.Run
import SuperChip.Session.Stage

/-!
# Sessions

A session plays one program from beginning to end: it chooses a front end, reads the program, sets
up the screen, the inputs, the sound and the machine, runs the machine, and puts everything away.

The screen is set up first.  If the inputs cannot be set up, the screen is put away again.  If the
sound or the machine cannot be set up, the session ends at once and leaves the rest as it is.

What belongs to the house in which a session is played, its screens, inputs and sounds and what
goes on while the machine runs, is given apart from the session itself.

What a session does is given without real time: each look at the clock moves it on by a microsecond,
and waiting moves it on by as much as is waited for.
-/

namespace SuperChip.Session

/-! ## Running -/

/-- A host whose clock moves only when it is looked at. -/
structure Clockwork where
  /-- The time, in seconds. -/
  now : Float := 0.0
  /-- The number of instructions after which the user ends the run, if ever. -/
  patience : Option Nat := none
  /-- The number of instructions so far. -/
  count : Nat := 0

/-- By how much the clock moves when it is looked at, in seconds. -/
def clockStep : Float := 0.000001

/-- The host of a session. -/
def host : Host Clockwork where
  clock s := (s.now + clockStep, { s with now := s.now + clockStep })
  sleep time s := { s with now := s.now + time }
  cancelled m s :=
    match s.patience with
    | none => (.ok false, m, s)
    | some patience => (.ok (patience ≤ s.count), m, { s with count := s.count + 1 })

/-- The most instructions that a session executes. -/
def maxInstructions : Nat := 1000000000

/-- Runs a machine until it ends, or until the user has lost patience. -/
def run (m : Machine) (patience : Option Nat) : Machine × Option Fault :=
  let outcome := m.run host maxInstructions { patience }
  match outcome.ending with
  | .failed f => (outcome.machine, some f)
  | _ => (outcome.machine, none)

/-! ## Playing -/

/-- The line with which a session begins. -/
def introduction : String :=
  name ++ " V1.0.0 -- Copyright (C) 2022 Gregory Maynard-Hoare, " ++
    "licensed under GNU Affero General Public License v3.0\n"

/-- What a session leaves behind. -/
structure Record where
  /-- The fault that ended it, if one did. -/
  fault : Option Fault := none
  /-- What the machine told, the newest event first. -/
  log : List Event := []
  /-- The parts set up and put away, the newest act first. -/
  acts : List Act := []
  /-- The commands given to the terminal, in their order. -/
  commands : List Terminal.Command := []

/-- The text that a session has written. -/
def Record.output (r : Record) : String := introduction ++ Event.traceText r.log

/-- The reports that a session has written. -/
def Record.reports (r : Record) : String := Event.reportText r.log

/-- A machine for some options. -/
def machine (o : Options) (entropy : Int) : Except Fault Machine := do
  let seed ← o.seed.resolve entropy .numberBlank
  let speed ← o.clockSpeed.resolve Machine.defaultSpeed .numberBlank
  let m ← Machine.powerOn (RandomSource.ofSeed seed) speed true
  return m.setLive o.debug

/-- Sounds a tone for each that a machine has told. -/
def soundTones (log : List Event) (v : View) (sound : Sound) : View × Sound :=
  log.reverse.foldl (fun (v, sound) event ↦
    match event with
    | .tone _ => sound.play v
    | _ => (v, sound)) (v, sound)

/-- Runs a program that is loaded, and shows its last picture. -/
def perform (m : Machine) (v : View) (sound : Sound) : Machine × View × Option Fault :=
  let (m, fault) := run m none
  let (v, _) := soundTones m.log v sound
  match (v.attend m.log).refresh with
  | (v, some f) => (m, v, some f)
  | (v, none) => (m, v, fault)

/-- What a session finds in the house where it is played.  Each part of it may meet a fault. -/
structure House where
  /-- Sets up the screen of a front end. -/
  enterScreen : Options → FrontEnd → Except Fault View
  /-- Sets up the inputs of a front end. -/
  enterInputs : Choice String → FrontEnd → Except Fault Unit
  /-- Sets up the sound of a front end. -/
  enterSound : Choice Bool → FrontEnd → Except Fault Sound
  /-- What goes on from the time at which the program is loaded until everything is put away. -/
  perform : Machine → View → Sound → Machine × View × Option Fault

/-- The house with the front ends that there are. -/
def house : House where
  enterScreen := View.enter
  enterInputs := enterInputs
  enterSound := Sound.enter
  perform := perform

/-- Loads a program, runs it, and puts the stage away. -/
def play (house : House) (m : Machine) (program : List UInt8) (v : View) (sound : Sound)
    (acts : List Act) : Record :=
  let (m, v, fault) :=
    match m.load program with
    | .error f => (m, v, some f)
    | .ok m => house.perform m v sound
  { fault, log := m.log, commands := v.leave.commands
    acts := .leave .screen :: .leave .inputs :: .leave .sound :: acts }

/-- Sets up a stage and a machine, and plays a program there.  If the inputs meet a fault, the
screen is left again.

Faults are those of what is called here.  Asynchronous exceptions are left out: a keyboard
interrupt may come at any moment, and is not caught where a fault of the inputs is. -/
def setUp (house : House) (o : Options) (frontEnd : FrontEnd) (program : List UInt8)
    (entropy : Int) : Record :=
  match house.enterScreen o frontEnd with
  | .error f => { fault := some f }
  | .ok v =>
    let acts := [.enter .screen]
    match house.enterInputs o.keymap frontEnd with
    | .error f => { fault := some f, acts := .leave .screen :: acts, commands := v.leave.commands }
    | .ok () =>
      let acts := .enter .inputs :: acts
      match house.enterSound o.mute frontEnd with
      | .error f => { fault := some f, acts, commands := v.commands }
      | .ok sound =>
        let acts := .enter .sound :: acts
        match machine o entropy with
        | .error f => { fault := some f, acts, commands := v.commands }
        | .ok m => play house m program v sound acts

/-- Plays a session in a house.  `entry` is what stands under the name of the program, and `entropy`
seeds the random source if the user does not. -/
def startIn (house : House) (o : Options) (installed : Installed) (entry : Entry)
    (entropy : Int) : Record :=
  match FrontEnd.choose installed o.frontEnd with
  | .error f => { fault := some f }
  | .ok chosen =>
    match entry.content, chosen with
    | .error f, _ => { fault := some f }
    | .ok _, none => { fault := some .frontEndBlank }
    | .ok program, some frontEnd => setUp house o frontEnd program entropy

/-- Plays a session. -/
def start (o : Options) (installed : Installed) (entry : Entry) (entropy : Int) : Record :=
  startIn house o installed entry entropy

end SuperChip.Session
