import SuperChip.Machine.Clock
import SuperChip.Machine.Execute

/-!
# Running a machine

A run executes one instruction after the other until the program ends or the host calls it off, and
keeps the timers in step with the host's clock.  Before each instruction it makes the reset that was
asked for.  When it ends, the picture is handed over for the last time.

The host is given by what a run needs of it: a clock to read, a way to wait, and an answer to
whether the run is called off.
-/

namespace SuperChip

/-- What a run needs of its host, whose own state is of type `σ`. -/
structure Host (σ : Type) where
  /-- Reads the clock, in seconds. -/
  clock : σ → Float × σ
  /-- Waits for some seconds. -/
  sleep : Float → σ → σ
  /-- Says whether the run is called off.  The host may work on the machine before it answers. -/
  cancelled : Machine → σ → Except Fault Bool × Machine × σ

/-- How a run came to its end. -/
inductive Ending
  /-- The program ended or the host called the run off. -/
  | finished
  /-- An instruction or the host met a fault. -/
  | failed (fault : Fault)
  /-- The time owed to the timers can never be paid out. -/
  | stalled
  /-- The allowed number of instructions was not enough. -/
  | exhausted
  deriving DecidableEq, Repr

/-- A run in progress, between two instructions. -/
structure Run (σ : Type) where
  /-- The machine. -/
  machine : Machine
  /-- The state of the host. -/
  host : σ
  /-- The time up to which the timers were served. -/
  last : Float
  /-- The time at which the counters are next shown. -/
  nextReport : Float
  /-- The instructions executed since the counters were shown. -/
  ops : Nat := 0
  /-- The ticks made since the counters were shown. -/
  ticks : Nat := 0

/-- The end of a run. -/
structure Outcome (σ : Type) where
  /-- The machine. -/
  machine : Machine
  /-- The state of the host. -/
  host : σ
  /-- How the run came to its end. -/
  ending : Ending

namespace Run

variable {σ : Type} (h : Host σ)

/-- A run about to begin. -/
def start (m : Machine) (s : σ) : Run σ :=
  let (now, s) := h.clock s
  { machine := m, host := s, last := now, nextReport := now + 1.0 }

/-- Makes the reset that was asked for.  The request is forgotten first, so one that arrives during
the reset is kept. -/
def resetIfRequested (m : Machine) : Machine :=
  if m.resetRequested then { m with resetRequested := false }.reset else m

/-- Shows the counters when their time has come. -/
def showCounters (r : Run σ) : Run σ :=
  if r.nextReport ≤ r.last then
    { r with
      machine := { r.machine with opsPerSecond := r.ops, ticksPerSecond := r.ticks }
      ops := 0, ticks := 0, nextReport := r.last + 1.0 }
  else r

/-- Waits for the time of the next instruction, if the speed is limited. -/
def pace (started : Float) (r : Run σ) : Run σ :=
  match r.machine.interval with
  | none => r
  | some interval =>
    let (now, s) := h.clock r.host
    let remaining := started + interval - now
    { r with host := if 0.0 < remaining then h.sleep remaining s else s }

/-- One instruction of a run that is not called off. -/
def cycle (r : Run σ) : Outcome σ ⊕ Run σ :=
  let (started, s) := h.clock r.host
  match (resetIfRequested r.machine).step with
  | (m, some fault) => .inl ⟨m, s, .failed fault⟩
  | (m, none) =>
    let (now, s) := h.clock s
    match m.advanceClock (now - r.last) with
    | none => .inl ⟨m, s, .stalled⟩
    | some (m, ticks) =>
      .inr <| pace h started <| showCounters
        { r with machine := m, host := s, last := now, ops := r.ops + 1, ticks := r.ticks + ticks }

/-- One turn of a run: it ends, or executes an instruction. -/
def turn (r : Run σ) : Outcome σ ⊕ Run σ :=
  if r.machine.halted then .inl ⟨r.machine.flush, r.host, .finished⟩
  else
    match h.cancelled r.machine r.host with
    | (.error fault, m, s) => .inl ⟨m, s, .failed fault⟩
    | (.ok true, m, s) => .inl ⟨m.flush, s, .finished⟩
    | (.ok false, m, s) => cycle h { r with machine := m, host := s }

/-- Runs for at most `budget` turns. -/
def finish : Nat → Run σ → Outcome σ
  | 0, r => ⟨r.machine, r.host, .exhausted⟩
  | budget + 1, r =>
    match turn h r with
    | .inl outcome => outcome
    | .inr r => finish budget r

end Run

/-- Runs a machine for at most `budget` turns. -/
def Machine.run {σ : Type} (h : Host σ) (budget : Nat) (m : Machine) (s : σ) : Outcome σ :=
  Run.finish h budget (Run.start h m s)

end SuperChip
