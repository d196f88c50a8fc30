import SuperChip.Machine.Operation
import SuperChip.Machine.Run

/-!
# The thread of a run

A run has a thread of its own, and in the meantime its host goes on in another one: it may ask for a
reset, press keys and change the speed at any moment.  What the thread of the run does at a stroke
is small, and the host may come in between any two of its actions, also between finding that a reset
was asked for, forgetting it, and the parts of the reset itself.

A state here says how far the thread has come, and keeps a history of requests, resets with their
parts, and instructions.  If the host does not come in between, the actions of the thread come to
`Run.turn`.
-/

namespace SuperChip

/-! ## The parts of a reset -/

/-- A part of a reset that is done at a stroke. -/
inductive ResetPart
  /-- The registers and the call stack are reset. -/
  | registers
  /-- The display is brought to low resolution. -/
  | resolution
  /-- The picture is cleared. -/
  | picture
  /-- All keys are released. -/
  | keys
  /-- The delay timer is stopped. -/
  | delay
  /-- The sound timer is stopped. -/
  | sound
  /-- The time owed to the timers is forgotten. -/
  | owed
  /-- The address of the instruction being executed is set. -/
  | current
  /-- The program goes on if it has ended. -/
  | halted
  deriving DecidableEq, Repr

namespace ResetPart

/-- Does a part of a reset. -/
def perform (m : Machine) : ResetPart → Machine
  | registers => { m with registers := m.registers.reset }
  | resolution => m.setResolution false
  | picture => { m with display := m.display.clear }
  | keys => m.clearKeys
  | delay => { m with delay := 0 }
  | sound => { m with sound := 0 }
  | owed => { m with owed := 0.0 }
  | current => { m with current := m.registers.pc }
  | halted => { m with halted := false }

/-- The parts of a reset, in their order. -/
def all : List ResetPart :=
  [registers, resolution, picture, keys, delay, sound, owed, current, halted]

theorem foldl_perform_all (m : Machine) : all.foldl perform m = m.reset := rfl

@[simp] theorem resetRequested_perform (m : Machine) (part : ResetPart) :
    (part.perform m).resetRequested = m.resetRequested := by
  cases part <;> rfl

end ResetPart

/-! ## The thread -/

/-- How far the thread of a run has come. -/
inductive Stage (σ : Type)
  /-- It is about to ask whether the run goes on. -/
  | asking
  /-- It is about to test whether a reset was asked for. -/
  | testing
  /-- It has found that a reset was asked for, and is about to forget that. -/
  | dropping
  /-- It is about to begin the reset. -/
  | entering
  /-- It is about to do the rest of the reset. -/
  | resetting (rest : List ResetPart)
  /-- It is about to start an instruction. -/
  | starting
  /-- It is about to serve the timers after an instruction that was started at some time. -/
  | serving (started : Float)
  /-- It is about to hand over the picture for the last time. -/
  | leaving
  /-- The run has come to its end. -/
  | ended (outcome : Outcome σ)

/-- Something that is kept in the history of a thread. -/
inductive Moment
  /-- The host asks for a reset. -/
  | requested
  /-- The thread tests whether a reset was asked for. -/
  | tested
  /-- A reset begins. -/
  | began
  /-- A part of a reset is done. -/
  | performed (part : ResetPart)
  /-- A reset comes to its end. -/
  | finished
  /-- An instruction is started. -/
  | executed
  deriving DecidableEq, Repr

/-- The thread of a run. -/
structure Thread (σ : Type) where
  /-- The run. -/
  run : Run σ
  /-- How far the thread has come. -/
  stage : Stage σ := .asking
  /-- What has happened so far, the newest moment first. -/
  history : List Moment := []

/-- Something that the host does to a machine that runs. -/
inductive Intervention
  /-- It asks for a reset. -/
  | requestReset
  /-- It presses or releases a key. -/
  | setKey (key : Int) (down : Bool)
  /-- It sets the speed. -/
  | setClockSpeed (speed : Int)
  deriving DecidableEq, Repr

namespace Thread

/-- Something that happens: the thread acts, or the host intervenes. -/
inductive Move
  /-- The thread goes on by one action. -/
  | act
  /-- The host does something. -/
  | intervene (i : Intervention)
  deriving DecidableEq, Repr

variable {σ : Type} (h : Host σ)

/-- A thread about to begin its run.  A reset that was asked for before counts as asked for now. -/
def start (m : Machine) (s : σ) : Thread σ where
  run := Run.start h m s
  history := if m.resetRequested then [.requested] else []

/-- The thread with another machine. -/
def withMachine (t : Thread σ) (machine : Machine) : Thread σ :=
  { t with run := { t.run with machine } }

/-- The thread after its host has said whether the run is called off. -/
def answered (t : Thread σ) : Except Fault Bool × Machine × σ → Thread σ
  | (answer, machine, host) =>
    { t with
      run := { t.run with machine, host }
      stage := match answer with
        | .error fault => .ended ⟨machine, host, .failed fault⟩
        | .ok true => .leaving
        | .ok false => .testing }

/-- The next action of the thread. -/
def act (t : Thread σ) : Thread σ :=
  match t.stage with
  | .asking =>
    if t.run.machine.halted then { t with stage := .leaving }
    else t.answered (h.cancelled t.run.machine t.run.host)
  | .testing =>
    { t with
      stage := if t.run.machine.resetRequested then .dropping else .starting
      history := .tested :: t.history }
  | .dropping =>
    { t.withMachine { t.run.machine with resetRequested := false } with stage := .entering }
  | .entering => { t with stage := .resetting ResetPart.all, history := .began :: t.history }
  | .resetting (part :: rest) =>
    { t.withMachine (part.perform t.run.machine) with
      stage := .resetting rest
      history := .performed part :: t.history }
  | .resetting [] => { t with stage := .starting, history := .finished :: t.history }
  | .starting =>
    let (started, host) := h.clock t.run.host
    let (machine, fault) := t.run.machine.step
    { run := { t.run with machine, host }
      stage := match fault with
        | some fault => .ended ⟨machine, host, .failed fault⟩
        | none => .serving started
      history := .executed :: t.history }
  | .serving started =>
    let (now, host) := h.clock t.run.host
    match t.run.machine.advanceClock (now - t.run.last) with
    | none => { t with stage := .ended ⟨t.run.machine, host, .stalled⟩ }
    | some (machine, ticks) =>
      { t with
        run := Run.pace h started <| Run.showCounters
          { t.run with
            machine, host, last := now, ops := t.run.ops + 1, ticks := t.run.ticks + ticks }
        stage := .asking }
  | .leaving =>
    { t.withMachine t.run.machine.flush with
      stage := .ended ⟨t.run.machine.flush, t.run.host, .finished⟩ }
  | .ended _ => t

/-- What becomes of the thread when the host intervenes. -/
def intervene (t : Thread σ) : Intervention → Thread σ
  | .requestReset =>
    { t.withMachine t.run.machine.requestReset with history := .requested :: t.history }
  | .setKey key down => t.withMachine (t.run.machine.attempt (t.run.machine.setKey key down)).1
  | .setClockSpeed speed => t.withMachine (t.run.machine.setClockSpeed speed).1

/-- What becomes of the thread when something happens. -/
def move (t : Thread σ) : Move → Thread σ
  | .act => t.act h
  | .intervene i => t.intervene i

/-- What becomes of the thread after some moves. -/
def after (t : Thread σ) (moves : List Move) : Thread σ := moves.foldl (move h) t

/-- What each move keeps, all of them keep. -/
theorem after_induction {P : Thread σ → Prop} (hP : ∀ t m, P t → P (t.move h m)) {t : Thread σ}
    (ht : P t) (moves : List Move) : P (t.after h moves) :=
  moves.foldlRecOn (move h) ht fun t ht m _ ↦ hP t m ht

/-! ## A thread that is left alone -/

/-- The thread comes from `t` to `t'` by its own actions. -/
def Reaches (t t' : Thread σ) : Prop := ∃ n, t.after h (List.replicate n .act) = t'

variable {h}

theorem Reaches.refl (t : Thread σ) : t.Reaches h t := ⟨0, rfl⟩

theorem Reaches.act {t t' t'' : Thread σ} (ht : t.act h = t') (ht' : t'.Reaches h t'') :
    t.Reaches h t'' := by
  obtain ⟨n, hn⟩ := ht'
  exact ⟨n + 1, (congrArg (·.after h (List.replicate n .act)) ht).trans hn⟩

theorem Reaches.trans {t t' t'' : Thread σ} (ht : t.Reaches h t') (ht' : t'.Reaches h t'') :
    t.Reaches h t'' := by
  obtain ⟨n, hn⟩ := ht
  induction n generalizing t with
  | zero =>
    cases hn
    exact ht'
  | succ n ih => exact .act rfl (ih hn)

/-- A reset that is begun comes to its end, all its parts done. -/
theorem reaches_resetting (r : Run σ) (rest : List ResetPart) (history : List Moment) :
    Reaches h ⟨r, .resetting rest, history⟩
      ⟨{ r with machine := rest.foldl ResetPart.perform r.machine }, .starting,
        .finished :: (rest.map .performed).reverseAux history⟩ := by
  induction rest generalizing r history with
  | nil => exact .act rfl (.refl _)
  | cons part rest ih =>
    exact .act rfl (ih { r with machine := part.perform r.machine } (.performed part :: history))

/-- From the test on, the thread makes the reset that was asked for, and comes to its next
instruction. -/
theorem exists_reaches_testing (r : Run σ) (history : List Moment) : ∃ history',
    Reaches h ⟨r, .testing, history⟩
      ⟨{ r with machine := Run.resetIfRequested r.machine }, .starting, history'⟩ := by
  cases hr : r.machine.resetRequested with
  | false =>
    have htest : (⟨r, .testing, history⟩ : Thread σ).act h =
        ⟨r, .starting, .tested :: history⟩ := by
      simp only [Thread.act, hr, Bool.false_eq_true, if_false]
    rw [Run.resetIfRequested, hr]
    exact ⟨_, .act htest (.refl _)⟩
  | true =>
    have htest : (⟨r, .testing, history⟩ : Thread σ).act h =
        ⟨r, .dropping, .tested :: history⟩ := by
      simp only [Thread.act, hr, if_true]
    -- After the test come dropping the flag, beginning, and all parts of the reset.
    have hreset := reaches_resetting (h := h)
      { r with machine := { r.machine with resetRequested := false } } ResetPart.all
      (.began :: .tested :: history)
    rw [ResetPart.foldl_perform_all] at hreset
    rw [Run.resetIfRequested, hr]
    exact ⟨_, .act htest (.act rfl (.act rfl hreset))⟩

/-- The thread stands where a turn has led to: at the end of the run, or before its next turn. -/
def StandsAt (t : Thread σ) : Outcome σ ⊕ Run σ → Prop
  | .inl outcome => t.stage = .ended outcome
  | .inr r => t.run = r ∧ t.stage = .asking

/-- From its instruction on, the thread does what is left of a turn. -/
theorem exists_standsAt_cycle (r : Run σ) (history : List Moment) : ∃ t,
    Reaches h ⟨{ r with machine := Run.resetIfRequested r.machine }, .starting, history⟩ t ∧
      t.StandsAt (Run.cycle h r) := by
  rw [Run.cycle]
  cases hs : (Run.resetIfRequested r.machine).step with
  | mk m fault =>
    cases fault with
    | some fault =>
      refine ⟨_, .act rfl (.refl _), ?_⟩
      simp only [Thread.act, hs]
      exact rfl
    | none =>
      have hact : (⟨{ r with machine := Run.resetIfRequested r.machine }, .starting, history⟩ :
          Thread σ).act h =
            ⟨{ r with machine := m, host := (h.clock r.host).2 },
              .serving (h.clock r.host).1, .executed :: history⟩ := by
        simp only [Thread.act, hs]
      refine ⟨_, .act hact (.act rfl (.refl _)), ?_⟩
      simp only [Thread.act]
      cases hm : m.advanceClock ((h.clock (h.clock r.host).2).1 - r.last) with
      | none => exact rfl
      | some served => exact ⟨rfl, rfl⟩

/-- If nobody intervenes, the thread makes a turn of its run. -/
theorem exists_standsAt_turn {t : Thread σ} (ht : t.stage = .asking) : ∃ t',
    t.Reaches h t' ∧ t'.StandsAt (Run.turn h t.run) := by
  obtain ⟨r, stage, history⟩ := t
  cases ht
  rw [Run.turn]
  by_cases hh : r.machine.halted
  · have hact : (⟨r, .asking, history⟩ : Thread σ).act h = ⟨r, .leaving, history⟩ := by
      simp only [Thread.act, hh, if_true]
    rw [if_pos hh]
    exact ⟨_, .act hact (.act rfl (.refl _)), rfl⟩
  · have hact : (⟨r, .asking, history⟩ : Thread σ).act h =
        answered ⟨r, .asking, history⟩ (h.cancelled r.machine r.host) := by
      simp only [Thread.act, hh]
      exact rfl
    rw [if_neg hh]
    split
    next fault m s hc =>
      rw [hc] at hact
      exact ⟨_, .act hact (.refl _), rfl⟩
    next m s hc =>
      rw [hc] at hact
      exact ⟨_, .act hact (.act rfl (.refl _)), rfl⟩
    next m s hc =>
      rw [hc] at hact
      obtain ⟨history', htest⟩ := exists_reaches_testing (h := h)
        { r with machine := m, host := s } history
      obtain ⟨t, hcycle, hstands⟩ := exists_standsAt_cycle (h := h)
        { r with machine := m, host := s } history'
      exact ⟨t, .act hact (htest.trans hcycle), hstands⟩

/-- If nobody intervenes, the thread brings its run to the end that it has. -/
theorem exists_reaches_ended {budget : Nat} {t : Thread σ} (ht : t.stage = .asking)
    (he : (Run.finish h budget t.run).ending ≠ .exhausted) : ∃ t',
    t.Reaches h t' ∧ t'.stage = .ended (Run.finish h budget t.run) := by
  induction budget generalizing t with
  | zero => exact absurd rfl he
  | succ budget ih =>
    obtain ⟨t', hturn, hstands⟩ := exists_standsAt_turn (h := h) ht
    rw [Run.finish] at he ⊢
    cases hr : Run.turn h t.run with
    | inl outcome =>
      rw [hr] at hstands
      exact ⟨t', hturn, hstands⟩
    | inr r =>
      rw [hr] at hstands he
      obtain ⟨rfl, hasking⟩ := hstands
      obtain ⟨t'', hrest, hended⟩ := ih hasking he
      exact ⟨t'', hturn.trans hrest, hended⟩

end Thread

end SuperChip
