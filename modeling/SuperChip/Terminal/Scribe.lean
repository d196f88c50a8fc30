import SuperChip.Terminal.Typing

/-!
# The thread that reads what is typed

Characters are read in a thread of their own, since reading waits for one.  What they ask for is put
in the queue, from which the main thread takes it whenever it likes.  The main thread may also tell
the reading thread to stop, which it finds out before it reads the next character.

What the reading thread does at a stroke is small: it tests whether it was told to stop, reads a
character, or puts something in the queue.  The main thread may come in between any two of these.  A
key that finds the queue full is lost.  A control waits until there is room.

A state here says how far the reading thread has come, and keeps a history.  If the main thread does
not come in between, the actions of the reading thread come to `read`.
-/

namespace SuperChip.Terminal

/-- How far the reading thread has come. -/
inductive Scribe.Stage
  /-- It is about to test whether it was told to stop. -/
  | testing
  /-- It is about to read a character. -/
  | reading
  /-- It is about to put a key in the queue, if there is room. -/
  | offering (k : Key)
  /-- It is about to put a control in the queue, as soon as there is room. -/
  | waiting (c : Control)
  /-- It has stopped. -/
  | stopped
  deriving DecidableEq, Repr

/-- Something that is kept in the history. -/
inductive Scribe.Note
  /-- The reading thread tests whether it was told to stop. -/
  | tested (told : Bool)
  /-- The reading thread reads a character; the queue is full by then, or not. -/
  | read (char : Int) (full : Bool)
  /-- The reading thread puts a number in the queue. -/
  | put (code : Int)
  /-- The reading thread finds no room for a key. -/
  | lost (k : Key)
  /-- The main thread takes a number from the queue. -/
  | taken (code : Int)
  /-- The main thread tells the reading thread to stop. -/
  | told
  deriving DecidableEq, Repr

/-- The thread that reads what is typed, and the queue. -/
structure Scribe where
  /-- The characters that are yet to be read. -/
  upcoming : List Int
  /-- The numbers in the queue, the oldest one first. -/
  queue : List Int := []
  /-- Whether the thread was told to stop. -/
  told : Bool := false
  /-- How far the thread has come. -/
  stage : Scribe.Stage := .testing
  /-- What has happened so far, the newest note first. -/
  history : List Scribe.Note := []
  deriving DecidableEq, Repr

namespace Scribe

/-- Something that happens. -/
inductive Move
  /-- The reading thread goes on by one action. -/
  | act
  /-- The main thread takes the oldest number from the queue, if there is one. -/
  | take
  /-- The main thread tells the reading thread to stop. -/
  | tell
  deriving DecidableEq, Repr

/-- A thread about to read some characters. -/
def start (upcoming : List Int) : Scribe := { upcoming }

variable (keymap : Keymap) (capacity : Int)

/-- The thread tests whether it was told to stop. -/
def test (s : Scribe) : Scribe :=
  { s with
    stage := if s.told then .stopped else .reading
    history := .tested s.told :: s.history }

/-- How far the thread has come when it has read a character. -/
def stageAfter (char : Int) : Stage :=
  match request? keymap char with
  | none => .testing
  | some (.key k) => .offering k
  | some (.control c) => .waiting c

/-- The thread reads the next character, if there is one. -/
def readNext (s : Scribe) : Scribe :=
  match s.upcoming with
  | [] => s
  | char :: upcoming =>
    { s with
      upcoming
      stage := stageAfter keymap char
      history := .read char (isFull capacity s.queue) :: s.history }

/-- The thread puts a key in the queue, if there is room. -/
def offer (k : Key) (s : Scribe) : Scribe :=
  match put? capacity s.queue k.val with
  | some queue => { s with queue, stage := .testing, history := .put k.val :: s.history }
  | none => { s with stage := .testing, history := .lost k :: s.history }

/-- The thread puts a control in the queue, if there is room; if there is none, it stays where it
is. -/
def await (c : Control) (s : Scribe) : Scribe :=
  match put? capacity s.queue c.code with
  | some queue =>
    { s with
      queue
      stage := if c = .quit then .stopped else .testing
      history := .put c.code :: s.history }
  | none => s

variable {capacity}

theorem offer_of_some {k : Key} {s : Scribe} {queue : List Int}
    (hq : put? capacity s.queue k.val = some queue) :
    s.offer capacity k =
      { s with queue, stage := .testing, history := .put k.val :: s.history } := by
  rw [offer, hq]

theorem offer_of_none {k : Key} {s : Scribe} (hq : put? capacity s.queue k.val = none) :
    s.offer capacity k = { s with stage := .testing, history := .lost k :: s.history } := by
  rw [offer, hq]

theorem await_of_some {c : Control} {s : Scribe} {queue : List Int}
    (hq : put? capacity s.queue c.code = some queue) :
    s.await capacity c =
      { s with
        queue
        stage := if c = .quit then .stopped else .testing
        history := .put c.code :: s.history } := by
  rw [await, hq]

theorem await_of_none {c : Control} {s : Scribe} (hq : put? capacity s.queue c.code = none) :
    s.await capacity c = s := by
  rw [await, hq]

variable (capacity)

/-- The next action of the reading thread.  Nothing happens while it waits for a character, or for
room. -/
def act (s : Scribe) : Scribe :=
  match s.stage with
  | .testing => s.test
  | .reading => s.readNext keymap capacity
  | .offering k => s.offer capacity k
  | .waiting c => s.await capacity c
  | .stopped => s

/-- The main thread takes the oldest number from the queue, if there is one. -/
def take (s : Scribe) : Scribe :=
  match s.queue with
  | [] => s
  | code :: queue => { s with queue, history := .taken code :: s.history }

/-- The main thread tells the reading thread to stop. -/
def tell (s : Scribe) : Scribe := { s with told := true, history := .told :: s.history }

/-- What becomes of the threads when something happens. -/
def move (s : Scribe) : Move → Scribe
  | .act => s.act keymap capacity
  | .take => s.take
  | .tell => s.tell

/-- What becomes of the threads after some moves. -/
def after (s : Scribe) (moves : List Move) : Scribe := moves.foldl (move keymap capacity) s

/-- What each move keeps, all of them keep. -/
theorem after_induction {P : Scribe → Prop} (hP : ∀ s m, P s → P (s.move keymap capacity m))
    {s : Scribe} (hs : P s) (moves : List Move) : P (s.after keymap capacity moves) :=
  moves.foldlRecOn (move keymap capacity) hs fun s hs m _ ↦ hP s m hs

/-! ## A thread that is left alone -/

/-- The thread stands where the reading of a character has led to, with some characters left. -/
def StandsAt (s : Scribe) (upcoming : List Int) : Reading → Prop
  | .goesOn queue => s.stage = .testing ∧ s.queue = queue ∧ s.upcoming = upcoming
  | .ends queue => s.stage = .stopped ∧ s.queue = queue ∧ s.upcoming = upcoming
  | .waits c => s.stage = .waiting c ∧ s.upcoming = upcoming

/-- If the main thread does not come in between, the reading thread does what is to be done with a
character. -/
theorem exists_standsAt_read {s : Scribe} {char : Int} {upcoming : List Int}
    (hs : s.stage = .reading) (hu : s.upcoming = char :: upcoming) :
    ∃ n, (s.after keymap capacity (List.replicate n .act)).StandsAt upcoming
      (Terminal.read keymap capacity s.queue char) := by
  obtain ⟨_, queue, told, _, history⟩ := s
  cases hs
  cases hu
  change ∃ n, StandsAt _ _ (Terminal.read keymap capacity queue char)
  rw [Terminal.read]
  cases hr : request? keymap char with
  | none =>
    have hstage : stageAfter keymap char = .testing := by rw [stageAfter, hr]
    exact ⟨1, hstage, rfl, rfl⟩
  | some r =>
    refine ⟨2, ?_⟩
    change StandsAt (act keymap capacity ⟨upcoming, queue, told, stageAfter keymap char,
      .read char (isFull capacity queue) :: history⟩) _ _
    cases r with
    | key k =>
      have hstage : stageAfter keymap char = .offering k := by rw [stageAfter, hr]
      rw [hstage]
      change StandsAt (offer capacity k _) _ _
      cases hq : put? capacity queue k.val with
      | some queue' =>
        rw [offer_of_some hq]
        simp only [hq]
        exact ⟨rfl, rfl, rfl⟩
      | none =>
        rw [offer_of_none hq]
        simp only [hq]
        exact ⟨rfl, rfl, rfl⟩
    | control c =>
      have hstage : stageAfter keymap char = .waiting c := by rw [stageAfter, hr]
      rw [hstage]
      change StandsAt (await capacity c _) _ _
      cases hq : put? capacity queue c.code with
      | none =>
        rw [await_of_none hq]
        simp only [hq]
        exact ⟨rfl, rfl⟩
      | some queue' =>
        rw [await_of_some hq]
        simp only [hq]
        cases c with
        | quit => exact ⟨rfl, rfl, rfl⟩
        | reset | faster | slower => exact ⟨rfl, rfl, rfl⟩

end Scribe

end SuperChip.Terminal
