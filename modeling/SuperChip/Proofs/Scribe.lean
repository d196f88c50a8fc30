import SuperChip.Terminal.Inputs
import SuperChip.Terminal.Scribe

/-!
# No control is lost on its way to the host

A character that is read may put a number in the queue, and nothing else does.  The main thread may
take numbers from the queue at any time, and may tell the reading thread to stop.  Whatever it does,
the numbers come through the queue in the order of the characters.  A key is lost if it finds the
queue full, which it was already when its character was read, since only the main thread touches the
queue in between, and makes room.  A control is never lost: it waits.

The reading thread stops when it has put the control that ends the program in the queue, or when it
finds out that it was told to stop, and at no other time.  That is the last thing that it does.
-/

namespace SuperChip.Terminal

/-! ## What characters put in the queue -/

namespace Control

/-- Controls have negative numbers. -/
theorem code_neg (c : Control) : c.code < 0 := by cases c <;> decide

/-- No key has the number of a control. -/
theorem code_ne_natCast (c : Control) (n : Nat) : c.code ≠ n := by
  have := c.code_neg
  omega

end Control

namespace Scribe

/-- A character that is read, and whether the queue is full by then. -/
def Note.read? : Note → Option (Int × Bool)
  | .read char full => some (char, full)
  | _ => none

/-- A number that is put in the queue. -/
def Note.put? : Note → Option Int
  | .put code => some code
  | _ => none

/-- A number that is taken from the queue. -/
def Note.taken? : Note → Option Int
  | .taken code => some code
  | _ => none

/-- The main thread does something. -/
def Note.IsForeign : Note → Prop
  | .taken _ | .told => True
  | _ => False

/-- The reading thread has a reason to stop: it has put the control that ends the program in the
queue, or it has found out that it was told to stop. -/
def Note.IsLast : Note → Prop
  | .put code => code = Control.quit.code
  | .tested stop => stop
  | _ => False

/-- The number of the control that waits for room, if one does. -/
def Stage.pending : Stage → List Int
  | .waiting c => [c.code]
  | _ => []

/-- The characters that were read, the first one first, and whether the queue was full by then. -/
def reads (s : Scribe) : List (Int × Bool) := s.history.reverse.filterMap Note.read?

/-- The numbers that were put in the queue, the first one first. -/
def puts (s : Scribe) : List Int := s.history.reverse.filterMap Note.put?

/-- The numbers that were taken from the queue, the first one first. -/
def taken (s : Scribe) : List Int := s.history.reverse.filterMap Note.taken?

/-- What was put in the queue for the characters that were read. -/
inductive Account (keymap : Keymap) : List (Int × Bool) → List Int → Prop
  /-- No characters put nothing. -/
  | nil : Account keymap [] []
  /-- A character that asks for nothing puts nothing. -/
  | blank {reads : List (Int × Bool)} {puts : List Int} {char : Int} {full : Bool}
    (h : Account keymap reads puts) (hr : request? keymap char = none) :
    Account keymap (reads ++ [(char, full)]) puts
  /-- A character puts what it asks for. -/
  | stored {reads : List (Int × Bool)} {puts : List Int} {char : Int} {full : Bool} {r : Request}
    (h : Account keymap reads puts) (hr : request? keymap char = some r) :
    Account keymap (reads ++ [(char, full)]) (puts ++ [r.code])
  /-- A key is lost that was read while the queue was full. -/
  | lost {reads : List (Int × Bool)} {puts : List Int} {char : Int} {k : Key}
    (h : Account keymap reads puts) (hr : request? keymap char = some (.key k)) :
    Account keymap (reads ++ [(char, true)]) puts

variable {keymap : Keymap} {capacity : Int} {reads : List (Int × Bool)} {puts : List Int}

theorem code?_of_request? {char : Int} {r : Request} (hr : request? keymap char = some r) :
    code? keymap char = some r.code := by
  rw [code?, hr]
  rfl

/-- What is put is among what is asked for, in the same order. -/
theorem Account.sublist (h : Account keymap reads puts) :
    puts.Sublist ((reads.map Prod.fst).filterMap (code? keymap)) := by
  induction h with
  | nil => exact .slnil
  | blank _ hr ih =>
    rw [List.map_append, List.filterMap_append]
    exact ih.trans (List.sublist_append_left _ _)
  | stored _ hr ih =>
    rw [List.map_append, List.filterMap_append]
    refine ih.append ?_
    simp [code?_of_request? hr]
  | lost _ hr ih =>
    rw [List.map_append, List.filterMap_append]
    exact ih.trans (List.sublist_append_left _ _)

/-- All controls that are asked for are put, in the same order. -/
theorem Account.controls (h : Account keymap reads puts) :
    puts.filter (· < 0) = ((reads.map Prod.fst).filterMap (code? keymap)).filter (· < 0) := by
  induction h with
  | nil => rfl
  | blank _ hr ih => simp [ih, code?, hr]
  | stored _ hr ih => simp [ih, code?, hr]
  | lost _ hr ih => simp [ih, code?, hr, Request.code]

/-! ## The queue -/

/-- The character that was read last and is not yet done with.  A key that is about to find the
queue full was read while it was full. -/
inductive InHand (keymap : Keymap) (capacity : Int) (queue : List Int) :
    Stage → List (Int × Bool) → Prop
  /-- The thread has nothing in hand when it is about to test. -/
  | testing : InHand keymap capacity queue .testing []
  /-- The thread has nothing in hand when it is about to read. -/
  | reading : InHand keymap capacity queue .reading []
  /-- The thread has a key in hand. -/
  | offering {k : Key} {char : Int} {full : Bool} (hr : request? keymap char = some (.key k))
    (hf : isFull capacity queue → full) :
    InHand keymap capacity queue (.offering k) [(char, full)]
  /-- The thread has a control in hand. -/
  | waiting {c : Control} {char : Int} {full : Bool}
    (hr : request? keymap char = some (.control c)) :
    InHand keymap capacity queue (.waiting c) [(char, full)]
  /-- The thread has nothing in hand when it has stopped. -/
  | stopped : InHand keymap capacity queue .stopped []

/-- What was read went through the queue, or is in hand, or was lost for a reason. -/
structure Delivery (keymap : Keymap) (capacity : Int) (upcoming : List Int) (s : Scribe) :
    Prop where
  /-- The characters are read one after the other. -/
  chars : s.reads.map Prod.fst ++ s.upcoming = upcoming
  /-- What was put in the queue was taken from it, or is in it. -/
  queue : s.puts = s.taken ++ s.queue
  /-- The queue is never longer than it may be. -/
  room : 0 < capacity → s.queue.length ≤ capacity
  /-- Each character but the one in hand has put what it asks for, or was a key and is lost. -/
  account : ∃ reads last, s.reads = reads ++ last ∧ Account keymap reads s.puts ∧
    InHand keymap capacity s.queue s.stage last

variable {upcoming : List Int} {s : Scribe}

/-- What a note adds to the lists that are made of a history. -/
theorem lists_of_note (s' : Scribe) {note : Note} (h : s'.history = note :: s.history) :
    s'.reads = s.reads ++ note.read?.toList ∧ s'.puts = s.puts ++ note.put?.toList ∧
      s'.taken = s.taken ++ note.taken?.toList := by
  have hlist {α : Type} (f : Note → Option α) : s'.history.reverse.filterMap f =
      s.history.reverse.filterMap f ++ (f note).toList := by
    rw [h, List.reverse_cons, List.filterMap_append]
    cases hf : f note <;> simp [hf]
  exact ⟨hlist _, hlist _, hlist _⟩

/-- What is put in a queue is its newest number, and there was room for it. -/
theorem of_put?_eq_some {queue queue' : List Int} {code : Int}
    (hq : put? capacity queue code = some queue') :
    queue' = queue ++ [code] ∧ (0 < capacity → queue'.length ≤ capacity) := by
  rw [put?] at hq
  split at hq
  · cases hq
  next hf =>
    cases hq
    refine ⟨rfl, ?_⟩
    intro hpos
    simp [isFull, hpos] at hf
    rw [List.length_append, List.length_singleton]
    omega

/-- A queue that takes nothing is full. -/
theorem isFull_of_put? {queue : List Int} {code : Int} (hq : put? capacity queue code = none) :
    isFull capacity queue := by
  rw [put?] at hq
  split at hq
  next hf => exact hf
  · cases hq

/-- A queue from which a number was taken was full if it is full. -/
theorem isFull_cons {code : Int} {queue : List Int} (hf : isFull capacity queue) :
    isFull capacity (code :: queue) := by
  simp [isFull] at hf ⊢
  omega

/-- What is in hand stays there when a number is taken from the queue. -/
theorem InHand.tail {code : Int} {queue : List Int} {stage : Stage} {last : List (Int × Bool)}
    (h : InHand keymap capacity (code :: queue) stage last) :
    InHand keymap capacity queue stage last := by
  cases h with
  | testing => exact .testing
  | reading => exact .reading
  | offering hr hf => exact .offering hr fun hfull ↦ hf (isFull_cons hfull)
  | waiting hr => exact .waiting hr
  | stopped => exact .stopped

/-- A control that waits is the only one in hand. -/
theorem InHand.pending {queue : List Int} {stage : Stage} {last : List (Int × Bool)}
    (h : InHand keymap capacity queue stage last) :
    stage.pending = ((last.map Prod.fst).filterMap (code? keymap)).filter (· < 0) := by
  cases h with
  | testing | reading | stopped => rfl
  | offering hr hf => simp [Stage.pending, code?_of_request? hr, Request.code]
  | waiting hr => simp [Stage.pending, code?_of_request? hr, Request.code, Control.code_neg]

namespace Delivery

/-- A note that is about nothing that is read, put or taken makes no difference, if the same is in
hand after it. -/
theorem quiet (h : Delivery keymap capacity upcoming s) {note : Note} {told : Bool} {stage : Stage}
    (hread : note.read? = none) (hput : note.put? = none) (htake : note.taken? = none)
    (hstage : ∀ last, InHand keymap capacity s.queue s.stage last →
      InHand keymap capacity s.queue stage last) :
    Delivery keymap capacity upcoming { s with told, stage, history := note :: s.history } := by
  obtain ⟨hreads, hputs, htaken⟩ := lists_of_note (s := s)
    { s with told, stage, history := note :: s.history } rfl
  rw [hread, Option.toList_none, List.append_nil] at hreads
  rw [hput, Option.toList_none, List.append_nil] at hputs
  rw [htake, Option.toList_none, List.append_nil] at htaken
  obtain ⟨reads, last, hr, ha, hhand⟩ := h.account
  constructor
  · rw [hreads]
    exact h.chars
  · rw [hputs, htaken]
    exact h.queue
  · exact h.room
  · exact ⟨reads, last, hreads.trans hr, hputs ▸ ha, hstage last hhand⟩

theorem test (h : Delivery keymap capacity upcoming s) (hs : s.stage = .testing) :
    Delivery keymap capacity upcoming s.test := by
  refine h.quiet rfl rfl rfl ?_
  intro last hhand
  rw [hs] at hhand
  cases hhand
  split
  · exact .stopped
  · exact .reading

theorem readNext (h : Delivery keymap capacity upcoming s) (hs : s.stage = .reading) :
    Delivery keymap capacity upcoming (s.readNext keymap capacity) := by
  rw [Scribe.readNext]
  split
  · exact h
  next char rest hu =>
    obtain ⟨hreads, hputs, htaken⟩ := lists_of_note (s := s)
      { s with
        upcoming := rest
        stage := stageAfter keymap char
        history := .read char (isFull capacity s.queue) :: s.history } rfl
    simp only [Note.read?, Note.put?, Note.taken?, Option.toList_none, Option.toList_some,
      List.append_nil] at hreads hputs htaken
    obtain ⟨reads, last, hr, ha, hhand⟩ := h.account
    rw [hs] at hhand
    cases hhand
    rw [List.append_nil] at hr
    constructor
    · have hchars := h.chars
      rw [hu] at hchars
      rw [hreads, List.map_append, List.append_assoc]
      exact hchars
    · rw [hputs, htaken]
      exact h.queue
    · exact h.room
    · rw [hreads, hputs, hr]
      cases hq : request? keymap char with
      | none =>
        have hstage : stageAfter keymap char = .testing := by rw [stageAfter, hq]
        refine ⟨_, [], (List.append_nil _).symm, ha.blank hq, ?_⟩
        rw [hstage]
        exact .testing
      | some r =>
        refine ⟨reads, _, rfl, ha, ?_⟩
        cases r with
        | key k =>
          have hstage : stageAfter keymap char = .offering k := by rw [stageAfter, hq]
          rw [hstage]
          exact .offering hq id
        | control c =>
          have hstage : stageAfter keymap char = .waiting c := by rw [stageAfter, hq]
          rw [hstage]
          exact .waiting hq

/-- What is in hand is put in the queue. -/
theorem put (h : Delivery keymap capacity upcoming s) {r : Request} {stage : Stage}
    {queue : List Int} (hq : put? capacity s.queue r.code = some queue)
    (hr : ∀ last, InHand keymap capacity s.queue s.stage last → ∃ char full,
      last = [(char, full)] ∧ request? keymap char = some r)
    (hstage : InHand keymap capacity queue stage []) :
    Delivery keymap capacity upcoming
      { s with queue, stage, history := .put r.code :: s.history } := by
  obtain ⟨hreads, hputs, htaken⟩ := lists_of_note (s := s)
    { s with queue, stage, history := .put r.code :: s.history } rfl
  simp only [Note.read?, Note.put?, Note.taken?, Option.toList_none, Option.toList_some,
    List.append_nil] at hreads hputs htaken
  obtain ⟨reads, last, hlast, ha, hhand⟩ := h.account
  obtain ⟨char, full, rfl, hrequest⟩ := hr last hhand
  obtain ⟨rfl, hroom⟩ := of_put?_eq_some hq
  constructor
  · rw [hreads]
    exact h.chars
  · rw [hputs, htaken, h.queue, List.append_assoc]
  · exact hroom
  · refine ⟨reads ++ [(char, full)], [], ?_, ?_, hstage⟩
    · rw [hreads, hlast, List.append_nil]
    · rw [hputs]
      exact ha.stored hrequest

theorem offer (h : Delivery keymap capacity upcoming s) {k : Key} (hs : s.stage = .offering k) :
    Delivery keymap capacity upcoming (s.offer capacity k) := by
  cases hq : put? capacity s.queue k.val with
  | some queue =>
    rw [offer_of_some hq]
    refine h.put (r := .key k) hq ?_ .testing
    intro last hhand
    rw [hs] at hhand
    cases hhand with
    | offering hr hf => exact ⟨_, _, rfl, hr⟩
  | none =>
    rw [offer_of_none hq]
    obtain ⟨hreads, hputs, htaken⟩ := lists_of_note (s := s)
      { s with stage := .testing, history := .lost k :: s.history } rfl
    simp only [Note.read?, Note.put?, Note.taken?, Option.toList_none, List.append_nil]
      at hreads hputs htaken
    obtain ⟨reads, last, hlast, ha, hhand⟩ := h.account
    rw [hs] at hhand
    constructor
    · rw [hreads]
      exact h.chars
    · rw [hputs, htaken]
      exact h.queue
    · exact h.room
    · cases hhand with
      | @offering _ char _ hr hf =>
        -- The queue is full now, and was full when the character was read.
        rw [hf (isFull_of_put? hq)] at hlast
        refine ⟨reads ++ [(char, true)], [], ?_, ?_, .testing⟩
        · rw [hreads, hlast, List.append_nil]
        · rw [hputs]
          exact ha.lost hr

theorem await (h : Delivery keymap capacity upcoming s) {c : Control}
    (hs : s.stage = .waiting c) : Delivery keymap capacity upcoming (s.await capacity c) := by
  cases hq : put? capacity s.queue c.code with
  | none =>
    rw [await_of_none hq]
    exact h
  | some queue =>
    rw [await_of_some hq]
    refine h.put (r := .control c) hq ?_ ?_
    · intro last hhand
      rw [hs] at hhand
      cases hhand with
      | waiting hr => exact ⟨_, _, rfl, hr⟩
    · split
      · exact .stopped
      · exact .testing

theorem act (h : Delivery keymap capacity upcoming s) :
    Delivery keymap capacity upcoming (s.act keymap capacity) := by
  rw [Scribe.act]
  split
  next hs => exact h.test hs
  next hs => exact h.readNext hs
  next k hs => exact h.offer hs
  next c hs => exact h.await hs
  next hs => exact h

theorem take (h : Delivery keymap capacity upcoming s) :
    Delivery keymap capacity upcoming s.take := by
  rw [Scribe.take]
  split
  · exact h
  next code rest hqueue =>
    obtain ⟨hreads, hputs, htaken⟩ := lists_of_note (s := s)
      { s with queue := rest, history := .taken code :: s.history } rfl
    simp only [Note.read?, Note.put?, Note.taken?, Option.toList_none, Option.toList_some,
      List.append_nil] at hreads hputs htaken
    obtain ⟨reads, last, hlast, ha, hhand⟩ := h.account
    constructor
    · rw [hreads]
      exact h.chars
    · rw [hputs, htaken, h.queue, hqueue, List.append_assoc]
      rfl
    · intro hpos
      have hroom := h.room hpos
      rw [hqueue, List.length_cons] at hroom
      change (rest.length : Int) ≤ capacity
      omega
    · rw [hqueue] at hhand
      exact ⟨reads, last, hreads.trans hlast, hputs ▸ ha, hhand.tail⟩

theorem tell (h : Delivery keymap capacity upcoming s) :
    Delivery keymap capacity upcoming s.tell :=
  h.quiet rfl rfl rfl fun _ ↦ id

/-- Whatever happens, what is read is delivered. -/
theorem move (h : Delivery keymap capacity upcoming s) (m : Move) :
    Delivery keymap capacity upcoming (s.move keymap capacity m) := by
  cases m with
  | act => exact h.act
  | take => exact h.take
  | tell => exact h.tell

/-- What was put in the queue is among what was asked for, in the same order. -/
theorem sublist (h : Delivery keymap capacity upcoming s) :
    s.puts.Sublist ((s.reads.map Prod.fst).filterMap (code? keymap)) := by
  obtain ⟨reads, last, hlast, ha, -⟩ := h.account
  rw [hlast, List.map_append, List.filterMap_append]
  exact ha.sublist.trans (List.sublist_append_left _ _)

/-- The controls that were put in the queue, and the one that waits, are all that were asked for, in
the same order. -/
theorem controls (h : Delivery keymap capacity upcoming s) :
    s.puts.filter (· < 0) ++ s.stage.pending =
      ((s.reads.map Prod.fst).filterMap (code? keymap)).filter (· < 0) := by
  obtain ⟨reads, last, hlast, ha, hhand⟩ := h.account
  rw [hlast, List.map_append, List.filterMap_append, List.filter_append, ha.controls, hhand.pending]

end Delivery

/-- Nothing was read yet. -/
theorem delivery_start (keymap : Keymap) (capacity : Int) (upcoming : List Int) :
    Delivery keymap capacity upcoming (start upcoming) where
  chars := rfl
  queue := rfl
  room hpos := Int.le_of_lt hpos
  account := ⟨[], [], rfl, .nil, .testing⟩

/-! ## Stopping -/

/-- When the reading thread stops, and that it does nothing after that. -/
structure Stopping (s : Scribe) : Prop where
  /-- It is known whether the thread was told to stop. -/
  told : s.told ↔ .told ∈ s.history
  /-- A test finds out whether the thread was told to stop by then. -/
  tests : ∀ (later : List Note) (stop : Bool) (earlier : List Note),
    s.history = later ++ .tested stop :: earlier → (stop ↔ .told ∈ earlier)
  /-- A thread that has not stopped has had no reason to. -/
  running : s.stage ≠ .stopped → ∀ note ∈ s.history, ¬ note.IsLast
  /-- A thread that has stopped has had a reason to, which was the first one and the last thing that
  it did. -/
  stopped : s.stage = .stopped → ∃ later note earlier, s.history = later ++ note :: earlier ∧
    note.IsLast ∧ (∀ x ∈ later, x.IsForeign) ∧ ∀ x ∈ earlier, ¬ x.IsLast

namespace Stopping

/-- A test is as good as the knowledge of the thread. -/
theorem tests_cons (h : Stopping s) (note : Note) (hnote : ∀ stop, note = .tested stop →
    stop = s.told) {later earlier : List Note} {stop : Bool}
    (hsplit : note :: s.history = later ++ .tested stop :: earlier) : stop ↔ .told ∈ earlier := by
  rcases List.cons_eq_append_iff.mp hsplit with ⟨-, hnow⟩ | ⟨later', -, hrest⟩
  · cases hnow
    rw [hnote stop rfl]
    exact h.told
  · exact h.tests later' stop earlier hrest

/-- The main thread may do something at any time. -/
theorem foreign (h : Stopping s) (note : Note) (hnote : note.IsForeign) {queue : List Int}
    {told : Bool} (htold : told ↔ .told ∈ note :: s.history) :
    Stopping { s with queue, told, history := note :: s.history } where
  told := htold
  tests _ _ _ := h.tests_cons note fun stop hn ↦ by
    rw [hn] at hnote
    cases hnote
  running hs x hx := by
    rcases List.mem_cons.mp hx with rfl | hx
    · cases x with
      | taken | told => exact id
      | _ => cases hnote
    · exact h.running hs x hx
  stopped hs := by
    obtain ⟨later, last, earlier, hsplit, hlast, hlater, hearlier⟩ := h.stopped hs
    refine ⟨note :: later, last, earlier, congrArg _ hsplit, hlast, ?_, hearlier⟩
    intro x hx
    rcases List.mem_cons.mp hx with rfl | hx
    · exact hnote
    · exact hlater x hx

/-- A thread that has not stopped may do something, and stops if that is a reason to. -/
theorem own (h : Stopping s) (note : Note) (hs : s.stage ≠ .stopped) {upcoming queue : List Int}
    {stage : Stage} (htold : note ≠ .told) (hnote : ∀ stop, note = .tested stop → stop = s.told)
    (hstage : stage = .stopped ↔ note.IsLast) :
    Stopping { s with upcoming, queue, stage, history := note :: s.history } where
  told := by
    rw [List.mem_cons]
    constructor
    · exact fun ht ↦ .inr (h.told.mp ht)
    · rintro (rfl | ht)
      · exact absurd rfl htold
      · exact h.told.mpr ht
  tests _ _ _ := h.tests_cons note hnote
  running hstage' x hx := by
    rcases List.mem_cons.mp hx with rfl | hx
    · exact fun hlast ↦ hstage' (hstage.mpr hlast)
    · exact h.running hs x hx
  stopped hstage' :=
    ⟨[], note, s.history, rfl, hstage.mp hstage', nofun, h.running hs⟩

theorem test (h : Stopping s) (hs : s.stage = .testing) : Stopping s.test := by
  refine h.own (.tested s.told) (by simp [hs]) (by simp) ?_ ?_
  · intro stop hn
    cases hn
    rfl
  · cases s.told <;> simp [Note.IsLast]

theorem readNext (h : Stopping s) (hs : s.stage = .reading) :
    Stopping (s.readNext keymap capacity) := by
  rw [Scribe.readNext]
  split
  · exact h
  next char rest hu =>
    refine h.own (.read char _) (by simp [hs]) (by simp) (by simp) ?_
    rw [stageAfter]
    split <;> simp [Note.IsLast]

theorem offer (h : Stopping s) {k : Key} (hs : s.stage = .offering k) :
    Stopping (s.offer capacity k) := by
  cases hq : put? capacity s.queue k.val with
  | some queue =>
    rw [offer_of_some hq]
    refine h.own (.put k.val) (by simp [hs]) (by simp) (by simp) ?_
    have hk := (Control.quit.code_ne_natCast k.val).symm
    simp [Note.IsLast, hk]
  | none =>
    rw [offer_of_none hq]
    exact h.own (.lost k) (by simp [hs]) (by simp) (by simp) (by simp [Note.IsLast])

theorem await (h : Stopping s) {c : Control} (hs : s.stage = .waiting c) :
    Stopping (s.await capacity c) := by
  cases hq : put? capacity s.queue c.code with
  | some queue =>
    rw [await_of_some hq]
    refine h.own (.put c.code) (by simp [hs]) (by simp) (by simp) ?_
    cases c <;> simp [Note.IsLast, Control.code]
  | none =>
    rw [await_of_none hq]
    exact h

theorem act (h : Stopping s) : Stopping (s.act keymap capacity) := by
  rw [Scribe.act]
  split
  next hs => exact h.test hs
  next hs => exact h.readNext hs
  next k hs => exact h.offer hs
  next c hs => exact h.await hs
  next hs => exact h

theorem move (h : Stopping s) (m : Move) : Stopping (s.move keymap capacity m) := by
  cases m with
  | act => exact h.act
  | take =>
    change Stopping s.take
    rw [take]
    split
    · exact h
    next code rest hqueue =>
      refine h.foreign (.taken code) trivial ?_
      simp [h.told]
  | tell => exact h.foreign .told trivial (by simp)

end Stopping

theorem stopping_start (upcoming : List Int) : Stopping (start upcoming) where
  told := by simp [start]
  tests := by simp [start]
  running := by simp [start]
  stopped := nofun

/-- No control is lost on its way to the host, and none is overtaken.

This holds for every keymap, for all characters, and whenever the main thread takes numbers from the
queue or tells the reading thread to stop.  What a character asks for is its translation: a negative
number is no character, the letters of ASCII are made small first, controls come before the keys of
the keymap, and all others ask for nothing.  The characters are read one after the other.  The queue
gives back what was put in it, in the same order, and is never longer than it may be.  What was put
in it is among what the characters read ask for, in the same order.  All controls that were asked
for were put in it, in the same order and once each, but for the last one while it waits.  Each
character read but the one in hand has put what it asks for, unless that is a key and the queue was
full when it was read.  The reading thread stops at once when it has put the first control that ends
the program in the queue, or when it finds out for the first time that it was told to stop, and at
no other time. -/
theorem no_control_lost {moves : List Move}
    (hs : (start upcoming).after keymap capacity moves = s) :
    (∀ char code, code? keymap char = some code ↔ Translates keymap char code) ∧
    (s.reads.map Prod.fst ++ s.upcoming = upcoming ∧ s.puts = s.taken ++ s.queue ∧
      (0 < capacity → s.queue.length ≤ capacity)) ∧
    s.puts.Sublist ((s.reads.map Prod.fst).filterMap (code? keymap)) ∧
    s.puts.filter (· < 0) ++ s.stage.pending =
      ((s.reads.map Prod.fst).filterMap (code? keymap)).filter (· < 0) ∧
    (∃ reads last, s.reads = reads ++ last ∧ Account keymap reads s.puts ∧
      InHand keymap capacity s.queue s.stage last) ∧
    Stopping s := by
  subst hs
  have hd : Delivery keymap capacity upcoming ((start upcoming).after keymap capacity moves) :=
    after_induction keymap capacity (fun s m h ↦ h.move m)
      (delivery_start keymap capacity upcoming) moves
  have hstop : Stopping ((start upcoming).after keymap capacity moves) :=
    after_induction keymap capacity (fun s m h ↦ h.move m) (stopping_start upcoming) moves
  exact ⟨fun _ _ ↦ code?_eq_some_iff, ⟨hd.chars, hd.queue, hd.room⟩, hd.sublist, hd.controls,
    hd.account, hstop⟩

/-- A keymap with one key. -/
def oneKey : Keymap := ⟨[(120, 0)]⟩

/-- Seventeen keys are typed, then the control that ends the program, and one more key.  The last of
the seventeen finds the queue full and is lost.  The control waits until a number is taken, and
nothing is read after it. -/
theorem no_control_lost_crammed : ∃ s : Scribe,
    (start (List.replicate 17 88 ++ [27, 120])).after oneKey queueCapacity
      (List.replicate 54 .act ++ [.take, .act, .act]) = s ∧
    s.puts = List.replicate 16 0 ++ [-1] ∧ s.puts = s.taken ++ s.queue ∧
    s.stage = .stopped ∧ s.upcoming = [120] := by
  refine ⟨_, rfl, by decide +kernel, ?_, by decide +kernel, by decide +kernel⟩
  have hs : (start (List.replicate 17 88 ++ [27, 120])).after oneKey queueCapacity
      (List.replicate 54 .act ++ [.take, .act, .act]) = _ := rfl
  obtain ⟨-, ⟨-, hqueue, -⟩, -⟩ := no_control_lost hs
  exact hqueue

end Scribe

end SuperChip.Terminal
