import Mathlib.Data.List.Chain
import SuperChip.Proofs.Frame
import SuperChip.Proofs.Run

/-!
# What is shown is the picture

A machine tells the world its picture when it is flushed, and its resolution when that changes.  So
long as the display is clean, the last picture that was told is the picture that the display has,
and the resolutions that were told switch between high and low, the last one being that of the
display.

Three things can happen to the display: something is done to the picture, which makes the display
dirty; the resolution is switched; or the picture is handed over.  `ShownInvariant` survives each of
them, and everything that is done to a machine is made of them.
-/

namespace SuperChip

/-! ## What the world was told -/

/-- The picture that an event hands over. -/
def Event.frame? : Event → Option Frame
  | .redraw frame => some frame
  | _ => none

/-- The resolution that an event tells. -/
def Event.resolution? : Event → Option Bool
  | .resolution high => some high
  | _ => none

/-- An operation that neither executes, nor resets, nor switches the resolution, nor hands over the
picture. -/
def Operation.IsQuiet : Operation → Prop
  | .step | .execute _ | .reset | .setResolution _ | .flush | .tick | .advanceClock _ => False
  | _ => True

namespace Machine

/-- The pictures handed over so far, the oldest one first. -/
def frames (m : Machine) : List Frame := m.log.reverse.filterMap Event.frame?

/-- The resolutions told so far, the oldest one first. -/
def resolutions (m : Machine) : List Bool := m.log.reverse.filterMap Event.resolution?

/-- The world is told pictures one after the other. -/
@[simp] theorem frames_tell (m : Machine) (events : List Event) :
    (m.tell events).frames = m.frames ++ events.filterMap Event.frame? := by
  rw [frames, tell, List.reverse_append, List.reverse_reverse, List.filterMap_append]
  rfl

/-- The world is told resolutions one after the other. -/
@[simp] theorem resolutions_tell (m : Machine) (events : List Event) :
    (m.tell events).resolutions = m.resolutions ++ events.filterMap Event.resolution? := by
  rw [resolutions, tell, List.reverse_append, List.reverse_reverse, List.filterMap_append]
  rfl

/-! ## The invariant -/

/-- What the world was told agrees with the display. -/
structure ShownInvariant (m : Machine) : Prop where
  /-- The world is told. -/
  observed : m.display.observed = true
  /-- A clean display has the picture that was told last. -/
  frame_eq : m.display.dirty = false → m.frames.getLast? = some m.display.frame
  /-- The resolutions told, after the low one at the beginning, switch each time. -/
  switching : (false :: m.resolutions).IsChain (· ≠ ·)
  /-- The display has the resolution that was told last. -/
  high_eq : m.display.high = m.resolutions.getLast?.getD false

/-- `m'` is what becomes of `m` when something is done to its picture, or nothing at all, and the
world is told neither a picture nor a resolution. -/
structure Quiet (m m' : Machine) : Prop where
  /-- Only the picture may have changed. -/
  painted : m.display.Painted m'.display
  /-- No picture is told. -/
  frames_eq : m'.frames = m.frames
  /-- No resolution is told. -/
  resolutions_eq : m'.resolutions = m.resolutions

variable {m m' m'' : Machine}

/-- What has the same display and log is no different. -/
theorem Quiet.of_eq (hd : m'.display = m.display) (hl : m'.log = m.log) : m.Quiet m' where
  painted := .inl hd
  frames_eq := by rw [frames, frames, hl]
  resolutions_eq := by rw [resolutions, resolutions, hl]

/-- Painting is quiet. -/
theorem Quiet.of_painted (hd : m.display.Painted m'.display) (hl : m'.log = m.log) :
    m.Quiet m' where
  painted := hd
  frames_eq := by rw [frames, frames, hl]
  resolutions_eq := by rw [resolutions, resolutions, hl]

/-- Two quiet changes are a quiet change. -/
theorem Quiet.trans (h : m.Quiet m') (h' : m'.Quiet m'') : m.Quiet m'' where
  painted := h.painted.trans h'.painted
  frames_eq := h'.frames_eq.trans h.frames_eq
  resolutions_eq := h'.resolutions_eq.trans h.resolutions_eq

/-- Telling what is neither a picture nor a resolution is quiet. -/
theorem quiet_tell {events : List Event} (hf : events.filterMap Event.frame? = [])
    (hr : events.filterMap Event.resolution? = []) : m.Quiet (m.tell events) where
  painted := .refl _
  frames_eq := by rw [frames_tell, hf, List.append_nil]
  resolutions_eq := by rw [resolutions_tell, hr, List.append_nil]

/-- A quiet change keeps the invariant: a display that is clean after it has not changed. -/
theorem ShownInvariant.quiet (h : m.ShownInvariant) (hq : m.Quiet m') : m'.ShownInvariant where
  observed := hq.painted.observed_eq.trans h.observed
  frame_eq hc := by
    have hd := hq.painted.eq_of_clean hc
    rw [hq.frames_eq, hd]
    exact h.frame_eq (hd ▸ hc)
  switching := by
    rw [hq.resolutions_eq]
    exact h.switching
  high_eq := by
    rw [hq.painted.high_eq, hq.resolutions_eq]
    exact h.high_eq

/-- Handing over the picture keeps the invariant. -/
theorem ShownInvariant.flush (h : m.ShownInvariant) : m.flush.ShownInvariant := by
  have hr : m.display.flushEvents.filterMap Event.resolution? = [] := by
    rw [Display.flushEvents]
    split <;> rfl
  have hres : m.flush.resolutions = m.resolutions := by
    change (m.tell m.display.flushEvents).resolutions = m.resolutions
    rw [resolutions_tell, hr, List.append_nil]
  constructor
  · exact h.observed
  · intro
    change (m.tell m.display.flushEvents).frames.getLast? = some m.display.frame
    rw [frames_tell, Display.flushEvents]
    cases hd : m.display.dirty with
    | false => simpa using h.frame_eq hd
    | true => simp [h.observed, Event.frame?]
  · rw [hres]
    exact h.switching
  · rw [hres]
    exact h.high_eq

/-- Switching the resolution keeps the invariant. -/
theorem ShownInvariant.setResolution (h : m.ShownInvariant) (high : Bool) :
    (m.setResolution high).ShownInvariant := by
  by_cases he : high = m.display.high
  · -- The display has this resolution already.
    have hd : (m.setResolution high).display = m.display := by
      rw [Machine.setResolution, Display.setResolution, if_pos he]
    have hl : (m.setResolution high).log = m.log := by
      rw [Machine.setResolution, Display.resolutionEvents, if_pos (.inl he)]
      rfl
    exact h.quiet (.of_eq hd hl)
  · have hd : (m.setResolution high).display = m.display.blankAt high := by
      rw [Machine.setResolution, Display.setResolution, if_neg he]
    have hr : (m.setResolution high).resolutions = m.resolutions ++ [high] := by
      change (m.tell (m.display.resolutionEvents high)).resolutions = _
      rw [resolutions_tell, Display.resolutionEvents, if_neg (by simp [he, h.observed])]
      rfl
    constructor
    · rw [hd]
      exact h.observed
    · intro hc
      rw [hd] at hc
      cases hc
    · rw [hr, ← List.cons_append]
      refine h.switching.append (.singleton high) ?_
      rw [List.getLast?_cons, ← h.high_eq]
      rintro x ⟨⟩ y ⟨⟩
      exact Ne.symm he
    · rw [hd, hr, List.getLast?_concat]
      rfl

/-! ## Instructions -/

/-- Recording a word that is no instruction is quiet. -/
theorem quiet_recordUnsupported (m : Machine) (w : Word) : m.Quiet (m.recordUnsupported w) := by
  rw [recordUnsupported]
  split
  · exact .of_eq rfl rfl
  · exact (quiet_tell rfl rfl).trans (.of_eq rfl rfl)

/-- Tracing a word is quiet. -/
theorem quiet_trace (m : Machine) (w : Word) : m.Quiet (m.trace w) := by
  rw [trace]
  split
  · exact quiet_tell rfl rfl
  · exact .of_eq rfl rfl

/-- The invariant survives instructions: they are quiet, except for those that switch the
resolution. -/
theorem enduring_shownInvariant : Enduring ShownInvariant where
  mapRegisters _ h := h.quiet (.of_eq rfl rfl)
  memory _ h := h.quiet (.of_eq rfl rfl)
  delay _ h := h.quiet (.of_eq rfl rfl)
  sound _ h := h.quiet (.of_eq rfl rfl)
  random _ h := h.quiet (.of_eq rfl rfl)
  halted h := h.quiet (.of_eq rfl rfl)
  painted _ hd h := h.quiet (.of_painted hd rfl)
  setResolution high h := h.setResolution high
  recordUnsupported w h := h.quiet (quiet_recordUnsupported _ w)
  trace w h := h.quiet (quiet_trace _ w)
  current _ h := h.quiet (.of_eq rfl rfl)

/-! ## Operations -/

/-- Counting down is quiet. -/
theorem quiet_countDown (m : Machine) : m.Quiet m.countDown := by
  by_cases hs : m.sound = 1
  · have ht : m.Quiet (m.tell [.tone (m.tones + 1)]) := quiet_tell rfl rfl
    exact ht.trans (.of_eq rfl (if_pos hs))
  · exact .of_eq rfl (if_neg hs)

/-- A tick keeps the invariant. -/
theorem ShownInvariant.tick (h : m.ShownInvariant) : m.tick.ShownInvariant := by
  rw [tick_eq]
  exact (h.quiet m.quiet_countDown).flush

/-- A reset keeps the invariant. -/
theorem ShownInvariant.reset (h : m.ShownInvariant) : m.reset.ShownInvariant := by
  have hr : ({ m with registers := m.registers.reset } : Machine).ShownInvariant :=
    h.quiet (.of_eq rfl rfl)
  exact (hr.setResolution false).quiet (.of_painted (Display.painted_clear _) rfl)

/-- A loaded program is quiet. -/
theorem quiet_load {program : List UInt8} (hm : m.load program = .ok m') : m.Quiet m' := by
  obtain ⟨memory, rfl, -⟩ := exists_of_load hm
  exact .of_eq rfl rfl

/-- Pressing or releasing a key is quiet. -/
theorem quiet_setKey {key : Int} {down : Bool} (hm : m.setKey key down = .ok m') :
    m.Quiet m' := by
  obtain ⟨keys, rfl⟩ := exists_of_setKey hm
  exact .of_eq rfl rfl

/-- A new speed is quiet. -/
theorem quiet_setClockSpeed (m : Machine) (speed : Int) : m.Quiet (m.setClockSpeed speed).1 := by
  obtain ⟨interval, hm⟩ := m.exists_setClockSpeed_eq speed
  rw [hm]
  exact .of_eq rfl rfl

/-- Flipping a pixel is quiet. -/
theorem quiet_toggle {x y : Int} (hm : m.toggle x y = .ok m') : m.Quiet m' := by
  obtain ⟨d, rfl, hd⟩ := exists_of_toggle hm
  exact .of_painted hd rfl

/-- Scrolling is quiet. -/
theorem quiet_scroll {distance : Int} {extent : Display → Nat}
    {move : Display → Nat → Except Fault Memory}
    (hm : m.scroll (fun d ↦ d.scroll distance (extent d) (move d)) = .ok m') : m.Quiet m' := by
  obtain ⟨d, rfl, hd⟩ := exists_of_scroll hm
  exact .of_painted (Display.painted_scroll hd) rfl

/-- Every operation is quiet that neither executes, nor resets, nor switches the resolution, nor
hands over the picture. -/
theorem quiet_operate {o : Operation} {r : Machine × Option Fault} (hr : m.operate o = some r)
    (ho : o.IsQuiet) : m.Quiet r.1 := by
  have hattempt {x : Except Fault Machine} (hx : ∀ m', x = .ok m' → m.Quiet m') :
      m.Quiet (m.attempt x).1 :=
    attempt_induction (.of_eq rfl rfl) hx
  cases o <;> first | exact ho.elim | cases hr
  case load program => exact hattempt fun _ ↦ quiet_load
  case setKey key down => exact hattempt fun _ ↦ quiet_setKey
  case setClockSpeed speed => exact m.quiet_setClockSpeed speed
  case toggle x y => exact hattempt fun _ ↦ quiet_toggle
  case clear => exact .of_painted m.display.painted_clear rfl
  case scrollUp | scrollDown | scrollLeft | scrollRight => exact hattempt fun _ ↦ quiet_scroll
  all_goals exact .of_eq rfl rfl

/-- Each operation keeps the invariant, refused or not. -/
theorem ShownInvariant.operate (h : m.ShownInvariant) {o : Operation} {r : Machine × Option Fault}
    (hr : m.operate o = some r) : r.1.ShownInvariant := by
  cases o
  case advanceClock elapsed =>
    rw [Machine.operate, Option.map_eq_some_iff] at hr
    obtain ⟨⟨m', n⟩, hm, rfl⟩ := hr
    exact advanceClock_induction (fun m ↦ ShownInvariant.tick)
      (fun m owed h ↦ h.quiet (.of_eq rfl rfl)) h hm
  case reset =>
    cases hr
    exact h.reset
  case step =>
    cases hr
    exact enduring_shownInvariant.step h
  case execute word =>
    cases hr
    exact enduring_shownInvariant.execute _ h
  case tick =>
    cases hr
    exact h.tick
  case setResolution high =>
    cases hr
    exact h.setResolution high
  case flush =>
    cases hr
    exact h.flush
  all_goals exact h.quiet (quiet_operate hr trivial)

/-- Operations keep the invariant. -/
theorem ShownInvariant.operateAll (h : m.ShownInvariant) {ops : List Operation}
    (hm : m.operateAll ops = some m') : m'.ShownInvariant :=
  operateAll_induction (fun _ _ _ h hr ↦ h.operate hr) h hm

/-- A new machine has told the world nothing.  Its picture is yet to be handed over, and its
resolution is the low one. -/
theorem shownInvariant_of_powerOn {random : RandomSource} {speed : Int}
    (hm : powerOn random speed true = .ok m) : m.ShownInvariant := by
  obtain ⟨interval, -, hm⟩ := exists_of_bind_ok hm
  cases hm
  exact ⟨rfl, fun hc ↦ (nomatch hc), .singleton false, rfl⟩

/-! ## Runs and all that came before them -/

/-- Values that switch each time are the one and the other in turn. -/
theorem eq_decide_of_switching {b : Bool} {l : List Bool} (h : (b :: l).IsChain (· ≠ ·)) {k : Nat}
    (hk : k < l.length) : l[k] = (b ^^ decide (k % 2 = 0)) := by
  induction l generalizing b k with
  | nil => cases hk
  | cons a l ih =>
    obtain ⟨hba, hl⟩ := List.isChain_cons_cons.mp h
    have ha : a = !b := by cases a <;> cases b <;> simp_all
    cases k with
    | zero => simp [ha]
    | succ k =>
      rw [List.getElem_cons_succ, ih hl (Nat.lt_of_succ_lt_succ hk), ha]
      rcases Nat.mod_two_eq_zero_or_one k with he | ho
      · simp [he, show (k + 1) % 2 = 1 by omega]
      · simp [ho, show (k + 1) % 2 = 0 by omega]

/-- What a machine has shown is up to date, whatever was done to it since it was new.

What was handed over last is the pixels of the display, with its width and its height, unless
something is yet to be handed over.  The resolutions told are high and low in turn, the last one
being that of the display.  And a run that comes to a good end leaves nothing to be handed over: if
its host did only what operations do, then what was handed over last is the picture that the run
left. -/
theorem shown_of_operateAll {random : RandomSource} {speed : Int} {ops : List Operation}
    (hm : powerOn random speed true = .ok m) (hops : m.operateAll ops = some m') :
    (m'.display.dirty = false → m'.frames.getLast? = some
      { pixels := m'.display.pixels.bytes, width := m'.display.width,
        height := m'.display.height }) ∧
    (∀ (k : Nat) (hk : k < m'.resolutions.length), m'.resolutions[k] = decide (k % 2 = 0)) ∧
    m'.display.high = m'.resolutions.getLast?.getD false ∧
    ∀ (σ : Type) (h : Host σ) (budget : Nat) (s : σ), (m'.run h budget s).ending = .finished →
      (m'.run h budget s).machine.display.dirty = false ∧
      (h.Orderly → (m'.run h budget s).machine.frames.getLast? = some
        { pixels := (m'.run h budget s).machine.display.pixels.bytes,
          width := (m'.run h budget s).machine.display.width,
          height := (m'.run h budget s).machine.display.height }) := by
  have hs := (shownInvariant_of_powerOn hm).operateAll hops
  refine ⟨hs.frame_eq, ?_, hs.high_eq, ?_⟩
  · intro k hk
    rw [eq_decide_of_switching hs.switching hk, Bool.false_xor]
  · intro σ h budget s he
    have hclean := Run.dirty_of_finish he
    refine ⟨hclean, ?_⟩
    intro ho
    obtain ⟨ops', hops'⟩ := Run.leads_finish ho budget (Run.start h m' s)
    exact (hs.operateAll hops').frame_eq hclean

/-- A host that calls each run off at once. -/
def idle : Host Unit where
  clock s := (0.0, s)
  sleep _ s := s
  cancelled m s := (.ok true, m, s)

/-- After a change of the resolution, a return with an empty stack and a tick, the picture handed
over last has the pixels of the display and the size of high resolution, and high resolution is what
was told.  A run that is called off at once leaves it so. -/
theorem shown_of_operateAll_tick : ∃ m',
    ({ random := .ofList [7], clockSpeed := 0 } : Machine).operateAll
      [.setResolution true, .execute 0x00EE, .tick] = some m' ∧
        m'.frames.getLast? =
          some { pixels := m'.display.pixels.bytes, width := 128, height := 64 } ∧
        m'.resolutions.getLast?.getD false = true ∧
        (m'.run idle 1 ()).machine.frames.getLast? = some
          { pixels := (m'.run idle 1 ()).machine.display.pixels.bytes,
            width := (m'.run idle 1 ()).machine.display.width,
            height := (m'.run idle 1 ()).machine.display.height } := by
  have hm : powerOn (.ofList [7]) 0 true = .ok { random := .ofList [7], clockSpeed := 0 } := rfl
  have hops : ∃ m', ({ random := .ofList [7], clockSpeed := 0 } : Machine).operateAll
      [.setResolution true, .execute 0x00EE, .tick] = some m' ∧
        m'.display.dirty = false ∧ m'.display.high = true := ⟨_, rfl, rfl, rfl⟩
  have hidle : idle.Passive := fun _ _ ↦ rfl
  obtain ⟨m', hops, hclean, hhigh⟩ := hops
  obtain ⟨hframe, -, hlast, hrun⟩ := shown_of_operateAll hm hops
  have he : (m'.run idle 1 ()).ending = .finished := by
    rw [run, Run.finish, Run.turn]
    cases (Run.start idle m' ()).machine.halted <;> rfl
  have hsize : m'.display.width = 128 ∧ m'.display.height = 64 := by
    rw [Display.width, Display.height, hhigh]
    exact ⟨rfl, rfl⟩
  have hshown := hframe hclean
  rw [hsize.1, hsize.2] at hshown
  exact ⟨m', hops, hshown, hlast ▸ hhigh, (hrun Unit idle 1 () he).2 hidle.orderly⟩

end Machine

end SuperChip
