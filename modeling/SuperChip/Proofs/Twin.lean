import SuperChip.Proofs.Alike
import SuperChip.Proofs.Shown

/-!
# Machines with different hosts

Two machines are twins if they have everything in common that programs can see or change.  What
belongs to their hosts may differ: the speed, the counters, whether a reset is asked for, the number
of tones, the records of the monitor, what was told to the world, and whether anyone is told.

Whatever is done to twins, the same faults are met and twins are left.  If both hosts are told about
pictures, or neither is, then both get the same pictures while it is done.
-/

namespace SuperChip

/-! ## Displays -/

namespace Display

/-- Displays that differ in nothing but whether anyone is told. -/
def Twin (d d' : Display) : Prop := ∃ observed, d' = { d with observed }

variable {d d' : Display}

/-- Twins that are both told, or both not, are equal. -/
theorem Twin.eq (h : d.Twin d') (ho : d.observed = d'.observed) : d = d' := by
  obtain ⟨observed, rfl⟩ := h
  cases d
  cases ho
  rfl

/-- Twins are cleared in the same way. -/
theorem Twin.clear (h : d.Twin d') : d.clear.Twin d'.clear := by
  obtain ⟨observed, rfl⟩ := h
  exact ⟨observed, rfl⟩

/-- Twins flip a pixel in the same way. -/
theorem Twin.toggle (h : d.Twin d') (x y : Int) :
    SameOutcome (fun r r' ↦ r.1.Twin r'.1 ∧ r.2 = r'.2) (d.toggle x y) (d'.toggle x y) := by
  obtain ⟨observed, rfl⟩ := h
  apply SameOutcome.bind_same
  intro b
  apply SameOutcome.bind_same
  intro pixels
  exact .ok ⟨⟨observed, rfl⟩, rfl⟩

/-- Twins flip pixels in the same way. -/
theorem Twin.toggleAll (h : d.Twin d') (cells : List (Int × Int)) :
    SameOutcome (fun r r' ↦ r.1.Twin r'.1 ∧ r.2 = r'.2) (d.toggleAll cells)
      (d'.toggleAll cells) := by
  apply SameOutcome.foldlM _ ⟨h, rfl⟩
  rintro ⟨d, collided⟩ ⟨d', collided'⟩ ⟨x, y⟩ ⟨h, rfl⟩
  apply (Twin.toggle h x y).bind
  rintro ⟨d, on⟩ ⟨d', on'⟩ ⟨h, rfl⟩
  exact .ok ⟨h, rfl⟩

/-- Twins scroll in the same way, if the distance and the pixels do not depend on who is told. -/
theorem Twin.scroll (h : d.Twin d') {distance : Int} {extent : Display → Nat}
    {move : Display → Nat → Except Fault Memory}
    (he : ∀ (d : Display) (observed : Bool), extent { d with observed } = extent d)
    (hm : ∀ (d : Display) (observed : Bool), move { d with observed } = move d) :
    SameOutcome Twin (d.scroll distance (extent d) (move d))
      (d'.scroll distance (extent d') (move d')) := by
  obtain ⟨observed, rfl⟩ := h
  rw [he d observed, hm d observed, Display.scroll, Display.scroll]
  split
  · exact .error _
  split
  · exact .ok ⟨observed, rfl⟩
  split
  · exact .ok ⟨observed, rfl⟩
  · exact .bind_same fun pixels ↦ .ok ⟨observed, rfl⟩

/-- Twins switch their resolution in the same way. -/
theorem Twin.setResolution (h : d.Twin d') (high : Bool) :
    (d.setResolution high).Twin (d'.setResolution high) := by
  obtain ⟨observed, rfl⟩ := h
  rw [Display.setResolution, Display.setResolution]
  split
  · exact ⟨observed, rfl⟩
  · exact ⟨observed, rfl⟩

end Display

/-! ## Machines -/

namespace Machine

/-- Machines that programs cannot tell apart, whoever their hosts are. -/
structure Twin (m m' : Machine) : Prop where
  /-- They have the same memory. -/
  memory : m'.memory = m.memory
  /-- They have the same registers, user flags and call stack. -/
  registers : m'.registers = m.registers
  /-- Their displays have the same resolution and pixels, and both are clean, or neither. -/
  display : m.display.Twin m'.display
  /-- The same keys are down. -/
  keys : m'.keys = m.keys
  /-- Their delay timers agree. -/
  delay : m'.delay = m.delay
  /-- Their sound timers agree. -/
  sound : m'.sound = m.sound
  /-- They execute the instruction at the same address. -/
  current : m'.current = m.current
  /-- Both are halted, or neither. -/
  halted : m'.halted = m.halted
  /-- They get the same random bytes. -/
  random : m'.random = m.random
  /-- Their timers are owed the same time. -/
  owed : m'.owed = m.owed

/-- The machine `m` in the hands of the host of `h`. -/
def hostedBy (m h : Machine) : Machine :=
  { h with
    memory := m.memory
    registers := m.registers
    display := { m.display with observed := h.display.observed }
    keys := m.keys
    delay := m.delay
    sound := m.sound
    current := m.current
    halted := m.halted
    random := m.random
    owed := m.owed }

variable {m m' m'' a a' : Machine}

/-- A machine is a twin of itself in other hands. -/
theorem twin_hostedBy (m h : Machine) : m.Twin (m.hostedBy h) :=
  ⟨rfl, rfl, ⟨_, rfl⟩, rfl, rfl, rfl, rfl, rfl, rfl, rfl⟩

/-- A twin is the machine itself in other hands. -/
theorem Twin.eq_hostedBy (h : m.Twin m') : m' = m.hostedBy m' := by
  cases m'
  obtain ⟨rfl, rfl, ⟨observed, rfl⟩, rfl, rfl, rfl, rfl, rfl, rfl, rfl⟩ := h
  rfl

/-- A machine is its own twin. -/
theorem Twin.refl (m : Machine) : m.Twin m := m.twin_hostedBy m

/-- Twins are twins of each other. -/
theorem Twin.symm (h : m.Twin m') : m'.Twin m := by
  rw [h.eq_hostedBy]
  exact ⟨rfl, rfl, ⟨_, rfl⟩, rfl, rfl, rfl, rfl, rfl, rfl, rfl⟩

/-- Twins of the same machine are twins. -/
theorem Twin.trans (h : m.Twin m') (h' : m'.Twin m'') : m.Twin m'' := by
  rw [h'.eq_hostedBy, h.eq_hostedBy]
  exact m.twin_hostedBy m''

/-- Twins with displays that are twins again are twins. -/
theorem Twin.withDisplay (h : m.Twin m') {d d' : Display} (hd : d.Twin d') :
    Twin { m with display := d } { m' with display := d' } :=
  { h with display := hd }

/-- Twins scroll in the same way, if the distance and the pixels do not depend on who is told. -/
theorem Twin.scroll (h : m.Twin m') {distance : Int} {extent : Display → Nat}
    {move : Display → Nat → Except Fault Memory}
    (he : ∀ (d : Display) (observed : Bool), extent { d with observed } = extent d)
    (hm : ∀ (d : Display) (observed : Bool), move { d with observed } = move d) :
    SameOutcome Twin (m.scroll fun d ↦ d.scroll distance (extent d) (move d))
      (m'.scroll fun d ↦ d.scroll distance (extent d) (move d)) :=
  (h.display.scroll he hm).bind fun _ _ hd ↦ .ok (h.withDisplay hd)

/-- Twins skip an instruction in the same way. -/
theorem Twin.skipIf (h : m.Twin m') (condition : Bool) :
    (m.skipIf condition).Twin (m'.skipIf condition) := by
  rw [h.eq_hostedBy]
  cases condition <;> exact twin_hostedBy _ m'

/-- Twins switch their resolution in the same way. -/
theorem Twin.setResolution (h : m.Twin m') (high : Bool) :
    (m.setResolution high).Twin (m'.setResolution high) :=
  { h with display := h.display.setResolution high }

/-- Twins store bytes in the same way. -/
theorem Twin.storeCells (h : m.Twin m') (bytes : List UInt8) :
    SameOutcome Twin (m.storeCells bytes) (m'.storeCells bytes) := by
  rw [h.eq_hostedBy]
  exact .bind_same fun memory ↦ .ok (twin_hostedBy _ m')

/-- Twins change their registers in the same way. -/
theorem Twin.mapRegisters (h : m.Twin m') (f : Registers → Registers) :
    (m.mapRegisters f).Twin (m'.mapRegisters f) := by
  rw [h.eq_hostedBy]
  exact twin_hostedBy _ m'

/-- Twins raise a flag in the same way. -/
theorem Twin.setFlag (h : m.Twin m') (flag : Bool) :
    (m.setFlag flag).Twin (m'.setFlag flag) := by
  rw [h.eq_hostedBy]
  exact twin_hostedBy _ m'

/-- Twins move the index register in the same way. -/
theorem Twin.advanceIndex (h : m.Twin m') (x : Register) :
    (m.advanceIndex x).Twin (m'.advanceIndex x) := by
  rw [h.eq_hostedBy]
  exact twin_hostedBy _ m'

/-- The records of words that are no instruction are the host's. -/
theorem twin_recordUnsupported (m : Machine) (w : Word) : m.Twin (m.recordUnsupported w) := by
  rw [recordUnsupported]
  split <;> exact { Twin.refl m with }

/-- The trace is the host's. -/
theorem twin_trace (m : Machine) (w : Word) : m.Twin (m.trace w) := by
  rw [trace]
  split <;> exact { Twin.refl m with }

/-! ## Instructions -/

/-- Twins do the same at each instruction. -/
theorem Twin.perform (h : m.Twin m') (i : Instruction) :
    SameOutcome Twin (m.perform i) (m'.perform i) := by
  have hdraw := h.display.toggleAll
  have hskip := h.skipIf
  have hresolution := h.setResolution
  have hunknown (w : Word) :=
    ((m.twin_recordUnsupported w).symm.trans h).trans (m'.twin_recordUnsupported w)
  -- With the twin written as `m` in other hands, both sides of most instructions compute alike.
  rw [h.eq_hostedBy] at hdraw hskip hresolution hunknown ⊢
  cases i with
  | unknown w => exact .ok (hunknown w)
  | ret | call => exact .bind_same fun registers ↦ .ok (twin_hostedBy _ m')
  | skipIfByte | skipUnlessByte | skipIfEqual | skipUnlessEqual | skipIfKey | skipUnlessKey =>
    exact .ok (hskip _)
  | draw x y rows =>
    apply SameOutcome.bind_same
    intro s
    apply (hdraw _).bind
    rintro ⟨d, collided⟩ ⟨d', collided'⟩ ⟨hd, rfl⟩
    have hn := (m.twin_hostedBy m').withDisplay hd
    exact .ok (hn.setFlag collided)
  | getDelay x => exact .bind_same fun b ↦ .ok (twin_hostedBy _ m')
  | awaitKey x =>
    have hk : (m.hostedBy m').firstKey? = m.firstKey? := rfl
    rw [Machine.perform, Machine.perform, hk]
    cases m.firstKey? with
    | some key => exact .ok (twin_hostedBy _ m')
    | none => exact .ok (twin_hostedBy _ m')
  | storeDecimal x => exact .bind_same fun memory ↦ .ok (twin_hostedBy _ m')
  | store x =>
    have hs := (m.twin_hostedBy m').storeCells
    exact (hs _).bind fun _ _ h ↦ .ok (h.advanceIndex x)
  | load x =>
    have hl := (m.twin_hostedBy m').mapRegisters
    exact .bind_same fun bytes ↦ .ok ((hl _).advanceIndex x)
  | scrollDown | scrollRight | scrollLeft =>
    rw [Machine.perform, Machine.perform]
    exact (m.twin_hostedBy m').scroll (fun _ _ ↦ rfl) fun _ _ ↦ rfl
  | lowResolution | highResolution => exact .ok (hresolution _)
  | _ => exact .ok (twin_hostedBy _ m')

/-- Twins execute a word in the same way. -/
theorem Twin.execute (h : m.Twin m') (w : Word) :
    (m.execute w).1.Twin (m'.execute w).1 ∧ (m.execute w).2 = (m'.execute w).2 := by
  have ht : (m.trace w).Twin (m'.trace w) :=
    ((m.twin_trace w).symm.trans h).trans (m'.twin_trace w)
  exact rel_execute ht (ht.perform _)

/-- Twins step in the same way. -/
theorem Twin.step (h : m.Twin m') : m.step.1.Twin m'.step.1 ∧ m.step.2 = m'.step.2 := by
  rw [h.eq_hostedBy]
  have hc : Twin { m with current := m.registers.pc }
      { m.hostedBy m' with current := (m.hostedBy m').registers.pc } := twin_hostedBy _ m'
  exact rel_step rfl hc fun w _ ↦ (hc.mapRegisters .advance).execute w

/-! ## Other operations -/

/-- Twins are loaded in the same way. -/
theorem Twin.load (h : m.Twin m') (program : List UInt8) :
    SameOutcome Twin (m.load program) (m'.load program) := by
  rw [h.eq_hostedBy, Machine.load, Machine.load]
  split
  · exact .error _
  · exact .bind_same fun memory ↦ .ok (twin_hostedBy _ m')

/-- Twins take a key in the same way. -/
theorem Twin.setKey (h : m.Twin m') (key : Int) (down : Bool) :
    SameOutcome Twin (m.setKey key down) (m'.setKey key down) := by
  rw [h.eq_hostedBy, Machine.setKey, Machine.setKey]
  split
  · exact .ok (twin_hostedBy _ m')
  · exact .error _

/-- Twins flip a pixel in the same way. -/
theorem Twin.toggle (h : m.Twin m') (x y : Int) :
    SameOutcome Twin (m.toggle x y) (m'.toggle x y) := by
  apply (h.display.toggle x y).bind
  rintro ⟨d, on⟩ ⟨d', on'⟩ ⟨hd, -⟩
  exact .ok (h.withDisplay hd)

/-- Twins take a speed in the same way, and it is their hosts' business. -/
theorem Twin.setClockSpeed (h : m.Twin m') (speed : Int) :
    (m.setClockSpeed speed).1.Twin (m'.setClockSpeed speed).1 ∧
      (m.setClockSpeed speed).2 = (m'.setClockSpeed speed).2 := by
  rw [Machine.setClockSpeed, Machine.setClockSpeed]
  cases intervalOf speed with
  | ok interval => exact ⟨{ h with }, rfl⟩
  | error f => exact ⟨{ h with }, rfl⟩

/-- Twins count down in the same way. -/
theorem Twin.countDown (h : m.Twin m') : m.countDown.Twin m'.countDown := by
  rw [h.eq_hostedBy]
  exact m.countDown.twin_hostedBy (m.hostedBy m').countDown

/-- Twins are reset in the same way. -/
theorem Twin.reset (h : m.Twin m') : m.reset.Twin m'.reset := by
  have hr := (h.mapRegisters .reset).setResolution false
  exact { hr with
    display := hr.display.clear
    keys := rfl
    delay := rfl
    sound := rfl
    current := congrArg Registers.pc hr.registers
    halted := rfl
    owed := rfl }

/-! ## What both hosts are told -/

/-- `m'` is what becomes of `m` when no picture is handed over. -/
structure Silent (m m' : Machine) : Prop where
  /-- No picture is told. -/
  frames_eq : m'.frames = m.frames
  /-- The world goes on being told, or not. -/
  observed_eq : m'.display.observed = m.display.observed

/-- Two silent changes are a silent change. -/
theorem Silent.trans (h : m.Silent m') (h' : m'.Silent m'') : m.Silent m'' where
  frames_eq := h'.frames_eq.trans h.frames_eq
  observed_eq := h'.observed_eq.trans h.observed_eq

/-- What is quiet is silent. -/
theorem Quiet.silent (h : m.Quiet m') : m.Silent m' := ⟨h.frames_eq, h.painted.observed_eq⟩

/-- Switching the resolution is silent. -/
theorem silent_setResolution (m : Machine) (high : Bool) : m.Silent (m.setResolution high) where
  frames_eq := by
    change (m.tell (m.display.resolutionEvents high)).frames = m.frames
    rw [frames_tell, Display.resolutionEvents]
    split <;> exact List.append_nil _
  observed_eq := m.display.observed_setResolution high

/-- A reset is silent. -/
theorem silent_reset (m : Machine) : m.Silent m.reset := by
  have hr : m.Silent ({ m with registers := m.registers.reset } : Machine) := ⟨rfl, rfl⟩
  have hl := hr.trans (silent_setResolution _ false)
  exact ⟨hl.frames_eq, hl.observed_eq⟩

/-- Instructions are silent. -/
theorem enduring_silent (m : Machine) : Enduring m.Silent where
  mapRegisters _ h := ⟨h.frames_eq, h.observed_eq⟩
  memory _ h := ⟨h.frames_eq, h.observed_eq⟩
  delay _ h := ⟨h.frames_eq, h.observed_eq⟩
  sound _ h := ⟨h.frames_eq, h.observed_eq⟩
  random _ h := ⟨h.frames_eq, h.observed_eq⟩
  halted h := ⟨h.frames_eq, h.observed_eq⟩
  painted _ hd h := ⟨h.frames_eq, hd.observed_eq.trans h.observed_eq⟩
  setResolution high h := h.trans (silent_setResolution _ high)
  recordUnsupported w h := h.trans (quiet_recordUnsupported _ w).silent
  trace w h := h.trans (quiet_trace _ w).silent
  current _ h := ⟨h.frames_eq, h.observed_eq⟩

/-- `m` and `m'` have become of `a` and `a'` in step: they are twins, and if both hosts are told, or
neither, then both have been told the same pictures since. -/
structure Abreast (a a' m m' : Machine) : Prop where
  /-- The machines are twins. -/
  twin : m.Twin m'
  /-- The first host goes on being told, or not. -/
  observed_left : m.display.observed = a.display.observed
  /-- The second host goes on being told, or not. -/
  observed_right : m'.display.observed = a'.display.observed
  /-- Both have been told the same pictures. -/
  frames : a.display.observed = a'.display.observed →
    ∃ frames, m.frames = a.frames ++ frames ∧ m'.frames = a'.frames ++ frames

variable {n n' : Machine}

/-- Twins are abreast at the beginning. -/
theorem Twin.abreast (h : a.Twin a') : Abreast a a' a a' where
  twin := h
  observed_left := rfl
  observed_right := rfl
  frames _ := ⟨[], (List.append_nil _).symm, (List.append_nil _).symm⟩

/-- Machines stay abreast when they become twins and no picture is handed over. -/
theorem Abreast.silent (h : Abreast a a' m m') (ht : n.Twin n') (hn : m.Silent n)
    (hn' : m'.Silent n') : Abreast a a' n n' where
  twin := ht
  observed_left := hn.observed_eq.trans h.observed_left
  observed_right := hn'.observed_eq.trans h.observed_right
  frames ho := by
    rw [hn.frames_eq, hn'.frames_eq]
    exact h.frames ho

/-- Machines stay abreast when their pictures are handed over. -/
theorem Abreast.flush (h : Abreast a a' m m') : Abreast a a' m.flush m'.flush where
  twin := by
    obtain ⟨observed, hd⟩ := h.twin.display
    exact { h.twin with display := ⟨observed, congrArg Display.flush hd⟩ }
  observed_left := h.observed_left
  observed_right := h.observed_right
  frames ho := by
    obtain ⟨frames, hf, hf'⟩ := h.frames ho
    have hd : m.display = m'.display :=
      h.twin.display.eq (h.observed_left.trans (ho.trans h.observed_right.symm))
    refine ⟨frames ++ m.display.flushEvents.filterMap Event.frame?, ?_, ?_⟩
    · change (m.tell m.display.flushEvents).frames = _
      rw [frames_tell, hf, List.append_assoc]
    · change (m'.tell m'.display.flushEvents).frames = _
      rw [frames_tell, hf', List.append_assoc, hd]

/-- Machines stay abreast when they tick. -/
theorem Abreast.tick (h : Abreast a a' m m') : Abreast a a' m.tick m'.tick := by
  rw [tick_eq, tick_eq]
  exact (h.silent h.twin.countDown m.quiet_countDown.silent m'.quiet_countDown.silent).flush

/-- Machines stay abreast when they are owed some other time. -/
theorem Abreast.withOwed (h : Abreast a a' m m') (owed : Float) :
    Abreast a a' { m with owed } { m' with owed } :=
  h.silent { h.twin with owed := rfl } ⟨rfl, rfl⟩ ⟨rfl, rfl⟩

/-- Machines stay abreast when some time goes by. -/
theorem Abreast.advanceClock (h : Abreast a a' m m') (elapsed : Float) :
    Option.Rel (fun r r' ↦ Abreast a a' r.1 r'.1 ∧ r.2 = r'.2) (m.advanceClock elapsed)
      (m'.advanceClock elapsed) :=
  rel_advanceClock (R := Abreast a a') (fun h ↦ h.twin.owed) (fun h ↦ h.tick)
    (fun owed h ↦ h.withOwed owed) h elapsed

/-- Machines stay abreast when a change of both has the same outcome and hands over no picture. -/
theorem Abreast.attempt (h : Abreast a a' m m') {x x' : Except Fault Machine}
    (hx : SameOutcome Twin x x') (hn : ∀ n, x = .ok n → m.Quiet n)
    (hn' : ∀ n, x' = .ok n → m'.Quiet n) :
    Abreast a a' (m.attempt x).1 (m'.attempt x').1 ∧ (m.attempt x).2 = (m'.attempt x').2 := by
  cases hx with
  | ok ht => exact ⟨h.silent ht (hn _ rfl).silent (hn' _ rfl).silent, rfl⟩
  | error f => exact ⟨h, rfl⟩

/-- Machines stay abreast at each operation, and meet the same fault. -/
theorem Abreast.operate (h : Abreast a a' m m') (o : Operation) :
    Option.Rel (fun r r' ↦ Abreast a a' r.1 r'.1 ∧ r.2 = r'.2) (m.operate o) (m'.operate o) := by
  have ht := h.twin
  cases o with
  | load program =>
    exact .some (h.attempt (ht.load program) (fun _ ↦ quiet_load) fun _ ↦ quiet_load)
  | setKey key down =>
    exact .some (h.attempt (ht.setKey key down) (fun _ ↦ quiet_setKey) fun _ ↦ quiet_setKey)
  | clearKeys => exact .some ⟨h.silent { ht with keys := rfl } ⟨rfl, rfl⟩ ⟨rfl, rfl⟩, rfl⟩
  | requestReset | setLive | dropRequest | showCounters =>
    exact .some ⟨h.silent { ht with } ⟨rfl, rfl⟩ ⟨rfl, rfl⟩, rfl⟩
  | reset => exact .some ⟨h.silent ht.reset m.silent_reset m'.silent_reset, rfl⟩
  | setClockSpeed speed =>
    obtain ⟨hs, hf⟩ := ht.setClockSpeed speed
    exact .some ⟨h.silent hs (m.quiet_setClockSpeed speed).silent
      (m'.quiet_setClockSpeed speed).silent, hf⟩
  | step =>
    obtain ⟨hs, hf⟩ := ht.step
    exact .some ⟨h.silent hs (m.enduring_silent.step ⟨rfl, rfl⟩)
      (m'.enduring_silent.step ⟨rfl, rfl⟩), hf⟩
  | execute word =>
    obtain ⟨hs, hf⟩ := ht.execute (Word.ofInt word)
    exact .some ⟨h.silent hs (m.enduring_silent.execute _ ⟨rfl, rfl⟩)
      (m'.enduring_silent.execute _ ⟨rfl, rfl⟩), hf⟩
  | tick => exact .some ⟨h.tick, rfl⟩
  | advanceClock elapsed =>
    have hc := h.advanceClock elapsed
    rw [Machine.operate, Machine.operate]
    generalize m.advanceClock elapsed = r at hc ⊢
    generalize m'.advanceClock elapsed = r' at hc ⊢
    cases hc with
    | none => exact .none
    | some hr => exact .some ⟨hr.1, rfl⟩
  | toggle x y =>
    exact .some (h.attempt (ht.toggle x y) (fun _ ↦ quiet_toggle) fun _ ↦ quiet_toggle)
  | clear =>
    exact .some ⟨h.silent (ht.withDisplay ht.display.clear) ⟨rfl, rfl⟩ ⟨rfl, rfl⟩, rfl⟩
  | setResolution high =>
    exact .some ⟨h.silent (ht.setResolution high) (m.silent_setResolution high)
      (m'.silent_setResolution high), rfl⟩
  | scrollUp | scrollDown | scrollLeft | scrollRight =>
    exact .some (h.attempt (ht.scroll (fun _ _ ↦ rfl) fun _ _ ↦ rfl) (fun _ ↦ quiet_scroll)
      fun _ ↦ quiet_scroll)
  | flush => exact .some ⟨h.flush, rfl⟩

/-- The faults of operations, one after the other, up to one that never comes to its end. -/
def faults : Machine → List Operation → List (Option Fault)
  | _, [] => []
  | m, o :: ops =>
    match m.operate o with
    | none => []
    | some (m', f) => f :: m'.faults ops

/-- Machines stay abreast whatever is done to both, and meet the same faults. -/
theorem Abreast.operateAll (h : Abreast a a' m m') (ops : List Operation) :
    m.faults ops = m'.faults ops ∧
      Option.Rel (Abreast a a') (m.operateAll ops) (m'.operateAll ops) := by
  induction ops generalizing m m' with
  | nil => exact ⟨rfl, .some h⟩
  | cons o ops ih =>
    have ho := h.operate o
    rw [faults, faults, Machine.operateAll, Machine.operateAll]
    generalize m.operate o = r at ho ⊢
    generalize m'.operate o = r' at ho ⊢
    cases ho with
    | none => exact ⟨rfl, .none⟩
    | some hr =>
      obtain ⟨hf, hops⟩ := ih hr.1
      exact ⟨congrArg₂ List.cons hr.2 hf, hops⟩

end Machine

end SuperChip
