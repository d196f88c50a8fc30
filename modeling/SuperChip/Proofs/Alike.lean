import SuperChip.Proofs.Step

/-!
# Machines that programs cannot tell apart

Two machines are alike if they differ in nothing but what belongs to time: the timers, the tones,
the time owed, the speed, the counters, what was told to the world and what is yet to be handed
over.  Machines that are alike do the same at each instruction, except for the one that reads the
delay timer, and are alike after it.

Each thing that an instruction is made of is shown to be done in the same way to machines that are
alike; an instruction puts them together.
-/

namespace SuperChip

/-! ## Computations with the same outcome -/

section SameOutcome

variable {α β γ δ ε : Type}

/-- Two computations that meet the same fault, or come to results with `R`. -/
inductive SameOutcome (R : α → β → Prop) : Except Fault α → Except Fault β → Prop
  /-- Both come to a result. -/
  | ok {a : α} {b : β} (h : R a b) : SameOutcome R (.ok a) (.ok b)
  /-- Both meet a fault. -/
  | error (f : Fault) : SameOutcome R (.error f) (.error f)

/-- A computation has the outcome that it has. -/
theorem SameOutcome.rfl {x : Except Fault α} : SameOutcome (· = ·) x x := by
  cases x with
  | ok a => exact .ok (Eq.refl a)
  | error f => exact .error f

/-- Computations with the same outcome go on with the same outcome. -/
theorem SameOutcome.bind {R : α → β → Prop} {S : γ → δ → Prop} {x : Except Fault α}
    {y : Except Fault β} {f : α → Except Fault γ} {g : β → Except Fault δ} (h : SameOutcome R x y)
    (hfg : ∀ a b, R a b → SameOutcome S (f a) (g b)) : SameOutcome S (x >>= f) (y >>= g) := by
  cases h with
  | ok h => exact hfg _ _ h
  | error f => exact .error f

/-- A computation goes on in two ways with the same outcome. -/
theorem SameOutcome.bind_same {S : γ → δ → Prop} {x : Except Fault α} {f : α → Except Fault γ}
    {g : α → Except Fault δ} (hfg : ∀ a, SameOutcome S (f a) (g a)) :
    SameOutcome S (x >>= f) (x >>= g) := by
  apply SameOutcome.rfl.bind
  rintro a b ⟨⟩
  exact hfg a

/-- Folds whose rounds have the same outcome have the same outcome. -/
theorem SameOutcome.foldlM {R : α → β → Prop} {f : α → ε → Except Fault α}
    {g : β → ε → Except Fault β} (hfg : ∀ a b e, R a b → SameOutcome R (f a e) (g b e))
    {l : List ε} {a : α} {b : β} (h : R a b) : SameOutcome R (l.foldlM f a) (l.foldlM g b) := by
  induction l generalizing a b with
  | nil => exact .ok h
  | cons e l ih =>
    rw [List.foldlM_cons, List.foldlM_cons]
    exact (hfg a b e h).bind fun a b ↦ ih

end SameOutcome

/-! ## Displays -/

namespace Display

/-- Displays that look the same.  Whether something is yet to be handed over may differ. -/
structure Alike (d d' : Display) : Prop where
  /-- They have the same resolution. -/
  high_eq : d.high = d'.high
  /-- They have the same pixels. -/
  pixels_eq : d.pixels = d'.pixels
  /-- Both are told, or neither. -/
  observed_eq : d.observed = d'.observed

variable {d d' : Display}

/-- Displays that look the same have rows of the same width. -/
theorem Alike.width_eq (h : d.Alike d') : d.width = d'.width := by
  rw [width, width, h.high_eq]

/-- Displays that look the same have as many rows. -/
theorem Alike.height_eq (h : d.Alike d') : d.height = d'.height := by
  rw [height, height, h.high_eq]

/-- Displays that look the same have their pixels at the same locations. -/
theorem Alike.location_eq (h : d.Alike d') (x y : Int) : d.location x y = d'.location x y := by
  rw [location, location, h.width_eq, h.height_eq]

/-- Displays go on looking the same when they get the same pixels. -/
theorem Alike.withPixels (h : d.Alike d') (pixels : Memory) :
    Alike { d with pixels, dirty := true } { d' with pixels, dirty := true } :=
  ⟨h.high_eq, rfl, h.observed_eq⟩

/-- Displays go on looking the same when they are cleared. -/
theorem Alike.clear (h : d.Alike d') : d.clear.Alike d'.clear := by
  rw [Display.clear, Display.clear, h.pixels_eq]
  exact h.withPixels _

/-- Displays go on looking the same when their resolution is switched. -/
theorem Alike.setResolution (h : d.Alike d') (high : Bool) :
    (d.setResolution high).Alike (d'.setResolution high) := by
  rw [Display.setResolution, Display.setResolution, h.high_eq]
  split
  · exact h
  · exact ⟨rfl, rfl, h.observed_eq⟩

/-- Displays that look the same flip a pixel in the same way. -/
theorem Alike.toggle (h : d.Alike d') (x y : Int) :
    SameOutcome (fun r r' ↦ r.1.Alike r'.1 ∧ r.2 = r'.2) (d.toggle x y) (d'.toggle x y) := by
  rw [Display.toggle, Display.toggle, h.pixels_eq, h.location_eq]
  apply SameOutcome.bind_same
  intro b
  apply SameOutcome.bind_same
  intro pixels
  exact .ok ⟨h.withPixels pixels, rfl⟩

/-- Displays that look the same flip pixels in the same way. -/
theorem Alike.toggleAll (h : d.Alike d') (cells : List (Int × Int)) :
    SameOutcome (fun r r' ↦ r.1.Alike r'.1 ∧ r.2 = r'.2) (d.toggleAll cells)
      (d'.toggleAll cells) := by
  apply SameOutcome.foldlM _ ⟨h, rfl⟩
  rintro ⟨d, collided⟩ ⟨d', collided'⟩ ⟨x, y⟩ ⟨h, rfl⟩
  apply (Alike.toggle h x y).bind
  rintro ⟨d, on⟩ ⟨d', on'⟩ ⟨h, rfl⟩
  exact .ok ⟨h, rfl⟩

/-- Displays that look the same scroll in the same way. -/
theorem Alike.scroll (h : d.Alike d') (distance : Int) (extent : Nat)
    (move : Nat → Except Fault Memory) :
    SameOutcome Alike (d.scroll distance extent move) (d'.scroll distance extent move) := by
  rw [Display.scroll, Display.scroll]
  split
  · exact .error _
  split
  · exact .ok h
  split
  · exact .ok h.clear
  · exact .bind_same fun pixels ↦ .ok (h.withPixels pixels)

/-- Displays that look the same scroll down in the same way. -/
theorem Alike.scrollDown (h : d.Alike d') (rows : Int) :
    SameOutcome Alike (d.scrollDown rows) (d'.scrollDown rows) := by
  rw [Display.scrollDown, Display.scrollDown, h.pixels_eq, h.width_eq, h.height_eq]
  exact h.scroll _ _ _

/-- Displays that look the same scroll to the left in the same way. -/
theorem Alike.scrollLeft (h : d.Alike d') (columns : Int) :
    SameOutcome Alike (d.scrollLeft columns) (d'.scrollLeft columns) := by
  rw [Display.scrollLeft, Display.scrollLeft, h.pixels_eq, h.width_eq, h.height_eq]
  exact h.scroll _ _ _

/-- Displays that look the same scroll to the right in the same way. -/
theorem Alike.scrollRight (h : d.Alike d') (columns : Int) :
    SameOutcome Alike (d.scrollRight columns) (d'.scrollRight columns) := by
  rw [Display.scrollRight, Display.scrollRight, h.pixels_eq, h.width_eq, h.height_eq]
  exact h.scroll _ _ _

end Display

/-! ## Machines -/

namespace Machine

/-- Machines that a program cannot tell apart without the delay timer. -/
structure Alike (m m' : Machine) : Prop where
  /-- They have the same memory. -/
  memory : m.memory = m'.memory
  /-- They have the same registers, user flags and call stack. -/
  registers : m.registers = m'.registers
  /-- Their displays look the same. -/
  display : m.display.Alike m'.display
  /-- The same keys are down. -/
  keys : m.keys = m'.keys
  /-- They execute the instruction at the same address. -/
  current : m.current = m'.current
  /-- Both are halted, or neither. -/
  halted : m.halted = m'.halted
  /-- They get the same random bytes. -/
  random : m.random = m'.random
  /-- They have the same records of words that are no instruction. -/
  monitor : m.monitor = m'.monitor

variable {m m' m'' : Machine}

/-- A machine is alike to itself. -/
theorem Alike.refl (m : Machine) : m.Alike m :=
  ⟨rfl, rfl, ⟨rfl, rfl, rfl⟩, rfl, rfl, rfl, rfl, rfl⟩

/-- Being alike is mutual. -/
theorem Alike.symm (h : m.Alike m') : m'.Alike m where
  memory := h.memory.symm
  registers := h.registers.symm
  display := ⟨h.display.high_eq.symm, h.display.pixels_eq.symm, h.display.observed_eq.symm⟩
  keys := h.keys.symm
  current := h.current.symm
  halted := h.halted.symm
  random := h.random.symm
  monitor := h.monitor.symm

/-- Machines that are alike to the same one are alike. -/
theorem Alike.trans (h : m.Alike m') (h' : m'.Alike m'') : m.Alike m'' where
  memory := h.memory.trans h'.memory
  registers := h.registers.trans h'.registers
  display := ⟨h.display.high_eq.trans h'.display.high_eq,
    h.display.pixels_eq.trans h'.display.pixels_eq,
    h.display.observed_eq.trans h'.display.observed_eq⟩
  keys := h.keys.trans h'.keys
  current := h.current.trans h'.current
  halted := h.halted.trans h'.halted
  random := h.random.trans h'.random
  monitor := h.monitor.trans h'.monitor

/-! ## Parts of instructions -/

/-- Machines that are alike have the same bytes in their registers. -/
theorem Alike.get (h : m.Alike m') (x : Register) : m.get x = m'.get x := by
  rw [Machine.get, Machine.get, h.registers]

/-- Machines that are alike find the same key down first. -/
theorem Alike.firstKey? (h : m.Alike m') : m.firstKey? = m'.firstKey? := by
  rw [Machine.firstKey?, Machine.firstKey?, h.keys]

/-- Machines that are alike have the same keys down. -/
theorem Alike.keyDown (h : m.Alike m') (b : UInt8) : m.keyDown b = m'.keyDown b := by
  rw [Machine.keyDown, Machine.keyDown, h.keys]

/-- Machines that are alike point to the same cells. -/
theorem Alike.cell (h : m.Alike m') : m.cell = m'.cell := by
  funext k
  rw [Machine.cell, Machine.cell, h.registers]

/-- Machines that are alike load the same bytes. -/
theorem Alike.loadCells (h : m.Alike m') (count : Nat) :
    m.loadCells count = m'.loadCells count := by
  have hr : m.readCell = m'.readCell := by
    funext k
    rw [readCell, readCell, h.memory, h.cell]
  rw [Machine.loadCells, Machine.loadCells, hr]

/-- Machines that are alike point to the same sprite. -/
theorem Alike.sprite (h : m.Alike m') (rows : Fin 16) : m.sprite rows = m'.sprite rows := by
  rw [Machine.sprite, Machine.sprite, h.display.high_eq, h.loadCells, h.loadCells]

/-- Machines that are alike change their registers in the same way. -/
theorem Alike.mapRegisters (h : m.Alike m') (f : Registers → Registers) :
    (m.mapRegisters f).Alike (m'.mapRegisters f) :=
  { h with registers := congrArg f h.registers }

/-- Machines that are alike put a byte in a register in the same way. -/
theorem Alike.set (h : m.Alike m') (x : Register) (b : UInt8) : (m.set x b).Alike (m'.set x b) :=
  h.mapRegisters _

/-- Machines that are alike raise a flag in the same way. -/
theorem Alike.setFlag (h : m.Alike m') (flag : Bool) : (m.setFlag flag).Alike (m'.setFlag flag) :=
  h.set _ _

/-- Machines that are alike point elsewhere in the same way. -/
theorem Alike.setIndex (h : m.Alike m') (n : Int) : (m.setIndex n).Alike (m'.setIndex n) :=
  h.mapRegisters _

/-- Machines that are alike move the index register in the same way. -/
theorem Alike.advanceIndex (h : m.Alike m') (x : Register) :
    (m.advanceIndex x).Alike (m'.advanceIndex x) := by
  rw [Machine.advanceIndex, Machine.advanceIndex, h.registers]
  exact h.setIndex _

/-- Machines that are alike skip an instruction in the same way. -/
theorem Alike.skipIf (h : m.Alike m') (condition : Bool) :
    (m.skipIf condition).Alike (m'.skipIf condition) := by
  rw [Machine.skipIf, Machine.skipIf]
  split
  · exact h.mapRegisters _
  · exact h

/-- Machines that are alike store bytes in the same way. -/
theorem Alike.storeCells (h : m.Alike m') (bytes : List UInt8) :
    SameOutcome Alike (m.storeCells bytes) (m'.storeCells bytes) := by
  rw [Machine.storeCells, Machine.storeCells, h.memory, h.cell]
  exact .bind_same fun memory ↦ .ok { h with memory := rfl }

/-- Machines that are alike go on being alike when their displays look the same. -/
theorem Alike.withDisplay (h : m.Alike m') {d d' : Display} (hd : d.Alike d') :
    Alike { m with display := d } { m' with display := d' } :=
  { h with display := hd }

/-- Machines that are alike scroll in the same way, if their displays do. -/
theorem Alike.scroll (h : m.Alike m') (move : Display → Except Fault Display)
    (hmove : SameOutcome Display.Alike (move m.display) (move m'.display)) :
    SameOutcome Alike (m.scroll move) (m'.scroll move) :=
  hmove.bind fun _ _ hd ↦ .ok (h.withDisplay hd)

/-- Machines that are alike record a word in the same way. -/
theorem Alike.recordUnsupported (h : m.Alike m') (w : Word) :
    (m.recordUnsupported w).Alike (m'.recordUnsupported w) := by
  rw [Machine.recordUnsupported, Machine.recordUnsupported, h.current, h.monitor]
  simp only
  split
  · exact { h with current := rfl, monitor := rfl }
  · exact { h with monitor := rfl }

/-- Tracing a word makes no difference. -/
theorem alike_trace (m : Machine) (w : Word) : m.Alike (m.trace w) := by
  rw [trace]
  split
  · exact { Alike.refl m with }
  · exact .refl m

/-! ## Words and steps of two machines -/

/-- Related machines that perform the instruction of a word with the same outcome execute the word
in the same way. -/
theorem rel_execute {R : Machine → Machine → Prop} {w : Word} (ht : R (m.trace w) (m'.trace w))
    (hp : SameOutcome R ((m.trace w).perform (Instruction.decode w))
      ((m'.trace w).perform (Instruction.decode w))) :
    R (m.execute w).1 (m'.execute w).1 ∧ (m.execute w).2 = (m'.execute w).2 := by
  rw [Machine.execute, Machine.execute]
  generalize (m.trace w).perform (Instruction.decode w) = r at hp ⊢
  generalize (m'.trace w).perform (Instruction.decode w) = r' at hp ⊢
  cases hp with
  | ok h => exact ⟨h, rfl⟩
  | error f => exact ⟨ht, rfl⟩

/-- Machines that fetch the same word, and execute it in the same way, step in the same way. -/
theorem rel_step {R : Machine → Machine → Prop} (hfetch : m'.fetch = m.fetch)
    (hc : R { m with current := m.registers.pc } { m' with current := m'.registers.pc })
    (he : ∀ w, m.fetch = .ok w → R (m.primed.execute w).1 (m'.primed.execute w).1 ∧
      (m.primed.execute w).2 = (m'.primed.execute w).2) :
    R m.step.1 m'.step.1 ∧ m.step.2 = m'.step.2 := by
  cases hw : m.fetch with
  | ok w =>
    rw [step_eq_execute hw, step_eq_execute (hfetch.trans hw)]
    exact he w hw
  | error f =>
    have hw₁ : ({ m with current := m.registers.pc } : Machine).fetch = .error f := hw
    have hw₂ : ({ m' with current := m'.registers.pc } : Machine).fetch = .error f :=
      hfetch.trans hw
    rw [Machine.step, Machine.step, hw₁, hw₂]
    exact ⟨hc, rfl⟩

/-! ## Instructions -/

/-- Machines that are alike do the same at each instruction that does not read the delay timer. -/
theorem Alike.perform (h : m.Alike m') {i : Instruction} (hi : ∀ x, i ≠ .getDelay x) :
    SameOutcome Alike (m.perform i) (m'.perform i) := by
  cases i with
  | getDelay x => exact absurd rfl (hi x)
  | unknown w => exact .ok (h.recordUnsupported w)
  | clear => exact .ok (h.withDisplay h.display.clear)
  | ret | call target =>
    rw [Machine.perform, Machine.perform, h.registers]
    exact .bind_same fun registers ↦ .ok { h with registers := rfl }
  | skipIfByte | skipUnlessByte | skipIfEqual | skipUnlessEqual =>
    simp only [Machine.perform, h.get]
    exact .ok (h.skipIf _)
  | skipIfKey | skipUnlessKey =>
    simp only [Machine.perform, h.get, h.keyDown]
    exact .ok (h.skipIf _)
  | setByte | addByte | copy | or | and | xor =>
    simp only [Machine.perform, h.get]
    exact .ok (h.set _ _)
  | add | sub | subFrom =>
    simp only [Machine.perform, h.get]
    exact .ok ((h.set _ _).setFlag _)
  | shiftRight | shiftLeft =>
    simp only [Machine.perform, h.get]
    exact .ok ((h.set _ _).set _ _)
  | jump | saveFlags | loadFlags => exact .ok (h.mapRegisters _)
  | jumpOffset base =>
    simp only [Machine.perform, h.get]
    exact .ok (h.mapRegisters _)
  | setIndex target => exact .ok (h.setIndex _)
  | smallGlyph | bigGlyph =>
    simp only [Machine.perform, h.get]
    exact .ok (h.setIndex _)
  | addIndex x =>
    simp only [Machine.perform, h.get, h.registers]
    exact .ok ((h.setIndex _).setFlag _)
  | random x mask =>
    simp only [Machine.perform, h.random]
    have hr : Alike { m with random := m'.random.next.2 } { m' with random := m'.random.next.2 } :=
      { h with random := rfl }
    exact .ok (hr.set _ _)
  | draw x y rows =>
    simp only [Machine.perform, h.get, h.sprite]
    apply SameOutcome.bind_same
    intro s
    apply (h.display.toggleAll _).bind
    rintro ⟨d, collided⟩ ⟨d', collided'⟩ ⟨hd, rfl⟩
    exact .ok ((h.withDisplay hd).setFlag collided)
  | awaitKey x =>
    rw [Machine.perform, Machine.perform, h.firstKey?]
    cases m'.firstKey? with
    | some key => exact .ok (h.set _ _)
    | none => exact .ok (h.mapRegisters _)
  | setDelay | setSound => exact .ok { h with }
  | exit => exact .ok { h with halted := rfl }
  | storeDecimal x =>
    simp only [Machine.perform, h.get]
    exact h.storeCells _
  | store x =>
    rw [Machine.perform, Machine.perform, h.registers]
    exact (h.storeCells _).bind fun _ _ h ↦ .ok (h.advanceIndex x)
  | load x =>
    rw [Machine.perform, Machine.perform, h.loadCells]
    exact .bind_same fun bytes ↦ .ok ((h.mapRegisters _).advanceIndex x)
  | scrollDown rows => exact h.scroll (·.scrollDown rows.val) (h.display.scrollDown _)
  | scrollRight => exact h.scroll (·.scrollRight 4) (h.display.scrollRight 4)
  | scrollLeft => exact h.scroll (·.scrollLeft 4) (h.display.scrollLeft 4)
  | lowResolution | highResolution =>
    exact .ok { h with display := h.display.setResolution _ }

/-- The instruction at the program counter. -/
def instruction? (m : Machine) : Option Instruction := m.fetch.toOption.map Instruction.decode

/-- Machines that are alike fetch the same word. -/
theorem Alike.fetch (h : m.Alike m') : m.fetch = m'.fetch := by
  rw [Machine.fetch, Machine.fetch, h.memory, h.registers]

/-- Machines that are alike have the same instruction at the program counter. -/
theorem Alike.instruction? (h : m.Alike m') : m.instruction? = m'.instruction? := by
  rw [Machine.instruction?, Machine.instruction?, h.fetch]

/-- Machines that are alike execute a word in the same way, unless it reads the delay timer. -/
theorem Alike.execute (h : m.Alike m') {w : Word}
    (hw : ∀ x, Instruction.decode w ≠ .getDelay x) :
    (m.execute w).1.Alike (m'.execute w).1 ∧ (m.execute w).2 = (m'.execute w).2 := by
  have ht : (m.trace w).Alike (m'.trace w) :=
    ((m.alike_trace w).symm.trans h).trans (m'.alike_trace w)
  exact rel_execute ht (ht.perform hw)

/-- Machines that are alike step in the same way, unless they read the delay timer. -/
theorem Alike.step (h : m.Alike m') (hi : ∀ x, m.instruction? ≠ some (.getDelay x)) :
    m.step.1.Alike m'.step.1 ∧ m.step.2 = m'.step.2 := by
  have hc : Alike { m with current := m.registers.pc } { m' with current := m'.registers.pc } :=
    { h with current := congrArg Registers.pc h.registers }
  refine rel_step h.fetch.symm hc ?_
  intro w hw
  apply Alike.execute (hc.mapRegisters _)
  intro x hx
  rw [Machine.instruction?, hw] at hi
  exact hi x (congrArg some hx)

end Machine

end SuperChip
