import SuperChip.Proofs.Step

/-!
# Changes that instructions overlook

Some of what belongs to a machine is not looked at by any instruction: the time owed to the timers,
the counters of a run, the lines of the trace.  A change `φ` of such things may be made before an
instruction or after it, with the same result.

`Overlooked φ` says this of the changes that instructions are made of.  From there it goes on to
instructions, and, if the trace overlooks `φ` too, to words that are executed and to steps.
-/

namespace SuperChip

/-- What a change of the result of a computation does to its faults: nothing. -/
theorem map_bind_except {α β γ : Type} (x : Except Fault α) (f : α → Except Fault β) (g : β → γ) :
    (x >>= f).map g = x >>= fun a ↦ (f a).map g := by
  cases x <;> rfl

namespace Machine

/-- A change of machines that may as well be made after anything that instructions are made of, and
that leaves the keys alone. -/
structure Overlooked (φ : Machine → Machine) : Prop where
  /-- The registers may be changed before or after. -/
  registers : ∀ m registers, φ { m with registers } = { φ m with registers }
  /-- The memory may be changed before or after. -/
  memory : ∀ m memory, φ { m with memory } = { φ m with memory }
  /-- The display may be changed before or after. -/
  display : ∀ m display, φ { m with display } = { φ m with display }
  /-- The resolution may be switched before or after. -/
  setResolution : ∀ m high, φ (m.setResolution high) = (φ m).setResolution high
  /-- The delay timer may be loaded before or after. -/
  delay : ∀ m delay, φ { m with delay } = { φ m with delay }
  /-- The sound timer may be loaded before or after. -/
  sound : ∀ m sound, φ { m with sound } = { φ m with sound }
  /-- Random bytes may be drawn before or after. -/
  random : ∀ m random, φ { m with random } = { φ m with random }
  /-- The program may end before or after. -/
  halted : ∀ m halted, φ { m with halted } = { φ m with halted }
  /-- The next instruction may start before or after. -/
  current : ∀ m current, φ { m with current } = { φ m with current }
  /-- The same keys are down. -/
  keys : ∀ m, (φ m).keys = m.keys
  /-- A word that is no instruction may be recorded before or after. -/
  recordUnsupported : ∀ m w, φ (m.recordUnsupported w) = (φ m).recordUnsupported w

namespace Overlooked

variable {φ : Machine → Machine} (h : Overlooked φ) (m : Machine)

include h

/-! ## What instructions look at -/

theorem registers_eq : (φ m).registers = m.registers := by
  have hm := congrArg Machine.registers (h.registers m m.registers)
  exact hm

theorem memory_eq : (φ m).memory = m.memory := by
  have hm := congrArg Machine.memory (h.memory m m.memory)
  exact hm

theorem display_eq : (φ m).display = m.display := by
  have hm := congrArg Machine.display (h.display m m.display)
  exact hm

theorem delay_eq : (φ m).delay = m.delay := by
  have hm := congrArg Machine.delay (h.delay m m.delay)
  exact hm

theorem random_eq : (φ m).random = m.random := by
  have hm := congrArg Machine.random (h.random m m.random)
  exact hm

theorem get_eq (x : Register) : (φ m).get x = m.get x := by
  rw [Machine.get, Machine.get, h.registers_eq]

theorem cell_eq : (φ m).cell = m.cell := by
  funext k
  rw [cell, cell, h.registers_eq]

theorem loadCells_eq (count : Nat) : (φ m).loadCells count = m.loadCells count := by
  have hread : (φ m).readCell = m.readCell := by
    funext k
    rw [readCell, readCell, h.memory_eq, h.cell_eq]
  rw [loadCells, loadCells, hread]

theorem sprite_eq (rows : Fin 16) : (φ m).sprite rows = m.sprite rows := by
  rw [sprite, sprite, h.display_eq, h.loadCells_eq, h.loadCells_eq]

theorem keyDown_eq (b : UInt8) : (φ m).keyDown b = m.keyDown b := by
  rw [keyDown, keyDown, h.keys]

theorem firstKey?_eq : (φ m).firstKey? = m.firstKey? := by
  rw [firstKey?, firstKey?, h.keys]

theorem fetch_eq : (φ m).fetch = m.fetch := by
  rw [fetch, fetch, h.memory_eq, h.registers_eq]

/-! ## What instructions are made of -/

theorem mapRegisters (f : Registers → Registers) :
    (φ m).mapRegisters f = φ (m.mapRegisters f) := by
  rw [Machine.mapRegisters, h.registers_eq]
  exact (h.registers m (f m.registers)).symm

theorem set (x : Register) (b : UInt8) : (φ m).set x b = φ (m.set x b) := h.mapRegisters m _

theorem setFlag (flag : Bool) : (φ m).setFlag flag = φ (m.setFlag flag) := h.set m 15 _

theorem setIndex (n : Int) : (φ m).setIndex n = φ (m.setIndex n) := h.mapRegisters m _

theorem advanceIndex (x : Register) : (φ m).advanceIndex x = φ (m.advanceIndex x) := by
  rw [Machine.advanceIndex, Machine.advanceIndex, h.registers_eq, h.setIndex]

theorem skipIf (condition : Bool) : (φ m).skipIf condition = φ (m.skipIf condition) := by
  cases condition
  · rfl
  · exact h.mapRegisters m .advance

theorem storeCells (bytes : List UInt8) :
    (φ m).storeCells bytes = (m.storeCells bytes).map φ := by
  rw [Machine.storeCells, Machine.storeCells, h.memory_eq, h.cell_eq, map_bind_except]
  congr 1
  funext memory
  exact congrArg Except.ok (h.memory m memory).symm

theorem scroll (move : Display → Except Fault Display) :
    (φ m).scroll move = (m.scroll move).map φ := by
  rw [Machine.scroll, Machine.scroll, h.display_eq, map_bind_except]
  congr 1
  funext display
  exact congrArg Except.ok (h.display m display).symm

theorem draw (x y : Register) (rows : Fin 16) :
    (φ m).perform (.draw x y rows) = (m.perform (.draw x y rows)).map φ := by
  simp only [Machine.perform, h.sprite_eq, h.display_eq, h.get_eq, map_bind_except]
  congr 1
  funext s
  congr 1
  funext r
  rw [← h.display, h.setFlag]
  rfl

/-! ## Instructions and steps -/

/-- The change may be made before an instruction or after it. -/
theorem perform (i : Instruction) : (φ m).perform i = (m.perform i).map φ := by
  cases i with
  | unknown w => exact congrArg Except.ok (h.recordUnsupported m w).symm
  | clear =>
    simp only [Machine.perform, h.display_eq, ← h.display]
    rfl
  | ret | call target =>
    simp only [Machine.perform, h.registers_eq, map_bind_except, ← h.registers]
    rfl
  | jump | saveFlags | loadFlags =>
    simp only [Machine.perform, h.mapRegisters]
    rfl
  | jumpOffset base =>
    simp only [Machine.perform, h.get_eq, h.mapRegisters]
    rfl
  | skipIfByte | skipUnlessByte | skipIfEqual | skipUnlessEqual | skipIfKey | skipUnlessKey =>
    simp only [Machine.perform, h.get_eq, h.keyDown_eq, h.skipIf]
    rfl
  | setByte | addByte | copy | or | and | xor | add | sub | subFrom | shiftRight | shiftLeft =>
    simp only [Machine.perform, h.get_eq, h.set, h.setFlag]
    rfl
  | setIndex | smallGlyph | bigGlyph | addIndex =>
    simp only [Machine.perform, h.get_eq, h.registers_eq, h.setIndex, h.setFlag]
    rfl
  | random x mask =>
    simp only [Machine.perform, h.random_eq, ← h.random, h.set]
    rfl
  | draw x y rows => exact h.draw m x y rows
  | getDelay x =>
    simp only [Machine.perform, h.delay_eq, h.set, map_bind_except]
    rfl
  | awaitKey x =>
    rw [Machine.perform, Machine.perform, h.firstKey?_eq]
    cases m.firstKey? with
    | some key => exact congrArg Except.ok (h.set m x _)
    | none => exact congrArg Except.ok (h.mapRegisters m .rewind)
  | setDelay | setSound =>
    simp only [Machine.perform, h.get_eq, ← h.delay, ← h.sound]
    rfl
  | storeDecimal x =>
    simp only [Machine.perform, h.get_eq, h.storeCells]
  | store x =>
    simp only [Machine.perform, h.registers_eq, h.storeCells, map_bind_except]
    cases m.storeCells _ with
    | error f => rfl
    | ok m' => exact congrArg Except.ok (h.advanceIndex m' x)
  | load x =>
    simp only [Machine.perform, h.loadCells_eq, h.mapRegisters, h.advanceIndex, map_bind_except]
    rfl
  | scrollDown rows => exact h.scroll m (·.scrollDown rows.val)
  | scrollRight => exact h.scroll m (·.scrollRight 4)
  | scrollLeft => exact h.scroll m (·.scrollLeft 4)
  | exit => exact congrArg Except.ok (h.halted m true).symm
  | lowResolution | highResolution => exact congrArg Except.ok (h.setResolution m _).symm

/-- The change may be made before a word is executed or after it, if it may be made before the trace
or after it. -/
theorem execute {w : Word} (ht : φ (m.trace w) = (φ m).trace w) :
    (φ m).execute w = (φ (m.execute w).1, (m.execute w).2) := by
  rw [Machine.execute, Machine.execute, ← ht, h.perform]
  cases (m.trace w).perform (Instruction.decode w) <;> rfl

/-- The change may be made before a step or after it, if it may be made before the trace or after
it. -/
theorem step (ht : ∀ m w, φ (m.trace w) = (φ m).trace w) :
    (φ m).step = (φ m.step.1, m.step.2) := by
  have hc : { φ m with current := (φ m).registers.pc } =
      φ { m with current := m.registers.pc } := by
    rw [h.registers_eq]
    exact (h.current m m.registers.pc).symm
  rw [Machine.step, Machine.step, hc, h.fetch_eq]
  cases ({ m with current := m.registers.pc } : Machine).fetch with
  | ok w =>
    change ((φ _).mapRegisters .advance).execute w = _
    rw [h.mapRegisters]
    exact h.execute _ (ht _ w)
  | error f => rfl

end Overlooked

end Machine

end SuperChip
