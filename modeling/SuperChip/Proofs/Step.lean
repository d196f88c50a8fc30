import SuperChip.Proofs.WellFormed

/-!
# What a step can do

An instruction that is performed on a well-formed machine makes a wrong use of the stack, or leaves
a well-formed machine.  The same holds of a step, which fetches its word from memory that may hold
anything.  A step that makes a wrong use of the stack has moved the program counter on by then, and
has done nothing else.
-/

namespace SuperChip

namespace Machine

variable {m m' : Machine}

/-- Drawing a sprite cannot fail. -/
theorem WellFormed.exists_draw (h : m.WellFormed) (x y : Register) (rows : Fin 16) :
    ∃ m', m.perform (.draw x y rows) = .ok m' ∧ m'.WellFormed := by
  obtain ⟨s, hs⟩ := h.exists_sprite rows
  obtain ⟨d, collided, hd, hwf⟩ := h.display.exists_toggleAll
    (s.cells.map fun c ↦ (((m.get x).toNat + c.1 : Nat), ((m.get y).toNat + c.2 : Nat)))
  refine ⟨_, ?_, (h.withDisplay hwf).setFlag collided⟩
  rw [perform, hs]
  simp only [bind, Except.bind]
  rw [Display.draw, hd]
  rfl

/-- Storing registers cannot fail. -/
theorem WellFormed.exists_store (h : m.WellFormed) (x : Register) :
    ∃ m', m.perform (.store x) = .ok m' ∧ m'.WellFormed := by
  obtain ⟨m', hm, hwf⟩ := h.exists_storeCells (m.registers.v.toList.take (x.val + 1))
  refine ⟨m'.advanceIndex x, ?_, hwf.setIndex_mod _⟩
  rw [perform, hm]
  rfl

/-- Loading registers takes them from their cells. -/
theorem WellFormed.perform_load (h : m.WellFormed) (x : Register) :
    m.perform (.load x) = .ok ((m.mapRegisters fun r ↦ { r with
      v := r.v.copyUpTo (Vector.ofFn fun k ↦ ((List.range (x.val + 1)).map m.byteAt).getD k 0) x
      }).advanceIndex x) := by
  rw [Machine.perform, h.loadCells_eq]
  rfl

/-- Loading registers cannot fail. -/
theorem WellFormed.exists_load (h : m.WellFormed) (x : Register) :
    ∃ m', m.perform (.load x) = .ok m' ∧ m'.WellFormed :=
  ⟨_, h.perform_load x, (h.mapRegisters (h.registers.congr rfl rfl rfl)).setIndex_mod _⟩

/-- A flag is one if it is raised. -/
theorem flag_eq_one_iff (flag : Bool) : (if flag then 1 else 0 : UInt8) = 1 ↔ flag = true := by
  cases flag <;> decide

/-- A byte is a number from 0 to 255. -/
theorem toNat_range (b : UInt8) : 0 ≤ (b.toNat : Int) ∧ (b.toNat : Int) ≤ 255 := by
  have := b.toNat_lt
  omega

/-- The delay timer fits in a register. -/
theorem WellFormed.byte?_delay (h : m.WellFormed) : ∃ b, byte? m.delay = .ok b :=
  ⟨_, by rw [byte?, if_pos h.delay]⟩

/-- An instruction that makes no wrong use of the stack leaves a well-formed machine. -/
theorem WellFormed.exists_perform (h : m.WellFormed) (i : Instruction)
    (hi : ∀ f, ¬ m.StackMisuse i f) : ∃ m', m.perform i = .ok m' ∧ m'.WellFormed := by
  cases i with
  | unknown w => exact ⟨_, rfl, h.recordUnsupported w⟩
  | clear => exact ⟨_, rfl, h.withDisplay h.display.clear⟩
  | ret =>
    obtain ⟨r, hr, hwf⟩ := h.registers.exists_ret fun hs ↦ hi _ (.underflow hs)
    refine ⟨{ m with registers := r }, ?_, h.mapRegisters (f := fun _ ↦ r) hwf⟩
    rw [perform, hr]
    rfl
  | call target =>
    obtain ⟨r, hr, hwf⟩ := h.registers.exists_call target.toNat fun hs ↦ hi _ (.overflow target hs)
    refine ⟨{ m with registers := r }, ?_, h.mapRegisters (f := fun _ ↦ r) hwf⟩
    rw [perform, hr]
    rfl
  | jump target | jumpOffset base => exact ⟨_, rfl, h.withPc ⟨_, rfl⟩⟩
  | skipIfByte x byte | skipUnlessByte x byte | skipIfEqual x y | skipUnlessEqual x y
  | skipIfKey x | skipUnlessKey x => exact ⟨_, rfl, h.skipIf _⟩
  | setByte x byte | addByte x byte | copy x y | or x y | and x y | xor x y =>
    exact ⟨_, rfl, h.set x _⟩
  | add x y | sub x y | subFrom x y => exact ⟨_, rfl, (h.set x _).setFlag _⟩
  | shiftRight x y | shiftLeft x y => exact ⟨_, rfl, (h.set 15 _).set x _⟩
  | setIndex target =>
    exact ⟨_, rfl, h.setIndex (Int.natCast_nonneg _) (by have := target.isLt; omega)⟩
  | random x mask =>
    have hr : ({ m with random := m.random.next.2 } : Machine).WellFormed :=
      ⟨h.memory, h.registers, h.display, h.delay, h.sound⟩
    exact ⟨_, rfl, hr.set x _⟩
  | draw x y rows => exact h.exists_draw x y rows
  | getDelay x =>
    obtain ⟨b, hb⟩ := h.byte?_delay
    refine ⟨m.set x b, ?_, h.set x b⟩
    rw [perform, hb]
    rfl
  | awaitKey x =>
    cases hk : m.firstKey? with
    | some key => exact ⟨_, by rw [perform, hk], h.set x _⟩
    | none => exact ⟨_, by rw [perform, hk], h.withPc ⟨_, rfl⟩⟩
  | setDelay x => exact ⟨_, rfl, h.memory, h.registers, h.display, toNat_range _, h.sound⟩
  | setSound x => exact ⟨_, rfl, h.memory, h.registers, h.display, h.delay, toNat_range _⟩
  | addIndex x => exact ⟨_, rfl, (h.setIndex_mod _).setFlag _⟩
  | smallGlyph x =>
    have hb := (m.get x).toNat_lt
    exact ⟨_, rfl, h.setIndex (Int.natCast_nonneg _) (by rw [Font.smallHeight]; omega)⟩
  | bigGlyph x =>
    have hb := (m.get x).toNat_lt
    exact ⟨_, rfl, h.setIndex (Int.natCast_nonneg _)
      (by rw [Font.bigStart, Font.bigHeight]; omega)⟩
  | storeDecimal x => exact h.exists_storeCells _
  | store x => exact h.exists_store x
  | load x => exact h.exists_load x
  | scrollDown rows =>
    exact h.exists_scroll (·.scrollDown rows.val)
      (h.display.exists_scrollDown (Int.natCast_nonneg _))
  | scrollRight =>
    exact h.exists_scroll (·.scrollRight 4) (h.display.exists_scrollRight (by decide))
  | scrollLeft =>
    exact h.exists_scroll (·.scrollLeft 4) (h.display.exists_scrollLeft (by decide))
  | exit => exact ⟨_, rfl, h.memory, h.registers, h.display, h.delay, h.sound⟩
  | lowResolution => exact ⟨_, rfl, h.setResolution false⟩
  | highResolution => exact ⟨_, rfl, h.setResolution true⟩
  | saveFlags x | loadFlags x =>
    exact ⟨_, rfl, h.mapRegisters (h.registers.congr rfl rfl rfl)⟩

/-- The wrong uses of the stack in full. -/
theorem stackMisuse_iff {i : Instruction} {f : Fault} :
    m.StackMisuse i f ↔
      (∃ target, i = .call target ∧ m.registers.stack.length = 16 ∧
        f = .stackOverflow target.toNat m.registers.pc) ∨
      (i = .ret ∧ m.registers.stack = [] ∧ f = .stackUnderflow m.registers.pc) := by
  constructor
  · rintro (⟨target, hs⟩ | hs)
    · exact .inl ⟨target, rfl, hs, rfl⟩
    · exact .inr ⟨rfl, hs, rfl⟩
  · rintro (⟨target, rfl, hs, rfl⟩ | ⟨rfl, hs, rfl⟩)
    · exact .overflow target hs
    · exact .underflow hs

/-- A wrong use of the stack is a fault. -/
theorem WellFormed.perform_eq_error (h : m.WellFormed) {i : Instruction} {f : Fault}
    (hi : m.StackMisuse i f) : m.perform i = .error f := by
  cases hi with
  | overflow target hs =>
    have hcall : m.registers.call target.toNat =
        .error (.stackOverflow target.toNat m.registers.pc) :=
      Registers.call_eq_error_iff.mpr ⟨by rw [h.registers.capacity, hs]; decide, rfl⟩
    rw [perform, hcall]
    rfl
  | underflow hs =>
    have hret : m.registers.ret = .error (.stackUnderflow m.registers.pc) :=
      Registers.ret_eq_error_iff.mpr ⟨hs, rfl⟩
    rw [perform, hret]
    rfl

/-- A wrong use of the stack is the only fault that an instruction can meet. -/
theorem WellFormed.perform_eq_error_iff (h : m.WellFormed) {i : Instruction} {f : Fault} :
    m.perform i = .error f ↔ m.StackMisuse i f := by
  constructor
  · intro hf
    by_cases hi : ∃ g, m.StackMisuse i g
    · obtain ⟨g, hg⟩ := hi
      rw [h.perform_eq_error hg, Except.error.injEq] at hf
      exact hf ▸ hg
    · obtain ⟨m', hm, -⟩ := h.exists_perform i fun g hg ↦ hi ⟨g, hg⟩
      rw [hm] at hf
      cases hf
  · exact h.perform_eq_error

/-- What an instruction leaves is well formed. -/
theorem WellFormed.perform (h : m.WellFormed) {i : Instruction} (hm : m.perform i = .ok m') :
    m'.WellFormed := by
  have hi : ∀ f, ¬ m.StackMisuse i f := by
    intro f hf
    rw [h.perform_eq_error hf] at hm
    cases hm
  obtain ⟨m'', hm'', hwf⟩ := h.exists_perform i hi
  rw [hm, Except.ok.injEq] at hm''
  exact hm'' ▸ hwf

/-! ## Steps -/

/-- Executing a word leaves a well-formed machine, fault or not. -/
theorem WellFormed.execute (h : m.WellFormed) (w : Word) : (m.execute w).1.WellFormed := by
  rw [Machine.execute]
  cases hm : (m.trace w).perform (Instruction.decode w) with
  | ok m' => exact (h.trace w).perform hm
  | error f => exact h.trace w

/-- There is a word at each address, since addresses go around. -/
theorem WellFormed.fetch_eq (h : m.WellFormed) :
    m.fetch = .ok (Word.ofBytes (m.memory.bytes.getD m.registers.pc.toNat 0)
      (m.memory.bytes.getD (m.registers.pc + 1).toNat 0)) := by
  have hread : ∀ a : Address, m.memory.read a.toNat = .ok (m.memory.bytes.getD a.toNat 0) := by
    intro a
    have hm : m.memory.bytes.size = 4096 := h.memory
    have ha : a.toNat < m.memory.bytes.size := hm ▸ a.isLt
    rw [Memory.read_natCast ha, Array.getD_eq_getD_getElem?, Array.getElem?_eq_getElem ha,
      Option.getD_some]
  rw [fetch, hread, hread]
  rfl

/-- The machine when the word at the program counter is about to be executed. -/
def primed (m : Machine) : Machine :=
  { m with current := m.registers.pc, registers := m.registers.advance }

/-- A step executes the word that it fetches. -/
theorem step_eq_execute {w : Word} (hw : m.fetch = .ok w) : m.step = m.primed.execute w := by
  have hw' : ({ m with current := m.registers.pc } : Machine).fetch = .ok w := hw
  rw [step, hw']
  rfl

/-- A machine about to execute a word is well formed. -/
theorem WellFormed.primed (h : m.WellFormed) : m.primed.WellFormed :=
  ⟨h.memory, h.registers.congr rfl rfl rfl, h.display, h.delay, h.sound⟩

/-- A step leaves a well-formed machine, fault or not. -/
theorem WellFormed.step (h : m.WellFormed) : m.step.1.WellFormed := by
  rw [step_eq_execute h.fetch_eq]
  exact h.primed.execute _

/-- Tracing a word adds at most a line to the log. -/
theorem exists_trace_eq (m : Machine) (w : Word) :
    ∃ lines : List String, m.trace w = { m with log := lines.map .trace ++ m.log } := by
  rw [trace]
  split
  · exact ⟨[m.traceLine w], rfl⟩
  · exact ⟨[], rfl⟩

/-- Executing a word meets a fault exactly if it makes a wrong use of the stack, and then it leaves
the machine as it is, but for the trace. -/
theorem WellFormed.execute_eq_some_iff (h : m.WellFormed) {w : Word} {f : Fault} :
    (m.execute w).2 = some f ↔ m.StackMisuse (Instruction.decode w) f := by
  obtain ⟨lines, ht⟩ := m.exists_trace_eq w
  have hmisuse : (m.trace w).StackMisuse (Instruction.decode w) f ↔
      m.StackMisuse (Instruction.decode w) f := by
    rw [ht, stackMisuse_iff, stackMisuse_iff]
  rw [← hmisuse, ← (h.trace w).perform_eq_error_iff, Machine.execute]
  cases (m.trace w).perform (Instruction.decode w) with
  | ok m' => simp
  | error g => simp

/-- A word that meets a fault leaves the machine as it is, but for the trace. -/
theorem execute_of_fault {w : Word} (hf : (m.execute w).2 ≠ none) :
    (m.execute w).1 = m.trace w := by
  rw [execute] at hf ⊢
  cases hm : (m.trace w).perform (Instruction.decode w) with
  | ok m' =>
    rw [hm] at hf
    exact absurd rfl hf
  | error f => rfl

/-- A step fails exactly if its word is a call while the stack is full, or a return while the stack
is empty.  The program counter has moved on by then, and nothing else has changed; a line of the
trace may have been written. -/
theorem step_fault_iff (h : m.WellFormed) :
    ∃ w, m.fetch = .ok w ∧
      (∀ f, m.step.2 = some f ↔
        (∃ target, Instruction.decode w = .call target ∧ m.registers.stack.length = 16 ∧
          f = .stackOverflow target.toNat (m.registers.pc + 2)) ∨
        (Instruction.decode w = .ret ∧ m.registers.stack = [] ∧
          f = .stackUnderflow (m.registers.pc + 2))) ∧
      (m.step.2 ≠ none → ∃ lines : List String, m.step.1 = { m with
        current := m.registers.pc
        registers := { m.registers with pc := m.registers.pc + 2 }
        log := lines.map .trace ++ m.log }) := by
  refine ⟨_, h.fetch_eq, ?_, ?_⟩
  · intro f
    rw [step_eq_execute h.fetch_eq, h.primed.execute_eq_some_iff, stackMisuse_iff]
    rfl
  · intro hf
    rw [step_eq_execute h.fetch_eq] at hf ⊢
    obtain ⟨lines, ht⟩ := m.primed.exists_trace_eq _
    exact ⟨lines, (execute_of_fault hf).trans ht⟩

/-- A machine with a full stack.  The bytes at its program counter, which belong to the small
glyphs, are the word `0x2060`. -/
def crowded : Machine :=
  { random := .cycle [] [], registers := { pc := 5, stack := List.replicate 16 0x300 } }

/-- Where the stack is full, a call is refused, and only the addresses of the instructions are
changed. -/
theorem step_fault_crowded : crowded.step.2 = some (.stackOverflow 0x060 0x007) ∧
    ∃ lines : List String, crowded.step.1 = { crowded with
      current := 0x005
      registers := { crowded.registers with pc := 0x007 }
      log := lines.map .trace } := by
  have h : crowded.WellFormed := wellFormed_new ⟨by decide, rfl, by decide⟩
  obtain ⟨w, hw, hf, hs⟩ := step_fault_iff h
  have hc : crowded.fetch.toOption = some 0x2060 := by decide +kernel
  rw [hw] at hc
  cases hc
  have hfault := (hf _).mpr (.inl ⟨0x060, by decide, by decide, rfl⟩)
  have hne : crowded.step.2 ≠ none := by
    rw [hfault]
    exact Option.some_ne_none _
  obtain ⟨lines, hl⟩ := hs hne
  refine ⟨hfault, lines, ?_⟩
  rw [hl]
  simp [crowded]

end Machine

end SuperChip
