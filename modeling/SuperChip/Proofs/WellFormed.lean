import SuperChip.Machine.Operation
import SuperChip.Proofs.Display

/-!
# Well-formed machines

A machine is well formed if its numbers lie in the ranges that its parts have: 4096 bytes of memory,
sixteen bits of index, at most sixteen return addresses, timers of a byte, and a well-formed
display.  Everything else has its range by its type: addresses have twelve bits, registers and flags
are sixteen bytes, and there are sixteen keys.

An instruction that is performed on a well-formed machine can fail in two ways only, a call with a
full stack and a return with an empty one.  In all other cases it leaves a well-formed machine.
-/

namespace SuperChip

/-! ## Sixteen of a kind -/

/-- Banks with the same bytes are the same. -/
theorem Bank.ext {b c : Bank} (h : ∀ x : Register, b.get x = c.get x) : b = c :=
  Vector.ext fun k hk ↦ h ⟨k, hk⟩

theorem get_setIfInBounds {α : Type} (v : Vector α 16) (key k : Key) (a : α) :
    (v.setIfInBounds key a).get k = if k = key then a else v.get k := by
  change (v.setIfInBounds key a)[k.val] = if k = key then a else v[k.val]
  rw [Vector.getElem_setIfInBounds]
  simp only [Fin.ext_iff, eq_comm]

/-! ## Registers -/

namespace Registers

/-- The registers lie in their ranges, and the stack has the usual room. -/
structure WellFormed (r : Registers) : Prop where
  /-- The index register has sixteen bits. -/
  index : 0 ≤ r.index ∧ r.index ≤ 0xFFFF
  /-- There is room for sixteen return addresses. -/
  capacity : r.capacity = 16
  /-- There are no more return addresses than there is room for. -/
  stack : r.stack.length ≤ 16

variable {r r' : Registers}

/-- New registers are well formed. -/
theorem wellFormed_new : WellFormed {} := ⟨by decide, rfl, by decide⟩

/-- A reset keeps registers well formed. -/
theorem WellFormed.reset (h : r.WellFormed) : r.reset.WellFormed := by
  have hi : (0 : Int) ≤ 0 ∧ (0 : Int) ≤ 0xFFFF := by decide
  exact ⟨hi, h.capacity, Nat.zero_le _⟩

/-- Only index and stack matter. -/
theorem WellFormed.congr (h : r.WellFormed) (hi : r'.index = r.index)
    (hc : r'.capacity = r.capacity) (hs : r'.stack = r.stack) : r'.WellFormed := by
  refine ⟨?_, hc.trans h.capacity, ?_⟩
  · rw [hi]
    exact h.index
  · rw [hs]
    exact h.stack

/-- A call with room on the stack keeps registers well formed. -/
theorem WellFormed.exists_call (h : r.WellFormed) (target : Int) (hs : r.stack.length ≠ 16) :
    ∃ r', r.call target = .ok r' ∧ r'.WellFormed := by
  have hlt : r.stack.length < 16 := Nat.lt_of_le_of_ne h.stack hs
  have hroom : ¬ r.capacity ≤ r.stack.length := by
    rw [h.capacity]
    omega
  rw [call, if_neg hroom]
  exact ⟨_, rfl, h.index, h.capacity, hlt⟩

/-- A return with something on the stack keeps registers well formed. -/
theorem WellFormed.exists_ret (h : r.WellFormed) (hs : r.stack ≠ []) :
    ∃ r', r.ret = .ok r' ∧ r'.WellFormed := by
  have hle := h.stack
  rw [ret]
  cases he : r.stack with
  | nil => exact absurd he hs
  | cons a stack =>
    rw [he, List.length_cons] at hle
    exact ⟨_, rfl, h.index, h.capacity, Nat.le_of_succ_le hle⟩

end Registers

namespace Machine

/-- The numbers of a machine lie in their ranges. -/
structure WellFormed (m : Machine) : Prop where
  /-- There are 4096 bytes of memory. -/
  memory : m.memory.size = 4096
  /-- The registers are well formed. -/
  registers : m.registers.WellFormed
  /-- The display is well formed. -/
  display : m.display.WellFormed
  /-- The delay timer is a byte. -/
  delay : 0 ≤ m.delay ∧ m.delay ≤ 255
  /-- The sound timer is a byte. -/
  sound : 0 ≤ m.sound ∧ m.sound ≤ 255

/-- The glyphs leave room in the memory of a new machine. -/
theorem size_fontMemory : (Font.memory 4096).size = 4096 := by
  have hs : Font.small.length = 80 := by decide
  have hb : Font.big.length = 160 := by decide +kernel
  rw [Font.memory, Memory.size, List.size_toArray, List.length_append, List.length_append,
    List.length_replicate, hs, hb]

/-- A timer that has run out is a byte. -/
theorem zero_range : (0 : Int) ≤ 0 ∧ (0 : Int) ≤ 255 := by decide

/-- A new machine with well-formed registers is well formed. -/
theorem wellFormed_new {random : RandomSource} {registers : Registers} (hr : registers.WellFormed)
    {observed : Bool} {clockSpeed : Int} {interval : Option Float} :
    WellFormed { random, registers, display := { observed }, clockSpeed, interval } where
  memory := size_fontMemory
  registers := hr
  display := Display.wellFormed_new observed
  delay := zero_range
  sound := zero_range

/-- An instruction makes a wrong use of the stack: it calls when the stack is full, or returns when
the stack is empty. -/
inductive StackMisuse (m : Machine) : Instruction → Fault → Prop
  /-- A call with a full stack. -/
  | overflow (target : Address) (h : m.registers.stack.length = 16) :
    StackMisuse m (.call target) (.stackOverflow target.toNat m.registers.pc)
  /-- A return with an empty stack. -/
  | underflow (h : m.registers.stack = []) :
    StackMisuse m .ret (.stackUnderflow m.registers.pc)

/-- The byte `k` bytes after the one that the index register points to. -/
def byteAt (m : Machine) (k : Nat) : UInt8 := m.memory.bytes.getD (m.cell k).toNat 0

/-- The entries of a table are its values at the positions in it. -/
theorem getElem?_table {α : Type} {f : Nat → α} {n k : Nat} {a : α} :
    ((List.range n).map f)[k]? = some a ↔ k < n ∧ f k = a := by
  rw [List.getElem?_map, Option.map_eq_some_iff]
  constructor
  · rintro ⟨j, hj, rfl⟩
    obtain ⟨hlt, rfl⟩ := List.getElem?_eq_some_iff.mp hj
    rw [List.length_range] at hlt
    rw [List.getElem_range]
    exact ⟨hlt, rfl⟩
  · rintro ⟨hlt, rfl⟩
    exact ⟨k, List.getElem?_range hlt, rfl⟩

/-- Bytes that were loaded are those in memory. -/
theorem getD_loaded (m : Machine) {n k : Nat} (hk : k < n) :
    ((List.range n).map m.byteAt).getD k 0 = m.byteAt k := by
  rw [List.getD_eq_getElem?_getD, getElem?_table.mpr ⟨hk, rfl⟩, Option.getD_some]

variable {m m' : Machine}

/-! ## Changes that keep a machine well formed -/

namespace WellFormed

/-- Changing the registers. -/
theorem mapRegisters (h : m.WellFormed) {f : Registers → Registers}
    (hf : (f m.registers).WellFormed) : (m.mapRegisters f).WellFormed :=
  ⟨h.memory, hf, h.display, h.delay, h.sound⟩

/-- Putting a byte in a register. -/
theorem set (h : m.WellFormed) (x : Register) (b : UInt8) : (m.set x b).WellFormed :=
  h.mapRegisters (h.registers.congr rfl rfl rfl)

/-- Putting a flag in `VF`. -/
theorem setFlag (h : m.WellFormed) (flag : Bool) : (m.setFlag flag).WellFormed := h.set _ _

/-- Moving the program counter. -/
theorem withPc (h : m.WellFormed) {f : Registers → Registers}
    (hf : ∃ pc, f m.registers = { m.registers with pc }) : (m.mapRegisters f).WellFormed := by
  obtain ⟨pc, hpc⟩ := hf
  apply h.mapRegisters
  rw [hpc]
  exact h.registers.congr rfl rfl rfl

/-- Skipping an instruction. -/
theorem skipIf (h : m.WellFormed) (condition : Bool) : (m.skipIf condition).WellFormed := by
  cases condition
  · exact h
  · exact h.withPc ⟨_, rfl⟩

/-- Putting a number of sixteen bits in the index register. -/
theorem setIndex (h : m.WellFormed) {n : Int} (h0 : 0 ≤ n) (hle : n ≤ 0xFFFF) :
    (m.setIndex n).WellFormed :=
  h.mapRegisters ⟨⟨h0, hle⟩, h.registers.capacity, h.registers.stack⟩

/-- Putting the sixteen low bits of a number in the index register. -/
theorem setIndex_mod (h : m.WellFormed) (n : Int) : (m.setIndex (n % 65536)).WellFormed :=
  h.setIndex (by omega) (by omega)

/-- Changing the display. -/
theorem withDisplay (h : m.WellFormed) {display : Display} (hd : display.WellFormed) :
    ({ m with display } : Machine).WellFormed :=
  ⟨h.memory, h.registers, hd, h.delay, h.sound⟩

/-- Telling the world some events. -/
theorem tell (h : m.WellFormed) (events : List Event) : (m.tell events).WellFormed :=
  ⟨h.memory, h.registers, h.display, h.delay, h.sound⟩

/-- Switching the resolution. -/
theorem setResolution (h : m.WellFormed) (high : Bool) : (m.setResolution high).WellFormed :=
  (h.tell _).withDisplay (h.display.setResolution high)

/-- Handing over the picture. -/
theorem flush (h : m.WellFormed) : m.flush.WellFormed :=
  (h.tell _).withDisplay h.display.flush

/-- Recording a word that is no instruction. -/
theorem recordUnsupported (h : m.WellFormed) (w : Word) : (m.recordUnsupported w).WellFormed := by
  rw [Machine.recordUnsupported]
  split <;> exact ⟨h.memory, h.registers, h.display, h.delay, h.sound⟩

/-- Tracing a word. -/
theorem trace (h : m.WellFormed) (w : Word) : (m.trace w).WellFormed := by
  rw [Machine.trace]
  split
  · exact h.tell _
  · exact h

/-! ## Parts of instructions that cannot fail -/

/-- A cell lies within memory. -/
theorem cell_lt (h : m.WellFormed) (k : Nat) : (m.cell k).toNat < m.memory.bytes.size := by
  have hm : m.memory.bytes.size = 4096 := h.memory
  rw [hm]
  exact (m.cell k).isLt

/-- Reading a cell gives the byte that lies there. -/
theorem readCell_eq (h : m.WellFormed) (k : Nat) : m.readCell k = .ok (m.byteAt k) := by
  rw [readCell, Memory.read_natCast (h.cell_lt k), byteAt, Array.getD_eq_getD_getElem?,
    Array.getElem?_eq_getElem (h.cell_lt k), Option.getD_some]

/-- Loading some cells gives the bytes that lie there. -/
theorem loadCells_eq (h : m.WellFormed) (count : Nat) :
    m.loadCells count = .ok ((List.range count).map m.byteAt) := by
  rw [loadCells]
  induction List.range count with
  | nil => rfl
  | cons k ks ih =>
    rw [List.mapM_cons, h.readCell_eq, List.map_cons]
    simp only [bind, Except.bind] at ih ⊢
    rw [ih]
    rfl

/-- There is a sprite wherever the index register points to. -/
theorem exists_sprite (h : m.WellFormed) (rows : Fin 16) : ∃ s, m.sprite rows = .ok s := by
  rw [sprite]
  split <;> rw [h.loadCells_eq] <;> exact ⟨_, rfl⟩

/-- Storing some bytes. -/
theorem exists_storeCells (h : m.WellFormed) (bytes : List UInt8) :
    ∃ m', m.storeCells bytes = .ok m' ∧ m'.WellFormed := by
  have hwrite : ∀ memory : Memory, memory.size = 4096 → ∀ c ∈ bytes.zipIdx, ∃ memory' : Memory,
      memory.write (m.cell c.2).toNat (c.1.toNat : Int) = .ok memory' ∧ memory'.size = 4096 := by
    rintro memory hm ⟨b, k⟩ -
    have hk : (m.cell k).toNat < memory.size := by
      rw [hm]
      exact (m.cell k).isLt
    exact ⟨_, Memory.write_natCast hk b, Array.size_setIfInBounds.trans hm⟩
  obtain ⟨memory, hf, hm⟩ :=
    exists_foldlM_ok (P := fun memory : Memory ↦ memory.size = 4096) h.memory hwrite
  refine ⟨{ m with memory }, ?_, hm, h.registers, h.display, h.delay, h.sound⟩
  rw [storeCells]
  exact congrArg (· >>= fun memory ↦ .ok { m with memory }) hf

/-- Scrolling as a well-formed display allows. -/
theorem exists_scroll (h : m.WellFormed) (move : Display → Except Fault Display)
    (hmove : ∃ d, move m.display = .ok d ∧ d.WellFormed) :
    ∃ m', m.scroll move = .ok m' ∧ m'.WellFormed := by
  obtain ⟨d, hd, hwf⟩ := hmove
  rw [Machine.scroll, hd]
  exact ⟨_, rfl, h.withDisplay hwf⟩

end WellFormed

end Machine

end SuperChip
