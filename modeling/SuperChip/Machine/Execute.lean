import SuperChip.Machine.Trace

/-!
# Executing instructions

What each instruction does to a machine.  An instruction that meets a fault leaves the machine as it
found it.  A step fetches the word at the program counter, moves the program counter past it, and
executes it, so that jumps and skips start from the next instruction.

The index register holds more than an address; only its twelve low bits point into memory, and
accesses past the last byte go on at the first.
-/

namespace SuperChip

namespace Machine

/-! ## Parts of instructions -/

/-- Changes the registers. -/
def mapRegisters (m : Machine) (f : Registers → Registers) : Machine :=
  { m with registers := f m.registers }

/-- The byte in a register. -/
def get (m : Machine) (x : Register) : UInt8 := m.registers.get x

/-- Puts a byte in a register. -/
def set (m : Machine) (x : Register) (b : UInt8) : Machine := m.mapRegisters (·.set x b)

/-- Puts a flag in `VF`. -/
def setFlag (m : Machine) (flag : Bool) : Machine := m.set 15 (if flag then 1 else 0)

/-- Skips the next instruction if a condition holds. -/
def skipIf (m : Machine) (condition : Bool) : Machine :=
  if condition then m.mapRegisters .advance else m

/-- Puts a number in the index register. -/
def setIndex (m : Machine) (n : Int) : Machine := m.mapRegisters fun r ↦ { r with index := n }

/-- The address `k` bytes after the one that the index register points to. -/
def cell (m : Machine) (k : Nat) : Address := Address.ofInt (m.registers.index + k)

/-- The byte `k` bytes after the one that the index register points to. -/
def readCell (m : Machine) (k : Nat) : Except Fault UInt8 := m.memory.read (m.cell k).toNat

/-- Stores bytes from where the index register points, one after the other. -/
def storeCells (m : Machine) (bytes : List UInt8) : Except Fault Machine := do
  let memory ← bytes.zipIdx.foldlM
    (fun memory (b, k) ↦ memory.write (m.cell k).toNat (b.toNat : Int)) m.memory
  return { m with memory }

/-- The `count` bytes from where the index register points. -/
def loadCells (m : Machine) (count : Nat) : Except Fault (List UInt8) :=
  (List.range count).mapM m.readCell

/-- Moves the index register past the cells of `V0` … `Vx`. -/
def advanceIndex (m : Machine) (x : Register) : Machine :=
  m.setIndex ((m.registers.index + x.val + 1) % 65536)

/-- The sprite that the index register points to.  One of no rows is sixteen by sixteen in high
resolution, two bytes a row. -/
def sprite (m : Machine) (rows : Fin 16) : Except Fault Sprite :=
  if rows = 0 ∧ m.display.high then do
    let bytes ← m.loadCells 32
    return { width := 16, rows := (List.range 16).map fun r ↦
      (bytes.getD (2 * r) 0).toNat * 256 + (bytes.getD (2 * r + 1) 0).toNat }
  else do
    let bytes ← m.loadCells rows.val
    return { width := 8, rows := bytes.map UInt8.toNat }

/-- Whether the key that a byte stands for is down; its four low bits count. -/
def keyDown (m : Machine) (b : UInt8) : Bool := m.keys[b.toNat % 16]

/-- The lowest key that is down. -/
def firstKey? (m : Machine) : Option Key := (List.finRange 16).find? fun k ↦ m.keys[k]

/-- Scrolls the display. -/
def scroll (m : Machine) (move : Display → Except Fault Display) : Except Fault Machine := do
  let display ← move m.display
  return { m with display }

/-! ## Instructions -/

/-- Does what an instruction says. -/
def perform (m : Machine) : Instruction → Except Fault Machine
  | .unknown w => .ok (m.recordUnsupported w)
  | .clear => .ok { m with display := m.display.clear }
  | .ret => do
    let registers ← m.registers.ret
    return { m with registers }
  | .jump target => .ok (m.mapRegisters (·.jump target.toNat))
  | .call target => do
    let registers ← m.registers.call target.toNat
    return { m with registers }
  | .skipIfByte x byte => .ok (m.skipIf (m.get x == byte))
  | .skipUnlessByte x byte => .ok (m.skipIf (m.get x != byte))
  | .skipIfEqual x y => .ok (m.skipIf (m.get x == m.get y))
  | .skipUnlessEqual x y => .ok (m.skipIf (m.get x != m.get y))
  | .setByte x byte => .ok (m.set x byte)
  | .addByte x byte => .ok (m.set x (m.get x + byte))
  | .copy x y => .ok (m.set x (m.get y))
  | .or x y => .ok (m.set x (m.get x ||| m.get y))
  | .and x y => .ok (m.set x (m.get x &&& m.get y))
  | .xor x y => .ok (m.set x (m.get x ^^^ m.get y))
  | .add x y =>
    let sum := (m.get x).toNat + (m.get y).toNat
    .ok ((m.set x (UInt8.ofNat sum)).setFlag (0xFF < sum))
  | .sub x y => .ok ((m.set x (m.get x - m.get y)).setFlag (m.get y ≤ m.get x))
  | .subFrom x y => .ok ((m.set x (m.get y - m.get x)).setFlag (m.get x ≤ m.get y))
  | .shiftRight x y =>
    let b := m.get y
    .ok ((m.set 15 (b &&& 1)).set x (b >>> 1))
  | .shiftLeft x y =>
    let b := m.get y
    .ok ((m.set 15 (b >>> 7)).set x (b <<< 1))
  | .setIndex target => .ok (m.setIndex target.toNat)
  | .jumpOffset base => .ok (m.mapRegisters (·.jump ((m.get 0).toNat + base.toNat : Nat)))
  | .random x mask =>
    let (b, random) := m.random.next
    .ok ({ m with random }.set x (b &&& mask))
  | .draw x y rows => do
    let sprite ← m.sprite rows
    let (display, collided) ← m.display.draw (m.get x).toNat (m.get y).toNat sprite
    return { m with display }.setFlag collided
  | .skipIfKey x => .ok (m.skipIf (m.keyDown (m.get x)))
  | .skipUnlessKey x => .ok (m.skipIf !(m.keyDown (m.get x)))
  | .getDelay x => do
    let b ← byte? m.delay
    return m.set x b
  | .awaitKey x =>
    match m.firstKey? with
    | some key => .ok (m.set x (UInt8.ofNat key.val))
    | none => .ok (m.mapRegisters .rewind)
  | .setDelay x => .ok { m with delay := (m.get x).toNat }
  | .setSound x => .ok { m with sound := (m.get x).toNat }
  | .addIndex x =>
    let sum := m.registers.index + (m.get x).toNat
    .ok ((m.setIndex (sum % 65536)).setFlag (0xFFF < sum))
  | .smallGlyph x => .ok (m.setIndex (Font.smallHeight * (m.get x).toNat : Nat))
  | .bigGlyph x => .ok (m.setIndex (Font.bigStart + Font.bigHeight * (m.get x).toNat : Nat))
  | .storeDecimal x =>
    let b := m.get x
    m.storeCells [b / 100, b / 10 % 10, b % 10]
  | .store x => do
    let m ← m.storeCells (m.registers.v.toList.take (x.val + 1))
    return m.advanceIndex x
  | .load x => do
    let bytes ← m.loadCells (x.val + 1)
    let loaded : Bank := Vector.ofFn fun k ↦ bytes.getD k 0
    return (m.mapRegisters fun r ↦ { r with v := r.v.copyUpTo loaded x }).advanceIndex x
  | .scrollDown rows => m.scroll (·.scrollDown rows.val)
  | .scrollRight => m.scroll (·.scrollRight 4)
  | .scrollLeft => m.scroll (·.scrollLeft 4)
  | .exit => .ok { m with halted := true }
  | .lowResolution => .ok (m.setResolution false)
  | .highResolution => .ok (m.setResolution true)
  | .saveFlags x => .ok (m.mapRegisters fun r ↦ { r with flags := r.flags.copyUpTo r.v x })
  | .loadFlags x => .ok (m.mapRegisters fun r ↦ { r with v := r.v.copyUpTo r.flags x })

/-! ## Steps -/

/-- Executes a word.  The trace shows the machine as it is before. -/
def execute (m : Machine) (w : Word) : Machine × Option Fault :=
  let m := m.trace w
  match m.perform (Instruction.decode w) with
  | .ok m => (m, none)
  | .error f => (m, some f)

/-- The word at the program counter. -/
def fetch (m : Machine) : Except Fault Word := do
  let high ← m.memory.read m.registers.pc.toNat
  let low ← m.memory.read (m.registers.pc + 1).toNat
  return Word.ofBytes high low

/-- Executes the word at the program counter. -/
def step (m : Machine) : Machine × Option Fault :=
  let m := { m with current := m.registers.pc }
  match m.fetch with
  | .ok w => (m.mapRegisters .advance).execute w
  | .error f => (m, some f)

end Machine

end SuperChip
