import SuperChip.Proofs.Numerals
import SuperChip.Proofs.WellFormed
import SuperChip.Machine.Trace

/-!
# A dump can be read back

A dump writes its numbers one after the other and has marks between some of them only, so it can be
read because each number takes up a known number of characters.  This is so while the numbers of the
machine lie in their ranges.  The text of the instruction has no fixed length, but it comes after
the word that it belongs to.

What is read is everything that was written: the registers, the timers, the address and the word of
the instruction, the user flags and all return addresses.
-/

namespace SuperChip

open Numeral (hex hexChars readHex?)

/-- What a dump tells of a machine and of the word that it executes. -/
structure Snapshot where
  /-- The registers. -/
  v : Bank
  /-- The index register. -/
  index : Int
  /-- The delay timer. -/
  delay : Int
  /-- The sound timer. -/
  sound : Int
  /-- The address of the instruction. -/
  current : Address
  /-- The word of the instruction. -/
  word : Word
  /-- The user flags. -/
  flags : Bank
  /-- The return addresses, the newest one first. -/
  stack : List Address
  deriving DecidableEq, Repr

/-- The snapshot of a machine and a word. -/
def Machine.snapshot (m : Machine) (w : Word) : Snapshot where
  v := m.registers.v
  index := m.registers.index
  delay := m.delay
  sound := m.sound
  current := m.current
  word := w
  flags := m.registers.flags
  stack := m.registers.stack

/-! ## Reading a text -/

/-- Reads something from the front of a text. -/
abbrev Reader (α : Type) := StateT (List Char) Option α

namespace Reader

variable {α β : Type} {p : Reader α} {width : Nat}

/-- Reads a mark, which has to be there. -/
def mark (s : String) : Reader Unit := fun text ↦ (text.dropPrefix? s.toList).map ((), ·)

/-- Reads a number of some characters. -/
def number (width : Nat) : Reader Int := fun text ↦
  (readHex? (text.take width)).map (·, text.drop width)

/-- Reads a mark and the number after it. -/
def field (s : String) (width : Nat) : Reader Int := do
  mark s
  number width

/-- Reads the same some times. -/
def times : Nat → Reader α → Reader (List α)
  | 0, _ => return []
  | n + 1, p => do
    let a ← p
    let l ← times n p
    return a :: l

/-- Reads a byte. -/
def byte : Reader UInt8 := do
  let i ← number 2
  return UInt8.ofNat i.toNat

/-- Reads a mark and the bytes of a bank, the last one first. -/
def bank (s : String) : Reader Bank := do
  mark s
  let bytes ← times 16 byte
  return Vector.ofFn fun k ↦ bytes.reverse.getD k 0

/-- Reads a return address. -/
def address : Reader Address := do
  let i ← field " 0x" 3
  return Address.ofInt i

/-- Reads the rest of a text as a call stack, the oldest return address first. -/
def stack : Reader (List Address) := fun text ↦
  if text = " (Empty)".toList then some ([], [])
  else (times (text.length / 6) address text).map (Prod.map List.reverse id)

/-- Reads a dump. -/
def dump : Reader Snapshot := do
  let v ← bank "V: 0x"
  let index ← field " I: 0x" 4
  let delay ← field " DT: 0x" 2
  let sound ← field " ST: 0x" 2
  let current ← field " PC: 0x" 3
  let word ← field " OP: 0x" 4
  mark " IN: "
  mark (Instruction.decode (BitVec.ofInt 16 word)).text
  let flags ← bank "\nRPL: 0x"
  mark "\nStack:"
  let stack ← stack
  return {
    v, index, delay, sound
    current := Address.ofInt current
    word := BitVec.ofInt 16 word
    flags, stack }

/-- What is read first is read, and the rest is left to what is read then. -/
theorem bind_eq {f : α → Reader β} {text rest : List Char} {a : α} (h : p text = some (a, rest)) :
    (p >>= f) text = f a rest := by
  change (p text >>= fun r ↦ f r.1 r.2) = f a rest
  rw [h]
  rfl

theorem mark_append (s : String) (rest : List Char) :
    mark s (s.toList ++ rest) = some ((), rest) := by
  rw [mark, List.dropPrefix?_append_of_beq rest (beq_self_eq_true s.toList)]
  rfl

/-- A number in its range fills its place. -/
theorem number_append {i : Int} (hw : 0 < width) (h0 : 0 ≤ i) (h : i < 16 ^ width)
    (rest : List Char) : number width (hexChars width i ++ rest) = some (i, rest) := by
  lift i to ℕ using h0
  have hl : (hexChars width i).length = width :=
    Numeral.length_hexChars hw (by exact_mod_cast h)
  rw [number, List.take_left' hl, List.drop_left' hl, Numeral.readHex?_hexChars]
  rfl

theorem field_append {i : Int} (s : String) (hw : 0 < width) (h0 : 0 ≤ i) (h : i < 16 ^ width)
    (rest : List Char) :
    field s width (s.toList ++ (hexChars width i ++ rest)) = some (i, rest) := by
  rw [field, bind_eq (mark_append s _), number_append hw h0 h]

/-- What is written for each entry of a list is read so many times. -/
theorem times_append {l : List α} {write : α → List Char}
    (h : ∀ a ∈ l, ∀ rest, p (write a ++ rest) = some (a, rest)) (rest : List Char) :
    times l.length p (l.flatMap write ++ rest) = some (l, rest) := by
  induction l with
  | nil => rfl
  | cons a l ih =>
    rw [List.flatMap_cons, List.append_assoc, List.length_cons, times,
      bind_eq (h a List.mem_cons_self _), bind_eq (ih fun a ha ↦ h a (List.mem_cons_of_mem _ ha))]
    rfl

theorem byte_append (b : UInt8) (rest : List Char) :
    byte (hexChars 2 b.toNat ++ rest) = some (b, rest) := by
  have hlt : (b.toNat : Int) < 16 ^ 2 := by exact_mod_cast b.toNat_lt
  rw [byte, bind_eq (number_append (by decide) (Int.natCast_nonneg _) hlt rest), Int.toNat_natCast,
    UInt8.ofNat_toNat]
  rfl

/-- A bank is read from its text. -/
theorem bank_append (s : String) (b : Bank) (rest : List Char) :
    bank s (s.toList ++ (b.text.toList ++ rest)) = some (b, rest) := by
  have htext : b.text.toList = b.toList.reverse.flatMap fun byte ↦ hexChars 2 byte.toNat := by
    rw [Bank.text, String.toList_join, List.flatMap_map]
    simp only [Numeral.toList_hex]
  have hbytes := times_append (l := b.toList.reverse) (fun a _ ↦ byte_append a) rest
  rw [List.length_reverse, Vector.length_toList] at hbytes
  rw [bank, bind_eq (mark_append s _), htext, bind_eq hbytes]
  refine congrArg (fun b ↦ some (b, rest)) (Vector.ext fun k hk ↦ ?_)
  rw [Vector.getElem_ofFn, List.reverse_reverse, List.getD_eq_getElem?_getD,
    List.getElem?_eq_getElem (by rwa [Vector.length_toList]), Option.getD_some,
    Vector.getElem_toList]

theorem address_append (a : Address) (rest : List Char) :
    address ((" 0x" ++ hex 3 a.toNat).toList ++ rest) = some (a, rest) := by
  have hlt : (a.toNat : Int) < 16 ^ 3 := by exact_mod_cast a.isLt
  rw [String.toList_append, List.append_assoc, Numeral.toList_hex, address,
    bind_eq (field_append " 0x" (by decide) (Int.natCast_nonneg _) hlt rest), Address.ofInt_toNat]
  rfl

theorem length_address (a : Address) : (" 0x" ++ hex 3 a.toNat).toList.length = 6 := by
  rw [String.toList_append, List.length_append, Numeral.toList_hex,
    Numeral.length_hexChars (by decide) a.isLt]
  rfl

theorem stack_flatMap (addresses : List Address) :
    stack (addresses.reverse.flatMap fun a ↦ (" 0x" ++ hex 3 a.toNat).toList) =
      some (addresses, []) := by
  have hread := times_append (l := addresses.reverse) (fun a _ ↦ address_append a) []
  rw [List.append_nil] at hread
  have hlength : (addresses.reverse.flatMap fun a ↦ (" 0x" ++ hex 3 a.toNat).toList).length =
      addresses.reverse.length * 6 := by
    simp only [List.length_flatMap, length_address, List.map_const', List.sum_replicate_nat]
  -- The text for no addresses has eight characters, which no number of addresses makes up.
  have hne : (addresses.reverse.flatMap fun a ↦ (" 0x" ++ hex 3 a.toNat).toList) ≠
      " (Empty)".toList := by
    intro heq
    rw [heq] at hlength
    change 8 = _ at hlength
    omega
  rw [stack, if_neg hne, hlength, Nat.mul_div_cancel _ (by decide), hread]
  exact congrArg (fun l ↦ some (l, [])) addresses.reverse_reverse

/-- The call stack is read from its text. -/
theorem stack_stackText (m : Machine) :
    stack m.stackText.toList = some (m.registers.stack, []) := by
  rw [Machine.stackText]
  split
  next h =>
    rw [List.isEmpty_iff.mp h]
    rfl
  next h =>
    rw [String.toList_join, List.flatMap_map]
    exact stack_flatMap m.registers.stack

end Reader

namespace Machine

variable {m : Machine}

/-- The characters of a dump, one part after the other. -/
theorem toList_dump (m : Machine) (w : Word) : (m.dump w).toList =
    "V: 0x".toList ++ (m.registers.v.text.toList ++
    (" I: 0x".toList ++ (hexChars 4 m.registers.index ++
    (" DT: 0x".toList ++ (hexChars 2 m.delay ++
    (" ST: 0x".toList ++ (hexChars 2 m.sound ++
    (" PC: 0x".toList ++ (hexChars 3 m.current.toNat ++
    (" OP: 0x".toList ++ (hexChars 4 w.toNat ++
    (" IN: ".toList ++ ((Instruction.decode w).text.toList ++
    ("\nRPL: 0x".toList ++ (m.registers.flags.text.toList ++
    ("\nStack:".toList ++ m.stackText.toList)))))))))))))))) := by
  have hline : m.traceLine w = "V: 0x" ++ m.registers.v.text ++ " I: 0x" ++
      hex 4 m.registers.index ++ " DT: 0x" ++ hex 2 m.delay ++ " ST: 0x" ++ hex 2 m.sound ++
      " PC: 0x" ++ hex 3 m.current.toNat ++ " OP: 0x" ++ hex 4 w.toNat ++ " IN: " ++
      (Instruction.decode w).text := rfl
  rw [Machine.dump, hline]
  simp only [String.toList_append, List.append_assoc, Numeral.toList_hex]

/-- The dump of a well-formed machine is read back. -/
theorem WellFormed.read_dump (h : m.WellFormed) (w : Word) :
    Reader.dump (m.dump w).toList = some (m.snapshot w, []) := by
  have hindex : m.registers.index < 16 ^ 4 := by have := h.registers.index.2; omega
  have hdelay : m.delay < 16 ^ 2 := by have := h.delay.2; omega
  have hsound : m.sound < 16 ^ 2 := by have := h.sound.2; omega
  have hcurrent : (m.current.toNat : Int) < 16 ^ 3 := by exact_mod_cast m.current.isLt
  have hword : (w.toNat : Int) < 16 ^ 4 := by exact_mod_cast w.isLt
  have hw : BitVec.ofInt 16 (w.toNat : Int) = w := by
    rw [BitVec.ofInt_natCast, BitVec.ofNat_toNat, BitVec.setWidth_eq]
  open Reader in
  rw [toList_dump, Reader.dump, bind_eq (bank_append "V: 0x" m.registers.v _),
    bind_eq (field_append " I: 0x" (by decide) h.registers.index.1 hindex _),
    bind_eq (field_append " DT: 0x" (by decide) h.delay.1 hdelay _),
    bind_eq (field_append " ST: 0x" (by decide) h.sound.1 hsound _),
    bind_eq (field_append " PC: 0x" (by decide) (Int.natCast_nonneg _) hcurrent _),
    bind_eq (field_append " OP: 0x" (by decide) (Int.natCast_nonneg _) hword _),
    bind_eq (mark_append " IN: " _), hw, bind_eq (mark_append _ _),
    bind_eq (bank_append "\nRPL: 0x" m.registers.flags _), bind_eq (mark_append "\nStack:" _),
    bind_eq (stack_stackText m), Address.ofInt_toNat]
  rfl

/-- The dump of a well-formed machine, to its last character, tells its registers, its timers, the
address and the word of the instruction, the user flags and the call stack, however many return
addresses there are.  So two machines with one dump agree in all of these. -/
theorem dump_tells_all (h : m.WellFormed) (w : Word) :
    Reader.dump (m.dump w).toList = some (m.snapshot w, []) ∧
      ∀ m' : Machine, m'.WellFormed → ∀ w', m'.dump w' = m.dump w →
        m'.registers.v = m.registers.v ∧ m'.registers.index = m.registers.index ∧
          m'.delay = m.delay ∧ m'.sound = m.sound ∧ m'.current = m.current ∧ w' = w ∧
          m'.registers.flags = m.registers.flags ∧ m'.registers.stack = m.registers.stack := by
  refine ⟨h.read_dump w, fun m' h' w' heq ↦ ?_⟩
  have hread := h'.read_dump w'
  rw [heq, h.read_dump w] at hread
  have hsame : m'.snapshot w' = m.snapshot w := (congrArg Prod.fst (Option.some.inj hread)).symm
  exact ⟨congrArg Snapshot.v hsame, congrArg Snapshot.index hsame, congrArg Snapshot.delay hsame,
    congrArg Snapshot.sound hsame, congrArg Snapshot.current hsame, congrArg Snapshot.word hsame,
    congrArg Snapshot.flags hsame, congrArg Snapshot.stack hsame⟩

/-- A machine with some return addresses. -/
def nested (stack : List Address) : Machine where
  registers := { v := Vector.ofFn fun k ↦ UInt8.ofNat k, stack }
  delay := 0x1F
  random := .cycle [] []

example : (nested [0x3FE, 0x20A]).dump 0x00EE =
    "V: 0x0f0e0d0c0b0a09080706050403020100 I: 0x0000 DT: 0x1f ST: 0x00 PC: 0x200 OP: 0x00ee" ++
      " IN: RET\nRPL: 0x00000000000000000000000000000000\nStack: 0x20a 0x3fe" := by
  decide +kernel

/-- The dump of the nested machine is read back, and it is not that of the machine with its return
addresses the other way around. -/
theorem dump_tells_all_nested :
    Reader.dump ((nested [0x3FE, 0x20A]).dump 0x00EE).toList =
        some ((nested [0x3FE, 0x20A]).snapshot 0x00EE, []) ∧
      (nested [0x20A, 0x3FE]).dump 0x00EE ≠ (nested [0x3FE, 0x20A]).dump 0x00EE := by
  have hindex : (0 : Int) ≤ 0 ∧ (0 : Int) ≤ 0xFFFF := by decide
  have hdelay : (0 : Int) ≤ 0x1F ∧ (0x1F : Int) ≤ 255 := by decide
  have hwell (stack : List Address) (h : stack.length ≤ 16) : (nested stack).WellFormed :=
    ⟨size_fontMemory, ⟨hindex, rfl, h⟩, Display.wellFormed_new _, hdelay, zero_range⟩
  obtain ⟨hread, hsame⟩ := dump_tells_all (hwell [0x3FE, 0x20A] (by decide)) 0x00EE
  refine ⟨hread, fun heq ↦ ?_⟩
  obtain ⟨-, -, -, -, -, -, -, hstack⟩ := hsame _ (hwell [0x20A, 0x3FE] (by decide)) 0x00EE heq
  exact absurd hstack (by decide)

end Machine

end SuperChip
