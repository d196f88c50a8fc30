import SuperChip.Instruction.Disassembly
import SuperChip.Proofs.Numerals
import SuperChip.Proofs.Overlooked
import SuperChip.Text.Fields

/-!
# Instructions from their texts

The text of an instruction says which instruction it is.  To show this the text is read again: its
parts are its mnemonic and its operands, an operand is read from its part, and the kinds of the
operands tell which instructions may be meant, among which the mnemonic decides.

So two words that have the same text, and are instructions, have the same effect on every machine.
All that can be seen of which of them was executed is the word itself in a trace.
-/

namespace SuperChip

open Numeral (hex hexChars readHex?)

/-! ## Operands -/

namespace Operand

/-- Reads an operand.  What follows a zero and an `x` is told apart by its length. -/
def read? : List Char → Option Operand
  | ['I'] => some .index
  | ['[', 'I', ']'] => some .indexed
  | ['D', 'T'] => some .delay
  | ['S', 'T'] => some .sound
  | ['K'] => some .key
  | ['F'] => some .smallGlyph
  | ['H', 'F'] => some .bigGlyph
  | ['B'] => some .decimal
  | ['R'] => some .flags
  | 'V' :: s => (readHex? s).map fun n ↦ .register (Fin.ofNat 16 n.toNat)
  | '0' :: 'x' :: s => (readHex? s).map fun n ↦
    if s.length = 1 then .rows (Fin.ofNat 16 n.toNat)
    else if s.length = 2 then .byte (UInt8.ofNat n.toNat)
    else .address (BitVec.ofNat 12 n.toNat)
  | s => (readHex? s).map fun n ↦ .distance (Fin.ofNat 16 n.toNat)

theorem read?_distance :
    ∀ n : Fin 16, read? (Operand.distance n).text.toList = some (.distance n) := by
  decide +kernel

/-- What follows a zero and an `x` is a number of so many digits. -/
theorem read?_marked {width n : Nat} (hw : 0 < width) (hn : n < Nat.pow 16 width) :
    read? ('0' :: 'x' :: hexChars width n) = some (
      if width = 1 then .rows (Fin.ofNat 16 n)
      else if width = 2 then .byte (UInt8.ofNat n)
      else .address (BitVec.ofNat 12 n)) := by
  rw [read?, Numeral.readHex?_hexChars, Numeral.length_hexChars hw hn]
  rfl

/-- An operand is read from its text. -/
theorem read?_text (o : Operand) : read? o.text.toList = some o := by
  cases o with
  | register x =>
    have htext : (Operand.register x).text.toList = 'V' :: hexChars 1 (x.val : Int) := by
      simp [Operand.text]
    rw [htext, read?, Numeral.readHex?_hexChars]
    simp
  | byte b =>
    have htext : (Operand.byte b).text.toList = '0' :: 'x' :: hexChars 2 (b.toNat : Int) := by
      simp [Operand.text]
    rw [htext, read?_marked (by decide) b.toNat_lt]
    simp
  | address a =>
    have htext : (Operand.address a).text.toList = '0' :: 'x' :: hexChars 3 (a.toNat : Int) := by
      simp [Operand.text]
    rw [htext, read?_marked (by decide) a.isLt]
    simp
  | rows n =>
    have htext : (Operand.rows n).text.toList = '0' :: 'x' :: hexChars 1 (n.val : Int) := by
      simp [Operand.text]
    rw [htext, read?_marked (by decide) n.isLt]
    simp
  | distance n => exact read?_distance n
  | index | indexed | delay | sound | key | smallGlyph | bigGlyph | decimal | flags => rfl

/-- Operands are read from their texts. -/
theorem mapM_read?_text (os : List Operand) :
    (os.map (·.text.toList)).mapM read? = some os := by
  induction os with
  | nil => rfl
  | cons o os ih =>
    rw [List.map_cons, List.mapM_cons, read?_text, ih]
    rfl

end Operand

/-! ## Texts and their parts -/

/-- A text without the marks that stand between parts. -/
def Unbroken (s : List Char) : Prop := ∀ c ∈ s, c ≠ ' ' ∧ c ≠ ','

instance (s : List Char) : Decidable (Unbroken s) := List.decidableBAll _ s

theorem unbroken_append {s s' : List Char} :
    Unbroken (s ++ s') ↔ Unbroken s ∧ Unbroken s' :=
  List.forall_mem_append

theorem Unbroken.filter_eq {s : List Char} (h : Unbroken s) : s.filter (· ≠ ',') = s := by
  rw [List.filter_eq_self]
  exact fun c hc ↦ decide_eq_true (h c hc).2

/-- Taking some characters out of parts that are joined is taking them out of the parts and of what
joins them. -/
theorem filter_intercalate (p : Char → Bool) (mark : List Char) (parts : List (List Char)) :
    (mark.intercalate parts).filter p = (mark.filter p).intercalate (parts.map (·.filter p)) := by
  induction parts with
  | nil => rfl
  | cons part parts ih =>
    cases parts with
    | nil => simp
    | cons part' parts =>
      rw [List.intercalate_cons_cons, List.filter_append, List.filter_append, ih]
      simp [List.intercalate_cons_cons]

/-- The digits of a number are unbroken. -/
theorem unbroken_hexChars (width : Nat) (i : Int) : Unbroken (hexChars width i) := by
  have hdigit : ∀ d < 16, Nat.digitChar d ≠ ' ' ∧ Nat.digitChar d ≠ ',' := by decide
  obtain ⟨ds, hds, -, hlt, -⟩ := Numeral.exists_hexChars_eq width i
  rw [hds, unbroken_append]
  constructor
  · rw [Numeral.signOf]
    split <;> decide
  · intro c hc
    obtain ⟨d, hd, rfl⟩ := List.mem_map.mp hc
    exact hdigit d (hlt d hd)

/-- The text of an operand is unbroken. -/
theorem Operand.unbroken_text (o : Operand) : Unbroken o.text.toList := by
  have hvee : Unbroken "V".toList := by decide
  have hmark : Unbroken "0x".toList := by decide
  cases o with
  | register x =>
    rw [Operand.text, String.toList_append, Numeral.toList_hex]
    exact unbroken_append.mpr ⟨hvee, unbroken_hexChars _ _⟩
  | byte | address | rows =>
    rw [Operand.text, String.toList_append, Numeral.toList_hex]
    exact unbroken_append.mpr ⟨hmark, unbroken_hexChars _ _⟩
  | distance n =>
    rw [Operand.text, Numeral.toList_hex]
    exact unbroken_hexChars _ _
  | index | indexed | delay | sound | key | smallGlyph | bigGlyph | decimal | flags => decide

namespace Instruction

theorem unbroken_mnemonic (i : Instruction) : Unbroken i.mnemonic.toList := by
  unfold mnemonic
  split <;> decide

/-- The parts of a text: what stands between blanks, without commas. -/
def parts (text : String) : List (List Char) := Text.fields ' ' (text.toList.filter (· ≠ ','))

/-- The text of an instruction, without commas, is its parts joined by blanks. -/
theorem filter_toList_text (i : Instruction) : i.text.toList.filter (· ≠ ',') =
    [' '].intercalate (i.mnemonic.toList :: i.operands.map (·.text.toList)) := by
  have hblank : " ".toList.filter (· ≠ ',') = [' '] := rfl
  have hcomma : ", ".toList.filter (· ≠ ',') = [' '] := rfl
  have hoperands : ((i.operands.map Operand.text).map String.toList).map
      (·.filter (· ≠ ',')) = i.operands.map (·.text.toList) := by
    rw [List.map_map, List.map_map]
    exact List.map_congr_left fun o _ ↦ o.unbroken_text.filter_eq
  rw [text]
  split
  case h_1 h =>
    rw [h, List.map_nil, List.intercalate_singleton, i.unbroken_mnemonic.filter_eq]
  case h_2 h =>
    rw [String.toList_append, String.toList_append, String.toList_intercalate, List.filter_append,
      List.filter_append, i.unbroken_mnemonic.filter_eq, hblank, filter_intercalate, hcomma,
      hoperands, List.intercalate_cons_of_ne_nil (by simpa using h)]

/-- The parts of the text of an instruction are its mnemonic and its operands. -/
theorem parts_text (i : Instruction) :
    parts i.text = i.mnemonic.toList :: i.operands.map (·.text.toList) := by
  rw [parts, filter_toList_text, Text.fields_eq_splitOn]
  apply List.splitOn_intercalate
  · intro s hs
    rcases List.mem_cons.mp hs with rfl | hs
    · exact fun hm ↦ (i.unbroken_mnemonic _ hm).1 rfl
    · obtain ⟨o, -, rfl⟩ := List.mem_map.mp hs
      exact fun hm ↦ (o.unbroken_text _ hm).1 rfl
  · simp

/-! ## Reading instructions -/

/-- The instructions without operands. -/
def plain : List (String × Instruction) :=
  [("CLS", .clear), ("RET", .ret), ("SCR", .scrollRight), ("SCL", .scrollLeft), ("EXIT", .exit),
    ("LOW", .lowResolution), ("HIGH", .highResolution)]

/-- The instructions with an address. -/
def ofAddress (a : Address) : List (String × Instruction) := [("JP", .jump a), ("CALL", .call a)]

/-- The instructions with a register. -/
def ofRegister (x : Register) : List (String × Instruction) :=
  [("SKP", .skipIfKey x), ("SKNP", .skipUnlessKey x)]

/-- The instructions with a register and a byte. -/
def ofByte (x : Register) (b : UInt8) : List (String × Instruction) :=
  [("SE", .skipIfByte x b), ("SNE", .skipUnlessByte x b), ("LD", .setByte x b),
    ("ADD", .addByte x b), ("RND", .random x b)]

/-- The instructions with two registers. -/
def ofRegisters (x y : Register) : List (String × Instruction) :=
  [("SE", .skipIfEqual x y), ("SNE", .skipUnlessEqual x y), ("LD", .copy x y), ("OR", .or x y),
    ("AND", .and x y), ("XOR", .xor x y), ("ADD", .add x y), ("SUB", .sub x y),
    ("SHR", .shiftRight x y), ("SUBN", .subFrom x y), ("SHL", .shiftLeft x y)]

/-- The instruction with a mnemonic and operands. -/
def assemble? (mnemonic : String) : List Operand → Option Instruction
  | [] => plain.lookup mnemonic
  | [.address a] => (ofAddress a).lookup mnemonic
  | [.register x] => (ofRegister x).lookup mnemonic
  | [.register x, .byte b] => (ofByte x b).lookup mnemonic
  | [.register x, .register y] => (ofRegisters x y).lookup mnemonic
  | [.register _, .address a] => some (.jumpOffset a)
  | [.register x, .register y, .rows n] => some (.draw x y n)
  | [.index, .address a] => some (.setIndex a)
  | [.index, .register x] => some (.addIndex x)
  | [.register x, .delay] => some (.getDelay x)
  | [.register x, .key] => some (.awaitKey x)
  | [.delay, .register x] => some (.setDelay x)
  | [.sound, .register x] => some (.setSound x)
  | [.smallGlyph, .register x] => some (.smallGlyph x)
  | [.bigGlyph, .register x] => some (.bigGlyph x)
  | [.decimal, .register x] => some (.storeDecimal x)
  | [.indexed, .register x] => some (.store x)
  | [.register x, .indexed] => some (.load x)
  | [.flags, .register x] => some (.saveFlags x)
  | [.register x, .flags] => some (.loadFlags x)
  | [.distance n] => some (.scrollDown n)
  | _ => none

/-- A mnemonic and operands tell the instruction. -/
theorem assemble?_mnemonic (i : Instruction) (h : ∀ w, i ≠ .unknown w) :
    assemble? i.mnemonic i.operands = some i := by
  cases i with
  | unknown w => exact absurd rfl (h w)
  | _ => rfl

/-- Reads an instruction from a text. -/
def read? (text : String) : Option Instruction :=
  match parts text with
  | [] => none
  | mnemonic :: operands => (operands.mapM Operand.read?).bind (assemble? (String.ofList mnemonic))

/-- An instruction is read from its text. -/
theorem read?_text (i : Instruction) (h : ∀ w, i ≠ .unknown w) : read? i.text = some i := by
  rw [read?, parts_text]
  simp only [Operand.mapM_read?_text, String.ofList_toList, Option.bind_some]
  exact assemble?_mnemonic i h

/-- Only words that are no instruction have the text of one that is none. -/
theorem text_ne_of_known {i : Instruction} (h : i.text ≠ "???") : ∀ w, i ≠ .unknown w := by
  rintro w rfl
  exact h rfl

/-- Instructions with the same text are the same. -/
theorem eq_of_text_eq {i j : Instruction} (h : i.text = j.text) (hi : i.text ≠ "???") : i = j := by
  have hread := read?_text i (text_ne_of_known hi)
  rw [h] at hread hi
  rw [read?_text j (text_ne_of_known hi)] at hread
  exact (Option.some.inj hread).symm

end Instruction

/-! ## What a word does -/

namespace Machine

/-- A machine that had told the world some events before it told what it has told. -/
def after (m : Machine) (events : List Event) : Machine := { m with log := m.log ++ events }

/-- Instructions overlook what was told earlier. -/
theorem overlooked_after (events : List Event) : Overlooked (·.after events) where
  registers _ _ := rfl
  memory _ _ := rfl
  display _ _ := rfl
  setResolution m high := by
    simp only [setResolution, tell, after, List.append_assoc]
  delay _ _ := rfl
  sound _ _ := rfl
  random _ _ := rfl
  halted _ _ := rfl
  current _ _ := rfl
  keys _ := rfl
  recordUnsupported m w := by
    rw [recordUnsupported, recordUnsupported]
    exact apply_ite (fun m : Machine ↦ m.after events) _ _ _

/-- The line of the trace for a word, if the trace is live. -/
def lines (m : Machine) (w : Word) : List Event :=
  if m.monitor.live then [.trace (m.traceLine w)] else []

/-- A word is traced after all that was told before. -/
theorem trace_eq_after (m : Machine) (w : Word) :
    m.trace w = { m with log := [] }.after (m.lines w ++ m.log) := by
  rw [trace, lines]
  split <;> rfl

/-- What a word does is what its instruction does; the line of the trace apart, it does not depend
on the word. -/
theorem exists_execute_eq (m : Machine) (i : Instruction) :
    ∃ (m' : Machine) (fault : Option Fault), ∀ w, Instruction.decode w = i →
      m.execute w = (m'.after (m.lines w ++ m.log), fault) := by
  -- The instruction does the same on a machine that has told nothing yet.
  cases hm : ({ m with log := [] } : Machine).perform i with
  | ok m' =>
    refine ⟨m', none, ?_⟩
    rintro w rfl
    rw [execute, trace_eq_after, (overlooked_after _).perform, hm]
    rfl
  | error f =>
    refine ⟨{ m with log := [] }, some f, ?_⟩
    rintro w rfl
    rw [execute, trace_eq_after, (overlooked_after _).perform, hm]
    rfl

/-- All that a line of the trace says of a word is its number and its instruction. -/
theorem exists_traceLine_eq (m : Machine) : ∃ before : String, ∀ w,
    m.traceLine w = before ++ hex 4 w.toNat ++ " IN: " ++ (Instruction.decode w).text :=
  ⟨_, fun _ ↦ rfl⟩

/-- Two words with the same text, unless it is that of words that are no instruction, stand for the
same instruction.  Executed by the same machine, they have the same effect: the machine comes to the
same state, tells the world the same, and meets the same fault, which is then a wrong use of the
stack.  Only in the line of the trace is one word in place of the other. -/
theorem text_tells_effect {m : Machine} (hm : m.WellFormed) {n n' : Int}
    (htext : (Instruction.decode (Word.ofInt n)).text = (Instruction.decode (Word.ofInt n')).text)
    (hknown : (Instruction.decode (Word.ofInt n)).text ≠ "???") :
    Instruction.decode (Word.ofInt n) = Instruction.decode (Word.ofInt n') ∧
    ∃ (m' : Machine) (told : List Event) (before behind : String) (fault : Option Fault),
      (∀ w ∈ [Word.ofInt n, Word.ofInt n'], m.execute w = ({ m' with
        log := told ++ (if m.monitor.live then [.trace (before ++ hex 4 w.toNat ++ behind)] else [])
          ++ m.log }, fault)) ∧
      ∀ f, fault = some f ↔ m.StackMisuse (Instruction.decode (Word.ofInt n)) f := by
  have hsame := Instruction.eq_of_text_eq htext hknown
  obtain ⟨m', fault, hexecute⟩ := m.exists_execute_eq (Instruction.decode (Word.ofInt n))
  obtain ⟨before, hline⟩ := m.exists_traceLine_eq
  refine ⟨hsame, m', m'.log, before, " IN: " ++ (Instruction.decode (Word.ofInt n)).text, fault,
    ?_, ?_⟩
  · intro w hw
    have hdecode : Instruction.decode w = Instruction.decode (Word.ofInt n) := by
      rcases List.mem_pair.mp hw with rfl | rfl
      · rfl
      · exact hsame.symm
    rw [hexecute w hdecode, after, lines, hline, hdecode, String.append_assoc, List.append_assoc]
  · intro f
    rw [← hm.execute_eq_some_iff, hexecute _ rfl]

/-- A machine with a live trace. -/
def talkative : Machine := { random := .cycle [] [], monitor := { live := true } }

/-- Two words that mean a return are refused alike where there was no call. -/
theorem text_tells_effect_ret :
    Instruction.decode (Word.ofInt 0x00EE) = Instruction.decode (Word.ofInt (-0xF012)) ∧
    (talkative.execute (Word.ofInt 0x00EE)).2 = some (.stackUnderflow 0x200) ∧
    (talkative.execute (Word.ofInt (-0xF012))).2 = some (.stackUnderflow 0x200) := by
  have hm : talkative.WellFormed :=
    ⟨size_fontMemory, Registers.wellFormed_new, Display.wellFormed_new true, zero_range, zero_range⟩
  obtain ⟨hsame, m', told, before, behind, fault, hexecute, hfault⟩ :=
    text_tells_effect hm
      (show (Instruction.decode (Word.ofInt 0x00EE)).text =
        (Instruction.decode (Word.ofInt (-0xF012))).text by decide) (by decide)
  have hmisuse := (hfault (.stackUnderflow 0x200)).mpr (.underflow rfl)
  refine ⟨hsame, ?_, ?_⟩
  · rw [hexecute _ (by simp), hmisuse]
  · rw [hexecute _ (by simp), hmisuse]

end Machine
end SuperChip
