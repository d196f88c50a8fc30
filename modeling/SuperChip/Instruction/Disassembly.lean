import SuperChip.Instruction
import SuperChip.Numeral.Hex

/-!
# Disassembly

The text of an instruction: its mnemonic, and its operands separated by commas.  Operands are values
of a type of their own, so the text is a rendering of a mnemonic and a list.
-/

namespace SuperChip

open Numeral (hex)

/-- An operand as the text of an instruction shows it. -/
inductive Operand
  /-- A register, `V3`. -/
  | register (x : Register)
  /-- A byte, `0x0f`. -/
  | byte (b : UInt8)
  /-- An address, `0x20a`. -/
  | address (a : Address)
  /-- The height of a sprite, `0x5`. -/
  | rows (n : Fin 16)
  /-- The distance of a scroll, `5`. -/
  | distance (n : Fin 16)
  /-- The index register. -/
  | index
  /-- The memory that the index register points to. -/
  | indexed
  /-- The delay timer. -/
  | delay
  /-- The sound timer. -/
  | sound
  /-- A key press. -/
  | key
  /-- The small glyph of a digit. -/
  | smallGlyph
  /-- The big glyph of a digit. -/
  | bigGlyph
  /-- The decimal digits of a byte. -/
  | decimal
  /-- The user flags. -/
  | flags
  deriving DecidableEq, Repr

/-- The text of an operand. -/
def Operand.text : Operand → String
  | .register x => "V" ++ hex 1 x.val
  | .byte b => "0x" ++ hex 2 b.toNat
  | .address a => "0x" ++ hex 3 a.toNat
  | .rows n => "0x" ++ hex 1 n.val
  | .distance n => hex 1 n.val
  | .index => "I"
  | .indexed => "[I]"
  | .delay => "DT"
  | .sound => "ST"
  | .key => "K"
  | .smallGlyph => "F"
  | .bigGlyph => "HF"
  | .decimal => "B"
  | .flags => "R"

namespace Instruction

/-- The mnemonic of an instruction. -/
def mnemonic : Instruction → String
  | .unknown _ => "???"
  | .clear => "CLS"
  | .ret => "RET"
  | .jump _ | .jumpOffset _ => "JP"
  | .call _ => "CALL"
  | .skipIfByte .. | .skipIfEqual .. => "SE"
  | .skipUnlessByte .. | .skipUnlessEqual .. => "SNE"
  | .addByte .. | .add .. | .addIndex _ => "ADD"
  | .or .. => "OR"
  | .and .. => "AND"
  | .xor .. => "XOR"
  | .sub .. => "SUB"
  | .shiftRight .. => "SHR"
  | .subFrom .. => "SUBN"
  | .shiftLeft .. => "SHL"
  | .random .. => "RND"
  | .draw .. => "DRW"
  | .skipIfKey _ => "SKP"
  | .skipUnlessKey _ => "SKNP"
  | .scrollDown _ => "SCD"
  | .scrollRight => "SCR"
  | .scrollLeft => "SCL"
  | .exit => "EXIT"
  | .lowResolution => "LOW"
  | .highResolution => "HIGH"
  | .setByte .. | .copy .. | .setIndex _ | .getDelay _ | .awaitKey _ | .setDelay _ | .setSound _
  | .smallGlyph _ | .bigGlyph _ | .storeDecimal _ | .store _ | .load _ | .saveFlags _
  | .loadFlags _ => "LD"

/-- The operands of an instruction in the order of its text. -/
def operands : Instruction → List Operand
  | .unknown _ | .clear | .ret | .scrollRight | .scrollLeft | .exit | .lowResolution
  | .highResolution => []
  | .jump a | .call a => [.address a]
  | .skipIfByte x b | .skipUnlessByte x b | .setByte x b | .addByte x b | .random x b =>
    [.register x, .byte b]
  | .skipIfEqual x y | .skipUnlessEqual x y | .copy x y | .or x y | .and x y | .xor x y | .add x y
  | .sub x y | .shiftRight x y | .subFrom x y | .shiftLeft x y => [.register x, .register y]
  | .setIndex a => [.index, .address a]
  | .jumpOffset a => [.register 0, .address a]
  | .draw x y n => [.register x, .register y, .rows n]
  | .skipIfKey x | .skipUnlessKey x => [.register x]
  | .getDelay x => [.register x, .delay]
  | .awaitKey x => [.register x, .key]
  | .setDelay x => [.delay, .register x]
  | .setSound x => [.sound, .register x]
  | .addIndex x => [.index, .register x]
  | .smallGlyph x => [.smallGlyph, .register x]
  | .bigGlyph x => [.bigGlyph, .register x]
  | .storeDecimal x => [.decimal, .register x]
  | .store x => [.indexed, .register x]
  | .load x => [.register x, .indexed]
  | .scrollDown n => [.distance n]
  | .saveFlags x => [.flags, .register x]
  | .loadFlags x => [.register x, .flags]

/-- The text of an instruction. -/
def text (i : Instruction) : String :=
  match i.operands with
  | [] => i.mnemonic
  | operands => i.mnemonic ++ " " ++ ", ".intercalate (operands.map Operand.text)

end Instruction

end SuperChip
