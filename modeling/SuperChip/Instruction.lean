import SuperChip.Word

/-!
# Instructions

The instruction set of the machine: the thirty-four instructions of CHIP-8 and the nine of
Super-CHIP, each with the operands it works on, and the reading of an instruction from its word.  A
word that is none of them is kept as `unknown`, so reading never fails.

The letters of a word's pattern stand for its operands: `x` and `y` are registers, `n` is four bits,
`nn` a byte and `nnn` an address.
-/

namespace SuperChip

/-- An instruction with its operands. -/
inductive Instruction
  /-- A word that is no instruction. -/
  | unknown (word : Word)
  /-- `00E0`: switches all pixels off. -/
  | clear
  /-- `00EE`: goes back to where the last call came from. -/
  | ret
  /-- `1nnn`: goes to an address. -/
  | jump (target : Address)
  /-- `2nnn`: goes to an address and keeps the way back. -/
  | call (target : Address)
  /-- `3xnn`: skips an instruction if `Vx` is the byte. -/
  | skipIfByte (x : Register) (byte : UInt8)
  /-- `4xnn`: skips an instruction unless `Vx` is the byte. -/
  | skipUnlessByte (x : Register) (byte : UInt8)
  /-- `5xy_`: skips an instruction if `Vx` is `Vy`. -/
  | skipIfEqual (x y : Register)
  /-- `6xnn`: puts the byte in `Vx`. -/
  | setByte (x : Register) (byte : UInt8)
  /-- `7xnn`: adds the byte to `Vx`, without a flag. -/
  | addByte (x : Register) (byte : UInt8)
  /-- `8xy0`: puts `Vy` in `Vx`. -/
  | copy (x y : Register)
  /-- `8xy1`: joins the bits of `Vy` to `Vx`. -/
  | or (x y : Register)
  /-- `8xy2`: keeps the bits of `Vx` that are in `Vy`. -/
  | and (x y : Register)
  /-- `8xy3`: flips the bits of `Vx` that are in `Vy`. -/
  | xor (x y : Register)
  /-- `8xy4`: adds `Vy` to `Vx`; `VF` is the carry. -/
  | add (x y : Register)
  /-- `8xy5`: takes `Vy` from `Vx`; `VF` is set unless it borrows. -/
  | sub (x y : Register)
  /-- `8xy6`: puts `Vy`, shifted right, in `Vx`; `VF` is the lost bit. -/
  | shiftRight (x y : Register)
  /-- `8xy7`: puts `Vy` less `Vx` in `Vx`; `VF` is set unless it borrows. -/
  | subFrom (x y : Register)
  /-- `8xyE`: puts `Vy`, shifted left, in `Vx`; `VF` is the lost bit. -/
  | shiftLeft (x y : Register)
  /-- `9xy_`: skips an instruction unless `Vx` is `Vy`. -/
  | skipUnlessEqual (x y : Register)
  /-- `Annn`: puts an address in the index register. -/
  | setIndex (target : Address)
  /-- `Bnnn`: goes to an address, `V0` further on. -/
  | jumpOffset (base : Address)
  /-- `Cxnn`: puts a random byte in `Vx`, of which it keeps the bits of the mask. -/
  | random (x : Register) (mask : UInt8)
  /-- `Dxyn`: draws a sprite of `rows` rows at `Vx`, `Vy`; `VF` says whether it erased a pixel. -/
  | draw (x y : Register) (rows : Fin 16)
  /-- `Ex9E`: skips an instruction if the key in `Vx` is down. -/
  | skipIfKey (x : Register)
  /-- `ExA1`: skips an instruction unless the key in `Vx` is down. -/
  | skipUnlessKey (x : Register)
  /-- `Fx07`: puts the delay timer in `Vx`. -/
  | getDelay (x : Register)
  /-- `Fx0A`: waits for a key and puts it in `Vx`. -/
  | awaitKey (x : Register)
  /-- `Fx15`: puts `Vx` in the delay timer. -/
  | setDelay (x : Register)
  /-- `Fx18`: puts `Vx` in the sound timer. -/
  | setSound (x : Register)
  /-- `Fx1E`: adds `Vx` to the index register; `VF` says whether the sum is beyond memory. -/
  | addIndex (x : Register)
  /-- `Fx29`: points the index register to the small glyph of the digit in `Vx`. -/
  | smallGlyph (x : Register)
  /-- `Fx33`: stores the three decimal digits of `Vx`. -/
  | storeDecimal (x : Register)
  /-- `Fx55`: stores `V0` … `Vx`. -/
  | store (x : Register)
  /-- `Fx65`: loads `V0` … `Vx`. -/
  | load (x : Register)
  /-- `00Cn`: moves the picture down. -/
  | scrollDown (rows : Fin 16)
  /-- `00FB`: moves the picture four columns to the right. -/
  | scrollRight
  /-- `00FC`: moves the picture four columns to the left. -/
  | scrollLeft
  /-- `00FD`: halts the machine. -/
  | exit
  /-- `00FE`: switches to low resolution. -/
  | lowResolution
  /-- `00FF`: switches to high resolution. -/
  | highResolution
  /-- `Fx30`: points the index register to the big glyph of the digit in `Vx`. -/
  | bigGlyph (x : Register)
  /-- `Fx75`: saves `V0` … `Vx` in the user flags. -/
  | saveFlags (x : Register)
  /-- `Fx85`: brings `V0` … `Vx` back from the user flags. -/
  | loadFlags (x : Register)
  deriving DecidableEq, Repr

namespace Word

/-- The word that an integer stands for: its sixteen low bits. -/
def ofInt (n : Int) : Word := BitVec.ofInt 16 n

/-- The word made of two bytes, high byte first. -/
def ofBytes (high low : UInt8) : Word := BitVec.ofNat 16 (high.toNat * 256 + low.toNat)

/-- The four high bits, which select the group of the instruction. -/
def group (w : Word) : Nat := w.toNat / 4096

/-- The register named by bits 8 to 11. -/
def x (w : Word) : Register := Fin.ofNat 16 (w.toNat / 256)

/-- The register named by bits 4 to 7. -/
def y (w : Word) : Register := Fin.ofNat 16 (w.toNat / 16)

/-- The four low bits. -/
def n (w : Word) : Fin 16 := Fin.ofNat 16 w.toNat

/-- The low byte. -/
def nn (w : Word) : UInt8 := UInt8.ofNat w.toNat

/-- The twelve low bits. -/
def nnn (w : Word) : Address := BitVec.ofNat 12 w.toNat

end Word

namespace Instruction

/-- The instructions of group 0, told apart by their low byte alone. -/
def decodeSystem (w : Word) : Instruction :=
  if w.y = 0xC then .scrollDown w.n
  else
    match w.nn.toNat with
    | 0xE0 => .clear
    | 0xEE => .ret
    | 0xFB => .scrollRight
    | 0xFC => .scrollLeft
    | 0xFD => .exit
    | 0xFE => .lowResolution
    | 0xFF => .highResolution
    | _ => .unknown w

/-- The instructions of group 8, told apart by their four low bits. -/
def decodeArithmetic (w : Word) : Instruction :=
  match w.n.val with
  | 0x0 => .copy w.x w.y
  | 0x1 => .or w.x w.y
  | 0x2 => .and w.x w.y
  | 0x3 => .xor w.x w.y
  | 0x4 => .add w.x w.y
  | 0x5 => .sub w.x w.y
  | 0x6 => .shiftRight w.x w.y
  | 0x7 => .subFrom w.x w.y
  | 0xE => .shiftLeft w.x w.y
  | _ => .unknown w

/-- The instructions of group 14, told apart by their low byte. -/
def decodeKey (w : Word) : Instruction :=
  match w.nn.toNat with
  | 0x9E => .skipIfKey w.x
  | 0xA1 => .skipUnlessKey w.x
  | _ => .unknown w

/-- The instructions of group 15, told apart by their low byte. -/
def decodeMisc (w : Word) : Instruction :=
  match w.nn.toNat with
  | 0x07 => .getDelay w.x
  | 0x0A => .awaitKey w.x
  | 0x15 => .setDelay w.x
  | 0x18 => .setSound w.x
  | 0x1E => .addIndex w.x
  | 0x29 => .smallGlyph w.x
  | 0x30 => .bigGlyph w.x
  | 0x33 => .storeDecimal w.x
  | 0x55 => .store w.x
  | 0x65 => .load w.x
  | 0x75 => .saveFlags w.x
  | 0x85 => .loadFlags w.x
  | _ => .unknown w

/-- The instruction that a word stands for. -/
def decode (w : Word) : Instruction :=
  match w.group with
  | 0x0 => decodeSystem w
  | 0x1 => .jump w.nnn
  | 0x2 => .call w.nnn
  | 0x3 => .skipIfByte w.x w.nn
  | 0x4 => .skipUnlessByte w.x w.nn
  | 0x5 => .skipIfEqual w.x w.y
  | 0x6 => .setByte w.x w.nn
  | 0x7 => .addByte w.x w.nn
  | 0x8 => decodeArithmetic w
  | 0x9 => .skipUnlessEqual w.x w.y
  | 0xA => .setIndex w.nnn
  | 0xB => .jumpOffset w.nnn
  | 0xC => .random w.x w.nn
  | 0xD => .draw w.x w.y w.n
  | 0xE => decodeKey w
  | _ => decodeMisc w

end Instruction

end SuperChip
