import SuperChip.Choice
import SuperChip.Numeral.Reader
import SuperChip.Text.Fields

/-!
# Palettes

A window shows pixels in two colours.  A palette is written as one or two hexadecimal numbers of six
characters each, with a comma between them: the background and the foreground.  Of two colours, the
one that is not given is the usual one.

A colour has three components of eight bits; a number that has no such components is refused when
the components are taken from it.
-/

namespace SuperChip.Window

/-- The colours of a window. -/
structure Palette where
  /-- The colour of pixels that are off. -/
  background : Int := 0x222222
  /-- The colour of pixels that are on. -/
  foreground : Int := 0xDDDDDD
  deriving DecidableEq, Repr

/-- The components of a colour: red, green and blue. -/
structure Rgb where
  /-- The red component. -/
  red : UInt8
  /-- The green component. -/
  green : UInt8
  /-- The blue component. -/
  blue : UInt8
  deriving DecidableEq, Repr

/-- The components of the colour with a number. -/
def Rgb.ofInt (n : Int) : Except Fault Rgb :=
  if 0 ≤ n ∧ n ≤ 0xFFFFFF then
    .ok { red := UInt8.ofNat (n.toNat / 65536), green := UInt8.ofNat (n.toNat / 256)
          blue := UInt8.ofNat n.toNat }
  else .error .colourOutOfRange

/-- The darkest colour. -/
def Rgb.black : Rgb := ⟨0, 0, 0⟩

/-- The number of a colour. -/
def Rgb.toNat (c : Rgb) : Nat := (c.red.toNat * 256 + c.green.toNat) * 256 + c.blue.toNat

namespace Palette

/-- Reads a colour. -/
def colour (field : List Char) : Except Fault Int :=
  if field.length = 6 then
    match Numeral.readHex? field with
    | some n => .ok n
    | none => .error .colourDigits
  else .error .colourLength

/-- Reads a palette.  If nothing is said of it, it is the usual one. -/
def parse : Choice String → Except Fault Palette
  | .usual => .ok {}
  | .blank => .error .textBlank
  | .value text =>
    match Text.fields ',' text.toList with
    | [background] => return { background := ← colour background }
    | [background, foreground] =>
      return { background := ← colour background, foreground := ← colour foreground }
    | _ => .error .colourCount

end Palette

end SuperChip.Window
