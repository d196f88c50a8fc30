import SuperChip.Text.Blank
import SuperChip.Text.DecimalDigit

/-!
# Reading integers

An integer is written with blanks around it, at most one sign, and digits of any script.  Single
underscores may stand between digits.  Decimal numbers are limited in length; hexadecimal numbers
may carry the mark `0x`, which a single underscore may follow.
-/

namespace SuperChip.Numeral

open Text (digitValue? trim)

/-- Whether the number after a sign is to be negated, and what is left after the sign. -/
def splitSign : List Char → Bool × List Char
  | '-' :: rest => (true, rest)
  | '+' :: rest => (false, rest)
  | rest => (false, rest)

/-- The values of one or more digits between which single underscores may stand. -/
def readDigits? (value? : Char → Option Nat) : List Char → Option (List Nat)
  | [] => none
  | [c] => (value? c).map ([·])
  | c :: '_' :: rest => do
    let d ← value? c
    let ds ← readDigits? value? rest
    return d :: ds
  | c :: rest => do
    let d ← value? c
    let ds ← readDigits? value? rest
    return d :: ds

/-- The number with the given digits, most significant first. -/
def ofDigits (base : Nat) (digits : List Nat) : Nat :=
  digits.foldl (fun n d ↦ n * base + d) 0

/-- Puts a sign before a number. -/
def withSign (negative : Bool) (n : Nat) : Int :=
  if negative then -(n : Int) else n

/-- The most digits that a decimal number may have. -/
def maxDecimalDigits : Nat := 4300

/-- Reads a decimal integer; the whole of `s` has to be one. -/
def readDecimal? (s : List Char) : Option Int := do
  let (negative, digits) := splitSign (trim s)
  let values ← readDigits? digitValue? digits
  if values.length ≤ maxDecimalDigits then
    return withSign negative (ofDigits 10 values)
  else
    none

/-- The value of a hexadecimal digit: a decimal digit of any script, or a letter of either case. -/
def hexValue? (c : Char) : Option Nat :=
  if 'a' ≤ c ∧ c ≤ 'f' then some (c.toNat - 'a'.toNat + 10)
  else if 'A' ≤ c ∧ c ≤ 'F' then some (c.toNat - 'A'.toNat + 10)
  else digitValue? c

/-- Drops the mark of a hexadecimal number, a zero and an `x`, and one underscore after it. -/
def dropHexMark : List Char → List Char
  | z :: x :: rest =>
    if digitValue? z = some 0 ∧ (x = 'x' ∨ x = 'X') then
      match rest with
      | '_' :: digits => digits
      | digits => digits
    else
      z :: x :: rest
  | rest => rest

/-- Reads a hexadecimal integer; the whole of `s` has to be one. -/
def readHex? (s : List Char) : Option Int := do
  let (negative, digits) := splitSign (trim s)
  let values ← readDigits? hexValue? (dropHexMark digits)
  return withSign negative (ofDigits 16 values)

end SuperChip.Numeral
