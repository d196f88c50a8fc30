/-!
# Hexadecimal text

Numbers are shown in base sixteen with lower-case digits.  A number shorter than its field is filled
up with zeros, which stand after the sign and count it as part of the width; a longer one is never
cut.
-/

namespace SuperChip.Numeral

/-- The digits of `n` in base sixteen, most significant first; zero has the one digit `0`. -/
def hexDigits (n : Nat) : List Char := Nat.toDigits 16 n

/-- The characters of `n` in base sixteen, at least `width` of them. -/
def hexChars (width : Nat) (n : Int) : List Char :=
  let sign := if n < 0 then ['-'] else []
  let digits := hexDigits n.natAbs
  sign ++ List.replicate (width - sign.length - digits.length) '0' ++ digits

/-- `n` in base sixteen, filled with zeros to at least `width` characters. -/
def hex (width : Nat) (n : Int) : String := String.ofList (hexChars width n)

/-- The text of a number is its characters. -/
@[simp] theorem toList_hex (width : Nat) (n : Int) : (hex width n).toList = hexChars width n := by
  simp [hex]

/-- A number of any size fills its field. -/
theorem le_length_hexChars (width : Nat) (n : Int) : width ≤ (hexChars width n).length := by
  simp only [hexChars, List.length_append, List.length_replicate]
  omega

/-- A number that fits its field takes up exactly its field. -/
theorem length_hexChars {width n : Nat} (hw : 0 < width) (h : n < Nat.pow 16 width) :
    (hexChars width n).length = width := by
  have hd : (hexDigits n).length ≤ width :=
    (Nat.length_toDigits_le_iff (by decide) hw).2 h
  have hn : ¬ ((n : Int) < 0) := by omega
  simp only [hexChars, hn, if_false, Int.natAbs_natCast, List.nil_append, List.length_append,
    List.length_replicate, List.length_nil]
  omega

end SuperChip.Numeral
