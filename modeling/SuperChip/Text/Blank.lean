/-!
# Blank characters

The blank characters that may stand before and after a number: the space, the five control
characters of ASCII that move the print position, and the spaces beyond ASCII.
-/

namespace SuperChip.Text

/-- Whether a character of ASCII is blank. -/
def isAsciiBlank (c : Char) : Bool :=
  (9 ≤ c.toNat && c.toNat ≤ 13) || c == ' '

/-- The blank characters beyond ASCII. -/
def wideBlanks : List Nat :=
  [0x85, 0xa0, 0x1680, 0x2000, 0x2001, 0x2002, 0x2003, 0x2004, 0x2005, 0x2006, 0x2007, 0x2008,
    0x2009, 0x200a, 0x2028, 0x2029, 0x202f, 0x205f, 0x3000]

/-- Whether a character is blank. -/
def isBlank (c : Char) : Bool :=
  isAsciiBlank c || wideBlanks.contains c.toNat

/-- `s` without the blanks at its two ends. -/
def trim (s : List Char) : List Char :=
  ((s.dropWhile isBlank).reverse.dropWhile isBlank).reverse

end SuperChip.Text
