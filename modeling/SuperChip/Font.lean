import SuperChip.Memory

/-!
# Fonts

The glyphs of the sixteen hexadecimal digits, one byte for each row, in the order of the digits.
The small ones are four pixels wide and five high, the big ones eight wide and ten high.  They fill
the start of memory.
-/

namespace SuperChip.Font

/-- The small glyphs. -/
def smallGlyphs : List (List UInt8) :=
  [
    [0xF0, 0x90, 0x90, 0x90, 0xF0],
    [0x20, 0x60, 0x20, 0x20, 0x70],
    [0xF0, 0x10, 0xF0, 0x80, 0xF0],
    [0xF0, 0x10, 0xF0, 0x10, 0xF0],
    [0x90, 0x90, 0xF0, 0x10, 0x10],
    [0xF0, 0x80, 0xF0, 0x10, 0xF0],
    [0xF0, 0x80, 0xF0, 0x90, 0xF0],
    [0xF0, 0x10, 0x20, 0x40, 0x40],
    [0xF0, 0x90, 0xF0, 0x90, 0xF0],
    [0xF0, 0x90, 0xF0, 0x10, 0xF0],
    [0xF0, 0x90, 0xF0, 0x90, 0x90],
    [0xE0, 0x90, 0xE0, 0x90, 0xE0],
    [0xF0, 0x80, 0x80, 0x80, 0xF0],
    [0xE0, 0x90, 0x90, 0x90, 0xE0],
    [0xF0, 0x80, 0xF0, 0x80, 0xF0],
    [0xF0, 0x80, 0xF0, 0x80, 0x80]
  ]

/-- The big glyphs. -/
def bigGlyphs : List (List UInt8) :=
  [
    [0x3C, 0x7E, 0xE7, 0xC3, 0xC3, 0xC3, 0xC3, 0xE7, 0x7E, 0x3C],
    [0x18, 0x38, 0x58, 0x18, 0x18, 0x18, 0x18, 0x18, 0x18, 0x3C],
    [0x3E, 0x7F, 0xC3, 0x06, 0x0C, 0x18, 0x30, 0x60, 0xFF, 0xFF],
    [0x3C, 0x7E, 0xC3, 0x03, 0x0E, 0x0E, 0x03, 0xC3, 0x7E, 0x3C],
    [0x06, 0x0E, 0x1E, 0x36, 0x66, 0xC6, 0xFF, 0xFF, 0x06, 0x06],
    [0xFF, 0xFF, 0xC0, 0xC0, 0xFC, 0xFE, 0x03, 0xC3, 0x7E, 0x3C],
    [0x3E, 0x7C, 0xE0, 0xC0, 0xFC, 0xFE, 0xC3, 0xC3, 0x7E, 0x3C],
    [0xFF, 0xFF, 0x03, 0x06, 0x0C, 0x18, 0x30, 0x60, 0x60, 0x60],
    [0x3C, 0x7E, 0xC3, 0xC3, 0x7E, 0x7E, 0xC3, 0xC3, 0x7E, 0x3C],
    [0x3C, 0x7E, 0xC3, 0xC3, 0x7F, 0x3F, 0x03, 0x03, 0x3E, 0x7C],
    [0x3C, 0x7E, 0xC3, 0xC3, 0xFF, 0xFF, 0xC3, 0xC3, 0xC3, 0xC3],
    [0xFC, 0xFE, 0xC3, 0xC3, 0xFE, 0xFE, 0xC3, 0xC3, 0xFE, 0xFC],
    [0x3C, 0x7E, 0xC3, 0xC0, 0xC0, 0xC0, 0xC0, 0xC3, 0x7E, 0x3C],
    [0xFC, 0xFE, 0xC3, 0xC3, 0xC3, 0xC3, 0xC3, 0xC3, 0xFE, 0xFC],
    [0xFF, 0xFF, 0xC0, 0xC0, 0xFC, 0xFC, 0xC0, 0xC0, 0xFF, 0xFF],
    [0xFF, 0xFF, 0xC0, 0xC0, 0xFC, 0xFC, 0xC0, 0xC0, 0xC0, 0xC0]
  ]

/-- The rows of the small glyphs. -/
def small : List UInt8 := smallGlyphs.flatten

/-- The rows of the big glyphs. -/
def big : List UInt8 := bigGlyphs.flatten

/-- The number of rows of a small glyph. -/
def smallHeight : Nat := 5

/-- The number of rows of a big glyph. -/
def bigHeight : Nat := 10

/-- The location of the first big glyph, after the small ones. -/
def bigStart : Nat := 0x50

/-- Each digit has a small glyph, and the big ones start where those end. -/
theorem length_small : smallGlyphs.length = 16 ∧ small.length = bigStart := by decide

/-- Each digit has a big glyph. -/
theorem length_big : bigGlyphs.length = 16 ∧ ∀ g ∈ bigGlyphs, g.length = bigHeight := by decide

/-- The memory of a new machine: `size` bytes, which begin with the glyphs. -/
def memory (size : Nat) : Memory :=
  ⟨(small ++ big ++ List.replicate (size - (small.length + big.length)) 0).toArray⟩

end SuperChip.Font
