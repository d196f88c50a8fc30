/-!
# Sprites

A sprite is a small picture of rows of bits.  The most significant bit of a row is its leftmost
pixel.
-/

namespace SuperChip

/-- A picture `width` pixels wide. -/
structure Sprite where
  /-- The number of pixels in a row. -/
  width : Nat
  /-- The bits of each row, the top row first. -/
  rows : List Nat
  deriving DecidableEq, Repr

/-- The columns of the set bits of a row, from left to right. -/
def Sprite.columns (width bits : Nat) : List Nat :=
  (List.range width).filter fun c ↦ bits.testBit (width - 1 - c)

/-- The set bits of a sprite, each as its column and its row, row by row. -/
def Sprite.cells (s : Sprite) : List (Nat × Nat) :=
  s.rows.zipIdx.flatMap fun (bits, row) ↦ (Sprite.columns s.width bits).map (·, row)

end SuperChip
