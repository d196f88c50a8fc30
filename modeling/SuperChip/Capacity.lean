import SuperChip.Fault

/-!
# Capacity

How much room can be asked for.  A size is a signed 64-bit number; one beyond that is refused as too
large before its sign is looked at.  Of the sizes that are left, those that memory has no room for
are refused as well.

How much room memory has is a matter of the host.  It is enough for the pixels of a display in any
case, and never more than sizes can tell.
-/

namespace SuperChip

namespace Capacity

/-- The least size that can be written down. -/
def least : Int := -0x8000000000000000

/-- The greatest size that can be written down. -/
def greatest : Int := 0x7FFFFFFFFFFFFFFF

/-- The number of bytes that a block needs besides its own. -/
def blockOverhead : Int := 33

end Capacity

/-- How much room the memory of a host has. -/
structure Capacity where
  /-- The number of bytes or characters that memory has no more room for. -/
  exhausted : Int
  /-- There is room for the pixels of a display. -/
  sufficient : 128 * 64 < exhausted
  /-- Whatever there is room for can be asked for, also as a block. -/
  bounded : exhausted + Capacity.blockOverhead ≤ Capacity.greatest

namespace Capacity

/-- The room of a host of which nothing else is said: two gibibytes. -/
def usual : Capacity where
  exhausted := 0x80000000
  sufficient := by decide
  bounded := by decide

/-- Refuses a number that is no size. -/
def checkSize (n : Int) : Except Fault Unit :=
  if least ≤ n ∧ n ≤ greatest then .ok () else .error .numberTooLarge

/-- Room for a number of elements that is not negative. -/
def room (c : Capacity) (n : Nat) : Except Fault Nat :=
  if n < c.exhausted then .ok n else .error .outOfMemory

/-- Room for a store of `n` bytes. -/
def store (n : Int) (c : Capacity := usual) : Except Fault Nat := do
  checkSize n
  if n < 0 then .error .negativeSize else c.room n.toNat

/-- Room for a block of `n` bytes, which has to leave room for what it needs besides. -/
def block (n : Int) (c : Capacity := usual) : Except Fault Nat := do
  checkSize n
  if n < 0 then .error .negativeSize
  else if greatest - blockOverhead < n then .error .numberTooLarge
  else c.room n.toNat

/-- Room for a text of `n` characters; a negative number of them is none. -/
def text (n : Int) (c : Capacity := usual) : Except Fault Nat := do
  checkSize n
  c.room n.toNat

variable {c : Capacity}

/-- What there is room for is a size. -/
theorem checkSize_natCast {n : Nat} (h : n < c.exhausted) : checkSize n = .ok () := by
  have hbounded := c.bounded
  rw [blockOverhead] at hbounded
  have hs : least ≤ (n : Int) ∧ (n : Int) ≤ greatest := by
    constructor
    · rw [least]
      omega
    · omega
  rw [checkSize, if_pos hs]

/-- A text has as many characters as were asked for. -/
theorem text_natCast {n : Nat} (h : n < c.exhausted) : text n c = .ok n := by
  rw [text, checkSize_natCast h, room, Int.toNat_natCast, if_pos h]
  rfl

end Capacity

end SuperChip
