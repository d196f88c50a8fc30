import SuperChip.Capacity
import SuperChip.Span

/-!
# Memory

A store of bytes, used for the memory of the machine and for the pixels of its display.  Writes past
the last byte are refused.  Locations may be negative, and then count from the end; a block must fit
the span it is written to, so an operation either happens as a whole or changes nothing.
-/

namespace SuperChip

/-- A store of bytes. -/
structure Memory where
  /-- The bytes, the one at location zero first. -/
  bytes : Array UInt8
  deriving DecidableEq, Repr

namespace Memory

/-- The number of bytes. -/
def size (m : Memory) : Nat := m.bytes.size

/-- The location of the last byte. -/
def top (m : Memory) : Int := (m.size : Int) - 1

/-- `n` bytes of zero. -/
def blank (n : Nat) : Memory := ⟨Array.replicate n 0⟩

/-- A blank store of `n` bytes. -/
def ofSize (n : Int) (c : Capacity := .usual) : Except Fault Memory :=
  (Capacity.store n c).map blank

/-- The byte at a location. -/
def read (m : Memory) (location : Int) : Except Fault UInt8 :=
  match (position? m.size location).bind (m.bytes[·]?) with
  | some b => .ok b
  | none => .error .indexOutOfRange

/-- The bytes of the span of `size` locations from `location`. -/
def readBlock (m : Memory) (location size : Int) : Array UInt8 :=
  m.bytes.extract (bound m.size location) (bound m.size (location + size))

/-- Refuses a location past the last byte. -/
def check (m : Memory) (location : Int) : Except Fault Unit :=
  if m.top < location then .error (.memoryOverflow location m.size) else .ok ()

/-- Puts a byte at a location. -/
def write (m : Memory) (location value : Int) : Except Fault Memory := do
  m.check location
  match position? m.size location with
  | none => .error .indexOutOfRange
  | some k =>
    let b ← byte? value
    return ⟨m.bytes.setIfInBounds k b⟩

/-- `bytes` with `block` in place of the elements from `start` on. -/
def overwrite (bytes : Array UInt8) (start : Nat) : List UInt8 → Array UInt8
  | [] => bytes
  | b :: block => overwrite (bytes.setIfInBounds start b) (start + 1) block

/-- The number of locations in the span of `size` locations from `location`. -/
def spanLength (m : Memory) (location size : Int) : Nat :=
  bound m.size (location + size) - bound m.size location

/-- Puts a block of bytes at a location. -/
def writeBlock (m : Memory) (location : Int) (block : List UInt8) : Except Fault Memory := do
  m.check (location + block.length - 1)
  if m.spanLength location block.length = block.length then
    return ⟨overwrite m.bytes (bound m.size location) block⟩
  else
    .error .lengthMismatch

/-- Puts `size` zeros at a location.  They are made before they are put there, for which there has
to be room. -/
def zeroBlock (m : Memory) (location size : Int) (c : Capacity := .usual) :
    Except Fault Memory := do
  m.check (location + size - 1)
  let count ← Capacity.block size c
  if m.spanLength location size = count then
    return ⟨overwrite m.bytes (bound m.size location) (List.replicate count 0)⟩
  else
    .error .lengthMismatch

/-- Moves all bytes by `offset` locations.  What is moved beyond an end is lost, and the vacated
locations keep their bytes. -/
def shift (m : Memory) (offset : Int) : Memory :=
  ⟨Array.ofFn fun k : Fin m.bytes.size ↦
    (if 0 ≤ (k : Int) - offset then m.bytes[((k : Int) - offset).toNat]? else none).getD
      m.bytes[k]⟩

/-- Sets all bytes to zero. -/
def clear (m : Memory) : Memory := blank m.size

/-- A blank store has the size it was asked for. -/
@[simp] theorem size_blank (n : Nat) : (blank n).size = n := by simp [blank, size]

/-- Overwriting keeps the size. -/
@[simp] theorem size_overwrite (bytes : Array UInt8) (start : Nat) (block : List UInt8) :
    (overwrite bytes start block).size = bytes.size := by
  induction block generalizing bytes start with
  | nil => rfl
  | cons b block ih => simp [overwrite, ih]

/-- Moving the bytes keeps the size. -/
@[simp] theorem size_shift (m : Memory) (offset : Int) : (m.shift offset).size = m.size := by
  simp [shift, size]

/-- Clearing keeps the size. -/
@[simp] theorem size_clear (m : Memory) : m.clear.size = m.size := by simp [clear]

end Memory

end SuperChip
