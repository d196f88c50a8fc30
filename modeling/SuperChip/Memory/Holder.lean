import SuperChip.Memory

/-!
# Memory in place

Operations on a memory give another memory or a fault.  A holder keeps one memory and changes it in
place: the bytes stand there with their number and the last location noted beside them, and each of
the three is set at a stroke of its own.  What was done before a fault stays done.

The changes of a memory are given twice, by what they come to on memories and as what is done to a
holder, stroke by stroke.
-/

namespace SuperChip

/-! ## Changes of a memory -/

namespace Memory

/-- A request to put bytes at a location. -/
inductive Put
  /-- One byte, given as a number. -/
  | byte (location value : Int)
  /-- A block of bytes. -/
  | block (location : Int) (bytes : List UInt8)
  /-- A number of zeros. -/
  | zeros (location count : Int)
  deriving DecidableEq, Repr

namespace Put

/-- Where the bytes shall begin. -/
def location : Put → Int
  | byte location _ => location
  | block location _ => location
  | zeros location _ => location

/-- How many bytes are asked for. -/
def length : Put → Int
  | byte _ _ => 1
  | block _ bytes => bytes.length
  | zeros _ count => count

/-- The bytes that are asked for. -/
def bytes : Put → List UInt8
  | byte _ value => [UInt8.ofNat value.toNat]
  | block _ bytes => bytes
  | zeros _ count => List.replicate count.toNat 0

/-- What is asked for are bytes, so a single one is no other number. -/
def OfBytes : Put → Prop
  | byte _ value => 0 ≤ value ∧ value ≤ 255
  | _ => True

/-- What a request comes to, given how much room there is. -/
def result (c : Capacity) (m : Memory) : Put → Except Fault Memory
  | byte location value => m.write location value
  | block location bytes => m.writeBlock location bytes
  | zeros location count => m.zeroBlock location count c

end Put

/-- A change of a memory. -/
inductive Change
  /-- Bytes are put at a location. -/
  | put (p : Put)
  /-- The memory is made anew in another size. -/
  | resize (size : Int)
  deriving DecidableEq, Repr

/-- What a change comes to, given how much room there is. -/
def Change.result (c : Capacity) (m : Memory) : Change → Except Fault Memory
  | put p => p.result c m
  | resize size => ofSize size c

end Memory

/-! ## Holders -/

/-- A holder of a memory. -/
structure Holder where
  /-- The bytes, the one at location zero first. -/
  bytes : Array UInt8
  /-- The number of bytes. -/
  size : Int
  /-- The location of the last byte. -/
  top : Int
  deriving DecidableEq, Repr

namespace Holder

/-- The holder of a memory. -/
def of (m : Memory) : Holder := ⟨m.bytes, m.size, m.top⟩

/-- Something that is done to a holder.  If it ends with a fault, the holder is what has become of
it until then. -/
abbrev Action := EStateM Fault Holder Unit

/-- Refuses a location past the last byte. -/
def check (location : Int) : Action := do
  let h ← get
  if h.top < location then throw (.memoryOverflow location h.size.toNat)

/-- Sets the byte at a position. -/
def setByte (position value : Int) : Action := do
  let h ← get
  match position? h.bytes.size position with
  | none => throw .indexOutOfRange
  | some k =>
    let b ← MonadExcept.ofExcept (byte? value)
    set { h with bytes := h.bytes.setIfInBounds k b }

/-- Sets the bytes of a span, which must be as long as what is put there. -/
def setSpan (start stop : Int) (block : List UInt8) : Action := do
  let h ← get
  if bound h.bytes.size stop - bound h.bytes.size start = block.length then
    set { h with bytes := Memory.overwrite h.bytes (bound h.bytes.size start) block }
  else
    throw .lengthMismatch

/-- Puts bytes at a location. -/
def put (c : Capacity) : Memory.Put → Action
  | .byte location value => do
    check location
    setByte location value
  | .block location bytes => do
    check (location + bytes.length - 1)
    setSpan location (location + bytes.length) bytes
  | .zeros location count => do
    check (location + count - 1)
    let room ← MonadExcept.ofExcept (Capacity.block count c)
    setSpan location (location + count) (List.replicate room 0)

/-- Makes the memory anew in another size. -/
def resize (c : Capacity) (size : Int) : Action := do
  let room ← MonadExcept.ofExcept (Capacity.store size c)
  modify fun h ↦ { h with bytes := Array.replicate room 0 }
  modify fun h ↦ { h with top := size - 1 }
  modify fun h ↦ { h with size }

/-- Changes the memory. -/
def change (c : Capacity) : Memory.Change → Action
  | .put p => put c p
  | .resize size => resize c size

end Holder

end SuperChip
