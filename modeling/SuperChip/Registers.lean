import SuperChip.Span

/-!
# Registers

The state of the processor that programs see: sixteen byte registers, the index register, the
program counter and the call stack.  The user flags, a second bank of sixteen bytes, survive resets.

The call stack lies outside memory and holds a limited number of return addresses.  A call when it
is full and a return when it is empty are faults that change nothing.
-/

namespace SuperChip

/-- Sixteen bytes, numbered by registers. -/
abbrev Bank := Vector UInt8 16

namespace Bank

/-- A bank of zeros. -/
def blank : Bank := Vector.replicate 16 0

/-- Puts a number at a position, which counts from the end if it is negative. -/
def store (b : Bank) (position value : Int) : Except Fault Bank :=
  match position? 16 position with
  | none => .error .indexOutOfRange
  | some k => do
    let byte ← byte? value
    return b.setIfInBounds k byte

/-- The bank that holds the given bytes, if there are sixteen of them. -/
def ofList (bytes : List UInt8) : Except Fault Bank :=
  if h : bytes.length = 16 then .ok ⟨bytes.toArray, h⟩ else .error .lengthMismatch

/-- `b` with the registers up to `x` taken from `source`. -/
def copyUpTo (b source : Bank) (x : Register) : Bank :=
  Vector.ofFn fun k ↦ if k ≤ x then source[k] else b[k]

end Bank

/-- The registers and the call stack. -/
structure Registers where
  /-- The registers `V0` … `VF`. -/
  v : Bank := Bank.blank
  /-- The user flags. -/
  flags : Bank := Bank.blank
  /-- The index register. -/
  index : Int := 0
  /-- The program counter. -/
  pc : Address := 0x200
  /-- The return addresses, the newest one first. -/
  stack : List Address := []
  /-- The number of return addresses that there is room for. -/
  capacity : Int := 16
  deriving DecidableEq, Repr

namespace Registers

/-- The registers after a reset: only the user flags keep their values. -/
def reset (r : Registers) : Registers := { flags := r.flags, capacity := r.capacity }

/-- The byte in a register. -/
def get (r : Registers) (x : Register) : UInt8 := r.v[x]

/-- Puts a byte in a register. -/
def set (r : Registers) (x : Register) (b : UInt8) : Registers := { r with v := r.v.set x b }

/-- Moves the program counter past an instruction. -/
def advance (r : Registers) : Registers := { r with pc := r.pc + 2 }

/-- Moves the program counter back by an instruction. -/
def rewind (r : Registers) : Registers := { r with pc := r.pc - 2 }

/-- Moves the program counter to an address. -/
def jump (r : Registers) (target : Int) : Registers := { r with pc := Address.ofInt target }

/-- Keeps the program counter on the stack and moves it to an address. -/
def call (r : Registers) (target : Int) : Except Fault Registers :=
  if r.capacity ≤ r.stack.length then .error (.stackOverflow target r.pc)
  else .ok { r.jump target with stack := r.pc :: r.stack }

/-- Takes the newest return address from the stack and moves the program counter there. -/
def ret (r : Registers) : Except Fault Registers :=
  match r.stack with
  | [] => .error (.stackUnderflow r.pc)
  | a :: stack => .ok { r with pc := a, stack }

/-- A register holds what was put in it. -/
@[simp] theorem get_set_self (r : Registers) (x : Register) (b : UInt8) :
    (r.set x b).get x = b := by
  simp [get, set]

/-- Putting a byte in one register leaves the others alone. -/
theorem get_set_of_ne (r : Registers) {x y : Register} (b : UInt8) (h : x ≠ y) :
    (r.set x b).get y = r.get y := by
  have : (x : Nat) ≠ y := fun e ↦ h (Fin.ext e)
  simp [get, set, Vector.getElem_set_ne, this]

/-- Going back undoes going on. -/
@[simp] theorem rewind_advance (r : Registers) : r.advance.rewind = r := by
  rw [rewind, advance, BitVec.add_sub_cancel]

/-- A call is refused exactly when there is no room on the stack. -/
theorem call_eq_error_iff {r : Registers} {target : Int} {f : Fault} :
    r.call target = .error f ↔ r.capacity ≤ r.stack.length ∧ f = .stackOverflow target r.pc := by
  unfold call
  split
  · simp_all [eq_comm]
  · simp_all only [reduceCtorEq, false_and]

/-- A return is refused exactly when the stack is empty. -/
theorem ret_eq_error_iff {r : Registers} {f : Fault} :
    r.ret = .error f ↔ r.stack = [] ∧ f = .stackUnderflow r.pc := by
  unfold ret
  split <;> simp_all [eq_comm]

end Registers

end SuperChip
