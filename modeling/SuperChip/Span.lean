import SuperChip.Fault

/-!
# Positions and spans

How integers of any sign point into a sequence of `size` elements.  A position counts from the start
if it is not negative and from the end if it is; beyond either end there is no element.  The bounds
of a span count in the same way, and a bound beyond an end stands for that end.
-/

namespace SuperChip

/-- The place of the element that `k` points to. -/
def position? (size : Nat) (k : Int) : Option Nat :=
  let place := if k < 0 then k + size else k
  if 0 ≤ place ∧ place < size then some place.toNat else none

/-- The place of a bound of a span, from `0` to `size`. -/
def bound (size : Nat) (k : Int) : Nat :=
  min (if k < 0 then k + size else k).toNat size

/-- The byte that a number is. -/
def byte? (value : Int) : Except Fault UInt8 :=
  if 0 ≤ value ∧ value ≤ 255 then .ok (UInt8.ofNat value.toNat) else .error .byteOutOfRange

/-- A position from the start points to the element it counts. -/
theorem position?_natCast {size k : Nat} (h : k < size) : position? size k = some k := by
  simp [position?]
  omega

/-- A position points to a place if it comes to that place, counted from the end if it is negative,
and the place lies in the sequence. -/
theorem position?_eq_some_iff {size n : Nat} {k : Int} :
    position? size k = some n ↔ (if k < 0 then k + size else k) = n ∧ n < size := by
  simp only [position?, Option.ite_none_right_eq_some, Option.some.injEq]
  omega

/-- A position points into the sequence. -/
theorem lt_of_position? {size n : Nat} {k : Int} (h : position? size k = some n) : n < size :=
  (position?_eq_some_iff.mp h).2

/-- A bound lies within the sequence. -/
theorem bound_le (size : Nat) (k : Int) : bound size k ≤ size := Nat.min_le_right _ _

/-- A bound from the start within the sequence stands for itself. -/
theorem bound_natCast {size k : Nat} (h : k ≤ size) : bound size k = k := by
  simp [bound]
  omega

/-- The numbers that are bytes. -/
theorem byte?_eq_ok_iff {value : Int} {b : UInt8} :
    byte? value = .ok b ↔ (0 ≤ value ∧ value ≤ 255) ∧ b = UInt8.ofNat value.toNat := by
  rw [byte?]
  split
  case isTrue h => simp [h, eq_comm]
  case isFalse h => exact iff_of_false nofun fun hb ↦ h hb.1

/-- A byte is the byte that it is. -/
@[simp] theorem byte?_toNat (b : UInt8) : byte? b.toNat = .ok b := by
  have := b.toNat_lt
  simp [byte?]
  omega

end SuperChip
