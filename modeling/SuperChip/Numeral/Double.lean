import SuperChip.Fault

/-!
# Integers and doubles

An integer of any size becomes the nearest double, and a double becomes the integer that is left
when its fraction is dropped.  Both directions are exact about their limits: an integer whose
nearest double would be infinite, an infinity and a NaN have no counterpart.
-/

namespace SuperChip.Numeral

/-- The double nearest to `n`, ties to the even neighbour. -/
def toDouble (n : Int) : Except Fault Float :=
  let x := Float.ofInt n
  if x.isFinite then .ok x else .error .numberTooLarge

/-- The integer part of `x`: its fraction is dropped, whatever its size. -/
def truncate (x : Float) : Except Fault Int :=
  match x.toModel.unpack with
  | .notANumber => .error .notANumber
  | .infinity _ => .error .numberTooLarge
  | .zero _ => .ok 0
  | .finite sign mantissa exponent _ =>
    .ok (Float.Model.UnpackedFloat.roundToInt sign mantissa exponent)

end SuperChip.Numeral
