import SuperChip.Fault

/-!
# Choices

What the user says about an option: nothing, a value, or that it is to be without a value.  An
option without a value is not the same as one that nothing is said about: the usual value is not
taken, and where a value is needed there is a fault.
-/

namespace SuperChip

/-- What the user says about an option. -/
inductive Choice (α : Type)
  /-- Nothing. -/
  | usual
  /-- That it has no value. -/
  | blank
  /-- Its value. -/
  | value (a : α)
  deriving DecidableEq, Repr

namespace Choice

variable {α : Type}

/-- The value to work with: the usual one if nothing is said, and a fault if there is none. -/
def resolve (usual : α) (fault : Fault) : Choice α → Except Fault α
  | .usual => .ok usual
  | .blank => .error fault
  | .value a => .ok a

/-- A value that is given is taken. -/
@[simp] theorem resolve_value (usual a : α) (fault : Fault) :
    (value a).resolve usual fault = .ok a := rfl

/-- There is a fault exactly if the option has no value. -/
theorem resolve_eq_error_iff {c : Choice α} {usual : α} {fault f : Fault} :
    c.resolve usual fault = .error f ↔ c = .blank ∧ f = fault := by
  cases c <;> simp [resolve, eq_comm]

end Choice

end SuperChip
