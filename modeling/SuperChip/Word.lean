/-!
# Words of the machine

The machine has three widths besides the byte: instruction words of sixteen bits, addresses of
twelve bits, and four-bit numbers that name a register or a key.  An integer of any size becomes an
address by keeping its twelve low bits.
-/

namespace SuperChip

/-- An address in the 4096 bytes of memory.  Sums and differences wrap around. -/
abbrev Address := BitVec 12

/-- An instruction as it lies in memory, high byte first. -/
abbrev Word := BitVec 16

/-- The number of one of the sixteen registers `V0` … `VF`. -/
abbrev Register := Fin 16

/-- The number of one of the sixteen keys of the keypad. -/
abbrev Key := Fin 16

/-- There are registers and keys, so that numbers name them. -/
instance neZero_sixteen : @NeZero Nat Zero.ofOfNat0 16 := ⟨by decide⟩

/-- The address that an integer stands for: its twelve low bits. -/
def Address.ofInt (n : Int) : Address := BitVec.ofInt 12 n

/-- An address already fits in twelve bits. -/
@[simp] theorem Address.ofInt_toNat (a : Address) : Address.ofInt (a.toNat : Int) = a := by
  simp [Address.ofInt]

/-- Only the twelve low bits of an integer count. -/
theorem Address.toNat_ofInt (n : Int) : (Address.ofInt n).toNat = (n % 4096).toNat := by
  simp [Address.ofInt, BitVec.toNat_ofInt]

end SuperChip
