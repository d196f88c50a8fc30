import SuperChip.Proofs.Step

/-!
# Arithmetic

Sums, differences and shifts are exact: the value that is left in `Vx` and the flag that is left in
`VF` make up the result together.  The operands, the value and the flag all live in the same bank,
so an instruction may name `VF` as an operand, or the same register twice.  The operands are those
that the registers hold before, and if `Vx` is `VF`, then that is left which is put there last: the
flag after sums and differences, the value after shifts.
-/

namespace SuperChip

/-! ## Bytes put in registers -/

namespace Registers

/-- `r'` differs from `r` by a byte in a register. -/
structure Put (r : Registers) (x : Register) (value : UInt8) (r' : Registers) : Prop where
  /-- The register holds the byte. -/
  value_eq : r'.get x = value
  /-- The others hold what they held. -/
  others : ∀ k, k ≠ x → r'.get k = r.get k

/-- `r'` differs from `r` by a value in a register and a flag in `VF`.  If that is the register,
it holds the one of them that is put there last. -/
structure PutFlagged (r : Registers) (x : Register) (value flag last : UInt8) (r' : Registers) :
    Prop where
  /-- The register holds the value. -/
  value_eq : x ≠ 15 → r'.get x = value
  /-- `VF` holds the flag. -/
  flag_eq : x ≠ 15 → r'.get 15 = flag
  /-- `VF` holds what is put there last. -/
  last_eq : x = 15 → r'.get 15 = last
  /-- The others hold what they held. -/
  others : ∀ k, k ≠ x → k ≠ 15 → r'.get k = r.get k

variable (r : Registers) (x : Register) (value flag : UInt8)

/-- Putting a byte in a register leaves the others alone. -/
theorem put_set : r.Put x value (r.set x value) where
  value_eq := r.get_set_self x value
  others _ hk := r.get_set_of_ne value (Ne.symm hk)

/-- The flag is put in `VF` after the value is put in its register. -/
theorem putFlagged_value_flag :
    r.PutFlagged x value flag flag ((r.set x value).set 15 flag) where
  value_eq hx := (get_set_of_ne _ flag (Ne.symm hx)).trans (r.get_set_self x value)
  flag_eq _ := get_set_self _ 15 flag
  last_eq _ := get_set_self _ 15 flag
  others _ hk hk' :=
    (get_set_of_ne _ flag (Ne.symm hk')).trans (r.get_set_of_ne value (Ne.symm hk))

/-- The value is put in its register after the flag is put in `VF`. -/
theorem putFlagged_flag_value :
    r.PutFlagged x value flag value ((r.set 15 flag).set x value) where
  value_eq _ := get_set_self _ x value
  flag_eq hx := (get_set_of_ne _ value hx).trans (r.get_set_self 15 flag)
  last_eq hx := by
    rw [hx]
    exact get_set_self _ 15 value
  others _ hk hk' :=
    (get_set_of_ne _ value (Ne.symm hk)).trans (r.get_set_of_ne flag (Ne.symm hk'))

end Registers

/-! ## Results of arithmetic -/

/-- What the word `8xy_` with `op` for its last digit makes of the bytes `a` of `Vx` and `b` of
`Vy`, for the digits of sums, differences and shifts: the value and the flag together are the
result.  The flag of a difference is set unless 256 is borrowed. -/
def Computes (op : Fin 16) (a b value flag : UInt8) : Prop :=
  flag.toNat ≤ 1 ∧
    match op.val with
    | 0x4 => value.toNat + 256 * flag.toNat = a.toNat + b.toNat
    | 0x5 => (value.toNat : Int) = a.toNat - b.toNat + 256 * (1 - flag.toNat) ∧ (flag = 1 ↔ b ≤ a)
    | 0x6 => 2 * value.toNat + flag.toNat = b.toNat
    | 0x7 => (value.toNat : Int) = b.toNat - a.toNat + 256 * (1 - flag.toNat) ∧ (flag = 1 ↔ a ≤ b)
    | 0xE => 256 * flag.toNat + value.toNat = 2 * b.toNat
    | _ => False

section Computes

variable (a b : UInt8)

/-- A flag is zero or one. -/
theorem toNat_flag_le (flag : Bool) : (if flag then 1 else 0 : UInt8).toNat ≤ 1 := by
  cases flag <;> decide

/-- A sum beyond a byte carries. -/
theorem computes_add : Computes 0x4 a b (UInt8.ofNat (a.toNat + b.toNat))
    (if decide (0xFF < a.toNat + b.toNat) then 1 else 0) := by
  refine ⟨toNat_flag_le _, ?_⟩
  have ha := a.toNat_lt
  have hb := b.toNat_lt
  change (UInt8.ofNat _).toNat + 256 * (if _ then 1 else 0 : UInt8).toNat = _
  rw [UInt8.toNat_ofNat']
  by_cases h : 0xFF < a.toNat + b.toNat
  · simp only [h, decide_true, if_true, UInt8.toNat_one]
    omega
  · simp only [h, decide_false, Bool.false_eq_true, if_false, UInt8.toNat_zero]
    omega

/-- A difference below zero borrows. -/
theorem toNat_sub_eq : ((a - b).toNat : Int) = a.toNat - b.toNat +
    256 * (1 - (if decide (b ≤ a) then 1 else 0 : UInt8).toNat) := by
  have ha := a.toNat_lt
  have hb := b.toNat_lt
  rw [UInt8.toNat_sub]
  by_cases h : b ≤ a
  · have hle := UInt8.le_iff_toNat_le.mp h
    simp only [h, decide_true, if_true, UInt8.toNat_one]
    omega
  · have hlt := UInt8.lt_iff_toNat_lt.mp (UInt8.not_le.mp h)
    simp only [h, decide_false, Bool.false_eq_true, if_false, UInt8.toNat_zero]
    omega

theorem computes_sub : Computes 0x5 a b (a - b) (if decide (b ≤ a) then 1 else 0) :=
  ⟨toNat_flag_le _, toNat_sub_eq a b, (Machine.flag_eq_one_iff _).trans decide_eq_true_iff⟩

theorem computes_subFrom : Computes 0x7 a b (b - a) (if decide (a ≤ b) then 1 else 0) :=
  ⟨toNat_flag_le _, toNat_sub_eq b a, (Machine.flag_eq_one_iff _).trans decide_eq_true_iff⟩

/-- A shift to the right loses the lowest bit. -/
theorem computes_shiftRight : Computes 0x6 a b (b >>> 1) (b &&& 1) := by
  have hflag : (b &&& 1).toNat = b.toNat % 2 := by
    rw [UInt8.toNat_and, UInt8.toNat_one, Nat.and_one_is_mod]
  have hvalue : (b >>> 1).toNat = b.toNat / 2 := UInt8.toNat_shiftRight b 1
  refine ⟨?_, ?_⟩
  · rw [hflag]
    omega
  · change 2 * (b >>> 1).toNat + (b &&& 1).toNat = b.toNat
    rw [hflag, hvalue]
    omega

/-- A shift to the left loses the highest bit. -/
theorem computes_shiftLeft : Computes 0xE a b (b <<< 1) (b >>> 7) := by
  have hb := b.toNat_lt
  have hflag : (b >>> 7).toNat = b.toNat / 128 :=
    (UInt8.toNat_shiftRight b 7).trans (Nat.shiftRight_eq_div_pow b.toNat 7)
  have hvalue : (b <<< 1).toNat = b.toNat * 2 % 256 :=
    (UInt8.toNat_shiftLeft b 1).trans (congrArg (· % 256) (Nat.shiftLeft_eq b.toNat 1))
  refine ⟨?_, ?_⟩
  · rw [hflag]
    omega
  · change 256 * (b >>> 7).toNat + (b <<< 1).toNat = 2 * b.toNat
    rw [hflag, hvalue]
    omega

end Computes

namespace Machine

variable {m : Machine} {w : Word}

/-- A word of group seven adds its low byte. -/
theorem decode_addByte (hw : w.group = 0x7) : Instruction.decode w = .addByte w.x w.nn := by
  rw [Instruction.decode, hw]
  rfl

/-- The last digit of a word of group eight says what is done with `Vx` and `Vy`. -/
theorem decode_digit (hw : w.group = 0x8) :
    (w.n = 0x0 → Instruction.decode w = .copy w.x w.y) ∧
    (w.n = 0x1 → Instruction.decode w = .or w.x w.y) ∧
    (w.n = 0x2 → Instruction.decode w = .and w.x w.y) ∧
    (w.n = 0x3 → Instruction.decode w = .xor w.x w.y) ∧
    (w.n = 0x4 → Instruction.decode w = .add w.x w.y) ∧
    (w.n = 0x5 → Instruction.decode w = .sub w.x w.y) ∧
    (w.n = 0x6 → Instruction.decode w = .shiftRight w.x w.y) ∧
    (w.n = 0x7 → Instruction.decode w = .subFrom w.x w.y) ∧
    (w.n = 0xE → Instruction.decode w = .shiftLeft w.x w.y) := by
  have hd : Instruction.decode w = Instruction.decodeArithmetic w := by
    rw [Instruction.decode, hw]
    rfl
  rw [hd, Instruction.decodeArithmetic]
  refine ⟨?_, ?_, ?_, ?_, ?_, ?_, ?_, ?_, ?_⟩
  all_goals
    intro hn
    rw [hn]
    rfl

/-- An instruction that changes the registers only meets no fault and leaves them changed, traced or
not. -/
theorem registers_execute {i : Instruction} (hd : Instruction.decode w = i)
    (f : Registers → Registers)
    (hi : ∀ log, ({ m with log } : Machine).perform i =
      .ok (({ m with log } : Machine).mapRegisters f)) :
    (m.execute w).2 = none ∧ (m.execute w).1.registers = f m.registers := by
  obtain ⟨lines, ht⟩ := m.exists_trace_eq w
  rw [execute, hd, ht, hi]
  exact ⟨rfl, rfl⟩

/-- An instruction that puts a byte in a register changes no other one. -/
theorem put_execute {i : Instruction} (hd : Instruction.decode w = i) (x : Register)
    (value : UInt8)
    (hi : ∀ log, ({ m with log } : Machine).perform i =
      .ok (({ m with log } : Machine).set x value)) :
    (m.execute w).2 = none ∧ m.registers.Put x value (m.execute w).1.registers := by
  obtain ⟨hf, hr⟩ := registers_execute hd (·.set x value) hi
  rw [hr]
  exact ⟨hf, m.registers.put_set x value⟩

/-- Adding a byte leaves the sum without the carry. -/
theorem addByte_execute (hw : w.group = 0x7) : (m.execute w).2 = none ∧
    ∃ value, value.toNat = ((m.get w.x).toNat + w.nn.toNat) % 256 ∧
      m.registers.Put w.x value (m.execute w).1.registers := by
  obtain ⟨hf, hp⟩ := put_execute (decode_addByte hw) w.x (m.get w.x + w.nn) fun _ ↦ rfl
  exact ⟨hf, _, UInt8.toNat_add _ _, hp⟩

/-- Sums and differences put their value in `Vx` first, and then their flag in `VF`. -/
theorem value_flag_execute {i : Instruction} (hd : Instruction.decode w = i) (value : UInt8)
    (flag : Bool) (hc : Computes w.n (m.get w.x) (m.get w.y) value (if flag then 1 else 0))
    (hi : ∀ log, ({ m with log } : Machine).perform i =
      .ok ((({ m with log } : Machine).set w.x value).setFlag flag)) :
    (m.execute w).2 = none ∧ ∃ value flag, Computes w.n (m.get w.x) (m.get w.y) value flag ∧
      m.registers.PutFlagged w.x value flag flag (m.execute w).1.registers := by
  obtain ⟨hf, hr⟩ :=
    registers_execute hd (fun r ↦ (r.set w.x value).set 15 (if flag then 1 else 0)) hi
  rw [hr]
  exact ⟨hf, _, _, hc, m.registers.putFlagged_value_flag w.x value _⟩

/-- Shifts put their flag in `VF` first, and then their value in `Vx`. -/
theorem flag_value_execute {i : Instruction} (hd : Instruction.decode w = i)
    (value flag : UInt8) (hc : Computes w.n (m.get w.x) (m.get w.y) value flag)
    (hi : ∀ log, ({ m with log } : Machine).perform i =
      .ok ((({ m with log } : Machine).set 15 flag).set w.x value)) :
    (m.execute w).2 = none ∧ ∃ value flag, Computes w.n (m.get w.x) (m.get w.y) value flag ∧
      m.registers.PutFlagged w.x value flag value (m.execute w).1.registers := by
  obtain ⟨hf, hr⟩ := registers_execute hd (fun r ↦ (r.set 15 flag).set w.x value) hi
  rw [hr]
  exact ⟨hf, _, _, hc, m.registers.putFlagged_flag_value w.x value flag⟩

/-- Arithmetic is exact, whichever registers are named.

Let `a` and `b` be the bytes of `Vx` and `Vy` before.  No word of arithmetic meets a fault.  Adding
a byte leaves its sum with `a` modulo 256 in `Vx`, and no flag.  Copies, and the operations on
single bits, leave their value in `Vx`, and no flag.  Sums, differences and shifts leave the value
in `Vx` and the flag in `VF` that make up the result; if `Vx` is `VF`, it holds the flag after sums
and differences and the value after shifts.  Every other register holds what it held. -/
theorem arithmetic_exact (m : Machine) (w : Word) :
    let r := m.registers
    let r' := (m.execute w).1.registers
    let a := r.get w.x
    let b := r.get w.y
    (w.group = 0x7 → (m.execute w).2 = none ∧
      ∃ value, value.toNat = (a.toNat + w.nn.toNat) % 256 ∧ r.Put w.x value r') ∧
    (w.group = 0x8 →
      (w.n = 0x0 → (m.execute w).2 = none ∧ r.Put w.x b r') ∧
      (w.n = 0x1 → (m.execute w).2 = none ∧ r.Put w.x (a ||| b) r') ∧
      (w.n = 0x2 → (m.execute w).2 = none ∧ r.Put w.x (a &&& b) r') ∧
      (w.n = 0x3 → (m.execute w).2 = none ∧ r.Put w.x (a ^^^ b) r') ∧
      (w.n = 0x4 ∨ w.n = 0x5 ∨ w.n = 0x7 → (m.execute w).2 = none ∧
        ∃ value flag, Computes w.n a b value flag ∧ r.PutFlagged w.x value flag flag r') ∧
      (w.n = 0x6 ∨ w.n = 0xE → (m.execute w).2 = none ∧
        ∃ value flag, Computes w.n a b value flag ∧ r.PutFlagged w.x value flag value r')) := by
  intro r r' a b
  refine ⟨addByte_execute, ?_⟩
  intro hw
  obtain ⟨hcopy, hor, hand, hxor, hadd, hsub, hright, hfrom, hleft⟩ := decode_digit hw
  refine ⟨?_, ?_, ?_, ?_, ?_, ?_⟩
  · intro hn
    exact put_execute (hcopy hn) w.x b fun _ ↦ rfl
  · intro hn
    exact put_execute (hor hn) w.x (a ||| b) fun _ ↦ rfl
  · intro hn
    exact put_execute (hand hn) w.x (a &&& b) fun _ ↦ rfl
  · intro hn
    exact put_execute (hxor hn) w.x (a ^^^ b) fun _ ↦ rfl
  · rintro (hn | hn | hn)
    · exact value_flag_execute (hadd hn) _ _ (hn ▸ computes_add a b) fun _ ↦ rfl
    · exact value_flag_execute (hsub hn) _ _ (hn ▸ computes_sub a b) fun _ ↦ rfl
    · exact value_flag_execute (hfrom hn) _ _ (hn ▸ computes_subFrom a b) fun _ ↦ rfl
  · rintro (hn | hn)
    · exact flag_value_execute (hright hn) _ _ (hn ▸ computes_shiftRight a b) fun _ ↦ rfl
    · exact flag_value_execute (hleft hn) _ _ (hn ▸ computes_shiftLeft a b) fun _ ↦ rfl

/-- A machine with large bytes in `V0` and `VF`. -/
def laden : Machine where
  registers := { v := Vector.ofFn fun k ↦ if k = 0 then 200 else if k = 15 then 100 else 0 }
  random := .cycle [] []

/-- `VF` is added to `V0` before it becomes the carry, and the byte of `V0`, shifted left, stays in
`VF` though a flag was put there first. -/
theorem arithmetic_exact_laden :
    ((laden.execute 0x80F4).1.registers.get 0 = 44 ∧
      (laden.execute 0x80F4).1.registers.get 15 = 1) ∧
    (laden.execute 0x8F0E).1.registers.get 15 = 144 := by
  constructor
  · obtain ⟨-, -, -, -, hsum, -⟩ := (arithmetic_exact laden 0x80F4).2 (by decide)
    obtain ⟨-, value, flag, hc, hp⟩ := hsum (by decide)
    obtain ⟨hle, heq⟩ : flag.toNat ≤ 1 ∧ value.toNat + 256 * flag.toNat = 300 := hc
    have hlt := value.toNat_lt
    have hvalue : value = 44 := UInt8.toNat_inj.mp (show value.toNat = 44 by omega)
    have hflag : flag = 1 := UInt8.toNat_inj.mp (show flag.toNat = 1 by omega)
    exact ⟨(hp.value_eq (by decide)).trans hvalue, (hp.flag_eq (by decide)).trans hflag⟩
  · obtain ⟨-, -, -, -, -, hshift⟩ := (arithmetic_exact laden 0x8F0E).2 (by decide)
    obtain ⟨-, value, flag, hc, hp⟩ := hshift (by decide)
    obtain ⟨hle, heq⟩ : flag.toNat ≤ 1 ∧ 256 * flag.toNat + value.toNat = 400 := hc
    have hlt := value.toNat_lt
    have hvalue : value = 144 := UInt8.toNat_inj.mp (show value.toNat = 144 by omega)
    exact (hp.last_eq (by decide)).trans hvalue

end Machine

end SuperChip
