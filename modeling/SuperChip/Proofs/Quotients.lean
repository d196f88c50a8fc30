import SuperChip.Proofs.Conversion

/-!
# Differences, quotients and integer parts of doubles

A difference is the sum with the negated number, so it is rounded as sums are.  A quotient is
computed to as many digits as its exponent asks for, and the remainder tells which half of the gap
to the next number it lies in, as the remembered bits do when digits are moved to the right.

A number that is at least one is changed by rounding by one part in `2 ^ 53` at most.  The integer
part of a double that is not negative is its floor.
-/

namespace SuperChip.Double

open Float.Model Float.Model.UnpackedFloat

/-! ## Differences -/

theorem Canonical.neg {u : UnpackedFloat} (hu : Canonical u) : Canonical u.neg := by
  cases hu using Canonical.cases with
  | zero => trivial
  | finite s m e hm hd => exact hd

theorem worth_neg {u : UnpackedFloat} (hu : Canonical u) : worth u.neg = -worth u := by
  cases hu using Canonical.cases with
  | zero => exact neg_zero.symm
  | finite s m e hm =>
    cases s with
    | positive => exact worth_negative e hm
    | negative => exact (neg_eq_iff_eq_neg.mpr (worth_negative e hm)).symm

theorem sub_eq_add {u v : UnpackedFloat} (hu : Canonical u) (hv : Canonical v) :
    UnpackedFloat.sub .binary64 u v = UnpackedFloat.add .binary64 u v.neg := by
  cases hu using Canonical.cases with
  | zero s =>
    cases hv using Canonical.cases with
    | zero | finite => rfl
  | finite s m e hm =>
    cases hv using Canonical.cases with
    | zero => rfl
    | finite s' n f hn =>
      have happly (k : ℕ) : (-s').apply k = -s'.apply k := by
        cases s' with
        | positive => rfl
        | negative => exact (neg_neg (k : ℤ)).symm
      simp only [UnpackedFloat.sub, UnpackedFloat.add, UnpackedFloat.neg, happly,
        ← Int.sub_eq_add_neg]

/-- The difference of two doubles is the double nearest to the difference of what they stand for. -/
theorem rounded_sub {u v : UnpackedFloat} (hu : Canonical u) (hv : Canonical v) :
    Rounded (worth u - worth v) (UnpackedFloat.sub .binary64 u v) := by
  have hsum := rounded_add hu hv.neg
  rwa [worth_neg hv, ← sub_eq_add hu hv, ← sub_eq_add_neg] at hsum

/-! ## Quotients -/

/-- What the comparison of a rest with one half tells locates a number. -/
theorem locates_inexact {m : ℕ} {o : Ordering} {r : ℚ} (h0 : 0 < r) (h1 : r < 1)
    (ho : o.Compares (2 * r) 1) : Locates (.ofMantissaAndAccuracy m (.inexact o)) (m + r) := by
  cases o with
  | lt =>
    have hlt : 2 * r < 1 := ho
    constructor <;> simp only [ExtendedMantissa.ofMantissaAndAccuracy, Bool.toNat_false,
      Nat.cast_zero, add_zero]
    · linarith
    · linarith
    · exact iff_of_false (by simp) fun h ↦ by linarith
  | eq =>
    have heq : 2 * r = 1 := ho
    constructor <;> simp only [ExtendedMantissa.ofMantissaAndAccuracy, Bool.toNat_true,
      Nat.cast_one]
    · linarith
    · linarith
    · exact iff_of_true trivial (by linarith)
  | gt =>
    have hgt : 1 < 2 * r := ho
    constructor <;> simp only [ExtendedMantissa.ofMantissaAndAccuracy, Bool.toNat_true,
      Nat.cast_one]
    · linarith
    · linarith
    · exact iff_of_false (by simp) fun h ↦ by linarith

/-- The digits of a quotient and what the remainder tells of the rest locate it. -/
theorem locates_fraction (a : ℕ) {b : ℕ} (hb : 0 < b) :
    Locates (.ofMantissaAndAccuracy (a / b) (accuracyOfFraction (a % b) b)) (a / b) := by
  have hpos : (0 : ℚ) < b := by exact_mod_cast hb
  have hrest : ((a % b : ℕ) : ℚ) < b := by exact_mod_cast Nat.mod_lt a hb
  have hx : (a : ℚ) / b = (a / b : ℕ) + (a % b : ℕ) / b := by
    rw [div_eq_iff hpos.ne', add_mul, div_mul_cancel₀ _ hpos.ne']
    exact_mod_cast (Nat.div_add_mod' a b).symm
  rw [hx, accuracyOfFraction]
  generalize a % b = r at hrest
  split
  next h0 =>
    rw [h0, Nat.cast_zero, zero_div, add_zero]
    exact locates_ofNat (a / b)
  next h0 =>
    have hsome : (0 : ℚ) < r / b := div_pos (by exact_mod_cast Nat.pos_of_ne_zero h0) hpos
    refine locates_inexact hsome ((div_lt_one hpos).mpr hrest) ?_
    have htwice : (2 : ℚ) * (r / b) = (2 * r : ℕ) / b := by push_cast; ring
    rw [htwice]
    rcases lt_trichotomy (2 * r) b with h | h | h
    · rw [compare_lt_iff_lt.mpr h]
      exact (div_lt_one hpos).mpr (by exact_mod_cast h)
    · rw [compare_eq_iff_eq.mpr h, h]
      exact div_self hpos.ne'
    · rw [compare_gt_iff_gt.mpr h]
      exact (one_lt_div hpos).mpr (by exact_mod_cast h)

/-- A quotient is computed to as many digits as its exponent asks for. -/
theorem le_targetExponent_div {m n k : ℕ} {e f t : ℤ} (hm : 0 < m) (hn : 0 < n)
    (ht : t ≤ Format.binary64.targetExponent (totalExponent m e - totalExponent n f))
    (hk : t + k = e - f) :
    t ≤ Format.binary64.targetExponent (totalExponent ((m <<< k) / n) t) := by
  rw [targetExponent_eq, totalExponent, totalExponent] at ht
  rw [targetExponent_eq, totalExponent]
  rcases le_or_gt (m.log2 + k) n.log2 with h | h
  · -- Without any digits the place is that of the least exponent or below.
    omega
  · have hquotient : 2 ^ (m.log2 + k - n.log2 - 1) ≤ (m <<< k) / n := by
      rw [Nat.le_div_iff_mul_le hn, Nat.shiftLeft_eq]
      calc 2 ^ (m.log2 + k - n.log2 - 1) * n
          ≤ 2 ^ (m.log2 + k - n.log2 - 1) * 2 ^ (n.log2 + 1) := by
            gcongr
            exact Nat.lt_log2_self.le
        _ = 2 ^ m.log2 * 2 ^ k := by
            rw [← pow_add, ← pow_add]
            congr 1
            omega
        _ ≤ m * 2 ^ k := by
            gcongr
            exact Nat.log2_self_le hm.ne'
    have hlog := (Nat.le_log2 (Nat.ne_of_gt ((Nat.two_pow_pos _).trans_le hquotient))).mpr hquotient
    omega

theorem worth_div (s s' : Sign) {m n : ℕ} {e f : ℤ} (hm : 0 < m) (hn : 0 < n) :
    worth (.finite s m e hm) / worth (.finite s' n f hn) =
      (s / s').apply 1 * ((m : ℚ) / n * 2 ^ (e - f)) := by
  rw [worth, worth, mul_div_mul_comm, zpow_sub₀ two_ne_zero, ← mul_assoc]
  congr 1
  cases s <;> cases s'
  · change (-(m : ℤ) : ℤ) / ((-(n : ℤ) : ℤ) : ℚ) = ((1 : ℤ) : ℚ) * (m / n)
    push_cast
    rw [neg_div_neg_eq, one_mul]
  · change (-(m : ℤ) : ℤ) / ((n : ℤ) : ℚ) = ((-1 : ℤ) : ℚ) * (m / n)
    push_cast
    rw [neg_div, neg_one_mul]
  · change ((m : ℤ) : ℚ) / ((-(n : ℤ) : ℤ) : ℚ) = ((-1 : ℤ) : ℚ) * (m / n)
    push_cast
    rw [div_neg, neg_one_mul]
  · change ((m : ℤ) : ℚ) / ((n : ℤ) : ℚ) = ((1 : ℤ) : ℚ) * (m / n)
    push_cast
    rw [one_mul]

/-- The quotient of two doubles is the double nearest to the quotient of what they stand for. -/
theorem rounded_div {u v : UnpackedFloat} (hu : Canonical u) (hv : Canonical v) (h0 : worth v ≠ 0) :
    Rounded (worth u / worth v) (UnpackedFloat.div .binary64 u v) := by
  cases hv using Canonical.cases with
  | zero => exact absurd rfl h0
  | finite s' n f hn =>
    cases hu using Canonical.cases with
    | zero s =>
      have : worth (.zero s) / worth (.finite s' n f hn) = 0 := zero_div _
      rw [this]
      exact rounded_zero _
    | finite s m e hm =>
      obtain ⟨t, ht⟩ : ∃ t, min (e - f) (Format.binary64.targetExponent
        (totalExponent m e - totalExponent n f)) = t := ⟨_, rfl⟩
      obtain ⟨k, hk⟩ : ∃ k, (e - f - t).toNat = k := ⟨_, rfl⟩
      have hshift : t + k = e - f := by omega
      have hle := le_targetExponent_div hm hn (ht ▸ min_le_right _ _) hshift
      have hrounded := rounded_of_locates (s / s') (locates_fraction (m <<< k) hn) hle
      have hvalue : ((m <<< k : ℕ) : ℚ) / n * 2 ^ t = m / n * 2 ^ (e - f) := by
        rw [div_mul_eq_mul_div, shiftLeft_worth m hshift, mul_div_right_comm]
      rw [hvalue, ← worth_div s s' hm hn] at hrounded
      simp only [UnpackedFloat.div, divCore, ht, hk]
      exact hrounded

/-! ## How near -/

/-- A number that is at least one is changed by one part in `2 ^ 53` at most. -/
theorem Nearest.close {q v : ℚ} (h : Nearest q v) (hq : 1 ≤ q) : |v - q| ≤ q / 2 ^ 53 := by
  have hpos : 0 < q := one_pos.trans_le hq
  obtain ⟨f, hf⟩ : ∃ f, Int.log 2 q - 52 = f := ⟨_, rfl⟩
  have hexponent : -1074 ≤ f := by
    have := (Int.zpow_le_iff_le_log (b := 2) (x := 0) one_lt_two hpos).mp (by simpa using hq)
    omega
  have hunit : (0 : ℚ) < 2 ^ f := by positivity
  have hlow : (2 : ℚ) ^ f * 2 ^ 52 ≤ q := by
    have := Int.zpow_log_le_self (b := 2) one_lt_two hpos
    rwa [← sub_add_cancel (Int.log 2 q) 52, hf, Nat.cast_two, zpow_add₀ two_ne_zero] at this
  have hhigh : q < 2 ^ f * 2 ^ 53 := by
    have := Int.lt_zpow_succ_log_self (b := 2) one_lt_two q
    rwa [show Int.log 2 q + 1 = f + 53 by omega, Nat.cast_two, zpow_add₀ two_ne_zero] at this
  -- The nearest whole number of units in the last place is a double that is as near as this.
  have hy : q = q / 2 ^ f * 2 ^ f := (div_mul_cancel₀ q hunit.ne').symm
  have hylow : 0 < q / 2 ^ f := div_pos hpos hunit
  have hyhigh : q / 2 ^ f < 2 ^ 53 := by rwa [div_lt_iff₀' hunit]
  obtain ⟨n, hhalf⟩ : ∃ n : ℤ, |q / 2 ^ f - n| ≤ 1 / 2 := ⟨_, abs_sub_round _⟩
  rw [abs_le] at hhalf
  have hdigits : |n| ≤ 2 ^ 53 := by
    have hup : n < 2 ^ 53 + 1 := by
      have : (n : ℚ) < (2 ^ 53 + 1 : ℤ) := by push_cast; linarith
      exact_mod_cast this
    have hdown : -1 < n := by
      have : ((-1 : ℤ) : ℚ) < n := by push_cast; linarith
      exact_mod_cast this
    rw [abs_le]
    omega
  calc |v - q| ≤ |n * 2 ^ f - q| := h n f hdigits hexponent
    _ = |n - q / 2 ^ f| * 2 ^ f := by
      rw [← abs_of_pos hunit, ← abs_mul, abs_of_pos hunit, sub_mul, ← hy]
    _ ≤ 1 / 2 * 2 ^ f := by
      gcongr
      rw [abs_le]
      constructor <;> linarith
    _ ≤ q / 2 ^ 53 := by
      rw [le_div_iff₀ (by positivity)]
      linarith

/-! ## Integer parts -/

/-- The integer part of a double that is not negative is its floor. -/
theorem truncate_eq_floor {x : Float} (hx : Canonical (parts x)) (h0 : 0 ≤ worth (parts x)) :
    Numeral.truncate x = .ok ⌊worth (parts x)⌋ := by
  rw [Numeral.truncate]
  split
  next h =>
    have hx' : Canonical .notANumber := h ▸ hx
    exact hx'.elim
  next s h =>
    have hx' : Canonical (.infinity s) := h ▸ hx
    exact hx'.elim
  next s h =>
    have hparts : parts x = .zero s := h
    rw [hparts]
    exact congrArg _ Int.floor_zero.symm
  next s m e hm h =>
    have hparts : parts x = .finite s m e hm := h
    rw [hparts] at h0 ⊢
    cases s with
    | negative => exact absurd h0 (not_le_of_gt (worth_negative_neg e hm))
    | positive =>
      obtain ⟨k, hk, hle, hlt⟩ := exists_roundToInt_eq .positive m e
      have hfloor : ⌊worth (.finite .positive m e hm)⌋ = (k : ℤ) := by
        rw [Int.floor_eq_iff]
        exact ⟨hle, hlt⟩
      rw [hk, hfloor]
      rfl

theorem truncate_infinity {x : Float} {s : Sign} (hx : parts x = .infinity s) :
    Numeral.truncate x = .error .numberTooLarge := by
  have hx : x.toModel.unpack = .infinity s := hx
  rw [Numeral.truncate, hx]

end SuperChip.Double
