import SuperChip.Proofs.Double

/-!
# Sums and products of doubles are rounded to the nearest

A result is rounded by moving its digits to the right, with two bits that remember what was lost,
until there are no more than fifty-three, and then by cutting off what those two bits stand for.
They locate the result between two neighbours and tell which half of the gap it lies in, so the
double that comes out is as near as any other.  A carry out of the first digit makes one more place
necessary, which is then a zero.

It follows that rounding never goes past a double.  So time that runs backwards cannot bring the
time owed up to a period that it was below.
-/

namespace SuperChip.Double

open Float.Model Float.Model.UnpackedFloat

/-- No number with at most fifty-three digits is nearer. -/
def Nearest (q v : ℚ) : Prop :=
  ∀ n f : ℤ, |n| ≤ 2 ^ 53 → -1074 ≤ f → |v - q| ≤ |n * 2 ^ f - q|

/-- A result stands for the number nearest to what was computed. -/
structure Rounded (q : ℚ) (u : UnpackedFloat) : Prop where
  /-- It is a number with canonical digits. -/
  canonical : Canonical u
  /-- It is as near as any other. -/
  nearest : Nearest q (worth u)

theorem Nearest.neg {q v : ℚ} (h : Nearest q v) : Nearest (-q) (-v) := by
  intro n f hn hf
  have := h (-n) f (by rwa [abs_neg]) hf
  rw [← abs_neg, ← abs_neg (_ - _)]
  convert this using 2 <;> push_cast <;> ring

theorem rounded_self {u : UnpackedFloat} (h : Canonical u) : Rounded (worth u) u where
  canonical := h
  nearest _ _ _ _ := by
    rw [sub_self, abs_zero]
    exact abs_nonneg _

theorem rounded_zero (s : Sign) : Rounded 0 (.zero s) :=
  rounded_self (u := .zero s) trivial

theorem exists_eq_worth {u : UnpackedFloat} (hu : Canonical u) :
    ∃ n f : ℤ, |n| ≤ 2 ^ 53 ∧ -1074 ≤ f ∧ worth u = n * 2 ^ f := by
  cases hu using Canonical.cases with
  | zero s => exact ⟨0, 0, by decide, by decide, by rw [Int.cast_zero, zero_mul]; rfl⟩
  | finite s m e hm hd =>
    obtain ⟨hlt, hle, -⟩ := hd
    refine ⟨s.apply m, e, ?_, hle, rfl⟩
    rw [abs_le]
    cases s <;> simp only [Sign.apply] <;> omega

/-- Rounding does not go past a double. -/
theorem Rounded.worth_le {q : ℚ} {u v : UnpackedFloat} (hu : Rounded q u) (hv : Canonical v)
    (h : q ≤ worth v) : worth u ≤ worth v := by
  obtain ⟨n, f, hn, hf, hw⟩ := exists_eq_worth hv
  have hclose := hu.nearest n f hn hf
  rw [← hw, abs_of_nonneg (sub_nonneg.mpr h)] at hclose
  exact (sub_le_sub_iff_right q).mp ((le_abs_self _).trans hclose)

theorem Rounded.le_worth {q : ℚ} {u v : UnpackedFloat} (hu : Rounded q u) (hv : Canonical v)
    (h : worth v ≤ q) : worth v ≤ worth u := by
  obtain ⟨n, f, hn, hf, hw⟩ := exists_eq_worth hv
  have hclose := hu.nearest n f hn hf
  rw [← hw, abs_of_nonpos (sub_nonpos.mpr h), neg_sub] at hclose
  linarith [neg_abs_le (worth u - q)]

/-! ## What the remembered bits stand for -/

/-- Digits and remembered bits locate a number to within half of the last digit: exactly if
nothing more was lost, and from below otherwise. -/
structure Locates (em : ExtendedMantissa) (x : ℚ) : Prop where
  /-- The number is not below the digits and the round bit. -/
  le : 2 * em.mantissa + em.roundBit.toNat ≤ 2 * x
  /-- It is less than half of the last digit above them. -/
  lt : 2 * x < 2 * em.mantissa + em.roundBit.toNat + 1
  /-- The sticky bit tells whether anything more was lost. -/
  exact : em.stickyBit = false ↔ 2 * x = 2 * em.mantissa + em.roundBit.toNat

theorem locates_ofNat (m : ℕ) : Locates (.ofMantissaAndAccuracy m .exact) m := by
  constructor <;> simp [ExtendedMantissa.ofMantissaAndAccuracy]

theorem Locates.shiftRightOne {em : ExtendedMantissa} {x : ℚ} (h : Locates em x) :
    Locates em.shiftRightOne (x / 2) := by
  obtain ⟨m, b, s⟩ := em
  obtain ⟨hle, hlt, hexact⟩ := h
  have hbit : (m % 2 != 0).toNat = m % 2 := by
    rcases Nat.mod_two_eq_zero_or_one m with h | h <;> rw [h] <;> rfl
  have hdigits : (2 * (m / 2 : ℕ) + (m % 2 : ℕ) : ℚ) = m := by exact_mod_cast Nat.div_add_mod m 2
  have htwice : 2 * (x / 2) = x := mul_div_cancel₀ x two_ne_zero
  -- The digits before the move are those after it, followed by the bit that was moved out.
  suffices (m : ℚ) ≤ x ∧ x < m + 1 ∧ ((b || s) = false ↔ x = m) by
    constructor <;> simp only [ExtendedMantissa.shiftRightOne, hbit, hdigits, htwice]
    exacts [this.1, this.2.1, this.2.2]
  cases b with
  | false =>
    simp only [Bool.toNat_false, Nat.cast_zero, add_zero] at hle hlt hexact
    rw [Bool.false_or, hexact]
    refine ⟨by linarith, by linarith, ?_⟩
    exact mul_right_inj' two_ne_zero
  | true =>
    simp only [Bool.toNat_true, Nat.cast_one] at hle hlt
    refine ⟨by linarith, by linarith, ?_⟩
    exact iff_of_false (by simp) (fun h ↦ by linarith)

theorem Locates.shiftRight {em : ExtendedMantissa} {x : ℚ} (h : Locates em x) (n : ℕ) :
    Locates (em >>> n) (x / 2 ^ n) := by
  induction n with
  | zero =>
    rw [pow_zero, div_one]
    exact h
  | succ n ih =>
    rw [pow_succ, ← div_div]
    exact ih.shiftRightOne

/-- The digits are the integer part of the number. -/
theorem Locates.floor {em : ExtendedMantissa} {x : ℚ} (h : Locates em x) :
    em.mantissa ≤ x ∧ x < em.mantissa + 1 := by
  have hbit : (em.roundBit.toNat : ℚ) ≤ 1 := by exact_mod_cast Bool.toNat_le _
  have hnonneg : (0 : ℚ) ≤ em.roundBit.toNat := by positivity
  have hle := h.le
  have hlt := h.lt
  constructor <;> linarith

theorem mantissa_ofMantissaAndAccuracy (m : ℕ) (a : Accuracy) :
    (ExtendedMantissa.ofMantissaAndAccuracy m a).mantissa = m := by
  rcases a with _ | (_ | _ | _) <;> rfl

/-- Cutting off the remembered bits changes a number by at most half of the last digit. -/
theorem Locates.close {em : ExtendedMantissa} {x : ℚ} (h : Locates em x) :
    |em.roundedMantissa - x| ≤ 1 / 2 := by
  obtain ⟨m, b, s⟩ := em
  obtain ⟨hle, hlt, hexact⟩ := h
  rw [abs_le]
  cases b <;> cases s <;> simp only [Bool.toNat_false, Bool.toNat_true, Nat.cast_zero,
    Nat.cast_one, add_zero] at hle hlt hexact
  · have hx := hexact.mp trivial
    change -(1 / 2) ≤ (m : ℚ) - x ∧ (m : ℚ) - x ≤ 1 / 2
    constructor <;> linarith
  · change -(1 / 2) ≤ (m : ℚ) - x ∧ (m : ℚ) - x ≤ 1 / 2
    constructor <;> linarith
  · -- Half way between two neighbours, the even one is taken.
    have hx := hexact.mp trivial
    have hhi : ((m % 2 : ℕ) : ℚ) ≤ 1 := by exact_mod_cast Nat.le_of_lt_succ (Nat.mod_lt m two_pos)
    have hlo : (0 : ℚ) ≤ (m % 2 : ℕ) := by positivity
    change -(1 / 2) ≤ ((m + m % 2 : ℕ) : ℚ) - x ∧ ((m + m % 2 : ℕ) : ℚ) - x ≤ 1 / 2
    rw [Nat.cast_add]
    constructor <;> linarith
  · change -(1 / 2) ≤ ((m + 1 : ℕ) : ℚ) - x ∧ ((m + 1 : ℕ) : ℚ) - x ≤ 1 / 2
    rw [Nat.cast_add_one]
    constructor <;> linarith

/-! ## The nearest number -/

theorem close_of_int {r : ℕ} {x : ℚ} (h : |r - x| ≤ 1 / 2) (k : ℤ) : |r - x| ≤ |k - x| := by
  rcases eq_or_ne k r with rfl | hne
  · rw [Int.cast_natCast]
  · have hone : (1 : ℚ) ≤ |(k : ℚ) - r| := by
      have : (1 : ℤ) ≤ |k - r| := Int.one_le_abs (sub_ne_zero.mpr hne)
      exact_mod_cast this
    have htri := abs_sub_le (k : ℚ) x r
    rw [abs_sub_comm x] at htri
    linarith

/-- The nearest whole number of last digits is the nearest double, if all digits are used. -/
theorem nearest_of_close {x : ℚ} {r : ℕ} {e : ℤ} (h : |r - x| ≤ 1 / 2)
    (hfull : 2 ^ 52 ≤ x ∨ e = -1074) : Nearest (x * 2 ^ e) (r * 2 ^ e) := by
  intro n f hn hf
  have he : (0 : ℚ) < 2 ^ e := by positivity
  have hscale (y : ℚ) : |y * 2 ^ e - x * 2 ^ e| = |y - x| * 2 ^ e := by
    rw [← sub_mul, abs_mul, abs_of_pos he]
  rcases le_or_gt e f with hef | hfe
  · -- A number without finer digits is a whole number of last digits.
    obtain ⟨k, hk⟩ : ∃ k : ℤ, (n : ℚ) * 2 ^ f = k * 2 ^ e := by
      refine ⟨n * 2 ^ (f - e).toNat, ?_⟩
      push_cast
      rw [mul_assoc, ← zpow_natCast, ← zpow_add₀ two_ne_zero]
      congr 2
      omega
    rw [hk, hscale, hscale]
    exact mul_le_mul_of_nonneg_right (close_of_int h k) he.le
  · -- A number with finer digits is at most the least one that uses all digits.
    have hx : 2 ^ 52 ≤ x := hfull.resolve_right (by omega)
    have hn : (n : ℚ) ≤ 2 ^ 53 := by exact_mod_cast (le_abs_self n).trans hn
    have hpow : (2 : ℚ) ^ (f + 1) ≤ 2 ^ e := zpow_le_zpow_right₀ one_le_two (by omega)
    have hw : (n : ℚ) * 2 ^ f ≤ 2 ^ 52 * 2 ^ e :=
      calc (n : ℚ) * 2 ^ f ≤ 2 ^ 53 * 2 ^ f := by gcongr
        _ = 2 ^ 52 * 2 ^ (f + 1) := by rw [zpow_add_one₀ two_ne_zero]; ring
        _ ≤ 2 ^ 52 * 2 ^ e := by gcongr
    have hlow : (2 : ℚ) ^ 52 * 2 ^ e ≤ x * 2 ^ e := by gcongr
    have hleast := close_of_int h (2 ^ 52)
    rw [hscale]
    calc |r - x| * 2 ^ e ≤ |((2 ^ 52 : ℤ) : ℚ) - x| * 2 ^ e := by gcongr
      _ = |(2 : ℚ) ^ 52 * 2 ^ e - x * 2 ^ e| := by rw [hscale]; norm_cast
      _ ≤ |n * 2 ^ f - x * 2 ^ e| := by
        rw [abs_sub_comm, abs_of_nonneg (by linarith), abs_sub_comm, abs_of_nonneg (by linarith)]
        linarith

/-! ## Rounding -/

theorem targetExponent_eq (t : ℤ) : Format.binary64.targetExponent t = max (t - 53) (-1074) := rfl

theorem decreaseExponent_eq (m : ℕ) (e t : ℤ) :
    decreaseExponent m e t = (m <<< (e - t).toNat, e - (e - t).toNat) := rfl

theorem shiftToTargetExponent_eq {m : ℕ} {e t : ℤ} (a : Accuracy)
    (ht : Format.binary64.targetExponent (totalExponent m e) = t) (he : e ≤ t) :
    shiftToTargetExponent .binary64 m e a =
      (ExtendedMantissa.ofMantissaAndAccuracy m a >>> (t - e).toNat, t) := by
  simp only [shiftToTargetExponent, ht, shiftToExponent]
  exact Prod.ext rfl (by simp only; omega)

/-- Rounding up takes at most one digit too many. -/
theorem exists_digits {m : ℕ} {e : ℤ} (hm : m ≤ 2 ^ 53) (he : -1074 ≤ e)
    (hfull : 2 ^ 52 ≤ m ∨ e = -1074) :
    ∃ n f, Digits n f ∧ (n : ℚ) * 2 ^ f = m * 2 ^ e ∧
      ∃ em, shiftToTargetExponent .binary64 m e .exact = (em, f) ∧ em.mantissa = n := by
  rcases hm.lt_or_eq with hlt | rfl
  · have hlog : m.log2 < 53 := by
      rcases eq_or_ne m 0 with rfl | h0
      · decide
      · exact (Nat.log2_lt h0).mpr hlt
    have htarget : Format.binary64.targetExponent (totalExponent m e) = e := by
      rw [targetExponent_eq, totalExponent]
      rcases hfull with hfull | rfl
      · have := (Nat.le_log2 (by omega)).mpr hfull
        omega
      · omega
    refine ⟨m, e, ⟨hlt, he, hfull⟩, rfl, _, shiftToTargetExponent_eq _ htarget le_rfl, ?_⟩
    rw [sub_self]
    rfl
  · have htarget : Format.binary64.targetExponent (totalExponent (2 ^ 53) e) = e + 1 := by
      rw [targetExponent_eq, totalExponent, Nat.log2_two_pow]
      omega
    refine ⟨2 ^ 52, e + 1, ⟨by decide, by omega, .inl le_rfl⟩, ?_, _,
      shiftToTargetExponent_eq _ htarget (by omega), ?_⟩
    · rw [zpow_add_one₀ two_ne_zero]
      push_cast
      ring
    · rw [add_sub_cancel_left]
      rfl

/-- The target exponent leaves no digit before the fifty-third, and uses all of them unless it is
the least one. -/
theorem target_bounds {m : ℕ} {e t : ℤ} {x y : ℚ} (hlo : m ≤ x) (hhi : x < m + 1)
    (ht : Format.binary64.targetExponent (totalExponent m e) = t) (he : e ≤ t)
    (hxy : x * 2 ^ e = y * 2 ^ t) : y < 2 ^ 53 ∧ (2 ^ 52 ≤ y ∨ t = -1074) := by
  rw [targetExponent_eq, totalExponent] at ht
  have hpos : (0 : ℚ) < 2 ^ t := by positivity
  constructor
  · have hm : (m : ℚ) + 1 ≤ 2 ^ (m.log2 + 1 : ℤ) := by exact_mod_cast Nat.lt_log2_self
    refine lt_of_mul_lt_mul_of_nonneg_right ?_ hpos.le
    calc y * 2 ^ t = x * 2 ^ e := hxy.symm
      _ < (m + 1) * 2 ^ e := by gcongr
      _ ≤ 2 ^ (m.log2 + 1 : ℤ) * 2 ^ e := by gcongr
      _ = 2 ^ (m.log2 + 1 + e : ℤ) := (zpow_add₀ two_ne_zero _ _).symm
      _ ≤ 2 ^ (53 + t) := zpow_le_zpow_right₀ one_le_two (by omega)
      _ = 2 ^ 53 * 2 ^ t := by rw [zpow_add₀ two_ne_zero]; rfl
  · rcases eq_or_ne t (-1074) with h | h
    · exact .inr h
    have hm0 : m ≠ 0 := by
      rintro rfl
      rw [Nat.log2_zero] at ht
      omega
    have hm : (2 : ℚ) ^ (m.log2 : ℤ) ≤ m := by exact_mod_cast Nat.log2_self_le hm0
    refine .inl (le_of_mul_le_mul_right ?_ hpos)
    calc (2 : ℚ) ^ 52 * 2 ^ t = 2 ^ (52 + t) := by rw [zpow_add₀ two_ne_zero]; rfl
      _ ≤ 2 ^ (m.log2 + e : ℤ) := zpow_le_zpow_right₀ one_le_two (by omega)
      _ = 2 ^ (m.log2 : ℤ) * 2 ^ e := zpow_add₀ two_ne_zero _ _
      _ ≤ m * 2 ^ e := by gcongr
      _ ≤ x * 2 ^ e := by gcongr
      _ = y * 2 ^ t := hxy

/-- The digits that come out of rounding. -/
theorem exists_roundWithAccuracy_eq (s : Sign) {m : ℕ} {e : ℤ} {a : Accuracy} {x : ℚ}
    (hx : Locates (.ofMantissaAndAccuracy m a) x)
    (he : e ≤ Format.binary64.targetExponent (totalExponent m e)) :
    ∃ n f, Digits n f ∧ Nearest (x * 2 ^ e) (n * 2 ^ f) ∧
      roundWithAccuracy .binary64 s m e a =
        if h : n = 0 then .zero s else .finite s n f (Nat.pos_of_ne_zero h) := by
  obtain ⟨t, ht⟩ : ∃ t, Format.binary64.targetExponent (totalExponent m e) = t := ⟨_, rfl⟩
  have hleast : -1074 ≤ t := ht ▸ le_max_right _ _
  rw [ht] at he
  have hshift := shiftToTargetExponent_eq a ht he
  set em := ExtendedMantissa.ofMantissaAndAccuracy m a >>> (t - e).toNat
  have hclose := (hx.shiftRight (t - e).toNat).close
  set y : ℚ := x / 2 ^ (t - e).toNat with hy
  have hxy : x * 2 ^ e = y * 2 ^ t := by
    rw [hy, div_mul_eq_mul_div, eq_div_iff (by positivity), mul_assoc, ← zpow_natCast,
      ← zpow_add₀ two_ne_zero]
    congr 2
    omega
  obtain ⟨hlo, hhi⟩ := hx.floor
  rw [mantissa_ofMantissaAndAccuracy] at hlo hhi
  obtain ⟨hlt, hfull⟩ := target_bounds hlo hhi ht he hxy
  have hround := abs_le.mp hclose
  have hmax : em.roundedMantissa ≤ 2 ^ 53 := by
    have : (em.roundedMantissa : ℚ) < (2 ^ 53 : ℕ) + 1 := by push_cast; linarith
    exact Nat.le_of_lt_succ (by exact_mod_cast this)
  have hmin : 2 ^ 52 ≤ em.roundedMantissa ∨ t = -1074 := by
    refine hfull.imp_left fun h ↦ ?_
    have : ((2 ^ 52 : ℕ) : ℚ) < em.roundedMantissa + 1 := by push_cast; linarith
    exact Nat.le_of_lt_succ (by exact_mod_cast this)
  obtain ⟨n, f, hn, hworth, em', hem, rfl⟩ := exists_digits hmax hleast hmin
  refine ⟨em'.mantissa, f, hn, ?_, ?_⟩
  · rw [hxy, hworth]
    exact nearest_of_close hclose hfull
  · rw [roundWithAccuracy, hshift]
    simp only [hem]

/-- With its sign, what comes out of rounding is the nearest double. -/
theorem rounded_digits (s : Sign) {q : ℚ} {n : ℕ} {f : ℤ} (hn : Digits n f)
    (h : Nearest q (n * 2 ^ f)) :
    Rounded (s.apply 1 * q)
      (if h : n = 0 then .zero s else .finite s n f (Nat.pos_of_ne_zero h)) := by
  have hsigned : Nearest (s.apply 1 * q) (s.apply n * 2 ^ f) := by
    cases s with
    | positive => simpa [Sign.apply] using h
    | negative => simpa [Sign.apply] using h.neg
  split
  next h0 =>
    subst h0
    have : (s.apply (0 : ℕ) : ℚ) * 2 ^ f = 0 := by cases s <;> simp [Sign.apply]
    rw [this] at hsigned
    exact ⟨trivial, hsigned⟩
  next h0 => exact ⟨hn, hsigned⟩

theorem log2_shiftLeft {m : ℕ} (hm : 0 < m) (k : ℕ) : (m <<< k).log2 = m.log2 + k := by
  induction k with
  | zero => rfl
  | succ k ih =>
    have hne : m <<< k ≠ 0 := by
      rw [Nat.shiftLeft_eq]
      positivity
    rw [Nat.shiftLeft_succ, Nat.log2_two_mul hne, ih, add_assoc]

theorem shiftLeft_worth (m : ℕ) {e f : ℤ} {k : ℕ} (h : f + k = e) :
    ((m <<< k : ℕ) : ℚ) * 2 ^ f = m * 2 ^ e := by
  rw [Nat.shiftLeft_eq, Nat.cast_mul, Nat.cast_pow, Nat.cast_ofNat, mul_assoc, ← zpow_natCast,
    ← zpow_add₀ two_ne_zero, add_comm, h]

/-- What digits and remembered bits locate is rounded to the nearest double, if the last place of
the digits is not above the target. -/
theorem rounded_of_locates (s : Sign) {m : ℕ} {e : ℤ} {a : Accuracy} {x : ℚ}
    (hx : Locates (.ofMantissaAndAccuracy m a) x)
    (he : e ≤ Format.binary64.targetExponent (totalExponent m e)) :
    Rounded (s.apply 1 * (x * 2 ^ e)) (roundWithAccuracy .binary64 s m e a) := by
  obtain ⟨n, f, hn, hnear, heq⟩ := exists_roundWithAccuracy_eq s hx he
  rw [heq]
  exact rounded_digits s hn hnear

/-- Exact digits are rounded to the nearest double, if their last place is not above the target. -/
theorem rounded_roundWithAccuracy (s : Sign) {m : ℕ} {e : ℤ}
    (he : e ≤ Format.binary64.targetExponent (totalExponent m e)) :
    Rounded (s.apply 1 * (m * 2 ^ e)) (roundWithAccuracy .binary64 s m e .exact) :=
  rounded_of_locates s (locates_ofNat m) he

theorem rounded_round (s : Sign) {m : ℕ} (hm : 0 < m) (e : ℤ) :
    Rounded (s.apply 1 * (m * 2 ^ e)) (UnpackedFloat.round .binary64 s m e) := by
  obtain ⟨t, ht⟩ : ∃ t, Format.binary64.targetExponent (totalExponent m e) = t := ⟨_, rfl⟩
  have htotal : totalExponent (m <<< (e - t).toNat) (e - (e - t).toNat) = totalExponent m e := by
    rw [totalExponent, totalExponent, log2_shiftLeft hm]
    push_cast
    ring
  have hround : UnpackedFloat.round .binary64 s m e =
      roundWithAccuracy .binary64 s (m <<< (e - t).toNat) (e - (e - t).toNat) .exact := by
    simp only [UnpackedFloat.round, ht, decreaseExponent_eq]
  have hrounded := rounded_roundWithAccuracy s (m := m <<< (e - t).toNat)
    (e := e - (e - t).toNat) (by rw [htotal, ht]; omega)
  rwa [shiftLeft_worth m (sub_add_cancel _ _), ← hround] at hrounded

theorem rounded_normalize (m e : ℤ) (s : Sign) :
    Rounded (m * 2 ^ e) (UnpackedFloat.normalize .binary64 m e s) := by
  rw [UnpackedFloat.normalize]
  rcases lt_trichotomy m 0 with h | rfl | h
  · rw [compare_lt_iff_lt.mpr h]
    have hm : (((-m).toNat : ℕ) : ℚ) = -m := by exact_mod_cast Int.toNat_of_nonneg (by omega)
    have := rounded_round .negative (m := (-m).toNat) (by omega) e
    simpa [Sign.apply, hm] using this
  · rw [compare_eq_iff_eq.mpr rfl, Int.cast_zero, zero_mul]
    exact rounded_zero s
  · rw [compare_gt_iff_gt.mpr h]
    have hm : ((m.toNat : ℕ) : ℚ) = m := by exact_mod_cast Int.toNat_of_nonneg (by omega)
    have := rounded_round .positive (m := m.toNat) (by omega) e
    simpa [Sign.apply, hm] using this

/-! ## Sums -/

theorem worth_decreaseExponent (s : Sign) (m : ℕ) {e t : ℤ} (h : t ≤ e) :
    (s.apply (m <<< (e - t).toNat : ℕ) : ℚ) * 2 ^ t = s.apply m * 2 ^ e := by
  have hm : ((m <<< (e - t).toNat : ℕ) : ℚ) * 2 ^ t = m * 2 ^ e := shiftLeft_worth m (by omega)
  cases s with
  | positive => exact hm
  | negative => simp only [Sign.apply, Int.cast_neg, Int.cast_natCast, neg_mul, hm]

/-- The sum of two doubles is the double nearest to the sum of what they stand for. -/
theorem rounded_add {u v : UnpackedFloat} (hu : Canonical u) (hv : Canonical v) :
    Rounded (worth u + worth v) (UnpackedFloat.add .binary64 u v) := by
  cases hu using Canonical.cases with
  | zero s =>
    cases hv using Canonical.cases with
    | zero s' =>
      have : worth (.zero s) + worth (.zero s') = 0 := add_zero 0
      rw [this]
      cases s <;> cases s' <;> exact rounded_zero _
    | finite s' n f hn hd' =>
      have : worth (.zero s) + worth (.finite s' n f hn) = worth (.finite s' n f hn) := zero_add _
      rw [this]
      exact rounded_self hd'
  | finite s m e hm hd =>
    cases hv using Canonical.cases with
    | zero s' =>
      have : worth (.finite s m e hm) + worth (.zero s') = worth (.finite s m e hm) := add_zero _
      rw [this]
      exact rounded_self hd
    | finite s' n f hn =>
      have := rounded_normalize (s.apply (m <<< (e - min e f).toNat : ℕ) +
        s'.apply (n <<< (f - min e f).toNat : ℕ)) (min e f) .positive
      rw [Int.cast_add, add_mul, worth_decreaseExponent s m (min_le_left e f),
        worth_decreaseExponent s' n (min_le_right e f)] at this
      exact this

/-! ## Products -/

theorem apply_mul (s s' : Sign) (m n : ℤ) : (s * s').apply (m * n) = s.apply m * s'.apply n := by
  cases s <;> cases s'
  · exact (neg_mul_neg m n).symm
  · exact (neg_mul m n).symm
  · exact (mul_neg m n).symm
  · rfl

theorem apply_one_mul (s : Sign) (m : ℕ) : (s.apply 1 : ℚ) * m = s.apply m := by
  cases s <;> simp [Sign.apply]

/-- The digits of a product need no zeros after them. -/
theorem le_targetExponent_mul {m n : ℕ} {e f : ℤ} (hm : Digits m e) (hn : Digits n f)
    (hm0 : 0 < m) (hn0 : 0 < n) :
    e + f ≤ Format.binary64.targetExponent (totalExponent (m * n) (e + f)) := by
  rw [targetExponent_eq, totalExponent]
  have hlog : (m * n).log2 < 52 → m < 2 ^ 52 ∧ n < 2 ^ 52 := by
    intro h
    have hlt := (Nat.log2_lt (by positivity)).mp h
    exact ⟨lt_of_le_of_lt (Nat.le_mul_of_pos_right m hn0) hlt,
      lt_of_le_of_lt (Nat.le_mul_of_pos_left n hm0) hlt⟩
  have hmfull := hm.full
  have hnfull := hn.full
  by_cases h : (m * n).log2 < 52
  · have := hlog h
    omega
  · omega

/-- The product of two doubles is the double nearest to the product of what they stand for. -/
theorem rounded_mul {u v : UnpackedFloat} (hu : Canonical u) (hv : Canonical v) :
    Rounded (worth u * worth v) (UnpackedFloat.mul .binary64 u v) := by
  cases hu using Canonical.cases with
  | zero s =>
    have : worth (.zero s) * worth v = 0 := zero_mul _
    rw [this]
    cases hv using Canonical.cases with
    | zero | finite => exact rounded_zero _
  | finite s m e hm hd =>
    cases hv using Canonical.cases with
    | zero s' =>
      have : worth (.finite s m e hm) * worth (.zero s') = 0 := mul_zero _
      rw [this]
      exact rounded_zero _
    | finite s' n f hn hd' =>
      have hrounded := rounded_roundWithAccuracy (s * s')
        (le_targetExponent_mul hd hd' hm hn)
      rw [← mul_assoc, apply_one_mul, Nat.cast_mul, apply_mul, zpow_add₀ two_ne_zero, Int.cast_mul,
        mul_mul_mul_comm] at hrounded
      exact hrounded

/-! ## Doubles that are no numbers -/

theorem notANumber_add (u : UnpackedFloat) :
    UnpackedFloat.add .binary64 .notANumber u = .notANumber := by
  cases u <;> rfl

theorem infinity_add {u : UnpackedFloat} (hu : Canonical u) (s : Sign) :
    UnpackedFloat.add .binary64 (.infinity s) u = .infinity s := by
  cases hu using Canonical.cases with
  | zero | finite => rfl

theorem add_infinity {u : UnpackedFloat} (hu : Canonical u) (s : Sign) :
    UnpackedFloat.add .binary64 u (.infinity s) = .infinity s := by
  cases hu using Canonical.cases with
  | zero | finite => rfl

/-- A negative number does not bring a double up to one that it was below. -/
theorem not_le_add_of_neg {t x y : Float} (ht : t.isFinite) (hx : ¬ t ≤ x) (hy : y < 0.0) :
    ¬ t ≤ x + y := by
  obtain ⟨htc, htf⟩ := canonical_of_isFinite ht
  rw [le_iff_parts, parts_add]
  rw [le_iff_parts] at hx
  have hnot : ¬ (parts t).le (.infinity .negative) = true := by
    rw [le_infinity htc]
    intro h
    cases h
  rcases parts_cases x with h | ⟨s, h⟩ | ⟨hxc, -⟩
  · have hnan : repack .notANumber = .notANumber := rfl
    rw [h, notANumber_add, hnan, le_notANumber]
    exact Bool.false_ne_true
  · rw [h] at hx ⊢
    cases s with
    | positive => exact (hx ((le_infinity htc _).mpr rfl)).elim
    | negative =>
      rcases neg_cases hy with h | ⟨hyc, -⟩
      · rw [h]
        exact hnot
      · rw [infinity_add hyc, repack_infinity]
        exact hnot
  · rcases neg_cases hy with h | ⟨hyc, hyneg⟩
    · rw [h, add_infinity hxc, repack_infinity]
      exact hnot
    · have hsum := rounded_add hxc hyc
      have hback : worth (parts x) + worth (parts y) ≤ worth (parts x) :=
        add_le_of_nonpos_right hyneg.le
      rw [le_repack htc htf hsum.canonical, le_iff_worth htc hsum.canonical, not_le]
      rw [le_iff_worth htc hxc, not_le] at hx
      exact lt_of_le_of_lt (hsum.worth_le hxc hback) hx

end SuperChip.Double
