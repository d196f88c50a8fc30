import SuperChip.Numeral.Double
import SuperChip.Proofs.Rounding

/-!
# Integers and doubles

An integer becomes the double nearest to it, so long as this is finite; and a double becomes an
integer no larger than it.  So what comes out of a double, or the next integer, can be turned back
into a double: the greatest double is so far from the next power of two that the integer after it is
rounded down to it.
-/

namespace SuperChip.Double

open Float.Model Float.Model.UnpackedFloat

/-- The greatest double. -/
def greatest : ℚ := (2 ^ 53 - 1) * 2 ^ 971

theorem greatest_nonneg : 0 ≤ greatest := mul_nonneg (by norm_num) (by positivity)

/-! ## From integers -/

/-- An integer of fifty-three digits is a double. -/
theorem worth_eq_of_rounded {n : ℤ} {u : UnpackedFloat} (h : Rounded n u) (hn : |n| ≤ 2 ^ 53) :
    worth u = n := by
  have hclose := h.nearest n 0 hn (by decide)
  rw [zpow_zero, mul_one, sub_self, abs_zero] at hclose
  exact sub_eq_zero.mp (abs_nonpos_iff.mp hclose)

theorem abs_worth_finite (s : Sign) {m : ℕ} (e : ℤ) (hm : 0 < m) :
    |worth (.finite s m e hm)| = m * 2 ^ e := by
  rw [worth, abs_mul, abs_of_pos (by positivity : (0 : ℚ) < 2 ^ e)]
  cases s <;> simp [Sign.apply]

theorem fits_of_worth_lt {u : UnpackedFloat} (hu : Canonical u) (h : |worth u| < 2 ^ 1024) :
    Fits u := by
  cases hu using Canonical.cases with
  | zero => trivial
  | finite s m e hm hd =>
    obtain ⟨hlt, hle, hfull⟩ := hd
    by_contra hfits
    have he : 972 ≤ e := by
      have : ¬ e ≤ 971 := hfits
      omega
    have hm52 : (2 : ℚ) ^ 52 ≤ m := by exact_mod_cast hfull.resolve_right (by omega)
    have hpow : (2 : ℚ) ^ 972 ≤ 2 ^ e := by
      rw [← zpow_natCast]
      exact zpow_le_zpow_right₀ one_le_two he
    have hlarge : (2 : ℚ) ^ (52 + 972) ≤ m * 2 ^ e := by
      rw [pow_add]
      gcongr
    rw [abs_worth_finite] at h
    exact absurd h (not_lt_of_ge hlarge)

theorem worth_eq_of_word {n : ℕ} (hn : n < 2 ^ 53) :
    Canonical (parts n.toUInt64.toFloat) ∧ worth (parts n.toUInt64.toFloat) = n := by
  have hword : parts n.toUInt64.toFloat =
      repack (UnpackedFloat.normalize .binary64 n 0 .positive) := by
    have : (n.toUInt64.toNat : ℤ) = n := by
      rw [Nat.toUInt64, UInt64.toNat_ofNat']
      omega
    rw [← this]
    rfl
  have hu := rounded_normalize n 0 .positive
  rw [zpow_zero, mul_one] at hu
  have hworth := worth_eq_of_rounded hu (by rw [Nat.abs_cast]; omega)
  have hlt : |worth (UnpackedFloat.normalize .binary64 n 0 .positive)| < 2 ^ 1024 := by
    have : (n : ℚ) < 2 ^ 53 := by exact_mod_cast hn
    rw [hworth, Int.cast_natCast, Nat.abs_cast]
    exact this.trans (pow_lt_pow_right₀ one_lt_two (by decide))
  rw [hword, repack_of_fits hu.canonical (fits_of_worth_lt hu.canonical hlt)]
  exact ⟨hu.canonical, hworth⟩

/-- A number of fifty-three digits is converted as a machine word and multiplied by one. -/
theorem exists_rounded_ofNat_of_lt {n : ℕ} (hn : n < 2 ^ 53) :
    ∃ u, Rounded n u ∧ parts (Float.ofNat n) = repack u := by
  have hmul : Float.ofNat n = n.toUInt64.toFloat * Float.ofBits 0x3FF0000000000000 := by
    change Float.ofScientific n false 0 = _
    rw [Float.ofScientific, dif_pos ⟨hn, Nat.zero_le _⟩]
    rfl
  have hone : parts (Float.ofBits 0x3FF0000000000000) =
      .finite .positive (2 ^ 52) (-52) (by positivity) := rfl
  have hcanonical : Canonical (.finite .positive (2 ^ 52) (-52) (by positivity)) :=
    ⟨by decide, by decide, .inl le_rfl⟩
  have hworth : worth (.finite .positive (2 ^ 52) (-52) (by positivity)) = 1 := by
    rw [worth]
    norm_num [Sign.apply]
  obtain ⟨hc, hw⟩ := worth_eq_of_word hn
  have hrounded := rounded_mul hc hcanonical
  rw [hw, hworth, mul_one] at hrounded
  refine ⟨_, hrounded, ?_⟩
  rw [hmul, ← hone]
  rfl

/-- A larger number is converted as its digits with zeros after them. -/
theorem exists_rounded_ofNat_of_le {n : ℕ} (hn : ¬ n < 2 ^ 53) :
    ∃ u, Rounded n u ∧ parts (Float.ofNat n) = repack u := by
  have hbig : Float.ofNat n = .ofModel (Float.Model.ofScientific n 0) := by
    change Float.ofScientific n false 0 = _
    rw [Float.ofScientific, dif_neg (fun h ↦ hn h.1)]
    rfl
  have h0 : 0 < n := by omega
  have hdigits : UnpackedFloat.ofScientific .binary64 n 0 =
      roundWithAccuracy .binary64 .positive (n <<< 53) (-53) .exact := by
    have hbits : (0 : ℤ) ≤ 2 ^ Format.binary64.exponentBits := by positivity
    rw [UnpackedFloat.ofScientific, dif_neg h0.ne', if_neg (by decide), if_neg (by omega),
      if_pos le_rfl]
    change roundWithAccuracy .binary64 .positive (n <<< 53 * 1) (-53) .exact = _
    rw [mul_one]
  have htarget : (-53 : ℤ) ≤
      Format.binary64.targetExponent (totalExponent (n <<< 53) (-53 : ℤ)) := by
    rw [targetExponent_eq, totalExponent, log2_shiftLeft h0]
    omega
  have hrounded := rounded_roundWithAccuracy .positive htarget
  rw [shiftLeft_worth n (by decide : (-53 : ℤ) + (53 : ℕ) = 0), zpow_zero, mul_one, ← hdigits]
    at hrounded
  refine ⟨UnpackedFloat.ofScientific .binary64 n 0, ?_, ?_⟩
  · simpa [Sign.apply] using hrounded
  · rw [hbig]
    rfl

/-- A natural number becomes the double nearest to it. -/
theorem exists_rounded_ofNat (n : ℕ) :
    ∃ u, Rounded n u ∧ parts (Float.ofNat n) = repack u := by
  by_cases hn : n < 2 ^ 53
  · exact exists_rounded_ofNat_of_lt hn
  · exact exists_rounded_ofNat_of_le hn

/-- The double of a natural number, if there is one, is the nearest one. -/
theorem rounded_toDouble {n : ℕ} {x : Float} (h : Numeral.toDouble n = .ok x) :
    Rounded n (parts x) := by
  rw [Numeral.toDouble] at h
  split at h
  next hfinite =>
    cases h
    obtain ⟨u, hu, hparts⟩ := exists_rounded_ofNat n
    have hparts : parts (Float.ofInt n) = repack u := hparts
    obtain ⟨hc, -⟩ := canonical_of_isFinite hfinite
    rw [hparts] at hc ⊢
    rcases repack_cases hu.canonical with heq | ⟨s, hinf⟩
    · rwa [heq]
    · rw [hinf] at hc
      exact hc.elim
  next => cases h

/-- An integer without a double is too large. -/
theorem eq_numberTooLarge_of_toDouble {n : ℤ} {f : Fault} (h : Numeral.toDouble n = .error f) :
    f = .numberTooLarge := by
  rw [Numeral.toDouble] at h
  split at h
  · cases h
  · exact (Except.error.inj h).symm

/-! ## To integers -/

theorem abs_worth_le_greatest {u : UnpackedFloat} (hu : Canonical u) (hf : Fits u) :
    |worth u| ≤ greatest := by
  cases hu using Canonical.cases with
  | zero =>
    change |(0 : ℚ)| ≤ _
    rw [abs_zero]
    exact greatest_nonneg
  | finite s m e hm hd =>
    obtain ⟨hlt, hle, hfull⟩ := hd
    have hm : (m : ℚ) ≤ 2 ^ 53 - 1 := by
      have : (m : ℚ) + 1 ≤ 2 ^ 53 := by exact_mod_cast hlt
      linarith
    have he : (2 : ℚ) ^ e ≤ 2 ^ 971 := by
      rw [← zpow_natCast]
      exact zpow_le_zpow_right₀ one_le_two hf
    rw [abs_worth_finite, greatest]
    exact mul_le_mul hm he (by positivity) (by norm_num)

/-- Dropping the fraction of a number leaves as many ones as there are in it. -/
theorem exists_roundToInt_eq (s : Sign) (m : ℕ) (e : ℤ) :
    ∃ k : ℕ, roundToInt s m e = s.apply k ∧ (k : ℚ) ≤ m * 2 ^ e ∧ (m : ℚ) * 2 ^ e < k + 1 := by
  obtain ⟨k, hk⟩ : ∃ k, (0 - (e - e.toNat : ℤ)).toNat = k := ⟨_, rfl⟩
  have hlocates := (locates_ofNat (m <<< e.toNat)).shiftRight k
  have hx : ((m <<< e.toNat : ℕ) : ℚ) / 2 ^ k = m * 2 ^ e := by
    rw [div_eq_iff (by positivity), mul_assoc, ← zpow_natCast 2 k, ← zpow_add₀ two_ne_zero,
      Nat.shiftLeft_eq, Nat.cast_mul, Nat.cast_pow, Nat.cast_ofNat, ← zpow_natCast]
    congr 2
    omega
  rw [hx] at hlocates
  set em := ExtendedMantissa.ofMantissaAndAccuracy (m <<< e.toNat) .exact >>> k with hem
  have hround : roundToInt s m e = s.apply em.mantissa := by
    rw [hem, ← hk, roundToInt, decreaseExponent_eq]
    simp only [sub_zero]
    rfl
  obtain ⟨hle, hlt⟩ := hlocates.floor
  exact ⟨em.mantissa, hround, hle, hlt⟩

/-- Dropping the fraction of a number does not make it larger. -/
theorem abs_roundToInt_le (s : Sign) (m : ℕ) (e : ℤ) : |(roundToInt s m e : ℚ)| ≤ m * 2 ^ e := by
  obtain ⟨k, hk, hle, -⟩ := exists_roundToInt_eq s m e
  have habs : |(s.apply k : ℚ)| = k := by
    cases s <;> simp [Sign.apply]
  rwa [hk, habs]

/-- What becomes of a double as an integer is not beyond the greatest double. -/
theorem abs_le_greatest_of_truncate {x : Float} {k : ℤ} (h : Numeral.truncate x = .ok k) :
    |(k : ℚ)| ≤ greatest := by
  rw [Numeral.truncate] at h
  split at h
  · cases h
  · cases h
  · cases h
    rw [Int.cast_zero, abs_zero]
    exact greatest_nonneg
  next s m e hm hx =>
    cases h
    have hparts : parts x = .finite s m e hm := hx
    rcases parts_cases x with h | ⟨s', h⟩ | ⟨hc, hf⟩
    · rw [hparts] at h
      cases h
    · rw [hparts] at h
      cases h
    · rw [hparts] at hc hf
      have hle := abs_worth_le_greatest hc hf
      rw [abs_worth_finite] at hle
      exact (abs_roundToInt_le s m e).trans hle

theorem greatest_lt : greatest + 2 < 2 ^ 1024 := by
  have htwo : (2 : ℚ) ^ 1 < 2 ^ 971 := pow_lt_pow_right₀ one_lt_two (by decide)
  have hpow : (2 : ℚ) ^ (53 + 971) = 2 ^ 53 * 2 ^ 971 := pow_add 2 53 971
  change greatest + 2 < 2 ^ (53 + 971)
  rw [pow_one] at htwo
  rw [hpow, greatest, sub_mul, one_mul]
  generalize (2 : ℚ) ^ 971 = unit at htwo
  linarith

/-- What is not larger than a double fits. -/
theorem fits_of_worth_le {u : UnpackedFloat} {x : Float} (hu : Canonical u)
    (hx : Canonical (parts x)) (h0 : 0 ≤ worth u) (h : worth u ≤ worth (parts x)) : Fits u := by
  apply fits_of_worth_lt hu
  rw [abs_of_nonneg h0]
  calc worth u ≤ |worth (parts x)| := h.trans (le_abs_self _)
    _ ≤ greatest := abs_worth_le_greatest hx (fits_parts hx)
    _ < greatest + 2 := lt_add_of_pos_right _ two_pos
    _ < 2 ^ 1024 := greatest_lt

/-- Up to the integer after the greatest double, natural numbers have a finite double. -/
theorem exists_toDouble_eq {n : ℕ} (hn : (n : ℚ) ≤ greatest + 1) :
    ∃ x, Numeral.toDouble n = .ok x := by
  obtain ⟨u, hu, hparts⟩ := exists_rounded_ofNat n
  have hgreatest : ((2 ^ 53 - 1 : ℤ) : ℚ) * 2 ^ (971 : ℤ) = greatest :=
    congrArg₂ (· * ·) (by norm_num) (zpow_natCast 2 971)
  have hclose := hu.nearest (2 ^ 53 - 1) 971 (by decide) (by decide)
  rw [hgreatest] at hclose
  have hlt : |worth u| < 2 ^ 1024 := by
    have hn0 : (0 : ℚ) ≤ n := n.cast_nonneg
    refine lt_of_le_of_lt ?_ greatest_lt
    rw [abs_le]
    rcases abs_cases (greatest - (n : ℚ)) with ⟨h, hge⟩ | ⟨h, hlt⟩
    · rw [h, abs_le] at hclose
      constructor <;> linarith
    · rw [h, abs_le] at hclose
      constructor <;> linarith
  have hfinite : (Float.ofNat n).isFinite := by
    change (parts (Float.ofNat n)).isFinite = true
    rw [hparts, repack_of_fits hu.canonical (fits_of_worth_lt hu.canonical hlt)]
    have hc := hu.canonical
    cases hc using Canonical.cases with
    | zero | finite => rfl
  exact ⟨Float.ofNat n, if_pos hfinite⟩

end SuperChip.Double
