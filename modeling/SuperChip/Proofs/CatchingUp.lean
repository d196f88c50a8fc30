import SuperChip.Proofs.Burst
import SuperChip.Proofs.Quotients

/-!
# Catching up comes to its end, unless too much is owed

Whole periods are taken from the time owed until less than one is left, each by a subtraction that
is rounded.  Up to `2 ^ 48` seconds doubles are at most a thirty-second apart, which is less than
two periods, so the next smaller double is nearer to the difference than the time owed itself; each
subtraction leaves less than there was, and the bits of the time owed, read as a number, come down
until the paying out ends.

Beyond `2 ^ 48` seconds, close to nine million years, doubles are a sixteenth or more apart.  This
is more than two periods, and a subtraction leaves the time owed as it was, again and again.
-/

namespace SuperChip

namespace Double

open Float.Model Float.Model.UnpackedFloat

/-! ## The spacing of doubles -/

/-- A large double is a whole number of large units. -/
theorem exists_units {u : UnpackedFloat} (hu : Canonical u) {k : ℤ}
    (h : (2 : ℚ) ^ (k + 52) ≤ worth u) : ∃ j : ℤ, worth u = j * 2 ^ k := by
  obtain ⟨m, e, -, -, hd, hw⟩ := hu.exists_positive (lt_of_lt_of_le (by positivity) h)
  have hke : k ≤ e := by
    by_contra hlt
    have hm : (m : ℚ) < 2 ^ 53 := by exact_mod_cast hd.lt
    have hpow : (2 : ℚ) ^ (e + 53) ≤ 2 ^ (k + 52) := zpow_le_zpow_right₀ one_le_two (by omega)
    have hless : (m : ℚ) * 2 ^ e < 2 ^ (e + 53) := by
      rw [zpow_add₀ two_ne_zero, mul_comm]
      gcongr
      exact hm
    linarith
  refine ⟨m * 2 ^ (e - k).toNat, ?_⟩
  rw [hw]
  push_cast
  rw [mul_assoc, ← zpow_natCast, ← zpow_add₀ two_ne_zero]
  congr 2
  omega

/-- A large double is a large unit away from a larger one. -/
theorem add_unit_le {u v : UnpackedFloat} (hu : Canonical u) (hv : Canonical v) {k : ℤ}
    (hlarge : (2 : ℚ) ^ (k + 52) ≤ worth u) (h : worth u < worth v) :
    worth u + 2 ^ k ≤ worth v := by
  obtain ⟨i, hi⟩ := exists_units hu hlarge
  obtain ⟨j, hj⟩ := exists_units hv (hlarge.trans h.le)
  have hunit : (0 : ℚ) < 2 ^ k := by positivity
  rw [hi, hj] at h ⊢
  have hij : i < j := by exact_mod_cast lt_of_mul_lt_mul_right h hunit.le
  have hsucc : (i : ℚ) + 1 ≤ j := by exact_mod_cast hij
  calc (i : ℚ) * 2 ^ k + 2 ^ k = (i + 1) * 2 ^ k := by ring
    _ ≤ j * 2 ^ k := by gcongr

/-- A small double is a whole number of small units, of which there are not too many. -/
theorem exists_small_units {u : UnpackedFloat} (hu : Canonical u) (hpos : 0 < worth u) {k : ℤ}
    (hk : -1074 ≤ k) (h : worth u ≤ 2 ^ (k + 53)) :
    ∃ n f : ℤ, 0 < n ∧ n ≤ 2 ^ 53 ∧ -1074 ≤ f ∧ f ≤ k ∧ worth u = n * 2 ^ f := by
  obtain ⟨m, e, hm, -, hd, hw⟩ := hu.exists_positive hpos
  have hlt := hd.lt
  rcases le_or_gt e k with hek | hek
  · exact ⟨m, e, by omega, by omega, hd.le, hek, hw⟩
  · -- All digits are used, so the number is the least one with its exponent.
    have hfull : (2 : ℚ) ^ 52 ≤ m := by exact_mod_cast hd.full.resolve_right (by omega)
    have hunit : (2 : ℚ) ^ (k + 1) ≤ 2 ^ e := zpow_le_zpow_right₀ one_le_two (by omega)
    have hpow : (2 : ℚ) ^ (k + 53) = 2 ^ 53 * 2 ^ k := by
      rw [zpow_add₀ two_ne_zero, mul_comm]
      rfl
    have hle : (2 : ℚ) ^ (k + 53) ≤ worth u :=
      calc (2 : ℚ) ^ (k + 53) = 2 ^ 52 * 2 ^ (k + 1) := by
            rw [hpow, zpow_add_one₀ two_ne_zero]
            ring
        _ ≤ m * 2 ^ e := by gcongr
        _ = worth u := hw.symm
    refine ⟨2 ^ 53, k, by decide, le_rfl, hk, le_rfl, ?_⟩
    rw [le_antisymm h hle, hpow]
    norm_num

/-! ## Taking something away -/

/-- Something that is less than half a unit is lost when it is taken away from a large double. -/
theorem Rounded.worth_eq_of_sub {u v w : UnpackedFloat} {k : ℤ} {t : ℚ} (hu : Canonical u)
    (hw : Canonical w) (hunit : worth w = 2 ^ (k + 52)) (hlarge : worth w < worth u) (h0 : 0 ≤ t)
    (ht : 2 * t < 2 ^ k) (hv : Rounded (worth u - t) v) : worth v = worth u := by
  obtain ⟨n, f, hn, hf, hnf⟩ := exists_eq_worth hu
  have hclose := hv.nearest n f hn hf
  rw [← hnf, sub_sub_cancel, abs_of_nonneg h0, abs_le] at hclose
  have hgap := add_unit_le hw hu hunit.ge hlarge
  have hback := hv.worth_le hu (sub_le_self _ h0)
  by_contra hne
  have hless : worth v < worth u := lt_of_le_of_ne hback hne
  rcases le_or_gt (worth w) (worth v) with h | h
  · have := add_unit_le hv.canonical hu (hunit ▸ h) hless
    linarith
  · linarith

/-- Something that is more than half a unit is not lost when it is taken from a small double. -/
theorem Rounded.worth_lt_of_sub {u v : UnpackedFloat} {k : ℤ} {t : ℚ} (hu : Canonical u)
    (hpos : 0 < worth u) (hk : -1074 ≤ k) (hsmall : worth u ≤ 2 ^ (k + 53)) (ht : 2 ^ k < 2 * t)
    (hv : Rounded (worth u - t) v) : worth v < worth u := by
  obtain ⟨n, f, hn, hmax, hf, hfk, hnf⟩ := exists_small_units hu hpos hk hsmall
  have hunit : (0 : ℚ) < 2 ^ f := by positivity
  have hpow : (2 : ℚ) ^ f ≤ 2 ^ k := zpow_le_zpow_right₀ one_le_two hfk
  have hdigits : |n - 1| ≤ 2 ^ 53 := by
    rw [abs_le]
    omega
  have hclose := hv.nearest (n - 1) f hdigits hf
  have hnext : ((n - 1 : ℤ) : ℚ) * 2 ^ f - (worth u - t) = t - 2 ^ f := by
    rw [hnf]
    push_cast
    ring
  have hless : |t - 2 ^ f| < t := by
    rw [abs_lt]
    constructor <;> linarith
  rw [hnext] at hclose
  linarith [le_abs_self (worth v - (worth u - t))]

/-- Something that is less than half a unit does not bring a double past a large one. -/
theorem Rounded.worth_le_of_add {u v w : UnpackedFloat} {k : ℤ} {t : ℚ} (hw : Canonical w)
    (hunit : worth w = 2 ^ (k + 52)) (h : worth v ≤ worth w) (ht : 2 * t < 2 ^ k)
    (hu : Rounded (t + worth v) u) : worth u ≤ worth w := by
  rcases le_or_gt (t + worth v) (worth w) with hsum | hsum
  · exact hu.worth_le hw hsum
  · obtain ⟨n, f, hn, hf, hnf⟩ := exists_eq_worth hw
    have hclose := hu.nearest n f hn hf
    rw [← hnf, abs_sub_comm (worth w), abs_of_pos (sub_pos.mpr hsum)] at hclose
    by_contra hgt
    have hgap := add_unit_le hw hu.canonical hunit.ge (not_le.mp hgt)
    linarith [le_abs_self (worth u - (t + worth v))]

/-- A difference that is not negative is not the negative zero. -/
theorem normalize_ne_zero_negative {m : ℤ} (hm : 0 ≤ m) (e : ℤ) :
    UnpackedFloat.normalize .binary64 m e .positive ≠ .zero .negative := by
  rw [UnpackedFloat.normalize]
  rcases hm.eq_or_lt with rfl | h
  · rw [compare_eq_iff_eq.mpr rfl]
    rintro ⟨⟩
  · rw [compare_gt_iff_gt.mpr h]
    simp only [UnpackedFloat.round, roundWithAccuracy]
    split <;> rintro ⟨⟩

theorem sub_ne_zero_negative {m n : ℕ} {e f : ℤ} {hm : 0 < m} {hn : 0 < n}
    (h : worth (.finite .positive n f hn) ≤ worth (.finite .positive m e hm)) :
    UnpackedFloat.sub .binary64 (.finite .positive m e hm) (.finite .positive n f hn) ≠
      .zero .negative := by
  refine normalize_ne_zero_negative (sub_nonneg.mpr ?_) _
  have hle : (Sign.positive.apply (n <<< (f - min e f).toNat : ℕ) : ℚ) * 2 ^ min e f ≤
      Sign.positive.apply (m <<< (e - min e f).toNat : ℕ) * 2 ^ min e f := by
    rw [worth_decreaseExponent .positive n (min_le_right e f),
      worth_decreaseExponent .positive m (min_le_left e f)]
    exact h
  exact_mod_cast le_of_mul_le_mul_right hle (by positivity)

end Double

namespace Machine

open Double Float.Model

/-! ## One period -/

/-- The most that can be owed if it is to be paid out, in seconds. -/
def horizon : Float := 281474976710656.0

theorem canonical_horizon : Canonical (parts horizon) :=
  (canonical_of_isFinite (by decide +kernel)).1

theorem worth_horizon : worth (parts horizon) = 2 ^ (48 : ℤ) := by
  have hworth : worth (parts horizon) = (2 ^ 52 : ℤ) * 2 ^ (-4 : ℤ) := rfl
  rw [hworth]
  norm_num

theorem parts_tickInterval :
    parts tickInterval = .finite .positive 4803839602528529 (-58) (by decide) := rfl

theorem canonical_tickInterval : Canonical (parts tickInterval) :=
  (canonical_of_isFinite isFinite_tickInterval).1

/-- A period is between half a unit of the last place below the horizon and one above it. -/
theorem worth_tickInterval : 2 ^ (-5 : ℤ) < 2 * worth (parts tickInterval) ∧
    2 * worth (parts tickInterval) < 2 ^ (-4 : ℤ) := by
  have hworth : worth (parts tickInterval) = (4803839602528529 : ℤ) * 2 ^ (-58 : ℤ) := rfl
  rw [hworth]
  constructor <;> norm_num

theorem worth_tickInterval_pos : 0 < worth (parts tickInterval) := by
  have := worth_tickInterval.1
  have : (0 : ℚ) < 2 ^ (-5 : ℤ) := by positivity
  linarith

variable {x : Float}

/-- What is owed and can be paid out is a number between a period and the horizon. -/
theorem worth_of_payable (hle : tickInterval ≤ x) (hx : ¬ horizon < x) :
    Canonical (parts x) ∧ worth (parts tickInterval) ≤ worth (parts x) ∧
      worth (parts x) ≤ worth (parts horizon) := by
  rw [le_iff_parts] at hle
  rw [lt_iff_parts] at hx
  rcases parts_cases x with h | ⟨s, h⟩ | ⟨hc, -⟩
  · rw [h, le_notANumber] at hle
    cases hle
  · rw [h] at hle hx
    obtain rfl := (le_infinity canonical_tickInterval s).mp hle
    exact absurd rfl hx
  · rw [le_iff_worth canonical_tickInterval hc] at hle
    rw [lt_iff_worth canonical_horizon hc, not_lt] at hx
    exact ⟨hc, hle, hx⟩

/-- Up to the horizon, taking a period away leaves less than there was, and its bits are a smaller
number. -/
theorem sub_tickInterval_of_payable (hle : tickInterval ≤ x) (hx : ¬ horizon < x) :
    (x - tickInterval).toBits.toNat < x.toBits.toNat ∧ ¬ horizon < x - tickInterval := by
  obtain ⟨hc, hlow, hhigh⟩ := worth_of_payable hle hx
  have hpos := worth_tickInterval_pos.trans_le hlow
  have hsub := rounded_sub hc canonical_tickInterval
  have hless := hsub.worth_lt_of_sub hc hpos (k := -5) (by decide)
    (by rw [worth_horizon] at hhigh; exact hhigh) worth_tickInterval.1
  have hnonneg := hsub.le_worth (v := .zero .positive) trivial (sub_nonneg.mpr hlow)
  have hfits := fits_of_worth_le hsub.canonical hc hnonneg hless.le
  have hparts := (parts_sub x tickInterval).trans (repack_of_fits hsub.canonical hfits)
  rw [← hparts] at hsub hless hnonneg
  constructor
  · rcases hnonneg.eq_or_lt with hzero | hsome
    · obtain ⟨m, e, hm, hx, -, -⟩ := hc.exists_positive hpos
      obtain ⟨s, hs⟩ := hsub.canonical.exists_zero hzero.symm
      -- Nothing is left, and the zero has no sign.
      obtain rfl : s = .positive := by
        rw [hx, parts_tickInterval] at hlow hparts
        cases s with
        | positive => rfl
        | negative => exact absurd (hparts.symm.trans hs) (sub_ne_zero_negative hlow)
      have hnone : x - tickInterval = 0.0 := eq_of_parts_eq (hs.trans rfl)
      have hbits : (0.0 : Float).toBits.toNat = 0 := rfl
      rw [hnone, hbits, toNat_toBits hx]
      exact Nat.add_pos_right _ hm
    · exact toNat_toBits_lt hsub.canonical hc hsome hless
  · rw [lt_iff_parts, lt_iff_worth canonical_horizon hsub.canonical, not_lt]
    exact hless.le.trans hhigh

/-- What is beyond the horizon is an infinity or a number. -/
theorem horizon_lt_cases (hx : horizon < x) : parts x = .infinity .positive ∨
    Canonical (parts x) ∧ worth (parts horizon) < worth (parts x) := by
  rw [lt_iff_parts] at hx
  rcases parts_cases x with h | ⟨s, h⟩ | ⟨hc, -⟩
  · rw [h] at hx
    cases hx
  · rw [h] at hx
    cases s with
    | positive => exact .inl h
    | negative => cases hx
  · exact .inr ⟨hc, (lt_iff_worth canonical_horizon hc).mp hx⟩

theorem worth_tickInterval_lt_horizon : worth (parts tickInterval) < worth (parts horizon) := by
  have hperiod := worth_tickInterval.2
  have hunits : (2 : ℚ) ^ (-4 : ℤ) < 2 ^ (48 : ℤ) := zpow_lt_zpow_right₀ one_lt_two (by decide)
  have hpos := worth_tickInterval_pos
  rw [worth_horizon]
  linarith

theorem tickInterval_le_of_horizon_lt (hx : horizon < x) : tickInterval ≤ x := by
  rw [le_iff_parts]
  rcases horizon_lt_cases hx with h | ⟨hc, hlt⟩
  · rw [h]
    rfl
  · exact (le_iff_worth canonical_tickInterval hc).mpr (worth_tickInterval_lt_horizon.trans hlt).le

/-- Beyond the horizon, taking a period away leaves what there was. -/
theorem sub_tickInterval_of_horizon_lt (hx : horizon < x) : x - tickInterval = x := by
  apply eq_of_parts_eq
  rw [parts_sub]
  rcases horizon_lt_cases hx with h | ⟨hc, hlt⟩
  · rw [h, parts_tickInterval]
    rfl
  · have hsub := rounded_sub hc canonical_tickInterval
    have hunits : worth (parts horizon) = 2 ^ (-4 + 52 : ℤ) := worth_horizon
    have heq := hsub.worth_eq_of_sub hc canonical_horizon hunits hlt worth_tickInterval_pos.le
      worth_tickInterval.2
    have hpos : 0 < worth (parts x) :=
      (worth_tickInterval_pos.trans worth_tickInterval_lt_horizon).trans hlt
    have hsame := hsub.canonical.eq_of_worth_eq hc hpos heq
    rw [hsame]
    exact repack_of_fits hc (fits_parts hc)

/-- Less than a period is a number. -/
theorem worth_of_lt_tickInterval (h0 : 0.0 ≤ x) (hx : x < tickInterval) :
    Canonical (parts x) ∧ 0 ≤ worth (parts x) ∧
      worth (parts x) < worth (parts tickInterval) := by
  rw [le_iff_parts] at h0
  rw [lt_iff_parts] at hx
  rcases parts_cases x with h | ⟨s, h⟩ | ⟨hc, -⟩
  · rw [h] at hx
    cases hx
  · rw [h] at h0 hx
    cases s with
    | positive => cases hx
    | negative => cases h0
  · exact ⟨hc, (le_iff_worth (u := .zero .positive) trivial hc).mp h0,
      (lt_iff_worth hc canonical_tickInterval).mp hx⟩

/-- Less than a period does not bring time past the horizon. -/
theorem horizon_lt_add_iff {y : Float} (h0 : 0.0 ≤ x) (hx : x < tickInterval) (hy : y.isFinite) :
    horizon < x + y ↔ horizon < y := by
  obtain ⟨hyc, -⟩ := canonical_of_isFinite hy
  obtain ⟨hxc, hnonneg, hless⟩ := worth_of_lt_tickInterval h0 hx
  have hsum := rounded_add hxc hyc
  rw [lt_iff_parts, lt_iff_parts, parts_add, UnpackedFloat.lt,
    compare_repack canonical_horizon (fits_parts canonical_horizon) hsum.canonical]
  change (parts horizon).lt _ = true ↔ _
  rw [lt_iff_worth canonical_horizon hsum.canonical, lt_iff_worth canonical_horizon hyc]
  constructor
  · intro h
    by_contra hback
    refine absurd h (not_lt_of_ge ?_)
    have hperiod := worth_tickInterval.2
    have hunits : worth (parts horizon) = 2 ^ (-4 + 52 : ℤ) := worth_horizon
    exact hsum.worth_le_of_add canonical_horizon hunits (not_lt.mp hback) (by linarith)
  · intro h
    exact h.trans_le (hsum.le_worth hyc (le_add_of_nonneg_left hnonneg))

/-! ## Paying out -/

variable {m : Machine}

/-- The machine to which some more time is owed. -/
def elapse (m : Machine) (elapsed : Float) : Machine := { m with owed := m.owed + elapsed }

/-- Up to the horizon, paying out comes to its end. -/
theorem exists_payOut_of_not_lt (h : ¬ horizon < m.owed) (i : Nat) : ∃ r, m.payOut i = some r := by
  fun_induction payOut m i with
  | case1 m i hle left hlt ih => exact ih (sub_tickInterval_of_payable hle h).2
  | case2 m i hle left hlt => exact absurd (sub_tickInterval_of_payable hle h).1 hlt
  | case3 m i hle => exact ⟨_, rfl⟩

/-- Up to the horizon, time that is added is paid out in the rounds up to the first that is not
due. -/
theorem exists_advanceClock_eq {elapsed : Float} (h : ¬ horizon < (m.elapse elapsed).owed) :
    ∃ m' k, m.advanceClock elapsed = some (m', k) ∧
      (∀ j < k, tickInterval ≤ (payTick^[j] (m.elapse elapsed)).owed) ∧
      ¬ tickInterval ≤ (payTick^[k] (m.elapse elapsed)).owed := by
  obtain ⟨⟨n, i⟩, hp⟩ := exists_payOut_of_not_lt h 0
  obtain ⟨k, rfl, rfl, hbefore, hless⟩ := exists_payOut_eq hp
  rw [Nat.zero_add] at hp
  rw [advanceClock]
  change ∃ m' i, (m.elapse elapsed).payOut 0 >>= _ = some (m', i) ∧ _
  rw [hp]
  exact ⟨_, k, rfl, hbefore, hless⟩

/-- Beyond the horizon, rounds leave the time owed as it is. -/
theorem owed_iterate_payTick (h : horizon < m.owed) (k : Nat) :
    (payTick^[k] m).owed = m.owed := by
  induction k with
  | zero => rfl
  | succ k ih =>
    rw [Function.iterate_succ_apply']
    change (payTick^[k] m).owed - tickInterval = m.owed
    rw [ih, sub_tickInterval_of_horizon_lt h]

theorem tickInterval_le_iterate_payTick (h : horizon < m.owed) (k : Nat) :
    tickInterval ≤ (payTick^[k] m).owed := by
  rw [owed_iterate_payTick h]
  exact tickInterval_le_of_horizon_lt h

theorem advanceClock_of_horizon_lt {elapsed : Float} (h : horizon < (m.elapse elapsed).owed) :
    m.advanceClock elapsed = none := by
  have hp : (m.elapse elapsed).payOut 0 = none := by
    rw [payOut, if_pos (tickInterval_le_of_horizon_lt h)]
    simp only [sub_tickInterval_of_horizon_lt h, lt_irrefl, if_false]
  rw [advanceClock]
  change (m.elapse elapsed).payOut 0 >>= _ = none
  rw [hp]
  rfl

theorem le_horizon_iff {y : Float} (hy : y.isFinite) : y ≤ horizon ↔ ¬ horizon < y := by
  obtain ⟨hc, -⟩ := canonical_of_isFinite hy
  rw [le_iff_parts, lt_iff_parts, le_iff_worth hc canonical_horizon,
    lt_iff_worth canonical_horizon hc, not_lt]

/-- When time is added to a machine that owes less than a period, the rounds come to one that is not
due exactly if no more than the horizon was added.  If so, the rounds before that one are made, and
less than a period is left; they are ticks but for the time owed.  If not, every round finds as much
owed as the one before, and the machine never comes out of them. -/
theorem catching_up_ends_iff {elapsed : Float} (h0 : 0.0 ≤ m.owed) (hm : m.owed < tickInterval)
    (he : elapsed.isFinite) :
    ((∃ k, ¬ tickInterval ≤ (payTick^[k] (m.elapse elapsed)).owed) ↔ elapsed ≤ horizon) ∧
      (elapsed ≤ horizon → ∃ m' k, m.advanceClock elapsed = some (m', k) ∧
        (∀ j < k, tickInterval ≤ (payTick^[j] (m.elapse elapsed)).owed) ∧
        ¬ tickInterval ≤ (payTick^[k] (m.elapse elapsed)).owed ∧
        m' = { tick^[k] m with owed := m'.owed } ∧
        ¬ m'.owed < 0.0 ∧ ¬ tickInterval ≤ m'.owed) ∧
      (¬ elapsed ≤ horizon → m.advanceClock elapsed = none ∧
        ∀ k, (payTick^[k] (m.elapse elapsed)).owed = (m.elapse elapsed).owed) := by
  have hsum : horizon < (m.elapse elapsed).owed ↔ ¬ elapsed ≤ horizon :=
    (horizon_lt_add_iff h0 hm he).trans (by rw [le_horizon_iff he, not_not])
  refine ⟨⟨fun ⟨k, hk⟩ ↦ ?_, fun h ↦ ?_⟩, fun h ↦ ?_, fun h ↦ ?_⟩
  · by_contra hfar
    exact hk (tickInterval_le_iterate_payTick (hsum.mpr hfar) k)
  · obtain ⟨-, k, -, -, hless⟩ := exists_advanceClock_eq (mt hsum.mp (not_not.mpr h))
    exact ⟨k, hless⟩
  · obtain ⟨m', k, hadv, hbefore, hless⟩ := exists_advanceClock_eq (mt hsum.mp (not_not.mpr h))
    exact ⟨m', k, hadv, hbefore, hless, advanceClock_eq hadv⟩
  · exact ⟨advanceClock_of_horizon_lt (hsum.mpr h), owed_iterate_payTick (hsum.mpr h)⟩

/-- With the horizon itself, the ringing machine comes to the end of its rounds. -/
theorem catching_up_ends_iff_ringing : 0.0 ≤ ringing.owed ∧ ringing.owed < tickInterval ∧
    horizon.isFinite ∧ (∃ k, ¬ tickInterval ≤ (payTick^[k] (ringing.elapse horizon)).owed) ∧
    ∃ m' k, ringing.advanceClock horizon = some (m', k) ∧
      m' = { tick^[k] ringing with owed := m'.owed } := by
  have h0 : 0.0 ≤ ringing.owed := by decide +kernel
  have hm : ringing.owed < tickInterval := by decide +kernel
  have he : horizon.isFinite := by decide +kernel
  have hle : horizon ≤ horizon := by decide +kernel
  obtain ⟨hends, hpaid, -⟩ := catching_up_ends_iff h0 hm he
  obtain ⟨m', k, hadv, -, -, heq, -⟩ := hpaid hle
  exact ⟨h0, hm, he, hends.mpr hle, m', k, hadv, heq⟩

/-- With a second more, it never does. -/
theorem ringing_never_catches_up : 0.0 ≤ ringing.owed ∧ ringing.owed < tickInterval ∧
    (281474976710657.0 : Float).isFinite ∧
    (∀ k, tickInterval ≤ (payTick^[k] (ringing.elapse 281474976710657.0)).owed) ∧
    ringing.advanceClock 281474976710657.0 = none := by
  have hfar : horizon < (ringing.elapse 281474976710657.0).owed := by decide +kernel
  exact ⟨by decide +kernel, by decide +kernel, by decide +kernel,
    tickInterval_le_iterate_payTick hfar, advanceClock_of_horizon_lt hfar⟩

end Machine

end SuperChip
