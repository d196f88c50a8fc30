import Mathlib

/-!
# Doubles as numbers

A double that is neither infinite nor an error stands for a rational number, the signed product of
its digits and a power of two.  The comparisons of doubles look at digits and exponents only, which
is right because these are canonical: there are fifty-three binary digits, with a first one that is
not zero unless the exponent is the least.  So the order of doubles is that of the numbers.

The result of an operation is first computed with an exponent of any size and then packed into
sixty-four bits.  What is too large becomes an infinity; this does not change how it compares with a
double that is finite.
-/

namespace SuperChip.Double

open Float.Model Float.Model.UnpackedFloat

/-- What the bits of a double stand for. -/
def parts (x : Float) : UnpackedFloat := x.toModel.unpack

/-- What is left of a result when it is packed into a double. -/
def repack (u : UnpackedFloat) : UnpackedFloat := unpack .binary64 (pack .binary64 u)

/-- The number that digits and exponent stand for. -/
def worth : UnpackedFloat → ℚ
  | .finite s m e _ => s.apply m * 2 ^ e
  | _ => 0

/-- Digits and an exponent are canonical. -/
structure Digits (m : ℕ) (e : ℤ) : Prop where
  /-- There are at most fifty-three digits. -/
  lt : m < 2 ^ 53
  /-- The exponent is not below the least one. -/
  le : -1074 ≤ e
  /-- All digits are used unless the exponent is the least one. -/
  full : 2 ^ 52 ≤ m ∨ e = -1074

/-- A result is a number with canonical digits. -/
def Canonical : UnpackedFloat → Prop
  | .zero _ => True
  | .finite _ m e _ => Digits m e
  | _ => False

/-- A result is not too large for a double. -/
def Fits : UnpackedFloat → Prop
  | .finite _ _ e _ => e ≤ 971
  | _ => True

/-- What has canonical digits is a zero or a finite number. -/
@[elab_as_elim]
theorem Canonical.cases {motive : ∀ u, Canonical u → Prop} (zero : ∀ s, motive (.zero s) trivial)
    (finite : ∀ s m e (hm : 0 < m) (hd : Digits m e), motive (.finite s m e hm) hd)
    {u : UnpackedFloat} (hu : Canonical u) : motive u hu := by
  cases u with
  | infinity | notANumber => exact hu.elim
  | zero s => exact zero s
  | finite s m e hm => exact finite s m e hm hu

/-! ## Order -/

theorem Digits.lt_of_lt {m n : ℕ} {e f : ℤ} (hm : Digits m e) (hn : Digits n f) (h : e < f) :
    (m : ℚ) * 2 ^ e < n * 2 ^ f := by
  have hle := hm.le
  have hfull : (2 : ℚ) ^ 52 ≤ n := by exact_mod_cast hn.full.resolve_right (by omega)
  have hlt : (m : ℚ) < 2 ^ 53 := by exact_mod_cast hm.lt
  have hpow : (2 : ℚ) ^ (e + 1) ≤ 2 ^ f := zpow_le_zpow_right₀ one_le_two (by omega)
  calc (m : ℚ) * 2 ^ e < 2 ^ 53 * 2 ^ e := by gcongr
    _ = 2 ^ 52 * 2 ^ (e + 1) := by rw [zpow_add_one₀ two_ne_zero]; ring
    _ ≤ n * 2 ^ f := by gcongr

/-- Canonical digits are compared by their exponents first. -/
theorem Digits.compares {m n : ℕ} {e f : ℤ} (hm : Digits m e) (hn : Digits n f) :
    ((compare e f).then (compare m n)).Compares ((m : ℚ) * 2 ^ e) (n * 2 ^ f) := by
  rcases lt_trichotomy e f with h | rfl | h
  · rw [compare_lt_iff_lt.mpr h]
    exact hm.lt_of_lt hn h
  · rw [compare_eq_iff_eq.mpr rfl]
    rcases lt_trichotomy m n with h | rfl | h
    · rw [compare_lt_iff_lt.mpr h]
      change (m : ℚ) * 2 ^ e < n * 2 ^ e
      gcongr
    · rw [compare_eq_iff_eq.mpr rfl]
      rfl
    · rw [compare_gt_iff_gt.mpr h]
      change (n : ℚ) * 2 ^ e < m * 2 ^ e
      gcongr
  · rw [compare_gt_iff_gt.mpr h]
    exact hn.lt_of_lt hm h

/-- Canonical digits are told by the number that they stand for. -/
theorem Digits.eq_of_eq {m n : ℕ} {e f : ℤ} (hm : Digits m e) (hn : Digits n f)
    (h : (m : ℚ) * 2 ^ e = n * 2 ^ f) : m = n ∧ e = f := by
  rcases lt_trichotomy e f with hef | rfl | hef
  · exact absurd h (hm.lt_of_lt hn hef).ne
  · exact ⟨by exact_mod_cast mul_right_cancel₀ (by positivity) h, rfl⟩
  · exact absurd h (hn.lt_of_lt hm hef).ne'

theorem worth_positive_pos {m : ℕ} (e : ℤ) (h : 0 < m) : 0 < worth (.finite .positive m e h) := by
  change (0 : ℚ) < ((m : ℤ) : ℚ) * 2 ^ e
  have : (0 : ℚ) < m := by exact_mod_cast h
  push_cast
  positivity

theorem worth_negative {m : ℕ} (e : ℤ) (h : 0 < m) :
    worth (.finite .negative m e h) = -worth (.finite .positive m e h) := by
  change ((-(m : ℤ) : ℤ) : ℚ) * 2 ^ e = -(((m : ℤ) : ℚ) * 2 ^ e)
  rw [Int.cast_neg, neg_mul]

theorem worth_negative_neg {m : ℕ} (e : ℤ) (h : 0 < m) : worth (.finite .negative m e h) < 0 := by
  rw [worth_negative]
  exact neg_neg_of_pos (worth_positive_pos e h)

/-- What stands for a positive number has digits and no sign. -/
theorem Canonical.exists_positive {u : UnpackedFloat} (hu : Canonical u) (h : 0 < worth u) :
    ∃ m e, ∃ hm : 0 < m, u = .finite .positive m e hm ∧ Digits m e ∧ worth u = m * 2 ^ e := by
  cases hu using Canonical.cases with
  | zero => exact absurd h (lt_irrefl 0)
  | finite s m e hm hd =>
    cases s with
    | negative => exact absurd h (not_lt_of_gt (worth_negative_neg e hm))
    | positive => exact ⟨m, e, hm, rfl, hd, rfl⟩

theorem Canonical.exists_zero {u : UnpackedFloat} (hu : Canonical u) (h : worth u = 0) :
    ∃ s, u = .zero s := by
  cases hu using Canonical.cases with
  | zero s => exact ⟨s, rfl⟩
  | finite s m e hm =>
    cases s with
    | negative => exact absurd h (worth_negative_neg e hm).ne
    | positive => exact absurd h (worth_positive_pos e hm).ne'

/-- What stands for the same positive number is the same. -/
theorem Canonical.eq_of_worth_eq {u v : UnpackedFloat} (hu : Canonical u) (hv : Canonical v)
    (hpos : 0 < worth v) (h : worth u = worth v) : u = v := by
  obtain ⟨m, e, hm, rfl, hdu, hwu⟩ := hu.exists_positive (h ▸ hpos)
  obtain ⟨n, f, hn, rfl, hdv, hwv⟩ := hv.exists_positive hpos
  obtain ⟨rfl, rfl⟩ := hdu.eq_of_eq hdv (hwu.symm.trans (h.trans hwv))
  rfl

theorem compares_neg {o : Ordering} {a b : ℚ} (h : o.Compares a b) : o.swap.Compares (-a) (-b) := by
  cases o with
  | lt => exact neg_lt_neg (α := ℚ) h
  | eq => exact congrArg Neg.neg h
  | gt => exact neg_lt_neg (α := ℚ) h

/-- The order of canonical results is that of the numbers that they stand for. -/
theorem exists_compares {u v : UnpackedFloat} (hu : Canonical u) (hv : Canonical v) :
    ∃ o, u.compare v = some o ∧ o.Compares (worth u) (worth v) := by
  cases hu using Canonical.cases with
  | zero s =>
    cases hv using Canonical.cases with
    | zero s' => exact ⟨.eq, rfl, rfl⟩
    | finite s' n f hn =>
      cases s' with
      | positive => exact ⟨.lt, rfl, worth_positive_pos f hn⟩
      | negative => exact ⟨.gt, rfl, worth_negative_neg f hn⟩
  | finite s m e hm hd =>
    cases hv using Canonical.cases with
    | zero s' =>
      cases s with
      | positive => exact ⟨.gt, rfl, worth_positive_pos e hm⟩
      | negative => exact ⟨.lt, rfl, worth_negative_neg e hm⟩
    | finite s' n f hn hd' =>
      have hc : Ordering.Compares _ (worth (.finite .positive m e hm))
        (worth (.finite .positive n f hn)) := Digits.compares hd hd'
      cases s <;> cases s'
      · rw [worth_negative, worth_negative]
        exact ⟨_, rfl, compares_neg hc⟩
      · exact ⟨.lt, rfl, (worth_negative_neg e hm).trans (worth_positive_pos f hn)⟩
      · exact ⟨.gt, rfl, (worth_negative_neg f hn).trans (worth_positive_pos e hm)⟩
      · exact ⟨_, rfl, hc⟩

theorem le_iff_worth {u v : UnpackedFloat} (hu : Canonical u) (hv : Canonical v) :
    u.le v = true ↔ worth u ≤ worth v := by
  obtain ⟨o, ho, hc⟩ := exists_compares hu hv
  rw [UnpackedFloat.le, ho]
  cases o with
  | lt => exact iff_of_true rfl (le_of_lt hc)
  | eq => exact iff_of_true rfl (le_of_eq hc)
  | gt => exact iff_of_false Bool.false_ne_true (not_le_of_gt hc)

theorem lt_iff_worth {u v : UnpackedFloat} (hu : Canonical u) (hv : Canonical v) :
    u.lt v = true ↔ worth u < worth v := by
  obtain ⟨o, ho, hc⟩ := exists_compares hu hv
  rw [UnpackedFloat.lt, ho]
  cases o with
  | lt => exact iff_of_true rfl hc
  | eq => exact iff_of_false Bool.false_ne_true (not_lt_of_ge (ge_of_eq hc))
  | gt => exact iff_of_false Bool.false_ne_true (not_lt_of_gt hc)

theorem le_notANumber (u : UnpackedFloat) : u.le .notANumber = false := by
  cases u <;> rfl

theorem le_infinity {u : UnpackedFloat} (hu : Canonical u) (s : Sign) :
    u.le (.infinity s) = true ↔ s = .positive := by
  cases hu using Canonical.cases with
  | zero => cases s <;> simp [UnpackedFloat.le, UnpackedFloat.compare]
  | finite s' => cases s <;> cases s' <;> simp [UnpackedFloat.le, UnpackedFloat.compare]

/-! ## Packing -/

theorem finite_congr (s : Sign) {m n : ℕ} {e f : ℤ} (hm : m = n) (he : e = f) (h : 0 < m) :
    UnpackedFloat.finite s m e h = .finite s n f (hm ▸ h) := by
  subst hm he
  rfl

theorem toNat_implicit (m : BitVec 52) : (1#1 ++ m).toNat = 2 ^ 52 + m.toNat := by
  rw [BitVec.toNat_append, ← Nat.shiftLeft_add_eq_or_of_lt m.isLt]
  rfl

theorem bias_eq : (Format.binary64.exponentBias : ℤ) +
    (Format.binary64.mantissaBitsWithoutImplicit : ℤ) = 1075 := rfl

/-- The bits of a double are those of an error, an infinity, or a number with canonical digits. -/
theorem unpack_cases (b : BitVec Format.binary64.numBits) :
    UnpackedFloat.unpack .binary64 b = .notANumber ∨
      (∃ s, UnpackedFloat.unpack .binary64 b = .infinity s) ∨
      Canonical (UnpackedFloat.unpack .binary64 b) ∧ Fits (UnpackedFloat.unpack .binary64 b) := by
  have he : (unpackExponent b).toNat < 2 ^ 11 := (unpackExponent b).isLt
  have hm : (unpackMantissa b).toNat < 2 ^ 52 := (unpackMantissa b).isLt
  rw [UnpackedFloat.unpack, bias_eq]
  split
  · split
    · exact .inr (.inl ⟨_, rfl⟩)
    · exact .inl rfl
  next hinf =>
    refine .inr (.inr ?_)
    split
    next hsub =>
      split
      · exact ⟨trivial, trivial⟩
      next hz =>
        have hzero : (unpackExponent b).toNat = 0 := congrArg BitVec.toNat hsub
        rw [hzero]
        exact ⟨⟨by omega, by decide, .inr rfl⟩, (by decide : ((0 : ℕ) : ℤ) - 1075 + 1 ≤ 971)⟩
    next hsub =>
      have hzero : (unpackExponent b).toNat ≠ 0 := fun h ↦ hsub (BitVec.eq_of_toNat_eq h)
      have hmax : (unpackExponent b).toNat ≠ 2 ^ 11 - 1 := fun h ↦ hinf (BitVec.eq_of_toNat_eq h)
      have hmant := toNat_implicit (unpackMantissa b)
      refine ⟨⟨by omega, by omega, .inl (by omega)⟩, ?_⟩
      change ((unpackExponent b).toNat : ℤ) - 1075 ≤ 971
      omega

theorem parts_cases (x : Float) :
    parts x = .notANumber ∨ (∃ s, parts x = .infinity s) ∨ Canonical (parts x) ∧ Fits (parts x) :=
  unpack_cases x.toModel.toBits.toBitVec

theorem fits_parts {x : Float} (h : Canonical (parts x)) : Fits (parts x) := by
  rcases parts_cases x with hx | ⟨s, hx⟩ | ⟨-, hf⟩
  · rw [hx] at h
    exact h.elim
  · rw [hx] at h
    exact h.elim
  · exact hf

/-- With an exponent that is neither the least nor the greatest, the first digit is left out. -/
theorem unpack_normal (s : Sign) {e : BitVec 11} (m : BitVec 52) (hz : e.toNat ≠ 0)
    (hi : e.toNat ≠ 2047) :
    UnpackedFloat.unpack .binary64 (packComponents .binary64 s e m) =
      .finite s (2 ^ 52 + m.toNat) (e.toNat - 1075) (Nat.add_pos_left (Nat.two_pow_pos 52) _) := by
  simp only [UnpackedFloat.unpack, unpackMantissa_packComponents, unpackExponent_packComponents,
    unpackSign_packComponents, Sign.ofBitVec_toBitVec]
  rw [if_neg fun h ↦ hi (congrArg BitVec.toNat h), if_neg fun h ↦ hz (congrArg BitVec.toNat h)]
  exact finite_congr s (toNat_implicit m) rfl _

/-- With the least exponent no digit is left out. -/
theorem unpack_subnormal (s : Sign) {m : BitVec 52} (hm : 0 < m.toNat) :
    UnpackedFloat.unpack .binary64 (packComponents .binary64 s 0 m) =
      .finite s m.toNat (-1074) hm := by
  simp only [UnpackedFloat.unpack, unpackMantissa_packComponents, unpackExponent_packComponents,
    unpackSign_packComponents, Sign.ofBitVec_toBitVec]
  rw [if_neg (by decide), if_pos (by rfl), dif_neg fun h ↦ hm.ne' (congrArg BitVec.toNat h)]
  rfl

theorem repack_infinity (s : Sign) : repack (.infinity s) = .infinity s := by
  cases s <;> rfl

/-- What fits is packed without its first digit, unless the exponent is the least one. -/
theorem pack_of_fits (s : Sign) {m : ℕ} {e : ℤ} (hm : 0 < m) (hd : Digits m e)
    (hf : Fits (.finite s m e hm)) :
    UnpackedFloat.pack .binary64 (.finite s m e hm) =
      if 2 ^ 52 ≤ m then
        packComponents .binary64 s (BitVec.ofNat 11 (e + 1075).toNat) (BitVec.ofNat 52 m)
      else packComponents .binary64 s 0 (BitVec.ofNat 52 m) := by
  obtain ⟨hlt, hle, -⟩ := hd
  have hf : e ≤ 971 := hf
  have hlog := (Nat.log2_lt hm.ne').mpr hlt
  rw [UnpackedFloat.pack, add_assoc, bias_eq]
  simp only
  rw [if_neg (by change ¬ 2048 ≤ _; omega)]
  refine if_congr ?_ rfl rfl
  change m.log2 + 1 = 53 ↔ _
  rw [← Nat.le_log2 hm.ne']
  omega

/-- Packing keeps what fits. -/
theorem repack_of_fits {u : UnpackedFloat} (hu : Canonical u) (hf : Fits u) : repack u = u := by
  cases hu using Canonical.cases with
  | zero s => cases s <;> rfl
  | finite s m e hm hd =>
    rw [repack, pack_of_fits s hm hd hf]
    obtain ⟨hlt, hle, hfull⟩ := hd
    have hf : e ≤ 971 := hf
    have hexp : (BitVec.ofNat 11 (e + 1075).toNat).toNat = (e + 1075).toNat := by
      rw [BitVec.toNat_ofNat, Nat.mod_eq_of_lt (by omega)]
    split
    next hlo =>
      refine (unpack_normal s _ ?_ ?_).trans (finite_congr s ?_ ?_ _)
      · rw [hexp]; omega
      · rw [hexp]; omega
      · rw [BitVec.toNat_ofNat]; omega
      · rw [hexp]; omega
    next hlo =>
      have hmant : (BitVec.ofNat 52 m).toNat = m := by
        rw [BitVec.toNat_ofNat, Nat.mod_eq_of_lt (by omega)]
      exact (unpack_subnormal s (hmant.symm ▸ hm)).trans
        (finite_congr s hmant (hfull.resolve_left hlo).symm _)

/-- What does not fit becomes an infinity. -/
theorem repack_of_not_fits {s : Sign} {m : ℕ} {e : ℤ} {hm : 0 < m}
    (hf : ¬ Fits (.finite s m e hm)) : repack (.finite s m e hm) = .infinity s := by
  have hf : ¬ e ≤ 971 := hf
  rw [repack, UnpackedFloat.pack, add_assoc, bias_eq]
  simp only
  rw [if_pos (by change 2048 ≤ _; omega)]
  cases s <;> rfl

/-- Packing keeps a result or makes it an infinity. -/
theorem repack_cases {u : UnpackedFloat} (hu : Canonical u) :
    repack u = u ∨ ∃ s, repack u = .infinity s := by
  by_cases hf : Fits u
  · exact .inl (repack_of_fits hu hf)
  · cases hu using Canonical.cases with
    | zero => exact absurd trivial hf
    | finite s m e hm => exact .inr ⟨s, repack_of_not_fits hf⟩

/-- Packing does not change how a result compares with one that fits. -/
theorem compare_repack {u v : UnpackedFloat} (hu : Canonical u) (hf : Fits u) (hv : Canonical v) :
    u.compare (repack v) = u.compare v := by
  by_cases hfits : Fits v
  · rw [repack_of_fits hv hfits]
  cases v with
  | zero | infinity | notANumber => exact (hfits trivial).elim
  | finite s n f hn =>
    rw [repack_of_not_fits hfits]
    cases hu using Canonical.cases with
    | zero => cases s <;> rfl
    | finite s' m e hm =>
      have hef : e < f := lt_of_le_of_lt (show e ≤ 971 from hf) (lt_of_not_ge hfits)
      have hcmp : (compare e f).then (compare m n) = .lt := by
        rw [compare_lt_iff_lt.mpr hef]
        rfl
      cases s' <;> cases s
      · exact congrArg (fun o : Ordering ↦ some o.swap) hcmp.symm
      · rfl
      · rfl
      · exact congrArg some hcmp.symm

theorem le_repack {u v : UnpackedFloat} (hu : Canonical u) (hf : Fits u) (hv : Canonical v) :
    u.le (repack v) = u.le v := by
  rw [UnpackedFloat.le, compare_repack hu hf hv, UnpackedFloat.le]

/-! ## The operations of doubles -/

/-- Doubles that stand for the same are the same. -/
theorem eq_of_parts_eq {x y : Float} (h : parts x = parts y) : x = y := by
  obtain ⟨⟨b, hb⟩⟩ := x
  obtain ⟨⟨c, hc⟩⟩ := y
  obtain rfl : b = c := UInt64.toBitVec_inj.mp ((unpack_inj_of_valid hb hc).mp h)
  rfl

theorem le_iff_parts {x y : Float} : x ≤ y ↔ (parts x).le (parts y) = true := by
  exact decide_eq_true_iff

theorem lt_iff_parts {x y : Float} : x < y ↔ (parts x).lt (parts y) = true := by
  exact decide_eq_true_iff

theorem parts_add (x y : Float) :
    parts (x + y) = repack (UnpackedFloat.add .binary64 (parts x) (parts y)) := rfl

theorem parts_sub (x y : Float) :
    parts (x - y) = repack (UnpackedFloat.sub .binary64 (parts x) (parts y)) := rfl

theorem parts_mul (x y : Float) :
    parts (x * y) = repack (UnpackedFloat.mul .binary64 (parts x) (parts y)) := rfl

theorem parts_div (x y : Float) :
    parts (x / y) = repack (UnpackedFloat.div .binary64 (parts x) (parts y)) := rfl

theorem canonical_of_isFinite {x : Float} (h : x.isFinite) :
    Canonical (parts x) ∧ Fits (parts x) := by
  have h : (parts x).isFinite = true := h
  rcases parts_cases x with hx | ⟨s, hx⟩ | hx
  · rw [hx] at h
    cases h
  · rw [hx] at h
    cases h
  · exact hx

/-- A double below zero is the negative infinity or stands for a negative number. -/
theorem neg_cases {x : Float} (h : x < 0.0) :
    parts x = .infinity .negative ∨ Canonical (parts x) ∧ worth (parts x) < 0 := by
  have h : (parts x).lt (.zero .positive) = true := lt_iff_parts.mp h
  rcases parts_cases x with hx | ⟨s, hx⟩ | ⟨hx, -⟩
  · rw [hx] at h
    cases h
  · rw [hx] at h
    cases s with
    | negative => exact .inl hx
    | positive => cases h
  · have hzero : Canonical (.zero .positive) := trivial
    exact .inr ⟨hx, (lt_iff_worth hx hzero).mp h⟩

/-! ## The order of bits -/

theorem toNat_packComponents (e : BitVec 11) (m : BitVec 52) :
    (packComponents .binary64 .positive e m).toNat = e.toNat * 2 ^ 52 + m.toNat := by
  change (0#1 ++ e ++ m).toNat = _
  rw [BitVec.toNat_append, ← Nat.shiftLeft_add_eq_or_of_lt m.isLt, BitVec.toNat_append,
    ← Nat.shiftLeft_add_eq_or_of_lt e.isLt, Nat.shiftLeft_eq]
  simp

/-- The bits of a positive double count the positive doubles up to it. -/
theorem toNat_toBits {x : Float} {m : ℕ} {e : ℤ} {hm : 0 < m}
    (hx : parts x = .finite .positive m e hm) : x.toBits.toNat = (e + 1074).toNat * 2 ^ 52 + m := by
  obtain ⟨hc, hf⟩ : Canonical (parts x) ∧ Fits (parts x) :=
    canonical_of_isFinite (x := x) (congrArg UnpackedFloat.isFinite hx)
  rw [hx] at hc hf
  have hpack : UnpackedFloat.pack .binary64 (parts x) = x.toBits.toBitVec :=
    pack_unpack_of_valid x.toModel.valid
  have hbits : x.toBits.toNat = x.toBits.toBitVec.toNat := rfl
  rw [hbits, ← hpack, hx, pack_of_fits _ hm hc hf]
  obtain ⟨hlt, hle, hfull⟩ := hc
  have hf : e ≤ 971 := hf
  split
  next h =>
    rw [toNat_packComponents, BitVec.toNat_ofNat, BitVec.toNat_ofNat]
    omega
  next h =>
    rw [toNat_packComponents, BitVec.toNat_ofNat]
    have hzero : (0 : BitVec 11).toNat = 0 := rfl
    omega

/-- Of two positive doubles, the smaller one has the smaller bits. -/
theorem toNat_toBits_lt {x y : Float} (hx : Canonical (parts x)) (hy : Canonical (parts y))
    (hpos : 0 < worth (parts x)) (h : worth (parts x) < worth (parts y)) :
    x.toBits.toNat < y.toBits.toNat := by
  obtain ⟨m, e, hm, hpx, hdx, hwx⟩ := hx.exists_positive hpos
  obtain ⟨n, f, hn, hpy, hdy, hwy⟩ := hy.exists_positive (hpos.trans h)
  rw [hwx, hwy] at h
  rw [toNat_toBits hpx, toNat_toBits hpy]
  have hmlt := hdx.lt
  have hle := hdx.le
  rcases lt_trichotomy e f with hef | rfl | hef
  · have hfull := hdy.full.resolve_right (by omega)
    omega
  · have hmn : m < n := by exact_mod_cast lt_of_mul_lt_mul_right h (by positivity)
    omega
  · exact absurd h (not_lt_of_gt (hdy.lt_of_lt hdx hef))

end SuperChip.Double
