import SuperChip.Proofs.Quotients
import SuperChip.Proofs.Speed

/-!
# The speed keys move strictly

One key of the host makes the machine faster by a tenth and one makes it slower.  Whatever the
rounding of the speed to a double and of the product or quotient does, it is off by two parts in
`2 ^ 53`, which is far less than a tenth; so the first key leads to a greater integer and the second
to a smaller one, until this is one.

An unlimited speed is left alone, and a limited one stays limited.  A speed that is too large for a
double, or becomes so, is refused and nothing changes.
-/

namespace SuperChip

/-- A change that a speed key makes. -/
inductive SpeedChange.IsStep : SpeedChange → Prop
  /-- The machine is made faster. -/
  | faster : IsStep .faster
  /-- The machine is made slower. -/
  | slower : IsStep .slower

namespace Machine

open Double Float.Model

variable {m : Machine} {c : SpeedChange}

/-! ## The factor -/

theorem canonical_speedStep : Canonical (parts speedStep) :=
  (canonical_of_isFinite (by decide +kernel)).1

theorem worth_speedStep :
    11 / 10 ≤ worth (parts speedStep) ∧ worth (parts speedStep) ≤ 3 / 2 := by
  have hworth : worth (parts speedStep) = (4953959590107546 : ℤ) * 2 ^ (-52 : ℤ) := rfl
  rw [hworth]
  constructor <;> norm_num

/-! ## The next speed -/

/-- The product of a speed and the factor is not below the speed. -/
theorem le_worth_mul_speedStep {n : ℕ} {x : Float} {u : UnpackedFloat} (hn : 0 < n)
    (hx : Rounded n (parts x)) (hu : Rounded (worth (parts x) * worth (parts speedStep)) u) :
    (n : ℚ) ≤ worth u := by
  have hone : (1 : ℚ) ≤ n := by exact_mod_cast hn
  have hspeed := abs_le.mp (hx.nearest.close hone)
  have hproduct : worth (parts x) * (11 / 10) ≤ worth (parts x) * worth (parts speedStep) := by
    gcongr
    · linarith
    · exact worth_speedStep.1
  have hclose := abs_le.mp (hu.nearest.close (by linarith))
  linarith

/-- The quotient of a speed and the factor is below the speed, unless this is one. -/
theorem worth_div_speedStep_lt {n : ℕ} {x : Float} {u : UnpackedFloat} (hn : 1 < n)
    (hx : Rounded n (parts x)) (hu : Rounded (worth (parts x) / worth (parts speedStep)) u) :
    worth u < n := by
  have htwo : (2 : ℚ) ≤ n := by exact_mod_cast hn
  have hspeed := abs_le.mp (hx.nearest.close (by linarith))
  obtain ⟨hlow, hhigh⟩ := worth_speedStep
  have hpos : 0 < worth (parts speedStep) := by linarith
  have hquotient : worth (parts x) / worth (parts speedStep) ≤ worth (parts x) / (11 / 10) := by
    gcongr
    linarith
  have hclose := abs_le.mp (hu.nearest.close (by rw [one_le_div hpos]; linarith))
  linarith

/-- The quotient of a speed and the factor is a number between zero and the double of the speed. -/
theorem worth_div_speedStep_range {n : ℕ} {x : Float} {u : UnpackedFloat}
    (hx : Rounded n (parts x)) (hu : Rounded (worth (parts x) / worth (parts speedStep)) u) :
    0 ≤ worth u ∧ worth u ≤ worth (parts x) := by
  have hzero : worth (.zero .positive) = 0 := rfl
  have hnonneg : 0 ≤ worth (parts x) := hx.le_worth (v := .zero .positive) trivial n.cast_nonneg
  obtain ⟨hlow, -⟩ := worth_speedStep
  constructor
  · refine hu.le_worth (v := .zero .positive) trivial (div_nonneg hnonneg ?_)
    linarith
  · exact hu.worth_le hx.canonical (div_le_self hnonneg (by linarith))

/-- The next higher speed is greater, unless the product is too large for a double. -/
theorem fasterSpeed_cases {speed : Int} {x : Float} (hs : 0 < speed)
    (hx : Numeral.toDouble speed = .ok x) :
    (∃ n, fasterSpeed speed = .ok n ∧ speed < n) ∨
      fasterSpeed speed = .error .numberTooLarge ∧ ¬ (x * speedStep).isFinite := by
  lift speed to ℕ using hs.le
  have hround := rounded_toDouble hx
  have hmul := rounded_mul hround.canonical canonical_speedStep
  have hle := le_worth_mul_speedStep (by exact_mod_cast hs) hround hmul
  have hparts := parts_mul x speedStep
  rw [fasterSpeed, hx]
  rcases repack_cases hmul.canonical with hkept | ⟨s, hinf⟩
  · left
    rw [hkept] at hparts
    rw [← hparts] at hle
    have htruncate := truncate_eq_floor (hparts ▸ hmul.canonical) (speed.cast_nonneg.trans hle)
    refine ⟨⌊worth (parts (x * speedStep))⌋ + 1, ?_, ?_⟩
    · change Numeral.truncate (x * speedStep) >>= _ = _
      rw [htruncate]
      rfl
    · exact Int.lt_add_one_iff.mpr (Int.le_floor.mpr hle)
  · right
    rw [hinf] at hparts
    constructor
    · change Numeral.truncate (x * speedStep) >>= _ = _
      rw [truncate_infinity hparts]
      rfl
    · intro hfinite
      obtain ⟨hc, -⟩ := canonical_of_isFinite hfinite
      rw [hparts] at hc
      exact hc

/-- The next lower speed is smaller but not below one. -/
theorem exists_slowerSpeed_eq {speed : Int} {x : Float} (hs : 0 < speed)
    (hx : Numeral.toDouble speed = .ok x) :
    ∃ n, slowerSpeed speed = .ok n ∧ 1 ≤ n ∧ n ≤ speed ∧ (1 < speed → n < speed) := by
  lift speed to ℕ using hs.le
  have hround := rounded_toDouble hx
  have hne : worth (parts speedStep) ≠ 0 := by
    have := worth_speedStep.1
    linarith
  have hdiv := rounded_div hround.canonical canonical_speedStep hne
  obtain ⟨hnonneg, hback⟩ := worth_div_speedStep_range hround hdiv
  have hfits := fits_of_worth_le hdiv.canonical hround.canonical hnonneg hback
  have hparts := (parts_div x speedStep).trans (repack_of_fits hdiv.canonical hfits)
  rw [← hparts] at hdiv hnonneg hback
  have hless (hone : 1 < speed) : ⌊worth (parts (x / speedStep))⌋ < speed :=
    Int.floor_lt.mpr (worth_div_speedStep_lt hone hround hdiv)
  refine ⟨max 1 ⌊worth (parts (x / speedStep))⌋, ?_, le_max_left _ _, ?_, ?_⟩
  · rw [slowerSpeed, hx]
    change Numeral.truncate (x / speedStep) >>= _ = _
    rw [truncate_eq_floor hdiv.canonical hnonneg]
    rfl
  · refine max_le hs ?_
    rcases Nat.eq_or_lt_of_le (show 1 ≤ speed by exact_mod_cast hs) with rfl | hone
    · have hone : worth (parts x) = 1 := worth_eq_of_rounded hround (by decide)
      exact_mod_cast (Int.floor_le _).trans (hback.trans_eq hone)
    · exact (hless hone).le
  · intro hone
    exact max_lt hone (hless (by exact_mod_cast hone))

/-! ## Machines -/

/-- The key for more speed leads to a greater speed.  A speed is refused if its double or the
product is too large. -/
theorem faster_cases (hs : 0 < m.clockSpeed) :
    (∃ n interval, m.clockSpeed < n ∧ intervalOf n = .ok interval ∧
      m.faster = ({ m with clockSpeed := n, interval }, none)) ∨
    m.faster = (m, some .numberTooLarge) ∧
      ∀ x, Numeral.toDouble m.clockSpeed = .ok x → ¬ (x * speedStep).isFinite := by
  cases hx : Numeral.toDouble m.clockSpeed with
  | error f =>
    obtain rfl := eq_numberTooLarge_of_toDouble hx
    refine .inr ⟨changeSpeed_of_error hs ?_, nofun⟩
    rw [fasterSpeed, hx]
    rfl
  | ok x =>
    rcases fasterSpeed_cases hs hx with ⟨n, hn, hlt⟩ | ⟨hf, hlarge⟩
    · obtain ⟨interval, hi⟩ := exists_intervalOf_of_next (.inl hn)
      exact .inl ⟨n, interval, hlt, hi, changeSpeed_of_ok hs hn hi⟩
    · refine .inr ⟨changeSpeed_of_error hs hf, ?_⟩
      rintro x' ⟨rfl⟩
      exact hlarge

/-- The key for less speed leads to a smaller speed, but not below one.  A speed is refused if its
double is too large. -/
theorem slower_cases (hs : 0 < m.clockSpeed) :
    (∃ n interval, 1 ≤ n ∧ n ≤ m.clockSpeed ∧ (1 < m.clockSpeed → n < m.clockSpeed) ∧
      intervalOf n = .ok interval ∧ m.slower = ({ m with clockSpeed := n, interval }, none)) ∨
    m.slower = (m, some .numberTooLarge) ∧
      Numeral.toDouble m.clockSpeed = .error .numberTooLarge := by
  cases hx : Numeral.toDouble m.clockSpeed with
  | error f =>
    obtain rfl := eq_numberTooLarge_of_toDouble hx
    refine .inr ⟨changeSpeed_of_error hs ?_, rfl⟩
    rw [slowerSpeed, hx]
    rfl
  | ok x =>
    obtain ⟨n, hn, hone, hle, hlt⟩ := exists_slowerSpeed_eq hs hx
    obtain ⟨interval, hi⟩ := exists_intervalOf_of_next (.inr hn)
    exact .inl ⟨n, interval, hone, hle, hlt, hi, changeSpeed_of_ok hs hn hi⟩

/-! ## Many keys -/

/-- An accepted speed is made smaller without a fault. -/
theorem exists_slower_eq (hs : 0 < m.clockSpeed)
    (hi : ∃ interval, intervalOf m.clockSpeed = .ok interval) :
    ∃ n interval, 1 ≤ n ∧ n ≤ m.clockSpeed ∧ (1 < m.clockSpeed → n < m.clockSpeed) ∧
      intervalOf n = .ok interval ∧ m.slower = ({ m with clockSpeed := n, interval }, none) := by
  rcases slower_cases hs with h | ⟨-, hlarge⟩
  · exact h
  · obtain ⟨interval, hi⟩ := hi
    rw [intervalOf, if_neg (not_le_of_gt hs), hlarge] at hi
    cases hi

theorem respeedAll_cons (m : Machine) (c : SpeedChange) (changes : List SpeedChange) :
    m.respeedAll (c :: changes) = (m.respeed c).1.respeedAll changes := rfl

theorem respeedAll_slower_of_eq_one (h : m.clockSpeed = 1) (j : Nat) :
    (m.respeedAll (List.replicate j .slower)).clockSpeed = 1 := by
  induction j generalizing m with
  | zero => exact h
  | succ j ih =>
    rw [List.replicate_succ, respeedAll_cons]
    apply ih
    change m.slower.1.clockSpeed = 1
    rcases slower_cases (m := m) (by omega) with ⟨n, interval, hone, hle, -, -, hm⟩ | ⟨hm, -⟩
    · rw [hm]
      exact le_antisymm (h ▸ hle) hone
    · rwa [hm]

/-- The key for less speed leads down to one, and no further. -/
def ComesDownToOne (m : Machine) : Prop :=
  ∃ k, ∀ j, k ≤ j → (m.respeedAll (List.replicate j .slower)).clockSpeed = 1

theorem ComesDownToOne.of_slower (h : m.slower.1.ComesDownToOne) : m.ComesDownToOne := by
  obtain ⟨k, hk⟩ := h
  refine ⟨k + 1, fun j hj ↦ ?_⟩
  obtain ⟨j, rfl⟩ := Nat.exists_eq_add_of_le' hj
  rw [← add_assoc, List.replicate_succ, respeedAll_cons]
  exact hk _ (Nat.le_add_left k j)

/-- Any accepted speed comes down to one. -/
theorem comesDownToOne (hs : 0 < m.clockSpeed)
    (hi : ∃ interval, intervalOf m.clockSpeed = .ok interval) : m.ComesDownToOne := by
  obtain ⟨speed, hspeed⟩ : ∃ speed, m.clockSpeed.toNat = speed := ⟨_, rfl⟩
  -- Above one the speed comes down with each key; at one it stays.
  induction speed using Nat.strongRecOn generalizing m with
  | ind speed ih =>
    rcases eq_or_lt_of_le (Int.add_one_le_iff.mpr hs) with hone | hone
    · exact ⟨0, fun j _ ↦ respeedAll_slower_of_eq_one hone.symm j⟩
    · obtain ⟨n, interval, hpos, -, hlt, hin, hm⟩ := exists_slower_eq hs hi
      have hless := hlt hone
      apply ComesDownToOne.of_slower
      rw [hm]
      exact ih n.toNat (by omega) hpos ⟨interval, hin⟩ rfl

/-- A limit is kept as a limit, and so is none. -/
structure SameMode (m m' : Machine) : Prop where
  /-- The speed is limited as before. -/
  speed : 0 < m'.clockSpeed ↔ 0 < m.clockSpeed
  /-- If there was an interval for limited speeds only, this is still so. -/
  interval : (m.interval = none ↔ m.clockSpeed ≤ 0) → (m'.interval = none ↔ m'.clockSpeed ≤ 0)

theorem SameMode.refl (m : Machine) : m.SameMode m := ⟨Iff.rfl, id⟩

theorem SameMode.trans {m' m'' : Machine} (h : m.SameMode m') (h' : m'.SameMode m'') :
    m.SameMode m'' :=
  ⟨h'.speed.trans h.speed, h'.interval ∘ h.interval⟩

theorem sameMode_of_pos {n : Int} {interval : Option Float} (hs : 0 < m.clockSpeed) (hn : 0 < n)
    (hi : intervalOf n = .ok interval) :
    m.SameMode { m with clockSpeed := n, interval } := by
  refine ⟨iff_of_true hn hs, fun _ ↦ iff_of_false ?_ (not_le_of_gt hn)⟩
  rintro rfl
  rw [intervalOf, if_neg (not_le_of_gt hn)] at hi
  obtain ⟨x, -, hi⟩ := exists_of_bind_ok hi
  cases hi

/-- A speed key keeps the mode. -/
theorem sameMode_respeed (hc : c.IsStep) : m.SameMode (m.respeed c).1 := by
  rcases le_or_gt m.clockSpeed 0 with hs | hs
  · have hm : (m.respeed c).1 = m := by
      cases hc <;> exact congrArg Prod.fst (changeSpeed_of_nonpos hs)
    rw [hm]
    exact .refl m
  · cases hc with
    | faster =>
      change m.SameMode m.faster.1
      rcases faster_cases hs with ⟨n, interval, hlt, hi, hm⟩ | ⟨hm, -⟩
      · rw [hm]
        exact sameMode_of_pos hs (hs.trans hlt) hi
      · rw [hm]
        exact .refl m
    | slower =>
      change m.SameMode m.slower.1
      rcases slower_cases hs with ⟨n, interval, hone, -, -, hi, hm⟩ | ⟨hm, -⟩
      · rw [hm]
        exact sameMode_of_pos hs hone hi
      · rw [hm]
        exact .refl m

/-- Any speed keys keep the mode. -/
theorem sameMode_respeedAll {changes : List SpeedChange} (h : ∀ c ∈ changes, c.IsStep) :
    m.SameMode (m.respeedAll changes) := by
  induction changes generalizing m with
  | nil => exact .refl m
  | cons c changes ih =>
    rw [respeedAll_cons]
    exact (sameMode_respeed (h c List.mem_cons_self)).trans
      (ih fun c hc ↦ h c (List.mem_cons_of_mem _ hc))

/-- An unlimited speed is left alone by the speed keys.  From a limited one, each of them either
fails because the speed or the product is too large for a double, and then changes nothing, or leads
to a greater and to a smaller speed, down to one.  So the key for less speed leads down to one and
stays there, and no speed keys make a limit out of none or take it away. -/
theorem speed_keys_move (m : Machine) :
    (m.clockSpeed ≤ 0 → m.faster = (m, none) ∧ m.slower = (m, none)) ∧
    (0 < m.clockSpeed →
      ((∃ n interval, m.clockSpeed < n ∧ intervalOf n = .ok interval ∧
          m.faster = ({ m with clockSpeed := n, interval }, none)) ∨
        m.faster = (m, some .numberTooLarge) ∧
          ∀ x, Numeral.toDouble m.clockSpeed = .ok x → ¬ (x * speedStep).isFinite) ∧
      ((∃ n interval, 1 ≤ n ∧ n ≤ m.clockSpeed ∧ (1 < m.clockSpeed → n < m.clockSpeed) ∧
          intervalOf n = .ok interval ∧ m.slower = ({ m with clockSpeed := n, interval }, none) ∧
          m.ComesDownToOne) ∨
        m.slower = (m, some .numberTooLarge) ∧
          Numeral.toDouble m.clockSpeed = .error .numberTooLarge)) ∧
    ∀ changes : List SpeedChange, (∀ c ∈ changes, c.IsStep) →
      m.SameMode (m.respeedAll changes) := by
  refine ⟨fun hs ↦ ⟨changeSpeed_of_nonpos hs, changeSpeed_of_nonpos hs⟩,
    fun hs ↦ ⟨faster_cases hs, ?_⟩, fun changes h ↦ sameMode_respeedAll h⟩
  refine (slower_cases hs).imp_left ?_
  rintro ⟨n, interval, hone, hle, hlt, hi, hm⟩
  refine ⟨n, interval, hone, hle, hlt, hi, hm, .of_slower ?_⟩
  rw [hm]
  exact comesDownToOne hone ⟨interval, hi⟩

/-- A machine whose speed lies between two doubles. -/
def hurried : Machine := { random := .cycle [] [], clockSpeed := 2 ^ 53 + 1 }

/-- The speed keys make the hurried machine faster and slower, although its speed is rounded. -/
theorem speed_keys_move_hurried : 0 < hurried.clockSpeed ∧
    hurried.faster.2 = none ∧ 2 ^ 53 + 1 < hurried.faster.1.clockSpeed ∧
    hurried.slower.2 = none ∧ hurried.slower.1.clockSpeed < 2 ^ 53 + 1 ∧
    hurried.ComesDownToOne := by
  have hs : 0 < hurried.clockSpeed := by decide
  have hfaster : hurried.faster.2 = none := by decide +kernel
  have hslower : hurried.slower.2 = none := by decide +kernel
  obtain ⟨-, hmoves, -⟩ := speed_keys_move hurried
  obtain ⟨hup, hdown⟩ := hmoves hs
  refine ⟨hs, hfaster, ?_, hslower, ?_⟩
  · rcases hup with ⟨n, interval, hlt, -, hm⟩ | ⟨hm, -⟩
    · rw [hm]
      exact hlt
    · rw [hm] at hfaster
      cases hfaster
  · rcases hdown with ⟨n, interval, -, -, hlt, -, hm, hone⟩ | ⟨hm, -⟩
    · rw [hm]
      exact ⟨hlt (by decide), hone⟩
    · rw [hm] at hslower
      cases hslower

end Machine

end SuperChip
