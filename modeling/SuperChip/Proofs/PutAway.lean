import SuperChip.Session

/-!
# What is set up is put away

A session sets up a screen, inputs and sound, one after the other, and has to put away each of them
exactly once, whatever happens in between.  It does so if the inputs meet a fault, and it does so
whatever goes on once the machine stands there: the program may be too large, the machine may meet a
fault, and so may the screen.

In between there is a gap.  Once the inputs are set up, the sound and the machine come next, and a
fault of either leaves everything set up that is.  The machine meets one if the speed is beyond all
doubles, as then there is no time for one instruction.
-/

namespace SuperChip

/-- There is a machine for every speed that a double can come near to, and for every speed without
limit. -/
theorem Machine.exists_powerOn_iff {random : RandomSource} {speed : Int} {observed : Bool} :
    (∃ m, powerOn random speed observed = .ok m) ↔ (0 < speed → (Float.ofInt speed).isFinite) := by
  rw [powerOn, intervalOf]
  by_cases hspeed : speed ≤ 0
  · rw [if_pos hspeed]
    exact ⟨fun _ hpos ↦ absurd hpos (Int.not_lt.mpr hspeed), fun _ ↦ ⟨_, rfl⟩⟩
  · rw [if_neg hspeed, Numeral.toDouble]
    by_cases hfinite : (Float.ofInt speed).isFinite
    · rw [if_pos hfinite]
      exact ⟨fun _ _ ↦ hfinite, fun _ ↦ ⟨_, rfl⟩⟩
    · rw [if_neg hfinite]
      constructor
      · rintro ⟨m, hm⟩
        cases hm
      · intro h
        exact absurd (h (Int.not_le.mp hspeed)) hfinite

namespace Session

/-- A session has its machine exactly if neither the seed nor the speed is left blank, and there is
a machine for that speed. -/
theorem exists_machine_iff {o : Options} {entropy : Int} :
    (∃ m, machine o entropy = .ok m) ↔ o.seed ≠ .blank ∧
      ∃ speed, o.clockSpeed.resolve Machine.defaultSpeed .numberBlank = .ok speed ∧
        (0 < speed → (Float.ofInt speed).isFinite) := by
  rw [machine]
  cases hseed : o.seed.resolve entropy .numberBlank with
  | error f =>
    -- Only a blank has no value.
    rw [(Choice.resolve_eq_error_iff.mp hseed).1]
    simp [bind, Except.bind]
  | ok seed =>
    have hblank : o.seed ≠ .blank := by
      rintro h
      rw [h] at hseed
      cases hseed
    cases hspeed : o.clockSpeed.resolve Machine.defaultSpeed .numberBlank with
    | error f => simp [bind, Except.bind]
    | ok speed =>
      simp only [ne_eq, hblank, not_false_eq_true, true_and, Except.ok.injEq, exists_eq_left']
      rw [← @Machine.exists_powerOn_iff (RandomSource.ofSeed seed) speed true]
      cases hm : Machine.powerOn (RandomSource.ofSeed seed) speed true with
      | error f => simp [bind, Except.bind, hm]
      | ok m => simp [bind, Except.bind, hm, pure, Except.pure]

/-- How far a session comes: the acts of a session that sets up nothing, that puts the screen away
after a fault of the inputs, that meets a fault of the sound or of the machine, and of one that puts
everything away. -/
theorem acts_startIn (house : House) (o : Options) (installed : Installed) (entry : Entry)
    (entropy : Int) :
    let acts := (startIn house o installed entry entropy).acts
    acts = [] ∨
    acts = [.leave .screen, .enter .screen] ∨
    acts = [.enter .inputs, .enter .screen] ∨
    (acts = [.enter .sound, .enter .inputs, .enter .screen] ∧ ¬ ∃ m, machine o entropy = .ok m) ∨
    acts = [.leave .screen, .leave .inputs, .leave .sound,
      .enter .sound, .enter .inputs, .enter .screen] ∧ ∃ m, machine o entropy = .ok m := by
  intro acts
  simp only [acts, startIn]
  split
  next => exact .inl rfl
  next chosen hchosen =>
    split
    next => exact .inl rfl
    next => exact .inl rfl
    next program frontEnd hprogram =>
      rw [setUp]
      split
      next => exact .inl rfl
      next v hview =>
        simp only
        split
        next => exact .inr (.inl rfl)
        next hinputs =>
          split
          next => exact .inr (.inr (.inl rfl))
          next sound hsound =>
            split
            next f hm => exact .inr (.inr (.inr (.inl ⟨rfl, by simp [hm]⟩)))
            next m hm => exact .inr (.inr (.inr (.inr ⟨rfl, m, hm⟩)))

/-- A session puts away what it sets up, except in one case.

Whatever the house, nothing is set up twice, and nothing is put away more often than it is set up.
And whatever is set up is put away exactly once, if and only if no fault comes in the gap: where the
inputs are set up, the sound is set up as well, and there is a machine. -/
theorem put_away_iff (house : House) (o : Options) (installed : Installed) (entry : Entry)
    (entropy : Int) :
    let acts := (startIn house o installed entry entropy).acts
    (∀ p, acts.count (.leave p) ≤ acts.count (.enter p) ∧ acts.count (.enter p) ≤ 1) ∧
    ((∀ p, .enter p ∈ acts → acts.count (.leave p) = 1) ↔
      (.enter .inputs ∈ acts → .enter .sound ∈ acts ∧ ∃ m, machine o entropy = .ok m)) := by
  intro acts
  -- In the third and the fourth case the session ends in the gap.
  obtain hacts | hacts | hacts | ⟨hacts, hm⟩ | ⟨hacts, hm⟩ :=
    acts_startIn house o installed entry entropy
  all_goals
    change acts = _ at hacts
    rw [hacts]
  all_goals refine ⟨fun p ↦ by cases p <;> decide, ?_⟩
  · simp
  · refine iff_of_true (fun p ↦ ?_) (by simp)
    cases p <;> decide
  · exact iff_of_false (fun h ↦ absurd (h .screen) (by decide)) (by simp)
  · exact iff_of_false (fun h ↦ absurd (h .screen) (by decide)) (fun h ↦ hm (h (by simp)).2)
  · refine iff_of_true (fun p _ ↦ ?_) (fun _ ↦ ⟨by simp, hm⟩)
    cases p <;> decide

/-- In a terminal, a speed beyond all doubles leaves the screen and all else set up. -/
theorem screen_left_of_huge_speed :
    let o : Options :=
      { file := "file", frontEnd := .value .terminal, clockSpeed := .value (Int.pow 10 400) }
    let acts := (start o {} (.file [0x00, 0xFD]) 0).acts
    acts = [.enter .sound, .enter .inputs, .enter .screen] ∧
      acts.count (.leave .screen) ≠ 1 := by
  decide +kernel

end Session

end SuperChip
