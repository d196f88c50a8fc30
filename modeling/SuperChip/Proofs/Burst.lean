import SuperChip.Proofs.Rounding
import SuperChip.Proofs.Shown
import SuperChip.Proofs.Timers

/-!
# A burst is as many ticks as it counts

When time is added, a machine catches up with all the ticks that have come due.  It is then the
machine that these ticks would have made one by one, but for the time that is still owed, which is
less than a period and not below zero.

However many ticks a burst makes, the picture is handed over by the first of them and is clean for
the others, and the tone sounds with the tick that brings the sound timer to zero.  So the world is
told one picture and one tone at most.  Time that goes backwards makes no tick, because less than a
period was owed before and a sum of doubles is not rounded past a double.
-/

namespace SuperChip

namespace Machine

variable {m m' : Machine}

/-! ## One tick -/

theorem display_tick (m : Machine) : m.tick.display = m.display.flush := by
  rw [tick_eq]
  rfl

/-- A tick hands over the picture if something was done to it. -/
theorem frames_tick (m : Machine) :
    m.tick.frames =
      m.frames ++ if m.display.dirty ∧ m.display.observed then [m.display.frame] else [] := by
  have hcount : m.countDown.frames = m.frames := (quiet_countDown m).frames_eq
  rw [tick_eq]
  change (m.countDown.tell m.display.flushEvents).frames = _
  rw [frames_tell, hcount, Display.flushEvents]
  split <;> rfl

/-- The time owed does not matter for a tick. -/
theorem tick_owed (m : Machine) (owed : Float) :
    ({ m with owed } : Machine).tick = { m.tick with owed } := by
  rw [tick_eq, tick_eq]
  rfl

/-! ## Many ticks -/

theorem iterate_tick_owed (m : Machine) (owed : Float) (k : Nat) :
    tick^[k] { m with owed } = { tick^[k] m with owed } := by
  induction k generalizing m with
  | zero => rfl
  | succ k ih => rw [Function.iterate_succ_apply, Function.iterate_succ_apply, tick_owed, ih]

theorem exists_iterate_tick_eq (m : Machine) (k : Nat) : ∃ delay sound tones display log,
    tick^[k] m = { m with delay, sound, tones, display, log } := by
  induction k generalizing m with
  | zero => exact ⟨_, _, _, _, _, rfl⟩
  | succ k ih =>
    obtain ⟨delay, sound, tones, display, log, hk⟩ := ih m.tick
    rw [Function.iterate_succ_apply, hk, tick_eq]
    exact ⟨delay, sound, tones, display, log, rfl⟩

theorem display_iterate_tick (m : Machine) (k : Nat) :
    (tick^[k] m).display = if k = 0 then m.display else m.display.flush := by
  induction k generalizing m with
  | zero => rfl
  | succ k ih =>
    rw [Function.iterate_succ_apply, ih, display_tick, if_neg k.succ_ne_zero]
    exact ite_self _

theorem counted_iterate_tick (h : ∀ t, 0 ≤ m.timer t) (k : Nat) : Counted k m (tick^[k] m) := by
  induction k generalizing m with
  | zero => exact .refl h
  | succ k ih =>
    have htick := counted_tick h
    rw [Function.iterate_succ_apply, Nat.add_comm]
    exact htick.trans (ih htick.timer_nonneg)

/-- Many ticks bring the timers down and hand over the picture, and that is all. -/
theorem WellFormed.iterate_tick_eq (h : m.WellFormed) (k : Nat) :
    ∃ log, Machine.tick^[k] m = { m with
      delay := max 0 (m.delay - k)
      sound := max 0 (m.sound - k)
      tones := m.tones + if 1 ≤ m.sound ∧ m.sound ≤ k then 1 else 0
      display := if k = 0 then m.display else m.display.flush
      log } := by
  obtain ⟨delay, sound, tones, display, log, hk⟩ := m.exists_iterate_tick_eq k
  have hc := counted_iterate_tick h.timer_nonneg k
  have hd := m.display_iterate_tick k
  rw [hk] at hc hd ⊢
  obtain rfl : delay = max 0 (m.delay - k) := hc.timer .delay
  obtain rfl : sound = max 0 (m.sound - k) := hc.timer .sound
  obtain rfl : tones = _ := hc.tones
  obtain rfl : display = _ := hd
  exact ⟨log, rfl⟩

/-- Of many ticks, the first hands over the picture. -/
theorem frames_iterate_tick (m : Machine) (k : Nat) :
    (tick^[k] m).frames = m.frames ++
      if 1 ≤ k ∧ m.display.dirty ∧ m.display.observed then [m.display.frame] else [] := by
  induction k generalizing m with
  | zero => exact (List.append_nil _).symm
  | succ k ih =>
    have hclean : m.tick.display.dirty = false := congrArg Display.dirty (display_tick m)
    rw [Function.iterate_succ_apply, ih, if_neg (by simp [hclean]), List.append_nil, frames_tick]
    simp

/-- Of many ticks, the one that brings the sound timer to zero sounds a tone. -/
theorem soundings_iterate_tick (m : Machine) (k : Nat) :
    (tick^[k] m).soundings = m.soundings ++
      if 1 ≤ m.sound ∧ m.sound ≤ k then [m.tones + 1] else [] := by
  induction k generalizing m with
  | zero =>
    rw [if_neg (by omega)]
    exact (List.append_nil _).symm
  | succ k ih =>
    have hsound : m.tick.sound = if 0 < m.sound then m.sound - 1 else m.sound := by
      rw [tick_eq]
      rfl
    have htones : m.tick.tones = if m.sound = 1 then m.tones + 1 else m.tones := by
      rw [tick_eq]
      rfl
    rw [Function.iterate_succ_apply, ih, soundings_tick, hsound, htones, List.append_assoc]
    congr 1
    by_cases h1 : m.sound = 1
    · simp [h1]
    · rw [if_neg h1, if_neg h1, List.nil_append]
      congr 1
      split <;> simp <;> omega

/-! ## Paying out -/

/-- A round of the paying out: a tick, for which a period is taken from the time owed. -/
def payTick (m : Machine) : Machine := { m.tick with owed := m.owed - tickInterval }

/-- But for the time owed, rounds are ticks. -/
theorem iterate_payTick_eq (m : Machine) (k : Nat) :
    payTick^[k] m = { tick^[k] m with owed := (payTick^[k] m).owed } := by
  induction k with
  | zero => rfl
  | succ k ih =>
    have htick : (payTick^[k] m).tick =
        { (tick^[k] m).tick with owed := (payTick^[k] m).owed } := by
      conv_lhs => rw [ih, tick_owed]
    rw [Function.iterate_succ_apply', Function.iterate_succ_apply', payTick, htick]

/-- Paying out makes rounds as long as a period is owed. -/
theorem exists_payOut_eq {i n : Nat} (h : m.payOut i = some (m', n)) :
    ∃ k, n = i + k ∧ m' = payTick^[k] m ∧ (∀ j < k, tickInterval ≤ (payTick^[j] m).owed) ∧
      ¬ tickInterval ≤ m'.owed := by
  fun_induction payOut m i with
  | case1 m i hle left hlt ih =>
    obtain ⟨k, rfl, hm, hbefore, hleft⟩ := ih h
    refine ⟨k + 1, by omega, ?_, ?_, hleft⟩
    · rw [Function.iterate_succ_apply]
      exact hm
    · rintro (_ | j) hj
      · exact hle
      · rw [Function.iterate_succ_apply]
        exact hbefore j (Nat.lt_of_succ_lt_succ hj)
  | case2 m i hle left hlt => cases h
  | case3 m i hle =>
    cases h
    exact ⟨0, rfl, rfl, fun j hj ↦ absurd hj (Nat.not_lt_zero j), hle⟩

theorem payOut_of_not_le (h : ¬ tickInterval ≤ m.owed) (i : Nat) : m.payOut i = some (m, i) := by
  rw [payOut, if_neg h]

/-- After time was added, the machine is what the ticks counted have made of it, and the time owed
is again less than a period and not below zero. -/
theorem advanceClock_eq {elapsed : Float} {k : Nat} (h : m.advanceClock elapsed = some (m', k)) :
    m' = { tick^[k] m with owed := m'.owed } ∧ ¬ m'.owed < 0.0 ∧ ¬ tickInterval ≤ m'.owed := by
  rw [advanceClock] at h
  cases hp : ({ m with owed := m.owed + elapsed } : Machine).payOut 0 with
  | none =>
    rw [hp] at h
    cases h
  | some r =>
    obtain ⟨n, j⟩ := r
    obtain ⟨i, rfl, hrounds, -, hless⟩ := exists_payOut_eq hp
    have hn := iterate_payTick_eq { m with owed := m.owed + elapsed } i
    rw [← hrounds, iterate_tick_owed] at hn
    rw [hp] at h
    cases h
    rw [Nat.zero_add]
    split
    next hneg =>
      refine ⟨?_, (by decide : ¬ (0.0 : Float) < 0.0),
        (by decide +kernel : ¬ tickInterval ≤ (0.0 : Float))⟩
      rw [hn]
    next hneg => exact ⟨hn, hneg, hless⟩

theorem isFinite_tickInterval : tickInterval.isFinite := by decide +kernel

/-- Time that goes backwards makes no tick. -/
theorem ticks_of_backwards {elapsed : Float} {k : Nat} (hm : ¬ tickInterval ≤ m.owed)
    (he : elapsed < 0.0) (h : m.advanceClock elapsed = some (m', k)) : k = 0 := by
  have hless : ¬ tickInterval ≤ m.owed + elapsed :=
    Double.not_le_add_of_neg isFinite_tickInterval hm he
  rw [advanceClock, payOut_of_not_le (m := { m with owed := m.owed + elapsed }) hless] at h
  cases h
  rfl

/-! ## The burst -/

/-- When time is added to a machine that owes less than a period, the machine is then as so many
ticks would have made it, but for the time owed.  This is again less than a period and not below
zero.  The picture is handed over once if there was a tick and something was done to the picture
before, and not at all otherwise.  A tone sounds once if the ticks reach the end of the sound timer,
and not at all otherwise.  Time that goes backwards makes no tick. -/
theorem advanceClock_burst {elapsed : Float} {k : Nat} (hm : ¬ tickInterval ≤ m.owed)
    (h : m.advanceClock elapsed = some (m', k)) :
    m' = { tick^[k] m with owed := m'.owed } ∧ ¬ m'.owed < 0.0 ∧ ¬ tickInterval ≤ m'.owed ∧
      m'.frames = m.frames ++
        (if 1 ≤ k ∧ m.display.dirty ∧ m.display.observed then [m.display.frame] else []) ∧
      m'.soundings = m.soundings ++
        (if 1 ≤ m.sound ∧ m.sound ≤ k then [m.tones + 1] else []) ∧
      (elapsed < 0.0 → k = 0) := by
  obtain ⟨heq, hnonneg, hless⟩ := advanceClock_eq h
  refine ⟨heq, hnonneg, hless, ?_, ?_, fun he ↦ ticks_of_backwards hm he h⟩
  · rw [← frames_iterate_tick, heq]
    rfl
  · rw [← soundings_iterate_tick, heq]
    rfl

/-- In four hundredths of a second the ringing machine catches up with two ticks: one hands over the
picture, the other sounds a tone. -/
theorem advanceClock_burst_ringing : ∃ m', ringing.advanceClock 0.04 = some (m', 2) ∧
    m'.delay = 3 ∧ m'.sound = 0 ∧ m'.frames = [ringing.display.frame] ∧ m'.soundings = [1] := by
  have hless : ¬ tickInterval ≤ ringing.owed := by decide +kernel
  have hk : (ringing.advanceClock 0.04).map Prod.snd = some 2 := by decide +kernel
  obtain ⟨⟨m', k⟩, h, rfl⟩ := Option.map_eq_some_iff.mp hk
  obtain ⟨heq, -, -, hframes, hsoundings, -⟩ := advanceClock_burst hless h
  exact ⟨m', h, congrArg Machine.delay heq, congrArg Machine.sound heq, hframes, hsoundings⟩

end Machine

end SuperChip
