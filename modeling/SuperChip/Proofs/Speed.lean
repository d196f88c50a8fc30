import SuperChip.Machine.Speed
import SuperChip.Proofs.Conversion
import SuperChip.Proofs.Memory

/-!
# The interval follows the speed

The speed of a machine may be set to any integer, stepped up and down and brought back to the usual
one.  With each speed that is accepted goes an interval: none for a speed without limit, and the
quotient of one and the speed otherwise.

A speed is refused if its nearest double is infinite.  The keys of the host never come to such a
speed: what they make of a double is not beyond the integer after the greatest one, or else it is
found out before anything is changed.  But a refused speed that is set outright stays behind, with
the interval of the speed that was accepted last.
-/

namespace SuperChip

/-- A change of the speed. -/
inductive SpeedChange
  /-- The speed is set. -/
  | set (speed : Int)
  /-- The machine is made faster by a step. -/
  | faster
  /-- The machine is made slower by a step. -/
  | slower
  /-- The usual speed is brought back. -/
  | restore

namespace Machine

/-- The machine after a change of its speed, and the fault that this met. -/
def respeed (m : Machine) : SpeedChange → Machine × Option Fault
  | .set speed => m.setClockSpeed speed
  | .faster => m.faster
  | .slower => m.slower
  | .restore => m.restoreSpeed

/-- The machine after some changes of its speed, faults or not. -/
def respeedAll (m : Machine) (changes : List SpeedChange) : Machine :=
  changes.foldl (fun m c ↦ (m.respeed c).1) m

/-- The speed that some changes leave accepted, where `accepted` was so before: the speed after the
last of them that met no fault. -/
def acceptedAfter (m : Machine) (accepted : Int) : List SpeedChange → Int
  | [] => accepted
  | c :: changes =>
    (m.respeed c).1.acceptedAfter
      (if (m.respeed c).2 = none then (m.respeed c).1.clockSpeed else accepted) changes

/-- The interval is that of the accepted speed, which is the speed of the machine unless a refused
one has taken its place. -/
structure Paced (accepted : Int) (m : Machine) : Prop where
  /-- The interval is that of the accepted speed. -/
  interval : intervalOf accepted = .ok m.interval
  /-- The speed is the accepted one or was refused. -/
  speed : m.clockSpeed = accepted ∨ ∃ f, intervalOf m.clockSpeed = .error f

variable {m m' : Machine} {accepted : Int} {f : Fault} {next : Int → Except Fault Int}

/-! ## Intervals -/

theorem intervalOf_of_nonpos {speed : Int} (h : speed ≤ 0) : intervalOf speed = .ok none := if_pos h

theorem intervalOf_of_pos {speed : Int} {x : Float} (h : 0 < speed)
    (hx : Numeral.toDouble speed = .ok x) : intervalOf speed = .ok (some (1.0 / x)) := by
  rw [intervalOf, if_neg (not_le_of_gt h), hx]
  rfl

/-- A speed is refused if it is beyond the doubles. -/
theorem toDouble_of_intervalOf_eq_error {speed : Int} (h : intervalOf speed = .error f) :
    0 < speed ∧ Numeral.toDouble speed = .error f := by
  rcases le_or_gt speed 0 with hs | hs
  · rw [intervalOf_of_nonpos hs] at h
    cases h
  · cases hx : Numeral.toDouble speed with
    | ok x =>
      rw [intervalOf_of_pos hs hx] at h
      cases h
    | error f' =>
      rw [intervalOf, if_neg (not_le_of_gt hs), hx] at h
      cases h
      exact ⟨hs, rfl⟩

/-- Up to the integer after the greatest double, all speeds are accepted. -/
theorem exists_intervalOf_eq {speed : Int} (h : (speed : ℚ) ≤ Double.greatest + 1) :
    ∃ interval, intervalOf speed = .ok interval := by
  rcases le_or_gt speed 0 with hs | hs
  · exact ⟨none, intervalOf_of_nonpos hs⟩
  · lift speed to ℕ using hs.le
    obtain ⟨x, hx⟩ := Double.exists_toDouble_eq (n := speed) (by exact_mod_cast h)
    exact ⟨_, intervalOf_of_pos hs hx⟩

theorem exists_intervalOf_defaultSpeed : ∃ interval, intervalOf defaultSpeed = .ok interval := by
  have hok : (intervalOf defaultSpeed).isOk = true := by decide +kernel
  cases hi : intervalOf defaultSpeed with
  | ok interval => exact ⟨interval, rfl⟩
  | error f =>
    rw [hi] at hok
    cases hok

theorem setClockSpeed_of_ok {speed : Int} {interval : Option Float}
    (h : intervalOf speed = .ok interval) :
    m.setClockSpeed speed = ({ m with clockSpeed := speed, interval }, none) := by
  rw [setClockSpeed]
  simp only [h]

theorem setClockSpeed_of_error {speed : Int} (h : intervalOf speed = .error f) :
    m.setClockSpeed speed = ({ m with clockSpeed := speed }, some f) := by
  rw [setClockSpeed]
  simp only [h]

/-! ## One change -/

/-- A speed that was made out of a double is accepted, and so is the next integer. -/
theorem exists_intervalOf_of_truncate {x : Float} {n : Int} (h : Numeral.truncate x = .ok n) :
    (∃ interval, intervalOf (n + 1) = .ok interval) ∧
      ∃ interval, intervalOf (max 1 n) = .ok interval := by
  have hn : (n : ℚ) ≤ Double.greatest :=
    (le_abs_self _).trans (Double.abs_le_greatest_of_truncate h)
  constructor
  · apply exists_intervalOf_eq
    push_cast
    linarith
  · apply exists_intervalOf_eq
    have := Double.greatest_nonneg
    rw [Int.cast_max, Int.cast_one, max_le_iff]
    constructor <;> linarith

/-- What the keys of the host make of a speed is accepted. -/
theorem exists_intervalOf_of_next {speed n : Int}
    (h : fasterSpeed speed = .ok n ∨ slowerSpeed speed = .ok n) :
    ∃ interval, intervalOf n = .ok interval := by
  rcases h with h | h
  · obtain ⟨x, -, h⟩ := exists_of_bind_ok h
    obtain ⟨k, hk, h⟩ := exists_of_bind_ok h
    cases h
    exact (exists_intervalOf_of_truncate hk).1
  · obtain ⟨x, -, h⟩ := exists_of_bind_ok h
    obtain ⟨k, hk, h⟩ := exists_of_bind_ok h
    cases h
    exact (exists_intervalOf_of_truncate hk).2

theorem changeSpeed_of_nonpos (h : m.clockSpeed ≤ 0) : m.changeSpeed next = (m, none) := if_pos h

theorem changeSpeed_of_error (hs : 0 < m.clockSpeed) (h : next m.clockSpeed = .error f) :
    m.changeSpeed next = (m, some f) := by
  rw [changeSpeed, if_neg (not_le_of_gt hs)]
  simp only [h]

theorem changeSpeed_of_ok {n : Int} {interval : Option Float} (hs : 0 < m.clockSpeed)
    (h : next m.clockSpeed = .ok n) (hi : intervalOf n = .ok interval) :
    m.changeSpeed next = ({ m with clockSpeed := n, interval }, none) := by
  rw [changeSpeed, if_neg (not_le_of_gt hs)]
  simp only [h]
  exact setClockSpeed_of_ok hi

/-- A step of the speed is made in whole, or not at all. -/
theorem changeSpeed_cases
    (hnext : ∀ n, next m.clockSpeed = .ok n → ∃ interval, intervalOf n = .ok interval) :
    m.clockSpeed ≤ 0 ∧ m.changeSpeed next = (m, none) ∨
      (0 < m.clockSpeed ∧ ∃ f, next m.clockSpeed = .error f ∧ m.changeSpeed next = (m, some f)) ∨
      0 < m.clockSpeed ∧ ∃ n interval, next m.clockSpeed = .ok n ∧ intervalOf n = .ok interval ∧
        m.changeSpeed next = ({ m with clockSpeed := n, interval }, none) := by
  rcases le_or_gt m.clockSpeed 0 with hs | hs
  · exact .inl ⟨hs, changeSpeed_of_nonpos hs⟩
  · cases hn : next m.clockSpeed with
    | ok n =>
      obtain ⟨interval, hi⟩ := hnext n hn
      exact .inr (.inr ⟨hs, n, interval, rfl, hi, changeSpeed_of_ok hs hn hi⟩)
    | error f => exact .inr (.inl ⟨hs, f, rfl, changeSpeed_of_error hs hn⟩)

/-- A change of the speed is accepted, or leaves an unlimited speed alone, or is refused.  Only a
speed that is set outright is there after it was refused. -/
theorem respeed_cases (m : Machine) (c : SpeedChange) :
    (∃ speed interval, intervalOf speed = .ok interval ∧
      m.respeed c = ({ m with clockSpeed := speed, interval }, none)) ∨
    m.clockSpeed ≤ 0 ∧ m.respeed c = (m, none) ∨
    (∃ f, m.respeed c = (m, some f)) ∨
    ∃ speed f, c = .set speed ∧ intervalOf speed = .error f ∧
      m.respeed c = ({ m with clockSpeed := speed }, some f) := by
  cases c with
  | set speed =>
    cases hi : intervalOf speed with
    | ok interval => exact .inl ⟨speed, interval, hi, setClockSpeed_of_ok hi⟩
    | error f => exact .inr (.inr (.inr ⟨speed, f, rfl, hi, setClockSpeed_of_error hi⟩))
  | restore =>
    obtain ⟨interval, hi⟩ := exists_intervalOf_defaultSpeed
    exact .inl ⟨defaultSpeed, interval, hi, setClockSpeed_of_ok hi⟩
  | faster =>
    rcases changeSpeed_cases (m := m) fun n h ↦ exists_intervalOf_of_next (.inl h) with
      h | ⟨-, f, -, h⟩ | ⟨-, n, interval, -, h⟩
    · exact .inr (.inl h)
    · exact .inr (.inr (.inl ⟨f, h⟩))
    · exact .inl ⟨n, interval, h⟩
  | slower =>
    rcases changeSpeed_cases (m := m) fun n h ↦ exists_intervalOf_of_next (.inr h) with
      h | ⟨-, f, -, h⟩ | ⟨-, n, interval, -, h⟩
    · exact .inr (.inl h)
    · exact .inr (.inr (.inl ⟨f, h⟩))
    · exact .inl ⟨n, interval, h⟩

/-- A change that meets a fault changes nothing, or leaves a speed beyond the doubles behind. -/
theorem eq_of_respeed_fault {c : SpeedChange} (h : m.respeed c = (m', some f)) :
    m' = m ∨ ∃ s, c = .set s ∧ 0 < s ∧ Numeral.toDouble s = .error f ∧
      m' = { m with clockSpeed := s } := by
  rcases m.respeed_cases c with ⟨s, interval, -, hc⟩ | ⟨-, hc⟩ | ⟨f', hc⟩ | ⟨s, f', rfl, hi, hc⟩
  · rw [hc] at h
    cases h
  · rw [hc] at h
    cases h
  · rw [hc] at h
    cases h
    exact .inl rfl
  · rw [hc] at h
    cases h
    obtain ⟨hpos, hx⟩ := toDouble_of_intervalOf_eq_error hi
    exact .inr ⟨s, rfl, hpos, hx, rfl⟩

/-! ## Many changes -/

theorem paced_of_powerOn {random : RandomSource} {speed : Int} {observed : Bool}
    (h : powerOn random speed observed = .ok m) : Paced speed m := by
  obtain ⟨interval, hi, h⟩ := exists_of_bind_ok h
  cases h
  exact ⟨hi, .inl rfl⟩

/-- A change of the speed keeps the interval that of the speed accepted last. -/
theorem Paced.respeed (h : Paced accepted m) (c : SpeedChange) :
    Paced (if (m.respeed c).2 = none then (m.respeed c).1.clockSpeed else accepted)
      (m.respeed c).1 := by
  rcases m.respeed_cases c with ⟨speed, interval, hi, hc⟩ | ⟨hs, hc⟩ | ⟨f, hc⟩ |
    ⟨speed, f, -, hi, hc⟩
  · rw [hc]
    exact ⟨hi, .inl rfl⟩
  · rw [hc]
    rcases h.speed with heq | ⟨f, hf⟩
    · refine ⟨?_, .inl rfl⟩
      rw [if_pos rfl, heq]
      exact h.interval
    · rw [intervalOf_of_nonpos hs] at hf
      cases hf
  · rw [hc]
    exact h
  · rw [hc]
    exact ⟨h.interval, .inr ⟨f, hi⟩⟩

theorem Paced.respeedAll (h : Paced accepted m) (changes : List SpeedChange) :
    Paced (m.acceptedAfter accepted changes) (m.respeedAll changes) := by
  induction changes generalizing m accepted with
  | nil => exact h
  | cons c changes ih => exact ih (h.respeed c)

/-! ## A refused speed -/

/-- The usual speed is accepted by a new machine. -/
theorem exists_powerOn_eq (random : RandomSource) (observed : Bool) :
    ∃ interval, intervalOf defaultSpeed = .ok interval ∧
      powerOn random defaultSpeed observed =
        .ok { random, display := { observed }, clockSpeed := defaultSpeed, interval } := by
  obtain ⟨interval, hi⟩ := exists_intervalOf_defaultSpeed
  refine ⟨interval, hi, ?_⟩
  rw [powerOn, hi]
  rfl

/-- A speed of four hundred digits is beyond the doubles. -/
theorem exists_intervalOf_eq_error : ∃ f, intervalOf (10 ^ 400) = .error f := by
  have hok : (intervalOf (10 ^ 400)).isOk = false := by decide +kernel
  cases hi : intervalOf (10 ^ 400) with
  | ok interval =>
    rw [hi] at hok
    cases hok
  | error f => exact ⟨f, rfl⟩

/-- A refused speed is there instead of the one that the interval belongs to. -/
theorem exists_refused {speed : Int} (h : intervalOf speed = .error f) (random : RandomSource) :
    ∃ m, powerOn random defaultSpeed true = .ok m ∧ m.clockSpeed = defaultSpeed ∧
      m.respeed (.set speed) = ({ m with clockSpeed := speed }, some f) ∧
      intervalOf speed ≠ .ok m.interval := by
  obtain ⟨interval, -, hm⟩ := exists_powerOn_eq random true
  refine ⟨_, hm, rfl, setClockSpeed_of_error h, ?_⟩
  intro h'
  cases h.symm.trans h'

/-! ## The speed and its interval -/

/-- After any changes of the speed of a machine, whatever faults they met, there is no interval if
there is no limit, and the interval is the quotient of one and the speed otherwise, unless a speed
beyond the doubles was set: then the interval is that of the speed accepted last.

A change that meets a fault leaves the machine as it is, unless it sets a speed beyond the doubles:
then the speed is there and all else is as it was. -/
theorem interval_follows_speed {random : RandomSource} {speed : Int} {observed : Bool}
    (hm : powerOn random speed observed = .ok m) (changes : List SpeedChange) :
    ((m.respeedAll changes).clockSpeed ≤ 0 → (m.respeedAll changes).interval = none) ∧
    (∀ x, 0 < (m.respeedAll changes).clockSpeed →
      Numeral.toDouble (m.respeedAll changes).clockSpeed = .ok x →
      (m.respeedAll changes).interval = some (1.0 / x)) ∧
    intervalOf (m.acceptedAfter speed changes) = .ok (m.respeedAll changes).interval ∧
    ((m.respeedAll changes).clockSpeed = m.acceptedAfter speed changes ∨
      ∃ f, Numeral.toDouble (m.respeedAll changes).clockSpeed = .error f) ∧
    ∀ (c : SpeedChange) (m' : Machine) (f : Fault),
      (m.respeedAll changes).respeed c = (m', some f) →
      m' = m.respeedAll changes ∨
        ∃ s, c = .set s ∧ 0 < s ∧ Numeral.toDouble s = .error f ∧
          m' = { m.respeedAll changes with clockSpeed := s } := by
  obtain ⟨hinterval, hspeed⟩ := (paced_of_powerOn hm).respeedAll changes
  have haccepted {i : Option Float} (hi : intervalOf (m.respeedAll changes).clockSpeed = .ok i) :
      (m.respeedAll changes).interval = i := by
    rcases hspeed with heq | ⟨f, hf⟩
    · rw [heq, hinterval] at hi
      exact Except.ok.inj hi
    · rw [hf] at hi
      cases hi
  refine ⟨fun hs ↦ haccepted (intervalOf_of_nonpos hs),
    fun x hs hx ↦ haccepted (intervalOf_of_pos hs hx), hinterval, ?_,
    fun c m' f hc ↦ eq_of_respeed_fault hc⟩
  exact hspeed.imp_right fun ⟨f, hf⟩ ↦ ⟨f, (toDouble_of_intervalOf_eq_error hf).2⟩

/-- Until the usual speed is brought back, the interval is that of the speed before the refused
one. -/
theorem interval_follows_speed_refused : ∃ m, powerOn (.cycle [] []) defaultSpeed true = .ok m ∧
    (m.respeedAll [.set (10 ^ 400)]).clockSpeed = 10 ^ 400 ∧
    intervalOf defaultSpeed = .ok (m.respeedAll [.set (10 ^ 400)]).interval := by
  obtain ⟨f, hf⟩ := exists_intervalOf_eq_error
  obtain ⟨m, hm, -, hset, -⟩ := exists_refused hf (.cycle [] [])
  obtain ⟨-, -, hinterval, -⟩ := interval_follows_speed hm [.set (10 ^ 400)]
  have haccepted : m.acceptedAfter defaultSpeed [.set (10 ^ 400)] = defaultSpeed := by
    rw [acceptedAfter, hset]
    rfl
  rw [haccepted] at hinterval
  refine ⟨m, hm, ?_, hinterval⟩
  rw [respeedAll, List.foldl_cons, hset]
  rfl

/-- A new machine that is given a speed of four hundred digits has that speed then, which is
refused, and its old interval. -/
theorem refused_speed_stays : ∃ m n f,
    powerOn (.cycle [] []) 1000 true = .ok m ∧ m.respeed (.set (10 ^ 400)) = (n, some f) ∧
      m.clockSpeed = 1000 ∧ n.clockSpeed = 10 ^ 400 ∧ n.interval = m.interval ∧
      intervalOf n.clockSpeed ≠ .ok n.interval := by
  obtain ⟨f, hf⟩ := exists_intervalOf_eq_error
  obtain ⟨m, hm, hspeed, hset, hne⟩ := exists_refused hf (.cycle [] [])
  exact ⟨m, _, f, hm, hset, hspeed, rfl, rfl, hne⟩

end Machine

end SuperChip
