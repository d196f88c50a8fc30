import SuperChip.Proofs.Step

/-!
# Reachable machines are well formed

A new machine is well formed, and each operation keeps it so, whatever its arguments and whether or
not it is refused.  So every machine that operations lead to is well formed.
-/

namespace SuperChip

/-- An operation that executes nothing, resets nothing and lets no time go by. -/
def Operation.IsStill : Operation → Prop
  | .step | .execute _ | .reset | .tick | .advanceClock _ => False
  | _ => True

/-- A still operation that tells the world nothing and does not switch the trace. -/
def Operation.IsUnheard : Operation → Prop
  | .setResolution _ | .flush | .setLive _ => False
  | o => o.IsStill

namespace Machine

variable {m m' : Machine}

/-! ## Time -/

/-- The machine with one taken from each timer that is not at zero.  A tone sounds if the sound
timer comes to zero by that. -/
def countDown (m : Machine) : Machine :=
  { m with
    delay := if 0 < m.delay then m.delay - 1 else m.delay
    sound := if 0 < m.sound then m.sound - 1 else m.sound
    tones := if m.sound = 1 then m.tones + 1 else m.tones
    log := if m.sound = 1 then .tone (m.tones + 1) :: m.log else m.log }

/-- A tick counts down and hands over the picture. -/
theorem tick_eq (m : Machine) : m.tick = m.countDown.flush := by
  rw [tick, countDown]
  congr 1
  by_cases h1 : m.sound = 1
  · by_cases hd : 0 < m.delay <;> simp [h1, hd, Machine.tell]
  · have h0 : ¬ m.sound - 1 = 0 := by omega
    by_cases hs : 0 < m.sound <;> by_cases hd : 0 < m.delay <;> simp [h0, h1, hs, hd]

/-- A byte that is counted down is a byte. -/
theorem countDown_range {n : Int} (h : 0 ≤ n ∧ n ≤ 255) :
    0 ≤ (if 0 < n then n - 1 else n) ∧ (if 0 < n then n - 1 else n) ≤ 255 := by
  split <;> omega

/-- A tick keeps a machine well formed. -/
theorem WellFormed.tick (h : m.WellFormed) : m.tick.WellFormed := by
  rw [tick_eq]
  exact WellFormed.flush
    ⟨h.memory, h.registers, h.display, countDown_range h.delay, countDown_range h.sound⟩

/-- What ticks and changes of the time owed keep, paying out keeps. -/
theorem payOut_induction {P : Machine → Prop} (ht : ∀ m, P m → P m.tick)
    (ho : ∀ m owed, P m → P { m with owed }) {ticks n : Nat} (hm : P m)
    (h : m.payOut ticks = some (m', n)) : P m' := by
  fun_induction payOut m ticks with
  | case1 m ticks hle left hlt ih => exact ih (ho _ _ (ht m hm)) h
  | case2 m ticks hle left hlt => cases h
  | case3 m ticks hle =>
    cases h
    exact hm

/-- What ticks and changes of the time owed keep, the clock keeps. -/
theorem advanceClock_induction {P : Machine → Prop} (ht : ∀ m, P m → P m.tick)
    (ho : ∀ m owed, P m → P { m with owed }) {elapsed : Float} {n : Nat} (hm : P m)
    (h : m.advanceClock elapsed = some (m', n)) : P m' := by
  rw [advanceClock] at h
  cases hp : ({ m with owed := m.owed + elapsed } : Machine).payOut 0 with
  | none =>
    rw [hp] at h
    cases h
  | some r =>
    have hr := payOut_induction ht ho (ho m _ hm) hp
    rw [hp] at h
    cases h
    split
    · exact ho _ _ hr
    · exact hr

/-- Two machines that are owed the same time and stay related when they tick stay related when that
time is paid out. -/
theorem rel_payOut {R : Machine → Machine → Prop}
    (howed : ∀ {m m'}, R m m' → m'.owed = m.owed) (ht : ∀ {m m'}, R m m' → R m.tick m'.tick)
    (ho : ∀ {m m'} owed, R m m' → R { m with owed } { m' with owed }) (h : R m m') (ticks : Nat) :
    Option.Rel (fun r r' ↦ R r.1 r'.1 ∧ r.2 = r'.2) (m.payOut ticks) (m'.payOut ticks) := by
  -- The bits of the time owed, as a number, go down with each payment.
  induction hn : m.owed.toBits.toNat using Nat.strongRecOn generalizing m m' ticks with
  | ind n ih =>
    rw [Machine.payOut, Machine.payOut, howed h]
    split
    · simp only
      split
      case isTrue hlt => exact ih _ (hn ▸ hlt) (ho _ (ht h)) (ticks + 1) rfl
      case isFalse => exact .none
    · exact .some ⟨h, rfl⟩

/-- Two machines that are owed the same time and stay related when they tick stay related when some
time goes by. -/
theorem rel_advanceClock {R : Machine → Machine → Prop}
    (howed : ∀ {m m'}, R m m' → m'.owed = m.owed) (ht : ∀ {m m'}, R m m' → R m.tick m'.tick)
    (ho : ∀ {m m'} owed, R m m' → R { m with owed } { m' with owed }) (h : R m m')
    (elapsed : Float) :
    Option.Rel (fun r r' ↦ R r.1 r'.1 ∧ r.2 = r'.2) (m.advanceClock elapsed)
      (m'.advanceClock elapsed) := by
  rw [Machine.advanceClock, Machine.advanceClock, howed h]
  have hp := rel_payOut howed ht ho (ho (m.owed + elapsed) h) 0
  generalize Machine.payOut { m with owed := m.owed + elapsed } 0 = r at hp ⊢
  generalize Machine.payOut { m' with owed := m.owed + elapsed } 0 = r' at hp ⊢
  cases hp with
  | none => exact .none
  | @some r r' hr =>
    obtain ⟨hr, ht⟩ := hr
    refine .some ⟨?_, ht⟩
    change R (if _ then _ else _) (if _ then _ else _)
    rw [howed hr]
    split
    · exact ho 0.0 hr
    · exact hr

/-! ## Operations -/

/-- A loaded program changes the memory, and leaves its size. -/
theorem exists_of_load {program : List UInt8} (h : m.load program = .ok m') :
    ∃ memory, m' = { m with memory } ∧ memory.size = m.memory.size := by
  rw [load] at h
  split at h
  · cases h
  · obtain ⟨memory, hw, h⟩ := exists_of_bind_ok h
    cases h
    exact ⟨memory, rfl, Memory.size_of_writeBlock hw⟩

/-- A key that is pressed or released changes the keypad. -/
theorem exists_of_setKey {key : Int} {down : Bool} (h : m.setKey key down = .ok m') :
    ∃ keys, m' = { m with keys } := by
  rw [setKey] at h
  split at h
  · cases h
    exact ⟨_, rfl⟩
  · cases h

/-- A new speed changes the speed and its interval, also if there is no such interval. -/
theorem exists_setClockSpeed_eq (m : Machine) (speed : Int) :
    ∃ interval, (m.setClockSpeed speed).1 = { m with clockSpeed := speed, interval } := by
  rw [setClockSpeed]
  split
  · exact ⟨_, rfl⟩
  · exact ⟨m.interval, rfl⟩

/-- A flipped pixel changes the picture. -/
theorem exists_of_toggle {x y : Int} (h : m.toggle x y = .ok m') :
    ∃ display, m' = { m with display } ∧ m.display.Painted display := by
  obtain ⟨⟨display, on⟩, hd, h⟩ := exists_of_bind_ok h
  cases h
  exact ⟨display, rfl, Display.painted_toggle hd⟩

/-- Scrolling changes the display. -/
theorem exists_of_scroll {move : Display → Except Fault Display} (h : m.scroll move = .ok m') :
    ∃ display, m' = { m with display } ∧ move m.display = .ok display := by
  obtain ⟨display, hd, h⟩ := exists_of_bind_ok h
  cases h
  exact ⟨display, rfl, hd⟩

/-- What is left alone by operations that execute nothing, reset nothing and let no time go by. -/
structure Still (m m' : Machine) : Prop where
  /-- The registers are the same. -/
  registers : m'.registers = m.registers
  /-- The delay timer is the same. -/
  delay : m'.delay = m.delay
  /-- The sound timer is the same. -/
  sound : m'.sound = m.sound
  /-- The instruction being executed has the same address. -/
  current : m'.current = m.current
  /-- Both are halted, or neither. -/
  halted : m'.halted = m.halted
  /-- The same random bytes are to come. -/
  random : m'.random = m.random
  /-- The same time is owed to the timers. -/
  owed : m'.owed = m.owed
  /-- As many tones have sounded. -/
  tones : m'.tones = m.tones

/-- A machine is left alone by nothing at all. -/
theorem Still.refl (m : Machine) : m.Still m := ⟨rfl, rfl, rfl, rfl, rfl, rfl, rfl, rfl⟩

/-- What is left alone by still operations that tell nothing and do not switch the trace. -/
structure Unheard (m m' : Machine) : Prop extends m.Still m' where
  /-- The world was told the same. -/
  log : m'.log = m.log
  /-- The same is traced and recorded. -/
  monitor : m'.monitor = m.monitor

/-- Nothing at all is not heard of. -/
theorem Unheard.refl (m : Machine) : m.Unheard m := ⟨.refl m, rfl, rfl⟩

/-- A still operation that tells the world nothing and does not switch the trace changes the memory,
the picture, the keys, the requests, the speed and the counters at most. -/
theorem unheard_operate {o : Operation} {r : Machine × Option Fault} (hr : m.operate o = some r)
    (ho : o.IsUnheard) : m.Unheard r.1 := by
  have hattempt {x : Except Fault Machine} (hx : ∀ m', x = .ok m' → m.Unheard m') :
      m.Unheard (m.attempt x).1 :=
    attempt_induction (.refl m) hx
  cases o <;> first | exact ho.elim | cases hr
  case setClockSpeed speed =>
    obtain ⟨interval, hm⟩ := m.exists_setClockSpeed_eq speed
    rw [hm]
    exact { Unheard.refl m with }
  case load program =>
    apply hattempt
    intro m' hm
    obtain ⟨memory, rfl, -⟩ := exists_of_load hm
    exact { Unheard.refl m with }
  case setKey key down =>
    apply hattempt
    intro m' hm
    obtain ⟨keys, rfl⟩ := exists_of_setKey hm
    exact { Unheard.refl m with }
  case toggle x y =>
    apply hattempt
    intro m' hm
    obtain ⟨d, rfl, -⟩ := exists_of_toggle hm
    exact { Unheard.refl m with }
  case scrollUp | scrollDown | scrollLeft | scrollRight =>
    apply hattempt
    intro m' hm
    obtain ⟨d, rfl, -⟩ := exists_of_scroll hm
    exact { Unheard.refl m with }
  all_goals exact { Unheard.refl m with }

/-- An operation that executes nothing, resets nothing and lets no time go by changes the memory,
the picture, the keys, the requests, the speed, the counters and the records at most. -/
theorem still_operate {o : Operation} {r : Machine × Option Fault} (hr : m.operate o = some r)
    (ho : o.IsStill) : m.Still r.1 := by
  cases o
  case setResolution | flush | setLive =>
    cases hr
    exact { Still.refl m with }
  all_goals exact (unheard_operate hr ho).toStill

/-- A reset keeps a machine well formed. -/
theorem WellFormed.reset (h : m.WellFormed) : m.reset.WellFormed := by
  have hr : ({ m with registers := m.registers.reset } : Machine).WellFormed :=
    ⟨h.memory, h.registers.reset, h.display, h.delay, h.sound⟩
  have hl := hr.setResolution false
  exact ⟨hl.memory, hl.registers, hl.display.clear, zero_range, zero_range⟩

/-- A loaded program keeps a machine well formed. -/
theorem WellFormed.load (h : m.WellFormed) {program : List UInt8}
    (hm : m.load program = .ok m') : m'.WellFormed := by
  obtain ⟨memory, rfl, hs⟩ := exists_of_load hm
  exact ⟨hs.trans h.memory, h.registers, h.display, h.delay, h.sound⟩

/-- A key that is pressed or released keeps a machine well formed. -/
theorem WellFormed.setKey (h : m.WellFormed) {key : Int} {down : Bool}
    (hm : m.setKey key down = .ok m') : m'.WellFormed := by
  obtain ⟨keys, rfl⟩ := exists_of_setKey hm
  exact ⟨h.memory, h.registers, h.display, h.delay, h.sound⟩

/-- A new speed keeps a machine well formed, also if it has no interval. -/
theorem WellFormed.setClockSpeed (h : m.WellFormed) (speed : Int) :
    (m.setClockSpeed speed).1.WellFormed := by
  obtain ⟨interval, hm⟩ := m.exists_setClockSpeed_eq speed
  rw [hm]
  exact ⟨h.memory, h.registers, h.display, h.delay, h.sound⟩

/-- A flipped pixel keeps a machine well formed. -/
theorem WellFormed.toggle (h : m.WellFormed) {x y : Int} (hm : m.toggle x y = .ok m') :
    m'.WellFormed := by
  obtain ⟨d, on, hd, hwf⟩ := h.display.exists_toggle x y
  rw [Machine.toggle, hd] at hm
  cases hm
  exact h.withDisplay hwf

/-- Scrolling the display keeps a machine well formed. -/
theorem WellFormed.scroll (h : m.WellFormed) {distance : Int}
    {move : Display → Except Fault Display}
    (hneg : distance < 0 → move m.display = .error (.negativeScroll distance))
    (hmove : 0 ≤ distance → ∃ d, move m.display = .ok d ∧ d.WellFormed)
    (hm : m.scroll move = .ok m') : m'.WellFormed := by
  rcases Int.lt_or_le distance 0 with hlt | hle
  · rw [Machine.scroll, hneg hlt] at hm
    cases hm
  · obtain ⟨m'', hm'', hwf⟩ := h.exists_scroll move (hmove hle)
    rw [hm, Except.ok.injEq] at hm''
    exact hm'' ▸ hwf

/-- Each operation keeps a machine well formed, refused or not. -/
theorem WellFormed.operate (h : m.WellFormed) {o : Operation} {r : Machine × Option Fault}
    (hr : m.operate o = some r) : r.1.WellFormed := by
  cases o <;> try cases hr
  case advanceClock elapsed =>
    rw [Machine.operate, Option.map_eq_some_iff] at hr
    obtain ⟨⟨m', n⟩, hm, rfl⟩ := hr
    exact advanceClock_induction (fun m ↦ WellFormed.tick)
      (fun m owed h ↦ ⟨h.memory, h.registers, h.display, h.delay, h.sound⟩) h hm
  case load program => exact attempt_induction h fun m' ↦ h.load
  case setKey key down => exact attempt_induction h fun m' ↦ h.setKey
  case reset => exact h.reset
  case setClockSpeed speed => exact h.setClockSpeed speed
  case step => exact h.step
  case execute word => exact h.execute _
  case tick => exact h.tick
  case toggle x y => exact attempt_induction h fun m' ↦ h.toggle
  case clear => exact h.withDisplay h.display.clear
  case setResolution high => exact h.setResolution high
  case scrollUp rows =>
    exact attempt_induction h fun m' ↦
      h.scroll (m.display.scroll_of_neg · _ _) h.display.exists_scrollUp
  case scrollDown rows =>
    exact attempt_induction h fun m' ↦
      h.scroll (m.display.scroll_of_neg · _ _) h.display.exists_scrollDown
  case scrollLeft columns =>
    exact attempt_induction h fun m' ↦
      h.scroll (m.display.scroll_of_neg · _ _) h.display.exists_scrollLeft
  case scrollRight columns =>
    exact attempt_induction h fun m' ↦
      h.scroll (m.display.scroll_of_neg · _ _) h.display.exists_scrollRight
  case flush => exact h.flush
  all_goals exact ⟨h.memory, h.registers, h.display, h.delay, h.sound⟩

/-- Operations keep a machine well formed. -/
theorem WellFormed.operateAll (h : m.WellFormed) {ops : List Operation}
    (hm : m.operateAll ops = some m') : m'.WellFormed :=
  operateAll_induction (fun _ _ _ h hr ↦ h.operate hr) h hm

/-- A new machine is well formed. -/
theorem wellFormed_of_powerOn {random : RandomSource} {speed : Int} {observed : Bool}
    (hm : powerOn random speed observed = .ok m) : m.WellFormed := by
  obtain ⟨interval, -, hm⟩ := exists_of_bind_ok hm
  cases hm
  exact wellFormed_new Registers.wellFormed_new

/-- Every machine that operations lead to from a new one is well formed, whichever operations they
are, in whichever order, and however many of them are refused. -/
theorem wellFormed_of_operateAll {random : RandomSource} {speed : Int} {observed : Bool}
    {ops : List Operation} (hm : powerOn random speed observed = .ok m)
    (hops : m.operateAll ops = some m') : m'.WellFormed :=
  (wellFormed_of_powerOn hm).operateAll hops

/-- A new machine is well formed after a return with an empty stack, a key that does not exist, a
change of the resolution, a tick, the reading of the delay timer and a reset. -/
theorem wellFormed_of_operateAll_refused : ∃ m',
    ({ random := .ofList [7], clockSpeed := 0 } : Machine).operateAll
      [.execute 0x00EE, .setKey 16 true, .setResolution true, .tick, .execute 0xF007, .reset] =
        some m' ∧ m'.WellFormed := by
  have hm : powerOn (.ofList [7]) 0 true = .ok { random := .ofList [7], clockSpeed := 0 } := rfl
  refine Exists.imp (fun m' hops ↦ ⟨hops, wellFormed_of_operateAll hm hops⟩) ?_
  exact ⟨_, rfl⟩

end Machine

end SuperChip
