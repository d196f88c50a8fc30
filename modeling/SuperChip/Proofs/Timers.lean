import SuperChip.Proofs.CallStack
import SuperChip.Proofs.Frame

/-!
# Timers count down, and each countdown ends with one tone

A tick takes one from each timer that is not at zero.  Nothing else changes a timer but the
instruction that loads it and a reset, so over a stretch without these a timer comes down by the
number of ticks.

A tone sounds when a tick brings the sound timer to zero, and at no other time.  So what tones have
sounded, together with the one that a running sound timer is yet to give, never exceeds the number
of times that the sound timer was set going.

A tone that sounds is told to the world with its number, and the machine counts it.  The tones told
are numbered without a gap and without a repetition, so the count is theirs.
-/

namespace SuperChip

/-- The number of the tone that an event sounds. -/
def Event.tone? : Event → Option Nat
  | .tone count => some count
  | _ => none

/-- One of the timers. -/
inductive Timer
  /-- The delay timer. -/
  | delay
  /-- The sound timer. -/
  | sound
  deriving DecidableEq, Repr

namespace Timer

/-- The instruction that loads a timer from a register. -/
def load : Timer → Register → Instruction
  | delay, x => .setDelay x
  | sound, x => .setSound x

/-- A timer as a part of the machine. -/
def part : Timer → Part
  | delay => .delay
  | sound => .sound

/-- A timer is changed by the instruction that loads it. -/
theorem part_mem_footprint_iff {t : Timer} {i : Instruction} :
    t.part ∈ i.footprint ↔ ∃ x, i = t.load x := by
  cases t <;> cases i <;> simp [part, load, Instruction.footprint]

end Timer

namespace Machine

/-- What a timer shows. -/
def timer (m : Machine) : Timer → Int
  | .delay => m.delay
  | .sound => m.sound

/-- The number of ticks that an operation makes. -/
def ticksOf (m : Machine) : Operation → Nat
  | .tick => 1
  | .advanceClock elapsed => ((m.advanceClock elapsed).map Prod.snd).getD 0
  | _ => 0

/-- The number of ticks that operations make. -/
def ticks : Machine → List Operation → Nat
  | _, [] => 0
  | m, o :: ops =>
    m.ticksOf o +
      match m.operate o with
      | none => 0
      | some (m', _) => m'.ticks ops

/-- The instructions that operations execute, each with the machine that it is executed on. -/
def executed : Machine → List Operation → List (Machine × Instruction)
  | _, [] => []
  | m, o :: ops =>
    ((m.executes? o).map (m, ·)).toList ++
      match m.operate o with
      | none => []
      | some (m', _) => m'.executed ops

/-- An instruction that sets the sound timer going: it loads something else than zero. -/
def startsSound : Machine × Instruction → Bool
  | (m, .setSound x) => m.get x != 0
  | _ => false

/-- The tones told so far, by their numbers, the oldest one first. -/
def soundings (m : Machine) : List Nat := m.log.reverse.filterMap Event.tone?

/-- One while the sound timer runs, and zero otherwise: the tones that it is yet to give. -/
def dueTones (m : Machine) : Nat := if 0 < m.sound then 1 else 0

variable {m m' m'' n : Machine} {t : Timer}

theorem WellFormed.timer_nonneg (h : m.WellFormed) (t : Timer) : 0 ≤ m.timer t := by
  cases t with
  | delay => exact h.delay.1
  | sound => exact h.sound.1

/-! ## Instructions -/

theorem Within.timer_eq {f : Set Part} (h : m.Within f m') (ht : t.part ∉ f) :
    m'.timer t = m.timer t := by
  cases t with
  | delay => exact h.delay ht
  | sound => exact h.sound ht

/-- The trace leaves timers and registers alone. -/
theorem timer_trace (m : Machine) (w : Word) (t : Timer) :
    (m.trace w).timer t = m.timer t ∧ (m.trace w).registers = m.registers := by
  obtain ⟨lines, ht⟩ := m.exists_trace_eq w
  rw [ht]
  cases t <;> exact ⟨rfl, rfl⟩

/-- A word that does not load a timer leaves it alone, fault or not. -/
theorem timer_execute {w : Word} (hw : ∀ x, Instruction.decode w ≠ t.load x) :
    (m.execute w).1.timer t = m.timer t := by
  cases hf : (m.execute w).2 with
  | none =>
    apply (within_execute hf).timer_eq
    rw [Timer.part_mem_footprint_iff]
    rintro ⟨x, hx⟩
    exact hw x hx
  | some f =>
    rw [execute_of_fault (by simp [hf])]
    exact (m.timer_trace w t).1

/-- A word that loads a timer puts the byte of the register there. -/
theorem timer_execute_load {w : Word} {x : Register} (hw : Instruction.decode w = t.load x) :
    (m.execute w).1.timer t = (m.get x).toNat := by
  have hr := (m.timer_trace w t).2
  rw [execute, hw, get, ← hr]
  cases t <;> rfl

theorem timer_step (hi : ∀ x, m.instruction? ≠ some (t.load x)) :
    m.step.1.timer t = m.timer t := by
  rw [instruction?] at hi
  cases hw : m.fetch with
  | ok w =>
    rw [hw] at hi
    rw [step_eq_execute hw, timer_execute fun x hx ↦ hi x (congrArg some hx)]
    cases t <;> rfl
  | error f =>
    have hw' : ({ m with current := m.registers.pc } : Machine).fetch = .error f := hw
    rw [step, hw']
    cases t <;> rfl

theorem timer_step_load {x : Register} (hi : m.instruction? = some (t.load x)) :
    m.step.1.timer t = (m.get x).toNat := by
  rw [instruction?] at hi
  cases hw : m.fetch with
  | ok w =>
    rw [hw] at hi
    rw [step_eq_execute hw, timer_execute_load (Option.some.inj hi)]
    rfl
  | error f =>
    rw [hw] at hi
    cases hi

/-- Instructions sound no tone. -/
theorem enduring_tones (k : Nat) : Enduring fun m ↦ m.tones = k where
  mapRegisters _ h := h
  memory _ h := h
  delay _ h := h
  sound _ h := h
  random _ h := h
  halted h := h
  painted _ _ h := h
  setResolution _ h := h
  recordUnsupported w h := by
    rw [recordUnsupported]
    split <;> exact h
  trace w h := by
    rw [trace]
    split <;> exact h
  current _ h := h

/-! ## The tones told -/

/-- The world is told tones one after the other. -/
@[simp] theorem soundings_tell (m : Machine) (events : List Event) :
    (m.tell events).soundings = m.soundings ++ events.filterMap Event.tone? := by
  rw [soundings, tell, List.reverse_append, List.reverse_reverse, List.filterMap_append]
  rfl

/-- Handing over the picture tells no tone. -/
theorem soundings_flush (m : Machine) : m.flush.soundings = m.soundings := by
  have hnone : m.display.flushEvents.filterMap Event.tone? = [] := by
    rw [Display.flushEvents]
    split <;> rfl
  change (m.tell m.display.flushEvents).soundings = m.soundings
  rw [soundings_tell, hnone, List.append_nil]

/-- A change of the resolution tells no tone. -/
theorem soundings_setResolution (m : Machine) (high : Bool) :
    (m.setResolution high).soundings = m.soundings := by
  have hnone : (m.display.resolutionEvents high).filterMap Event.tone? = [] := by
    rw [Display.resolutionEvents]
    split <;> rfl
  change (m.tell (m.display.resolutionEvents high)).soundings = m.soundings
  rw [soundings_tell, hnone, List.append_nil]

theorem soundings_countDown (m : Machine) :
    m.countDown.soundings = m.soundings ++ if m.sound = 1 then [m.tones + 1] else [] := by
  have hlog : m.countDown.log = if m.sound = 1 then .tone (m.tones + 1) :: m.log else m.log := rfl
  rw [soundings, hlog]
  split
  · rw [List.reverse_cons, List.filterMap_append]
    rfl
  · exact (List.append_nil _).symm

/-- A tick sounds a tone if it brings the sound timer to zero. -/
theorem soundings_tick (m : Machine) :
    m.tick.soundings = m.soundings ++ if m.sound = 1 then [m.tones + 1] else [] := by
  rw [tick_eq, soundings_flush, soundings_countDown]

/-- `m'` has told all tones that `m` has told, and then those that it has counted since. -/
def Sounded (m m' : Machine) : Prop :=
  ∃ k, m'.tones = m.tones + k ∧ m'.soundings = m.soundings ++ List.range' (m.tones + 1) k

theorem Sounded.refl (m : Machine) : m.Sounded m := ⟨0, rfl, (List.append_nil _).symm⟩

/-- Only the tones matter. -/
theorem Sounded.congr (h : m.Sounded m') (ht : m''.tones = m'.tones)
    (hs : m''.soundings = m'.soundings) : m.Sounded m'' := by
  obtain ⟨k, htones, hsoundings⟩ := h
  exact ⟨k, ht.trans htones, hs.trans hsoundings⟩

/-- Instructions sound no tone, and tell none. -/
theorem enduring_sounded (m : Machine) : Enduring m.Sounded where
  mapRegisters _ h := h.congr rfl rfl
  memory _ h := h.congr rfl rfl
  delay _ h := h.congr rfl rfl
  sound _ h := h.congr rfl rfl
  random _ h := h.congr rfl rfl
  halted h := h.congr rfl rfl
  painted _ _ h := h.congr rfl rfl
  setResolution high h := h.congr rfl (soundings_setResolution _ high)
  recordUnsupported w h := by
    rw [recordUnsupported]
    split
    · exact h.congr rfl rfl
    · exact h.congr rfl ((soundings_tell _ _).trans (List.append_nil _))
  trace w h := by
    rw [trace]
    split
    · exact h.congr rfl ((soundings_tell _ _).trans (List.append_nil _))
    · exact h
  current _ h := h.congr rfl rfl

/-- A tick tells the tone that it counts. -/
theorem Sounded.tick (h : m.Sounded m') : m.Sounded m'.tick := by
  obtain ⟨k, htones, hsoundings⟩ := h
  have htick : m'.tick.tones = if m'.sound = 1 then m'.tones + 1 else m'.tones := by
    rw [tick_eq]
    rfl
  rw [Sounded, soundings_tick, htick, hsoundings, htones]
  split
  · refine ⟨k + 1, rfl, ?_⟩
    rw [List.range'_1_concat, List.append_assoc, Nat.add_right_comm]
  · exact ⟨k, rfl, List.append_nil _⟩

/-- A reset sounds no tone, and tells none. -/
theorem Sounded.reset (h : m.Sounded m') : m.Sounded m'.reset := by
  have hr : m.Sounded { m' with registers := m'.registers.reset } := h.congr rfl rfl
  have hl := (enduring_sounded m).setResolution false hr
  exact hl.congr rfl rfl

/-- Each operation tells the tones that it counts. -/
theorem Sounded.operate (h : m.Sounded m') {o : Operation} {r : Machine × Option Fault}
    (hr : m'.operate o = some r) : m.Sounded r.1 := by
  cases o
  case step =>
    cases hr
    exact (enduring_sounded m).step h
  case execute word =>
    cases hr
    exact (enduring_sounded m).execute _ h
  case reset =>
    cases hr
    exact h.reset
  case tick =>
    cases hr
    exact h.tick
  case advanceClock elapsed =>
    rw [Machine.operate, Option.map_eq_some_iff] at hr
    obtain ⟨⟨n, ticks⟩, hm, rfl⟩ := hr
    exact advanceClock_induction (fun _ ↦ Sounded.tick) (fun _ _ h ↦ h.congr rfl rfl) h hm
  case setResolution high =>
    cases hr
    exact (enduring_sounded m).setResolution high h
  case flush =>
    cases hr
    exact h.congr rfl (soundings_flush m')
  case setLive live =>
    cases hr
    exact h.congr rfl rfl
  all_goals
    have hunheard := unheard_operate hr trivial
    exact h.congr hunheard.tones (by rw [soundings, hunheard.log, soundings])

/-- Operations tell the tones that they count. -/
theorem sounded_operateAll {ops : List Operation} (hn : m.operateAll ops = some n) : m.Sounded n :=
  operateAll_induction (fun _ _ _ h hr ↦ h.operate hr) (.refl m) hn

/-- Where one tone at most is counted, that one at most is told. -/
theorem Sounded.soundings_eq (h : m.Sounded m') {c : Prop} [Decidable c]
    (ht : m'.tones = m.tones + if c then 1 else 0) :
    m'.soundings = m.soundings ++ if c then [m.tones + 1] else [] := by
  obtain ⟨k, htones, hsoundings⟩ := h
  have hk : k = if c then 1 else 0 := Nat.add_left_cancel (htones.symm.trans ht)
  rw [hsoundings, hk]
  split <;> rfl

/-- Since a machine was new, it has told as many tones as it has counted. -/
theorem soundings_of_powerOn {random : RandomSource} {speed : Int} {observed : Bool}
    (hm : powerOn random speed observed = .ok m) (h : m.Sounded m') :
    m'.soundings = List.range' 1 m'.tones := by
  obtain ⟨interval, -, hm⟩ := exists_of_bind_ok hm
  cases hm
  obtain ⟨k, htones, hsoundings⟩ := h
  have hcount : m'.tones = k := htones.trans (Nat.zero_add k)
  rw [hsoundings, hcount]
  rfl

/-! ## Ticks -/

/-- `m'` is what `k` ticks make of the timers of `m`. -/
structure Counted (k : Nat) (m m' : Machine) : Prop where
  /-- The timers come down by one with each tick, as far as zero. -/
  timer : ∀ t, m'.timer t = max 0 (m.timer t - k)
  /-- A tone sounds if the sound timer comes to zero. -/
  tones : m'.tones = m.tones + if 1 ≤ m.sound ∧ m.sound ≤ k then 1 else 0

theorem Counted.refl (h : ∀ t, 0 ≤ m.timer t) : Counted 0 m m where
  timer t := by
    have := h t
    omega
  tones := by
    rw [if_neg (by omega)]
    rfl

theorem Counted.trans {j k : Nat} (h : Counted j m m') (h' : Counted k m' m'') :
    Counted (j + k) m m'' where
  timer t := by
    rw [h'.timer, h.timer]
    omega
  tones := by
    have hs : m'.sound = max 0 (m.sound - j) := h.timer .sound
    rw [h'.tones, h.tones, hs]
    -- The tone sounds in the first part, or in the second one, or not at all.
    split <;> split <;> split <;> omega

/-- Only the timers and the tones matter. -/
theorem Counted.congr {k : Nat} (h : Counted k m m') (ht : ∀ t, m''.timer t = m'.timer t)
    (hs : m''.tones = m'.tones) : Counted k m m'' where
  timer t := (ht t).trans (h.timer t)
  tones := hs.trans h.tones

theorem Counted.timer_nonneg {k : Nat} (h : Counted k m m') (t : Timer) : 0 ≤ m'.timer t := by
  rw [h.timer]
  exact Int.le_max_left _ _

theorem counted_tick (h : ∀ t, 0 ≤ m.timer t) : Counted 1 m m.tick := by
  rw [tick_eq]
  constructor
  · intro t
    have ht := h t
    cases t with
    | delay =>
      change (if 0 < m.delay then m.delay - 1 else m.delay) = max 0 (m.delay - 1)
      change 0 ≤ m.delay at ht
      split <;> omega
    | sound =>
      change (if 0 < m.sound then m.sound - 1 else m.sound) = max 0 (m.sound - 1)
      change 0 ≤ m.sound at ht
      split <;> omega
  · change (if m.sound = 1 then m.tones + 1 else m.tones) = _
    split <;> split <;> omega

/-- Paying out makes as many ticks as it counts. -/
theorem counted_payOut {j k : Nat} (h : ∀ t, 0 ≤ m.timer t) (hm : m.payOut j = some (m', k)) :
    ∃ i, k = j + i ∧ Counted i m m' := by
  fun_induction payOut m j with
  | case1 m j hle left hlt ih =>
    have htick := counted_tick h
    have howed : Counted 1 m { m.tick with owed := left } :=
      htick.congr (fun t ↦ by cases t <;> rfl) rfl
    obtain ⟨i, rfl, hi⟩ := ih howed.timer_nonneg hm
    exact ⟨1 + i, Nat.add_assoc _ _ _, howed.trans hi⟩
  | case2 m j hle left hlt => cases hm
  | case3 m j hle =>
    cases hm
    exact ⟨0, rfl, .refl h⟩

/-- The clock makes as many ticks as it counts. -/
theorem counted_advanceClock {elapsed : Float} {k : Nat} (h : ∀ t, 0 ≤ m.timer t)
    (hm : m.advanceClock elapsed = some (m', k)) : Counted k m m' := by
  rw [advanceClock] at hm
  cases hp : ({ m with owed := m.owed + elapsed } : Machine).payOut 0 with
  | none =>
    rw [hp] at hm
    cases hm
  | some r =>
    have howed : ∀ t, 0 ≤ ({ m with owed := m.owed + elapsed } : Machine).timer t := by
      intro t
      cases t
      · exact h .delay
      · exact h .sound
    obtain ⟨i, hk, hi⟩ := counted_payOut howed hp
    rw [hp] at hm
    cases hm
    rw [hk, Nat.zero_add]
    have hsame : Counted i m r.1 := ⟨fun t ↦ by cases t <;> exact hi.timer _, hi.tones⟩
    split
    · exact hsame.congr (fun t ↦ by cases t <;> rfl) rfl
    · exact hsame

/-! ## Operations -/

/-- An operation that resets nothing and does not load a timer brings it down by its ticks. -/
theorem timer_operate (h : m.WellFormed) {o : Operation} (ho : o ≠ .reset)
    (hl : ∀ x, m.executes? o ≠ some (t.load x)) {r : Machine × Option Fault}
    (hr : m.operate o = some r) : r.1.timer t = max 0 (m.timer t - m.ticksOf o) := by
  have hpos := h.timer_nonneg t
  have hkept {k : Nat} (hk : k = 0) (hs : r.1.timer t = m.timer t) :
      r.1.timer t = max 0 (m.timer t - k) := by omega
  cases o
  case step =>
    cases hr
    exact hkept rfl (timer_step hl)
  case execute word =>
    cases hr
    exact hkept rfl (timer_execute fun x hx ↦ hl x (congrArg some hx))
  case reset => exact absurd rfl ho
  case tick =>
    cases hr
    exact (counted_tick h.timer_nonneg).timer t
  case advanceClock elapsed =>
    rw [operate, Option.map_eq_some_iff] at hr
    obtain ⟨⟨m', k⟩, hm, rfl⟩ := hr
    rw [ticksOf, hm]
    exact (counted_advanceClock h.timer_nonneg hm).timer t
  all_goals
    have hstill := still_operate hr trivial
    refine hkept rfl ?_
    cases t
    · exact hstill.delay
    · exact hstill.sound

/-- An operation sounds a tone if its ticks bring the sound timer to zero. -/
theorem tones_operate (h : m.WellFormed) {o : Operation} {r : Machine × Option Fault}
    (hr : m.operate o = some r) :
    r.1.tones = m.tones + if 1 ≤ m.sound ∧ m.sound ≤ m.ticksOf o then 1 else 0 := by
  have hkept {k : Nat} (hk : k = 0) (hs : r.1.tones = m.tones) :
      r.1.tones = m.tones + if 1 ≤ m.sound ∧ m.sound ≤ k then 1 else 0 := by
    rw [hs, if_neg (by omega)]
    rfl
  cases o
  case step =>
    cases hr
    exact hkept rfl ((enduring_tones m.tones).step rfl)
  case execute word =>
    cases hr
    exact hkept rfl ((enduring_tones m.tones).execute _ rfl)
  case reset =>
    cases hr
    exact hkept rfl rfl
  case tick =>
    cases hr
    exact (counted_tick h.timer_nonneg).tones
  case advanceClock elapsed =>
    rw [operate, Option.map_eq_some_iff] at hr
    obtain ⟨⟨m', k⟩, hm, rfl⟩ := hr
    rw [ticksOf, hm]
    exact (counted_advanceClock h.timer_nonneg hm).tones
  all_goals exact hkept rfl (still_operate hr trivial).tones

/-- An operation that loads a timer puts the byte of the register there. -/
theorem timer_operate_load {o : Operation} {x : Register} (hi : m.executes? o = some (t.load x))
    {r : Machine × Option Fault} (hr : m.operate o = some r) : r.1.timer t = (m.get x).toNat := by
  cases o
  case step =>
    cases hr
    exact timer_step_load hi
  case execute word =>
    cases hr
    exact timer_execute_load (Option.some.inj hi)
  all_goals cases hi

theorem ticksOf_of_executes? {o : Operation} {i : Instruction} (hi : m.executes? o = some i) :
    m.ticksOf o = 0 := by
  cases o
  case step | execute => rfl
  all_goals cases hi

/-- An operation that sets the sound timer going makes one tone due, and no other load of it
does. -/
theorem dueTones_operate_load {o : Operation} {x : Register}
    (hi : m.executes? o = some (.setSound x)) {r : Machine × Option Fault}
    (hr : m.operate o = some r) :
    r.1.dueTones = ((m.executes? o).map (m, ·)).toList.countP startsSound := by
  have hs : r.1.sound = (m.get x).toNat := timer_operate_load (t := .sound) hi hr
  rw [dueTones, hs, hi]
  by_cases hb : m.get x = 0
  · simp [startsSound, hb]
  · have hpos : 0 < (m.get x).toNat := by
      rw [Nat.pos_iff_ne_zero]
      exact fun h ↦ hb (UInt8.toNat_inj.mp h)
    simp [startsSound, hb, hpos]

theorem dueTones_reset (m : Machine) : m.reset.dueTones = 0 := rfl

/-- An operation makes no tones sound or due but the one that it sets going. -/
theorem dueTones_operate (h : m.WellFormed) {o : Operation} {r : Machine × Option Fault}
    (hr : m.operate o = some r) :
    r.1.tones + r.1.dueTones ≤
      m.tones + m.dueTones + ((m.executes? o).map (m, ·)).toList.countP startsSound := by
  -- A tone that sounds was due before, so it remains to look at what is due afterwards.
  have hsounds : r.1.tones ≤ m.tones + m.dueTones := by
    rw [tones_operate h hr, dueTones]
    split <;> split <;> omega
  by_cases hload : ∃ x, m.executes? o = some (.setSound x)
  · obtain ⟨x, hx⟩ := hload
    rw [dueTones_operate_load hx hr]
    exact Nat.add_le_add_right hsounds _
  by_cases hreset : o = .reset
  · cases hreset
    cases hr
    rw [dueTones_reset]
    exact Nat.le_add_right_of_le hsounds
  · have hs : r.1.sound = max 0 (m.sound - m.ticksOf o) :=
      timer_operate (t := .sound) h hreset (not_exists.mp hload) hr
    apply Nat.le_add_right_of_le
    rw [tones_operate h hr, dueTones, dueTones, hs]
    split <;> split <;> split <;> omega

/-! ## Stretches of operations -/

theorem mem_executed_of_executes? {o : Operation} {ops : List Operation} {i : Instruction}
    (hi : m.executes? o = some i) : (m, i) ∈ m.executed (o :: ops) := by
  rw [executed, hi]
  exact List.mem_append_left _ List.mem_cons_self

/-- What operations execute and tick, after a first one. -/
theorem executed_cons {o : Operation} (ops : List Operation) {r : Machine × Option Fault}
    (hr : m.operate o = some r) :
    m.executed (o :: ops) = ((m.executes? o).map (m, ·)).toList ++ r.1.executed ops ∧
      m.ticks (o :: ops) = m.ticksOf o + r.1.ticks ops := by
  rw [executed, ticks, hr]
  exact ⟨rfl, rfl⟩

/-- Operations that do not load a timer and reset nothing bring it down by their ticks. -/
theorem timer_operateAll (h : m.WellFormed) {ops : List Operation} (hreset : .reset ∉ ops)
    (hl : ∀ e ∈ m.executed ops, ∀ x, e.2 ≠ t.load x) (hn : m.operateAll ops = some n) :
    n.timer t = max 0 (m.timer t - m.ticks ops) := by
  induction ops generalizing m with
  | nil =>
    cases hn
    have := h.timer_nonneg t
    rw [ticks]
    omega
  | cons o ops ih =>
    obtain ⟨r, hr, hn⟩ := exists_of_operateAll_cons hn
    obtain ⟨hexecuted, hticks⟩ := executed_cons ops hr
    rw [List.mem_cons, not_or] at hreset
    have hfirst := timer_operate h (Ne.symm hreset.1)
      (fun x hx ↦ hl _ (mem_executed_of_executes? hx) x rfl) hr
    have hrest := ih (h.operate hr) hreset.2
      (fun e he ↦ hl e (hexecuted ▸ List.mem_append_right _ he)) hn
    rw [hrest, hfirst, hticks]
    omega

/-- Operations that do not load the sound timer and reset nothing sound one tone, if their ticks
bring the sound timer to zero. -/
theorem tones_operateAll (h : m.WellFormed) {ops : List Operation} (hreset : .reset ∉ ops)
    (hl : ∀ e ∈ m.executed ops, ∀ x, e.2 ≠ .setSound x) (hn : m.operateAll ops = some n) :
    n.tones = m.tones + if 1 ≤ m.sound ∧ m.sound ≤ m.ticks ops then 1 else 0 := by
  induction ops generalizing m with
  | nil =>
    cases hn
    rw [ticks, if_neg (by omega)]
    rfl
  | cons o ops ih =>
    obtain ⟨r, hr, hn⟩ := exists_of_operateAll_cons hn
    obtain ⟨hexecuted, hticks⟩ := executed_cons ops hr
    rw [List.mem_cons, not_or] at hreset
    have hs : r.1.sound = max 0 (m.sound - m.ticksOf o) :=
      timer_operate (t := .sound) h (Ne.symm hreset.1)
        (fun x hx ↦ hl _ (mem_executed_of_executes? hx) x rfl) hr
    have hrest := ih (h.operate hr) hreset.2
      (fun e he ↦ hl e (hexecuted ▸ List.mem_append_right _ he)) hn
    rw [hrest, tones_operate h hr, hs, hticks]
    -- The tone sounds at the first operation, or later, or not at all.
    split <;> split <;> split <;> omega

/-- Operations make no tones sound or due but those that they set going. -/
theorem dueTones_operateAll (h : m.WellFormed) {ops : List Operation}
    (hn : m.operateAll ops = some n) :
    n.tones + n.dueTones ≤ m.tones + m.dueTones + (m.executed ops).countP startsSound := by
  induction ops generalizing m with
  | nil =>
    cases hn
    exact Nat.le_add_right _ _
  | cons o ops ih =>
    obtain ⟨r, hr, hn⟩ := exists_of_operateAll_cons hn
    have hfirst := dueTones_operate h hr
    have hrest := ih (h.operate hr) hn
    rw [(executed_cons ops hr).1, List.countP_append]
    omega

theorem tones_of_powerOn {random : RandomSource} {speed : Int} {observed : Bool}
    (hm : powerOn random speed observed = .ok m) : m.tones = 0 ∧ m.dueTones = 0 := by
  obtain ⟨interval, -, hm⟩ := exists_of_bind_ok hm
  cases hm
  exact ⟨rfl, rfl⟩

/-- Each countdown of the sound timer that reaches zero gives exactly one tone.

Over any operations that reset nothing and do not load the sound timer, it comes down by the number
of ticks, as far as zero, and one tone sounds if it was running before and has come to zero, and
none otherwise.  The delay timer comes down in the same way.  Since a machine was new, no more tones
have sounded, the one that is still due counted with them, than the sound timer was set going.  If
the sound timer is loaded with zero, or the machine is reset, it stands at zero without a tone.

All of this is so of the tones that the machine counts and of those that the world was told: these
are numbered from one, and there are as many of them as were counted. -/
theorem one_tone_per_countdown (h : m.WellFormed) {ops : List Operation}
    (hn : m.operateAll ops = some n) :
    (.reset ∉ ops → (∀ e ∈ m.executed ops, ∀ x, e.2 ≠ .setSound x) →
      n.sound = max 0 (m.sound - m.ticks ops) ∧
      n.tones = (m.tones + if 1 ≤ m.sound ∧ m.sound ≤ m.ticks ops then 1 else 0) ∧
      n.soundings = m.soundings ++
        if 1 ≤ m.sound ∧ m.sound ≤ m.ticks ops then [m.tones + 1] else []) ∧
    (.reset ∉ ops → (∀ e ∈ m.executed ops, ∀ x, e.2 ≠ .setDelay x) →
      n.delay = max 0 (m.delay - m.ticks ops)) ∧
    (∀ (random : RandomSource) (speed : Int) (observed : Bool),
      powerOn random speed observed = .ok m →
      n.soundings = List.range' 1 n.tones ∧ n.soundings.length = n.tones ∧
      n.soundings.length + (if 0 < n.sound then 1 else 0) ≤
        (m.executed ops).countP startsSound) ∧
    ∀ (o : Operation) (n' : Machine) (f : Option Fault), n.operate o = some (n', f) →
      o = .reset ∨ (∃ x, n.executes? o = some (.setSound x) ∧ n.get x = 0) →
        n'.sound = 0 ∧ n'.tones = n.tones ∧ n'.soundings = n.soundings := by
  have hsounded := sounded_operateAll hn
  refine ⟨?_, fun hreset hl ↦ timer_operateAll (t := .delay) h hreset hl hn, ?_, ?_⟩
  · intro hreset hl
    have htones := tones_operateAll h hreset hl hn
    exact ⟨timer_operateAll (t := .sound) h hreset hl hn, htones, hsounded.soundings_eq htones⟩
  · intro random speed observed hm
    obtain ⟨htones, hdue⟩ := tones_of_powerOn hm
    have hle := dueTones_operateAll h hn
    rw [htones, hdue, Nat.zero_add] at hle
    have hnumbers := soundings_of_powerOn hm hsounded
    have hlength : n.soundings.length = n.tones := by rw [hnumbers, List.length_range']
    exact ⟨hnumbers, hlength, hlength ▸ hle⟩
  · intro o n' f hr ho
    have htones := tones_operate (h.operateAll hn) hr
    have hlast : n.Sounded n' := (Sounded.refl n).operate hr
    have hsilent : ticksOf n o = 0 → n'.tones = n.tones ∧ n'.soundings = n.soundings := by
      intro hticks
      rw [hticks] at htones
      have hsoundings := hlast.soundings_eq htones
      rw [if_neg (by omega)] at htones hsoundings
      exact ⟨htones, hsoundings.trans (List.append_nil _)⟩
    rcases ho with rfl | ⟨x, hx, hzero⟩
    · refine ⟨?_, hsilent rfl⟩
      cases hr
      rfl
    · have hs : n'.sound = (n.get x).toNat := timer_operate_load (t := .sound) hx hr
      rw [hzero] at hs
      exact ⟨hs, hsilent (ticksOf_of_executes? hx)⟩

/-- A machine whose timers run. -/
def ringing : Machine where
  delay := 5
  sound := 2
  random := .cycle [] []

/-- Three ticks give one tone, although the delay timer is loaded in between; and the machine stays
silent when it is reset. -/
theorem one_tone_per_countdown_ringing : ∃ n,
    ringing.operateAll [.tick, .execute 0xF015, .tick, .tick] = some n ∧
    n.sound = 0 ∧ n.tones = 1 ∧ n.soundings = [1] ∧ n.reset.soundings = [1] := by
  have h : ringing.WellFormed :=
    { memory := size_fontMemory
      registers := Registers.wellFormed_new
      display := Display.wellFormed_new _
      delay := by decide
      sound := by decide }
  have hn : ∃ n, ringing.operateAll [.tick, .execute 0xF015, .tick, .tick] = some n := ⟨_, rfl⟩
  obtain ⟨n, hn⟩ := hn
  obtain ⟨hsound, -, -, hsilent⟩ := one_tone_per_countdown h hn
  have hticks : ringing.ticks [.tick, .execute 0xF015, .tick, .tick] = 3 := rfl
  have hloads : ∀ e ∈ ringing.executed [.tick, .execute 0xF015, .tick, .tick], ∀ x,
      e.2 ≠ .setSound x := by
    decide +kernel
  obtain ⟨hs, hone, htold⟩ := hsound (by simp) hloads
  rw [hticks] at hs hone htold
  exact ⟨n, hn, hs, hone, htold, (hsilent .reset _ _ rfl (.inl rfl)).2.2.trans htold⟩

end Machine

end SuperChip
