import SuperChip.Proofs.Burst
import SuperChip.Proofs.LiveTrace

/-!
# Waiting for a key is spinning

The instruction that waits for a key goes back to itself so long as no key is down.  A step that
executes it moves the program counter on and back again, and this cancels at every address, also
where the counter wraps past the end of memory.  So a machine may make any number of steps without
getting anywhere: time passes for its timers and pictures are handed over, and nothing else is
different afterwards.

Once a key is down, the next step is the last one that the instruction takes.  It puts the lowest
key that is down in the register and leaves the program counter at the next instruction.
-/

namespace SuperChip

namespace Machine

/-- But for the trace and the keys, `n` is what `k` ticks make of `m`. -/
structure Waited (k : Nat) (m n : Machine) : Prop where
  /-- Nothing but the ticks, the keys and the address of the instruction makes a difference. -/
  eq : n.untraced = { tick^[k] m.untraced with keys := n.keys, current := n.current }
  /-- It is traced in the same way. -/
  monitor : n.monitor = m.monitor

variable {m m' n : Machine} {x : Register}

/-! ## The keys -/

/-- The first key is the lowest one that is down. -/
theorem exists_firstKey?_eq {k : Key} (h : m.keys.get k = true) :
    ∃ k, m.firstKey? = some k ∧ m.keys.get k = true ∧ ∀ j : Key, m.keys.get j = true → k ≤ j := by
  cases hf : m.firstKey? with
  | none =>
    have hnone := List.find?_eq_none.mp hf k (List.mem_finRange k)
    exact absurd h hnone
  | some k =>
    obtain ⟨hk, before, after, hkeys, hbefore⟩ := List.find?_eq_some_iff_append.mp hf
    refine ⟨k, rfl, hk, fun j hj ↦ ?_⟩
    have hsorted := List.pairwise_lt_finRange 16
    have hmem := List.mem_finRange j
    rw [hkeys, List.mem_append, List.mem_cons] at hmem
    rw [hkeys, List.pairwise_append, List.pairwise_cons] at hsorted
    rcases hmem with hlow | rfl | hhigh
    · have hup : m.keys.get j = false := (Bool.not_eq_true' _).mp (hbefore j hlow)
      exact absurd (hj.symm.trans hup) Bool.true_eq_false_eq_False
    · exact le_rfl
    · exact (hsorted.2.1.1 j hhigh).le

theorem firstKey?_eq_none (h : ∀ k : Key, m.keys.get k = false) : m.firstKey? = none := by
  rw [firstKey?, List.find?_eq_none]
  intro k _
  change ¬ m.keys.get k = true
  rw [h k]
  exact Bool.false_ne_true

/-! ## A step -/

/-- A step does what the instruction at the program counter says, once the counter has been moved
on and the word was traced. -/
theorem exists_step_eq_of_perform {i : Instruction} (hi : m.instruction? = some i) :
    ∃ lines : List String, ∀ m',
      ({ m.primed with log := lines.map .trace ++ m.log } : Machine).perform i = .ok m' →
        m.step = (m', none) := by
  obtain ⟨w, hw, rfl⟩ := Option.map_eq_some_iff.mp hi
  obtain ⟨lines, ht⟩ := m.primed.exists_trace_eq w
  refine ⟨lines, fun m' hp ↦ ?_⟩
  have hfetch : m.fetch = .ok w := by
    cases hf : m.fetch with
    | ok w' =>
      rw [hf] at hw
      exact congrArg Except.ok (Option.some.inj hw)
    | error f =>
      rw [hf] at hw
      cases hw
  have hp : ({ m.primed with log := lines.map .trace ++ m.primed.log } : Machine).perform
    (Instruction.decode w) = .ok m' := hp
  rw [step_eq_execute hfetch, execute, ht, hp]

/-- While no key is down, a step that waits for one only moves on what is traced. -/
theorem exists_step_eq_of_no_key (hi : m.instruction? = some (.awaitKey x))
    (hk : ∀ k : Key, m.keys.get k = false) : ∃ lines : List String,
    m.step = ({ m with current := m.registers.pc, log := lines.map .trace ++ m.log }, none) := by
  obtain ⟨lines, hstep⟩ := exists_step_eq_of_perform hi
  refine ⟨lines, hstep _ ?_⟩
  have hnone : ({ m.primed with log := lines.map .trace ++ m.log } : Machine).firstKey? = none :=
    firstKey?_eq_none hk
  have hback : m.primed.registers.rewind = m.registers := m.registers.rewind_advance
  rw [perform, hnone]
  simp only [mapRegisters, hback]
  rfl

/-- Once a key is down, a step that waits for one puts the lowest key in the register and goes
on. -/
theorem exists_step_eq_of_key (hi : m.instruction? = some (.awaitKey x)) {k : Key}
    (hk : m.keys.get k = true) :
    ∃ k : Key, m.keys.get k = true ∧ (∀ j : Key, m.keys.get j = true → k ≤ j) ∧ ∃ log,
      m.step = ({ m with
        registers := { m.registers.set x (UInt8.ofNat k.val) with pc := m.registers.pc + 2 }
        current := m.registers.pc
        log }, none) := by
  obtain ⟨k, hfirst, hdown, hleast⟩ := exists_firstKey?_eq hk
  obtain ⟨lines, hstep⟩ := exists_step_eq_of_perform hi
  refine ⟨k, hdown, hleast, lines.map .trace ++ m.log, hstep _ ?_⟩
  have hsome : ({ m.primed with log := lines.map .trace ++ m.log } : Machine).firstKey? = some k :=
    hfirst
  rw [perform, hsome]
  rfl

/-! ## A wait -/

theorem iterate_tick_keys (m : Machine) (keys : Vector Bool 16) (current : Address) (k : Nat) :
    tick^[k] { m with keys, current } = { tick^[k] m with keys, current } := by
  induction k with
  | zero => rfl
  | succ k ih =>
    rw [Function.iterate_succ_apply', Function.iterate_succ_apply', ih, tick_eq, tick_eq]
    rfl

theorem Waited.refl (m : Machine) : Waited 0 m m := ⟨rfl, rfl⟩

theorem Waited.trans {j k : Nat} (h : Waited j m m') (h' : Waited k m' n) :
    Waited (j + k) m n where
  eq := by
    rw [h'.eq, h.eq, iterate_tick_keys, Nat.add_comm, Function.iterate_add_apply]
  monitor := h'.monitor.trans h.monitor

theorem waited_keys (m : Machine) (keys : Vector Bool 16) : Waited 0 m { m with keys } := ⟨rfl, rfl⟩

theorem waited_tick (m : Machine) : Waited 1 m m.tick where
  eq := by
    rw [untraced_tick, Function.iterate_one, tick_eq, tick_eq]
    rfl
  monitor := by
    rw [tick_eq]
    rfl

/-- Waiting changes nothing but what belongs to the timers and what was said. -/
theorem Waited.machine_eq {k : Nat} (h : Waited k m n) (hm : m.WellFormed) :
    n = { m with
      keys := n.keys
      current := n.current
      delay := max 0 (m.delay - k)
      sound := max 0 (m.sound - k)
      tones := m.tones + if 1 ≤ m.sound ∧ m.sound ≤ k then 1 else 0
      display := if k = 0 then m.display else m.display.flush
      log := n.log } := by
  have hu : m.untraced.WellFormed :=
    ⟨hm.memory, hm.registers, hm.display, hm.delay, hm.sound⟩
  obtain ⟨log, hlog⟩ := hu.iterate_tick_eq k
  have heq : n = { n.untraced with monitor := n.monitor, log := n.log } := rfl
  rw [h.eq, hlog, h.monitor] at heq
  exact heq

theorem Waited.exists_eq {k : Nat} (h : Waited k m n) (hm : m.WellFormed) :
    ∃ keys current delay sound tones dirty log, n =
      { m with keys, current, delay, sound, tones, log, display := { m.display with dirty } } := by
  have heq := h.machine_eq hm
  split at heq
  · exact ⟨_, _, _, _, _, _, _, heq⟩
  · exact ⟨_, _, _, _, _, _, _, heq⟩

/-! ## Waiting through many operations -/

/-- While no key is down, a step that waits for one is spent waiting, and so is a tick. -/
theorem exists_operate_waited (hi : m.instruction? = some (.awaitKey x))
    (hk : ∀ k : Key, m.keys.get k = false) {o : Operation} (ho : o = .step ∨ o = .tick) :
    ∃ n, m.operate o = some (n, none) ∧ Waited (m.ticksOf o) m n ∧ n.keys = m.keys ∧
      n.registers = m.registers ∧ n.instruction? = m.instruction? ∧
      (o = .step → n.current = m.registers.pc) ∧ (o ≠ .step → n.current = m.current) := by
  rcases ho with rfl | rfl
  · obtain ⟨lines, hstep⟩ := exists_step_eq_of_no_key hi hk
    have hlines : (lines.map Event.trace).filter (!·.isTrace) = [] := by
      rw [List.filter_map, List.map_eq_nil_iff]
      exact List.filter_false lines
    refine ⟨_, congrArg some hstep, ⟨?_, rfl⟩, rfl, rfl, rfl, fun _ ↦ rfl, fun h ↦ (h rfl).elim⟩
    rw [untraced, List.filter_append, hlines]
    rfl
  · have hcurrent : m.tick.current = m.current := by rw [tick_eq]; rfl
    have hne : Operation.tick ≠ .step := by simp
    refine ⟨m.tick, rfl, waited_tick m, ?_, ?_, ?_, fun h ↦ (hne h).elim, fun _ ↦ hcurrent⟩
    · rw [tick_eq]
      rfl
    · rw [tick_eq]
      rfl
    · rw [tick_eq]
      rfl

/-- Steps and ticks are spent waiting while no key is down. -/
theorem exists_operateAll_waited (hi : m.instruction? = some (.awaitKey x))
    (hk : ∀ k : Key, m.keys.get k = false) {ops : List Operation}
    (hops : ∀ o ∈ ops, o = .step ∨ o = .tick) :
    ∃ n, m.operateAll ops = some n ∧ Waited (m.ticks ops) m n ∧ n.keys = m.keys ∧
      (∀ f ∈ m.faults ops, f = none) ∧ (.step ∈ ops → n.current = m.registers.pc) ∧
      (.step ∉ ops → n.current = m.current) := by
  induction ops generalizing m with
  | nil => exact ⟨m, rfl, .refl m, rfl, by simp [faults], by simp, fun _ ↦ rfl⟩
  | cons o ops ih =>
    obtain ⟨m', ho, hw, hkeys, hregisters, hi', hstep, hstill⟩ :=
      exists_operate_waited hi hk (hops o List.mem_cons_self)
    obtain ⟨n, hn, hw', hkeys', hfaults, hc, hc'⟩ := ih (hi'.trans hi) (hkeys.symm ▸ hk)
      fun o ho ↦ hops o (List.mem_cons_of_mem _ ho)
    rw [hregisters] at hc
    rw [operateAll, ticks, faults, ho]
    refine ⟨n, hn, hw.trans hw', hkeys'.trans hkeys, List.forall_mem_cons.mpr ⟨rfl, hfaults⟩,
      ?_, ?_⟩
    · intro hmem
      by_cases hlater : .step ∈ ops
      · exact hc hlater
      · exact (hc' hlater).trans (hstep ((List.mem_cons.mp hmem).resolve_right hlater).symm)
    · intro hmem
      obtain ⟨hne, hlater⟩ := not_or.mp (List.mem_cons.not.mp hmem)
      exact (hc' hlater).trans (hstill (Ne.symm hne))

/-- Ticks and changes of keys are spent waiting. -/
theorem waited_operateAll {ops : List Operation} (hops : ∀ o ∈ ops,
      o = .tick ∨ o = .clearKeys ∨ ∃ key down, o = .setKey key down)
    (hn : m.operateAll ops = some n) : ∃ k, Waited k m n := by
  induction ops generalizing m with
  | nil =>
    cases hn
    exact ⟨0, .refl _⟩
  | cons o ops ih =>
    obtain ⟨r, hr, hn⟩ := exists_of_operateAll_cons hn
    obtain ⟨k, hw⟩ := ih (fun o ho ↦ hops o (List.mem_cons_of_mem _ ho)) hn
    rcases hops o List.mem_cons_self with rfl | rfl | ⟨key, down, rfl⟩
    · cases hr
      exact ⟨_, (waited_tick m).trans hw⟩
    · cases hr
      exact ⟨_, (waited_keys m _).trans hw⟩
    · cases hr
      cases hkey : m.setKey key down with
      | ok m' =>
        rw [hkey] at hw
        obtain ⟨keys, rfl⟩ := exists_of_setKey hkey
        exact ⟨_, (waited_keys m keys).trans hw⟩
      | error f =>
        rw [hkey] at hw
        exact ⟨k, hw⟩

/-! ## The wait and its end -/

/-- While a machine waits for a key, steps and ticks meet no fault and leave all as it was but the
timers, what was handed over and said, and the address of the instruction.  All that is said, but
for the trace, is what the ticks say.

When the keys have changed meanwhile and one is down, the next step puts the lowest such key in the
register and moves the program counter past the instruction; memory, the other registers and all
else are as they were before the wait. -/
theorem waits_for_key (h : m.WellFormed) (hi : m.instruction? = some (.awaitKey x))
    (hk : ∀ k : Key, m.keys.get k = false) {ops : List Operation}
    (hops : ∀ o ∈ ops, o = .step ∨ o = .tick) :
    ∃ n, m.operateAll ops = some n ∧ (∀ f ∈ m.faults ops, f = none) ∧
      n = { m with
        current := n.current
        delay := max 0 (m.delay - m.ticks ops)
        sound := max 0 (m.sound - m.ticks ops)
        tones := m.tones + if 1 ≤ m.sound ∧ m.sound ≤ m.ticks ops then 1 else 0
        display := if m.ticks ops = 0 then m.display else m.display.flush
        log := n.log } ∧
      (.step ∈ ops → n.current = m.registers.pc) ∧ (.step ∉ ops → n.current = m.current) ∧
      n.untraced.log = (tick^[m.ticks ops] m.untraced).log ∧
      ∀ (later : List Operation) (p : Machine),
        (∀ o ∈ later, o = .tick ∨ o = .clearKeys ∨ ∃ key down, o = .setKey key down) →
        n.operateAll later = some p → (∃ k : Key, p.keys.get k = true) →
        ∃ k : Key, p.keys.get k = true ∧ (∀ j : Key, p.keys.get j = true → k ≤ j) ∧ ∃ log,
          p.step = ({ m with
            registers := { m.registers.set x (UInt8.ofNat k.val) with pc := m.registers.pc + 2 }
            current := m.registers.pc
            keys := p.keys
            delay := p.delay
            sound := p.sound
            tones := p.tones
            display := { m.display with dirty := p.display.dirty }
            log }, none) := by
  obtain ⟨n, hn, hw, hkeys, hfaults, hc, hc'⟩ := exists_operateAll_waited hi hk hops
  have heq := hw.machine_eq h
  rw [hkeys] at heq
  refine ⟨n, hn, hfaults, heq, hc, hc', ?_, ?_⟩
  · rw [hw.eq]
  · rintro later p hlater hp ⟨k, hdown⟩
    obtain ⟨j, hwlater⟩ := waited_operateAll hlater hp
    have hwp := hw.trans hwlater
    obtain ⟨keys, current, delay, sound, tones, dirty, log, rfl⟩ := hwp.exists_eq h
    exact exists_step_eq_of_key hi hdown

/-- A machine that waits for a key, with the two bytes of the instruction at the two ends of
memory. -/
def listening : Machine where
  memory := ⟨((Array.replicate 4096 0).setIfInBounds 0xFFF 0xF3).setIfInBounds 0 0x0A⟩
  registers := { pc := 0xFFF }
  random := .cycle [] []

/-- The listening machine stays where it is until two keys are down, and then takes the lower
one. -/
theorem waits_for_key_listening : ∃ n p,
    listening.operateAll [.step, .tick, .step] = some n ∧ n.registers = listening.registers ∧
      n.operateAll [.setKey 9 true, .setKey 4 true] = some p ∧
      p.step.1.registers.get 3 = 4 ∧ p.step.1.registers.pc = 0x001 := by
  have hindex : (0 : Int) ≤ 0 ∧ (0 : Int) ≤ 0xFFFF := by decide
  have h : listening.WellFormed :=
    { memory := by simp [listening, Memory.size]
      registers := ⟨hindex, rfl, Nat.zero_le _⟩
      display := Display.wellFormed_new _
      delay := zero_range
      sound := zero_range }
  have hi : listening.instruction? = some (.awaitKey 3) := by decide +kernel
  have hk : ∀ k : Key, listening.keys.get k = false := by decide
  have hops : ∀ o ∈ [Operation.step, .tick, .step], o = .step ∨ o = .tick := by simp
  obtain ⟨n, hn, -, heq, -, -, -, hend⟩ := waits_for_key h hi hk hops
  have hkeys : n.keys = listening.keys := by rw [heq]
  have hlater : ∀ o ∈ [Operation.setKey 9 true, .setKey 4 true],
      o = .tick ∨ o = .clearKeys ∨ ∃ key down, o = .setKey key down := by simp
  have hp : n.operateAll [.setKey 9 true, .setKey 4 true] = some { n with
      keys := (listening.keys.setIfInBounds 9 true).setIfInBounds 4 true } := by
    rw [← hkeys]
    rfl
  have hfour : ((listening.keys.setIfInBounds 9 true).setIfInBounds 4 true).get 4 = true := by
    decide
  have honly : ∀ k : Key,
      ((listening.keys.setIfInBounds 9 true).setIfInBounds 4 true).get k = true →
        k ≤ 4 → k = 4 := by
    decide
  obtain ⟨k, hdown, hleast, log, hstep⟩ := hend _ _ hlater hp ⟨4, hfour⟩
  obtain rfl : k = 4 := honly k hdown (hleast 4 hfour)
  refine ⟨n, _, hn, by rw [heq], hp, ?_, ?_⟩
  · rw [hstep]
    rfl
  · rw [hstep]
    rfl

end Machine

end SuperChip
