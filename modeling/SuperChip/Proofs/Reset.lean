import SuperChip.Proofs.Reachable
import SuperChip.Proofs.Twin

/-!
# A reset forgets

A reset machine is a new machine with the memory, the user flags and the random source of the old
one, in the hands of the same host.  So nothing else from before the reset shows in what the machine
does afterwards.
-/

namespace SuperChip

/-- A well-formed display that is brought to low resolution and cleared is as new. -/
theorem Display.WellFormed.clear_setResolution {d : Display} (h : d.WellFormed) :
    (d.setResolution false).clear = { observed := d.observed } := by
  rw [Display.setResolution, Display.clear]
  split
  case isTrue hl =>
    -- The display was in low resolution already, so its store is cleared and not made anew.
    have hs : d.pixels.size = 64 * 32 := by
      rw [h.size_eq, Display.width, Display.height, ← hl]
      rfl
    rw [Memory.clear, hs, ← hl]
  case isFalse => rw [Display.blankAt, Memory.clear, Memory.size_blank]; rfl

namespace Machine

variable {m : Machine}

/-- What a reset leaves of a well-formed machine. -/
theorem WellFormed.reset_eq (h : m.WellFormed) :
    m.reset = { m with
      registers := { flags := m.registers.flags }
      display := { observed := m.display.observed }
      keys := Vector.replicate 16 false
      delay := 0
      sound := 0
      current := 0x200
      halted := false
      owed := 0.0
      log := (m.display.resolutionEvents false).reverse ++ m.log } := by
  have hr : m.registers.reset = { flags := m.registers.flags } := by
    rw [Registers.reset, h.registers.capacity]
  rw [← hr, ← h.display.clear_setResolution]
  rfl

/-- A reset forgets everything but the memory, the user flags and the random source.

A reset machine is a new one with these three and with what belongs to its host.  If two machines
agree in these three, then the same faults are met whatever is done to both after a reset of each,
and machines are left that programs cannot tell apart.  Both hosts are handed the same pictures, if
both are told about pictures or neither is. -/
theorem reset_forgets (h : m.WellFormed) :
    (∀ (random : RandomSource) (speed : Int) (fresh : Machine),
      powerOn random speed m.display.observed = .ok fresh →
      m.reset = { fresh with
        memory := m.memory
        registers := { fresh.registers with flags := m.registers.flags }
        random := m.random
        resetRequested := m.resetRequested
        clockSpeed := m.clockSpeed
        interval := m.interval
        opsPerSecond := m.opsPerSecond
        ticksPerSecond := m.ticksPerSecond
        tones := m.tones
        monitor := m.monitor
        log := (m.display.resolutionEvents false).reverse ++ m.log }) ∧
    ∀ m' : Machine, m'.WellFormed → m'.memory = m.memory →
      m'.registers.flags = m.registers.flags → m'.random = m.random → ∀ ops : List Operation,
        m.reset.faults ops = m'.reset.faults ops ∧
        Option.Rel (Abreast m.reset m'.reset) (m.reset.operateAll ops)
          (m'.reset.operateAll ops) := by
  constructor
  · intro random speed fresh hfresh
    obtain ⟨interval, -, hfresh⟩ := exists_of_bind_ok hfresh
    cases hfresh
    exact h.reset_eq
  · intro m' h' hmemory hflags hrandom ops
    have ht : m.reset.Twin m'.reset := by
      rw [h.reset_eq, h'.reset_eq, hmemory, hflags, hrandom]
      exact ⟨rfl, rfl, ⟨_, rfl⟩, rfl, rfl, rfl, rfl, rfl, rfl, rfl⟩
    exact ht.abreast.operateAll ops

/-- A machine that is halted in the middle of a routine, in high resolution, with some keys down and
its timers running. -/
def halfway : Machine where
  registers := { v := Vector.replicate 16 5, index := 0x300, pc := 0x20A, stack := [0x206] }
  display := Display.blankAt {} true
  keys := Vector.replicate 16 true
  delay := 9
  sound := 3
  current := 0x208
  halted := true
  random := .cycle [] []
  owed := 0.01

/-- After a reset, the machine does what a new one does. -/
theorem reset_forgets_halfway : ∃ fresh, powerOn (.cycle [] []) 0 true = .ok fresh ∧
    halfway.reset.registers = fresh.registers ∧ halfway.reset.display = fresh.display ∧
    ∀ ops, halfway.reset.faults ops = fresh.reset.faults ops := by
  have hw : halfway.WellFormed :=
    { memory := size_fontMemory
      registers := ⟨by decide, rfl, by decide⟩
      display := Display.wellFormed_blankAt _ _
      delay := by decide
      sound := by decide }
  have hfresh : powerOn (.cycle [] []) 0 true =
      .ok { random := .cycle [] [], clockSpeed := 0 } := rfl
  obtain ⟨hnew, hsame⟩ := reset_forgets hw
  have heq := hnew (.cycle [] []) 0 _ hfresh
  refine ⟨_, hfresh, ?_, ?_, ?_⟩
  · rw [heq]
    rfl
  · rw [heq]
  · intro ops
    exact (hsame _ (wellFormed_of_powerOn hfresh) rfl rfl rfl ops).1

end Machine

end SuperChip
