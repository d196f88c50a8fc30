import SuperChip.Proofs.CallStack

/-!
# Executions

The words that operations execute.  An operation executes at most one: a step the word at the
program counter, if there is one, and an execution the word that it is given.  A word is executed on
the machine as it is just before, which for a step is a machine whose program counter has been moved
on.

All that an operation does, if it executes a word, is to execute it.
-/

namespace SuperChip

namespace Machine

/-- The word that an operation executes, and the machine as it is just before. -/
def execution? (m : Machine) : Operation → Option (Machine × Word)
  | .step => m.fetch.toOption.map (m.primed, ·)
  | .execute word => some (m, Word.ofInt word)
  | _ => none

variable {m : Machine} {o : Operation} {e : Machine × Word}

/-- The instruction that an operation executes is that of its word. -/
theorem executes?_eq_map (m : Machine) (o : Operation) :
    m.executes? o = (m.execution? o).map fun e ↦ Instruction.decode e.2 := by
  cases o
  case step =>
    rw [executes?, instruction?, execution?, Option.map_map]
    rfl
  all_goals rfl

/-- An operation that executes an instruction executes a word that stands for it. -/
theorem exists_execution_of_executes? {i : Instruction} (hi : m.executes? o = some i) :
    ∃ e, m.execution? o = some e ∧ Instruction.decode e.2 = i := by
  rwa [executes?_eq_map, Option.map_eq_some_iff] at hi

/-- Before a word is executed, at most the program counter has been moved on. -/
theorem eq_or_eq_primed_of_execution? (he : m.execution? o = some e) :
    e.1 = m ∨ e.1 = m.primed := by
  cases o
  case step =>
    rw [execution?, Option.map_eq_some_iff] at he
    obtain ⟨w, -, rfl⟩ := he
    exact .inr rfl
  case execute word =>
    cases he
    exact .inl rfl
  all_goals cases he

/-- Before a word is executed, the banks are as the operation has found them. -/
theorem banks_of_execution? (he : m.execution? o = some e) :
    e.1.registers.v = m.registers.v ∧ e.1.registers.flags = m.registers.flags := by
  rcases eq_or_eq_primed_of_execution? he with h | h
  · rw [h]
    exact ⟨rfl, rfl⟩
  · rw [h]
    exact ⟨rfl, rfl⟩

/-- An operation that executes a word does nothing else. -/
theorem operate_of_execution? (he : m.execution? o = some e) :
    m.operate o = some (e.1.execute e.2) := by
  cases o
  case step =>
    rw [execution?, Option.map_eq_some_iff] at he
    obtain ⟨w, hw, rfl⟩ := he
    cases hf : m.fetch with
    | ok w' =>
      rw [hf] at hw
      cases hw
      exact congrArg some (step_eq_execute hf)
    | error f =>
      rw [hf] at hw
      cases hw
  case execute word =>
    cases he
    rfl
  all_goals cases he

/-- A step that finds no word has noted where it looked for it, and does nothing else. -/
theorem step_of_execution?_eq_none (he : m.execution? .step = none) :
    m.step.1 = { m with current := m.registers.pc } := by
  rw [execution?, Option.map_eq_none_iff] at he
  cases hf : m.fetch with
  | ok w =>
    rw [hf] at he
    cases he
  | error f =>
    have hf' : ({ m with current := m.registers.pc } : Machine).fetch = .error f := hf
    rw [step, hf']

/-- On a well-formed machine, each step and each execution executes a word. -/
theorem WellFormed.exists_execution (h : m.WellFormed)
    (ho : o = .step ∨ ∃ word, o = .execute word) : ∃ e, m.execution? o = some e := by
  rcases ho with rfl | ⟨word, rfl⟩
  · rw [execution?, h.fetch_eq]
    exact ⟨_, rfl⟩
  · exact ⟨_, rfl⟩

end Machine

end SuperChip
