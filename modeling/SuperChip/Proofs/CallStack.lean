import SuperChip.Proofs.Alike
import SuperChip.Proofs.Footprint
import SuperChip.Proofs.Reachable

/-!
# Calls nest

A call puts an address on the call stack, a return takes the newest one off, and nothing else
touches it but a reset.  So an address that a call has put there stays, with all that lies below
it, for as long as the stack is deeper than it was before the call.  When the stack comes back to
that depth, it does so by a return, which goes on behind the call.

This holds whatever the program does in between: it may call and return, try to call with a full
stack, jump anywhere, and write over itself.
-/

namespace SuperChip

namespace Machine

/-- The instruction that an operation executes. -/
def executes? (m : Machine) : Operation → Option Instruction
  | .step => m.instruction?
  | .execute word => some (Instruction.decode (Word.ofInt word))
  | _ => none

/-- What becomes of the call stack when `i` is executed, or nothing is. -/
inductive StackMove (m m' : Machine) (i : Option Instruction) : Prop
  /-- The stack stays as it is. -/
  | kept (h : m'.registers.stack = m.registers.stack)
  /-- A call puts an address on the stack. -/
  | pushed (target a : Address) (hi : i = some (.call target))
    (h : m'.registers.stack = a :: m.registers.stack)
  /-- A return takes the newest address off the stack and goes there. -/
  | popped (hi : i = some .ret) (h : m.registers.stack = m'.registers.pc :: m'.registers.stack)

variable {m m' n : Machine}

/-! ## Single moves -/

/-- The stack is touched by calls and returns. -/
theorem stack_mem_footprint_iff {i : Instruction} :
    .stack ∈ i.footprint ↔ i = .ret ∨ ∃ target, i = .call target := by
  cases i <;> simp [Instruction.footprint]

/-- What an instruction does with the stack. -/
theorem stackMove_perform {i : Instruction} (hi : m.perform i = .ok m') :
    StackMove m m' (some i) := by
  by_cases hs : .stack ∈ i.footprint
  · rcases stack_mem_footprint_iff.mp hs with rfl | ⟨target, rfl⟩
    · obtain ⟨r, hr, hi⟩ := exists_of_bind_ok hi
      obtain ⟨a, stack, hstack, rfl⟩ := exists_of_ret hr
      cases hi
      exact .popped rfl hstack
    · obtain ⟨r, hr, hi⟩ := exists_of_bind_ok hi
      cases eq_of_call hr
      cases hi
      exact .pushed target _ rfl rfl
  · exact .kept ((within_perform hi).stack hs)

/-- What the execution of a word does with the stack, whether or not it meets a fault. -/
theorem stackMove_execute (m : Machine) (w : Word) :
    StackMove m (m.execute w).1 (some (Instruction.decode w)) := by
  obtain ⟨lines, ht⟩ := m.exists_trace_eq w
  cases hf : (m.execute w).2 with
  | none =>
    have hp := stackMove_perform (perform_of_execute hf)
    rw [ht] at hp
    cases hp with
    | kept h => exact .kept h
    | pushed target a hi h => exact .pushed target a hi h
    | popped hi h => exact .popped hi h
  | some f =>
    apply StackMove.kept
    rw [execute_of_fault (by simp [hf]), ht]

/-- What a step does with the stack, whether or not it meets a fault. -/
theorem stackMove_step (m : Machine) : StackMove m m.step.1 m.instruction? := by
  rw [instruction?]
  cases hw : m.fetch with
  | ok w =>
    rw [step_eq_execute hw]
    cases m.primed.stackMove_execute w with
    | kept h => exact .kept h
    | pushed target a hi h => exact .pushed target a hi h
    | popped hi h => exact .popped hi h
  | error f =>
    apply StackMove.kept
    have hw' : ({ m with current := m.registers.pc } : Machine).fetch = .error f := hw
    rw [step, hw']

/-- A tick leaves the registers alone. -/
theorem registers_tick (m : Machine) : m.tick.registers = m.registers := by
  rw [tick_eq]
  rfl

/-- The clock leaves the registers alone. -/
theorem registers_advanceClock {elapsed : Float} {ticks : Nat}
    (hm : m.advanceClock elapsed = some (m', ticks)) : m'.registers = m.registers := by
  refine advanceClock_induction (P := fun n ↦ n.registers = m.registers) ?_ ?_ rfl hm
  · intro n hn
    exact n.registers_tick.trans hn
  · intro n owed hn
    exact hn

/-- An operation that executes nothing and resets nothing leaves the registers alone. -/
theorem registers_operate {o : Operation} (hstep : o ≠ .step) (hexecute : ∀ w, o ≠ .execute w)
    (hreset : o ≠ .reset) {r : Machine × Option Fault} (hr : m.operate o = some r) :
    r.1.registers = m.registers := by
  cases o
  case step => exact absurd rfl hstep
  case execute word => exact absurd rfl (hexecute word)
  case reset => exact absurd rfl hreset
  case advanceClock elapsed =>
    rw [operate, Option.map_eq_some_iff] at hr
    obtain ⟨⟨m', ticks⟩, hm, rfl⟩ := hr
    exact registers_advanceClock hm
  case tick =>
    cases hr
    exact m.registers_tick
  all_goals exact (still_operate hr trivial).registers

/-- What an operation does with the stack, refused or not. -/
theorem stackMove_operate {o : Operation} (ho : o ≠ .reset) {r : Machine × Option Fault}
    (hr : m.operate o = some r) : StackMove m r.1 (m.executes? o) := by
  by_cases hstep : o = .step
  · cases hstep
    cases hr
    exact m.stackMove_step
  by_cases hexecute : ∃ w, o = .execute w
  · obtain ⟨w, rfl⟩ := hexecute
    cases hr
    exact m.stackMove_execute _
  · have hregisters := registers_operate hstep (not_exists.mp hexecute) ho hr
    exact .kept (congrArg Registers.stack hregisters)

/-! ## All that happens while the stack is deeper -/

/-- The stack is deeper than `d` before all of the operations, between them, and after them. -/
def StaysAbove (m : Machine) (d : Nat) (ops : List Operation) : Prop :=
  ∀ done, done <+: ops → ∀ n, m.operateAll done = some n → d < n.registers.stack.length

/-- What stays above a depth does so after the first operation. -/
theorem StaysAbove.tail {d : Nat} {o : Operation} {ops : List Operation}
    (h : m.StaysAbove d (o :: ops)) {r : Machine × Option Fault} (hr : m.operate o = some r) :
    r.1.StaysAbove d ops := by
  intro done hdone n hn
  apply h (o :: done) (List.cons_prefix_cons.mpr ⟨rfl, hdone⟩)
  rw [operateAll, hr]
  exact hn

/-- What stays above a depth is above it at once. -/
theorem StaysAbove.lt {d : Nat} {ops : List Operation} (h : m.StaysAbove d ops) :
    d < m.registers.stack.length :=
  h [] List.nil_prefix m rfl

/-- A move of the stack leaves an address where it lies, with all that is below it, or is a return
to that address. -/
theorem StackMove.suffix {i : Option Instruction} (h : StackMove m m' i) {a : Address}
    {stack : List Address} (ha : a :: stack <:+ m.registers.stack) :
    a :: stack <:+ m'.registers.stack ∨
      (i = some .ret ∧ m'.registers.stack = stack ∧ m'.registers.pc = a) := by
  cases h with
  | kept h =>
    rw [h]
    exact .inl ha
  | pushed target b hi h =>
    rw [h]
    exact .inl (ha.trans (List.suffix_cons b _))
  | popped hi h =>
    rw [h, List.suffix_cons_iff] at ha
    rcases ha with he | ha
    · obtain ⟨rfl, rfl⟩ := List.cons.inj he
      exact .inr ⟨hi, rfl, rfl⟩
    · exact .inl ha

/-- An address lies where it is, with all that is below it, while the stack stays above that. -/
theorem suffix_of_staysAbove {a : Address} {stack : List Address} {ops : List Operation}
    (hops : .reset ∉ ops) (habove : m.StaysAbove stack.length ops)
    (ha : a :: stack <:+ m.registers.stack) (hn : m.operateAll ops = some n) :
    a :: stack <:+ n.registers.stack := by
  induction ops generalizing m with
  | nil =>
    cases hn
    exact ha
  | cons o ops ih =>
    rw [List.mem_cons, not_or] at hops
    rw [operateAll] at hn
    cases hr : m.operate o with
    | none =>
      rw [hr] at hn
      cases hn
    | some r =>
      rw [hr] at hn
      have htail := habove.tail hr
      rcases (stackMove_operate (Ne.symm hops.1) hr).suffix ha with ha | ⟨-, hs, -⟩
      · exact ih hops.2 htail ha hn
      · -- A return to the address would have left the stack at its old depth.
        have hlt := htail.lt
        rw [hs] at hlt
        exact absurd hlt (Nat.lt_irrefl _)

/-! ## Calls -/

/-- A call with room on the stack puts the address behind it there and goes to its target. -/
theorem step_of_call (h : m.WellFormed) {target : Address}
    (hi : m.instruction? = some (.call target)) (hs : m.registers.stack.length < 16) :
    m.step.2 = none ∧
      m.step.1.registers.stack = (m.registers.pc + 2) :: m.registers.stack ∧
      m.step.1.registers.pc = target := by
  have hw := h.fetch_eq
  rw [instruction?, hw] at hi
  generalize Word.ofBytes _ _ = w at hw hi
  have hd : Instruction.decode w = .call target := Option.some.inj hi
  rw [step_eq_execute hw]
  have hf : (m.primed.execute w).2 = none := by
    rw [Option.eq_none_iff_forall_ne_some]
    intro f hf
    rw [h.primed.execute_eq_some_iff, hd] at hf
    cases hf with
    | overflow _ hfull => exact absurd hfull (Nat.ne_of_lt hs)
  have hp := perform_of_execute hf
  obtain ⟨lines, ht⟩ := m.primed.exists_trace_eq w
  rw [hd, ht] at hp
  obtain ⟨r, hr, hp⟩ := exists_of_bind_ok hp
  have hregisters : (m.primed.execute w).1.registers = r :=
    (congrArg registers (Except.ok.inj hp)).symm
  rw [hregisters, eq_of_call hr]
  exact ⟨hf, rfl, Address.ofInt_toNat target⟩

/-- Calls nest.

A call with room on the stack puts the address behind it there and goes to its target.  Whatever
happens afterwards, but for a reset, the stack holds no more than sixteen addresses.  For as long as
it is deeper than before the call, the address behind the call lies where the call has put it, and
everything below lies there as before.  The first operation after which it is no deeper than before
the call executes a return, leaves the stack as it was before the call, and goes on behind the
call. -/
theorem nested_of_call (h : m.WellFormed) {target : Address}
    (hi : m.instruction? = some (.call target)) (hs : m.registers.stack.length < 16) :
    (m.step.2 = none ∧
      m.step.1.registers.stack = (m.registers.pc + 2) :: m.registers.stack ∧
      m.step.1.registers.pc = target) ∧
    ∀ (ops : List Operation) (n : Machine), .reset ∉ ops → m.step.1.operateAll ops = some n →
      n.registers.stack.length ≤ 16 ∧
      (m.step.1.StaysAbove m.registers.stack.length ops →
        (m.registers.pc + 2) :: m.registers.stack <:+ n.registers.stack ∧
        ∀ (o : Operation) (n' : Machine) (f : Option Fault), o ≠ .reset →
          n.operate o = some (n', f) →
          n'.registers.stack.length ≤ m.registers.stack.length →
            n.executes? o = some .ret ∧
            n'.registers.stack = m.registers.stack ∧
            n'.registers.pc = m.registers.pc + 2) := by
  have hcall := step_of_call h hi hs
  refine ⟨hcall, ?_⟩
  intro ops n hops hn
  refine ⟨(h.step.operateAll hn).registers.stack, ?_⟩
  intro habove
  have hbase : (m.registers.pc + 2) :: m.registers.stack <:+ m.step.1.registers.stack :=
    ⟨[], hcall.2.1.symm⟩
  have hsuffix := suffix_of_staysAbove hops habove hbase hn
  refine ⟨hsuffix, ?_⟩
  intro o n' f ho hr hle
  rcases (stackMove_operate ho hr).suffix hsuffix with hstill | hback
  · -- The address would still be on the stack, which is then deeper than before the call.
    have hlt := hstill.length_le
    rw [List.length_cons] at hlt
    exact absurd (Nat.lt_of_lt_of_le hlt hle) (Nat.lt_irrefl _)
  · exact hback

/-- A machine that is about to call a routine that returns at once, from within another one. -/
def calling : Machine where
  memory := ⟨((((Font.memory 4096).bytes.setIfInBounds 0x200 0x22).setIfInBounds 0x201
    0x06).setIfInBounds 0x206 0x00).setIfInBounds 0x207 0xEE⟩
  registers := { stack := [0x300] }
  random := .cycle [] []

/-- The machine is well formed. -/
theorem wellFormed_calling : calling.WellFormed where
  memory := by
    rw [Memory.size, calling]
    simp only [Array.size_setIfInBounds]
    exact size_fontMemory
  registers := ⟨by decide, rfl, by decide⟩
  display := Display.wellFormed_new _
  delay := zero_range
  sound := zero_range

/-- The routine returns behind its call, although the timers tick and a key is pressed before. -/
theorem nested_of_call_calling : ∃ n n' : Machine,
    calling.step.1.operateAll [.tick, .setKey 3 true] = some n ∧
    n.operate .step = some (n', none) ∧
    n'.registers.stack = [0x300] ∧ n'.registers.pc = 0x202 := by
  have hi : calling.instruction? = some (.call 0x206) := by decide +kernel
  obtain ⟨⟨-, hstack, -⟩, hn⟩ := nested_of_call wellFormed_calling hi (by decide)
  have hf : (calling.step.1.tick.attempt (calling.step.1.tick.setKey 3 true)).1.step.2 = none := by
    decide +kernel
  have hle : (calling.step.1.tick.attempt (calling.step.1.tick.setKey
      3 true)).1.step.1.registers.stack.length ≤ 1 := by
    decide +kernel
  generalize calling.step.1 = m at *
  have ho : m.operateAll [.tick, .setKey 3 true] = some _ := rfl
  have habove : m.StaysAbove 1 [.tick, .setKey 3 true] := by
    intro done hdone n hn
    have hr : n.registers = m.registers := by
      simp only [List.prefix_cons_iff, List.prefix_nil] at hdone
      rcases hdone with rfl | ⟨done, rfl, rfl | ⟨done, rfl, rfl⟩⟩
      · cases hn
        rfl
      · cases hn
        exact m.registers_tick
      · cases hn
        exact m.registers_tick
    rw [hr, hstack]
    decide
  obtain ⟨-, hn⟩ := hn [.tick, .setKey 3 true] _ (by simp) ho
  obtain ⟨-, hn⟩ := hn habove
  obtain ⟨-, hback, hpc⟩ := hn .step _ _ (by simp) rfl hle
  refine ⟨_, _, ho, ?_, hback, hpc⟩
  exact congrArg (fun f ↦ some (_, f)) hf

end Machine

end SuperChip
