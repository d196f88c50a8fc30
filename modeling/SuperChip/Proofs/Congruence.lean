import SuperChip.Proofs.Timers
import SuperChip.Proofs.Twin

/-!
# Indices modulo the size of memory

The index register holds sixteen bits, of which memory sees twelve.  Two machines that differ in
nothing but their index registers, whose numbers agree modulo 4096, are congruent.  The lines of the
trace and the reports show the index, so their texts may differ too, but not where they stand among
the other things that the world is told.

Whatever is done to congruent machines, the same faults are met and congruent machines are left.
The one exception is the instruction that adds to the index register, which compares the sum with
the size of memory.
-/

namespace SuperChip

/-- The event without its text, if it has one. -/
def Event.muted : Event → Event
  | .trace _ => .trace ""
  | .report _ => .report ""
  | e => e

namespace Machine

/-- The machine with another number in its index register and another log. -/
def repointed (m : Machine) (index : Int) (log : List Event) : Machine :=
  { m with registers := { m.registers with index }, log }

/-- Machines that differ in nothing but their index registers, which agree modulo the size of
memory, and in the texts that they have written. -/
structure Congruent (m m' : Machine) : Prop where
  /-- Everything else is the same. -/
  eq_repointed : m' = m.repointed m'.registers.index m'.log
  /-- The indices agree modulo the size of memory. -/
  index_emod : m'.registers.index % 4096 = m.registers.index % 4096
  /-- The world was told the same, but for the texts. -/
  log_muted : m'.log.map Event.muted = m.log.map Event.muted

variable {m m' n : Machine}

/-- A machine is congruent to itself with another index. -/
theorem congruent_repointed (m : Machine) {index : Int} {log : List Event}
    (hi : index % 4096 = m.registers.index % 4096)
    (hl : log.map Event.muted = m.log.map Event.muted) : m.Congruent (m.repointed index log) :=
  ⟨rfl, hi, hl⟩

/-- What is congruent to a machine is that machine with another index. -/
theorem Congruent.exists_eq (h : m.Congruent m') : ∃ index log, m' = m.repointed index log ∧
    index % 4096 = m.registers.index % 4096 ∧ log.map Event.muted = m.log.map Event.muted :=
  ⟨_, _, h.eq_repointed, h.index_emod, h.log_muted⟩

/-! ## Parts of instructions -/

/-- Congruent machines point to the same cells. -/
theorem Congruent.cell (h : m.Congruent m') : m'.cell = m.cell := by
  funext k
  apply BitVec.eq_of_toNat_eq
  rw [Machine.cell, Machine.cell, Address.toNat_ofInt, Address.toNat_ofInt, Int.add_emod,
    h.index_emod, ← Int.add_emod]

/-- Congruent machines have the same memory. -/
theorem Congruent.memory (h : m.Congruent m') : m'.memory = m.memory := by
  rw [h.eq_repointed]
  rfl

/-- Congruent machines have the same display. -/
theorem Congruent.display (h : m.Congruent m') : m'.display = m.display := by
  rw [h.eq_repointed]
  rfl

/-- Congruent machines load the same bytes. -/
theorem Congruent.loadCells (h : m.Congruent m') (count : Nat) :
    m'.loadCells count = m.loadCells count := by
  have hr : m'.readCell = m.readCell := by
    funext k
    rw [readCell, readCell, h.memory, h.cell]
  rw [Machine.loadCells, Machine.loadCells, hr]

/-- Congruent machines point to the same sprite. -/
theorem Congruent.sprite (h : m.Congruent m') (rows : Fin 16) : m'.sprite rows = m.sprite rows := by
  rw [Machine.sprite, Machine.sprite, h.display, h.loadCells, h.loadCells]

/-- Congruent machines store bytes in the same way. -/
theorem Congruent.storeCells (h : m.Congruent m') (bytes : List UInt8) :
    SameOutcome Congruent (m.storeCells bytes) (m'.storeCells bytes) := by
  rw [Machine.storeCells, Machine.storeCells, h.cell]
  obtain ⟨index, log, rfl, hi, hl⟩ := h.exists_eq
  exact .bind_same fun memory ↦ .ok ⟨rfl, hi, hl⟩

/-- Congruent machines move the index register in the same way: it keeps sixteen bits, which is more
than memory sees. -/
theorem Congruent.advanceIndex (h : m.Congruent m') (x : Register) :
    (m.advanceIndex x).Congruent (m'.advanceIndex x) := by
  obtain ⟨index, log, rfl, hi, hl⟩ := h.exists_eq
  refine ⟨rfl, ?_, hl⟩
  change (index + x.val + 1) % 65536 % 4096 = (m.registers.index + x.val + 1) % 65536 % 4096
  omega

/-- Congruent machines point elsewhere in the same way. -/
theorem Congruent.setIndex (h : m.Congruent m') (k : Int) :
    (m.setIndex k).Congruent (m'.setIndex k) := by
  obtain ⟨index, log, rfl, -, hl⟩ := h.exists_eq
  exact ⟨rfl, rfl, hl⟩

/-- Congruent machines change their registers and user flags in the same way. -/
theorem Congruent.mapBanks (h : m.Congruent m') (f g : Bank → Bank → Bank) :
    (m.mapRegisters fun r ↦ { r with v := f r.v r.flags, flags := g r.v r.flags }).Congruent
      (m'.mapRegisters fun r ↦ { r with v := f r.v r.flags, flags := g r.v r.flags }) := by
  obtain ⟨index, log, rfl, hi, hl⟩ := h.exists_eq
  exact ⟨rfl, hi, hl⟩

/-- Congruent machines skip an instruction in the same way. -/
theorem Congruent.skipIf (h : m.Congruent m') (condition : Bool) :
    (m.skipIf condition).Congruent (m'.skipIf condition) := by
  obtain ⟨index, log, rfl, hi, hl⟩ := h.exists_eq
  cases condition
  · exact h
  · exact ⟨rfl, hi, hl⟩

/-- Congruent machines get the same display. -/
theorem Congruent.withDisplay (h : m.Congruent m') (display : Display) :
    Congruent { m with display } { m' with display } := by
  obtain ⟨index, log, rfl, hi, hl⟩ := h.exists_eq
  exact ⟨rfl, hi, hl⟩

/-- The world is told events that differ in their texts at most. -/
theorem Congruent.tell (h : m.Congruent m') {events events' : List Event}
    (he : events'.map Event.muted = events.map Event.muted) :
    (m.tell events).Congruent (m'.tell events') := by
  obtain ⟨index, log, rfl, hi, hl⟩ := h.exists_eq
  refine ⟨rfl, hi, ?_⟩
  change (events'.reverse ++ log).map Event.muted = (events.reverse ++ m.log).map Event.muted
  rw [List.map_append, List.map_append, List.map_reverse, List.map_reverse, he, hl]

/-- Congruent machines switch their resolution in the same way. -/
theorem Congruent.setResolution (h : m.Congruent m') (high : Bool) :
    (m.setResolution high).Congruent (m'.setResolution high) := by
  rw [Machine.setResolution, Machine.setResolution, h.display]
  exact (h.tell rfl).withDisplay _

/-- Congruent machines hand over the same picture. -/
theorem Congruent.flush (h : m.Congruent m') : m.flush.Congruent m'.flush := by
  rw [Machine.flush, Machine.flush, h.display]
  exact (h.tell rfl).withDisplay _

/-- Congruent machines trace a word in lines that show different indices. -/
theorem Congruent.trace (h : m.Congruent m') (w : Word) : (m.trace w).Congruent (m'.trace w) := by
  have hlive : m'.monitor.live = m.monitor.live := by
    rw [h.eq_repointed]
    rfl
  rw [Machine.trace, Machine.trace, hlive]
  split
  · exact h.tell (by simp only [List.map_cons, Event.muted])
  · exact h

/-- Congruent machines report a word in texts that show different indices. -/
theorem Congruent.recordUnsupported (h : m.Congruent m') (w : Word) :
    (m.recordUnsupported w).Congruent (m'.recordUnsupported w) := by
  have ht : (m.tell [.report (m.unsupportedReport w)]).Congruent
      (m'.tell [.report (m'.unsupportedReport w)]) :=
    h.tell (by simp only [List.map_cons, Event.muted])
  obtain ⟨index, log, rfl, hi, hl⟩ := h.exists_eq
  by_cases hr : m.current ∈ m.monitor.reported
  · have hr' : (m.repointed index log).current ∈ (m.repointed index log).monitor.reported := hr
    rw [Machine.recordUnsupported, Machine.recordUnsupported, if_pos hr, if_pos hr']
    exact ⟨rfl, hi, hl⟩
  · have hr' : (m.repointed index log).current ∉ (m.repointed index log).monitor.reported := hr
    rw [Machine.recordUnsupported, Machine.recordUnsupported, if_neg hr, if_neg hr']
    exact ⟨rfl, hi, ht.log_muted⟩

/-! ## Instructions -/

/-- Congruent machines do the same at each instruction that does not add to the index register. -/
theorem Congruent.perform (h : m.Congruent m') {i : Instruction} (hi : ∀ x, i ≠ .addIndex x) :
    SameOutcome Congruent (m.perform i) (m'.perform i) := by
  -- With one machine written as the other one, both sides of most instructions compute alike.
  obtain ⟨index, log, hm, hindex, hlog⟩ := h.exists_eq
  cases i with
  | addIndex x => exact absurd rfl (hi x)
  | unknown w => exact .ok (h.recordUnsupported w)
  | ret =>
    subst hm
    have hstack : (m.repointed index log).registers.stack = m.registers.stack := rfl
    rw [Machine.perform, Machine.perform, Registers.ret, Registers.ret, hstack]
    cases m.registers.stack with
    | nil => exact .error _
    | cons a stack => exact .ok ⟨rfl, hindex, hlog⟩
  | call target =>
    subst hm
    rw [Machine.perform, Machine.perform, Registers.call, Registers.call]
    change SameOutcome _ _
      ((if m.registers.capacity ≤ m.registers.stack.length then _ else _) >>= _)
    split
    · exact .error _
    · exact .ok ⟨rfl, hindex, hlog⟩
  | skipIfByte | skipUnlessByte | skipIfEqual | skipUnlessEqual | skipIfKey | skipUnlessKey =>
    subst hm
    exact .ok (h.skipIf _)
  | setIndex | smallGlyph | bigGlyph =>
    subst hm
    exact .ok (h.setIndex _)
  | draw x y rows =>
    rw [Machine.perform, Machine.perform, h.sprite]
    subst hm
    apply SameOutcome.bind_same
    intro s
    apply SameOutcome.bind_same
    intro r
    exact .ok ⟨rfl, hindex, hlog⟩
  | getDelay x =>
    subst hm
    exact .bind_same fun b ↦ .ok ⟨rfl, hindex, hlog⟩
  | awaitKey x =>
    subst hm
    have hk : (m.repointed index log).firstKey? = m.firstKey? := rfl
    rw [Machine.perform, Machine.perform, hk]
    cases m.firstKey? with
    | some key => exact .ok ⟨rfl, hindex, hlog⟩
    | none => exact .ok ⟨rfl, hindex, hlog⟩
  | storeDecimal x =>
    subst hm
    exact h.storeCells _
  | store x =>
    subst hm
    exact (h.storeCells _).bind fun _ _ h ↦ .ok (h.advanceIndex x)
  | load x =>
    rw [Machine.perform, Machine.perform, h.loadCells]
    apply SameOutcome.bind_same
    intro bytes
    exact .ok ((h.mapBanks (fun v _ ↦ v.copyUpTo _ x) fun _ flags ↦ flags).advanceIndex x)
  | saveFlags x => exact .ok (h.mapBanks (fun v _ ↦ v) fun v flags ↦ flags.copyUpTo v x)
  | loadFlags x => exact .ok (h.mapBanks (fun v flags ↦ v.copyUpTo flags x) fun _ flags ↦ flags)
  | scrollDown | scrollRight | scrollLeft =>
    subst hm
    exact .bind_same fun d ↦ .ok ⟨rfl, hindex, hlog⟩
  | lowResolution | highResolution => exact .ok (h.setResolution _)
  | _ =>
    subst hm
    exact .ok ⟨rfl, hindex, hlog⟩

/-- Congruent machines fetch the same word. -/
theorem Congruent.fetch (h : m.Congruent m') : m'.fetch = m.fetch := by
  rw [h.eq_repointed]
  rfl

/-- Congruent machines execute a word in the same way, unless it adds to the index register. -/
theorem Congruent.execute (h : m.Congruent m') {w : Word}
    (hw : ∀ x, Instruction.decode w ≠ .addIndex x) :
    (m.execute w).1.Congruent (m'.execute w).1 ∧ (m.execute w).2 = (m'.execute w).2 :=
  rel_execute (h.trace w) ((h.trace w).perform hw)

/-- Congruent machines step in the same way, unless they add to the index register. -/
theorem Congruent.step (h : m.Congruent m') (hi : ∀ x, m.instruction? ≠ some (.addIndex x)) :
    m.step.1.Congruent m'.step.1 ∧ m.step.2 = m'.step.2 := by
  have hfetch := h.fetch
  obtain ⟨index, log, rfl, hindex, hlog⟩ := h.exists_eq
  have hprimed : m.primed.Congruent (m.repointed index log).primed := ⟨rfl, hindex, hlog⟩
  refine rel_step hfetch ⟨rfl, hindex, hlog⟩ ?_
  intro w hw
  apply hprimed.execute
  intro x hx
  rw [instruction?, hw] at hi
  exact hi x (congrArg some hx)

/-! ## Other operations -/

/-- Congruent machines count down in the same way. -/
theorem Congruent.countDown (h : m.Congruent m') : m.countDown.Congruent m'.countDown := by
  obtain ⟨index, log, rfl, hi, hl⟩ := h.exists_eq
  refine ⟨rfl, hi, ?_⟩
  change (if m.sound = 1 then .tone (m.tones + 1) :: log else log).map Event.muted =
    (if m.sound = 1 then .tone (m.tones + 1) :: m.log else m.log).map Event.muted
  split
  · exact congrArg (List.cons _) hl
  · exact hl

/-- Congruent machines tick in the same way. -/
theorem Congruent.tick (h : m.Congruent m') : m.tick.Congruent m'.tick := by
  rw [tick_eq, tick_eq]
  exact h.countDown.flush

/-- Congruent machines are reset in the same way: both point to the beginning of memory. -/
theorem Congruent.reset (h : m.Congruent m') : m.reset.Congruent m'.reset := by
  obtain ⟨index, log, rfl, hi, hl⟩ := h.exists_eq
  have hr : Congruent { m with registers := m.registers.reset }
      { m.repointed index log with registers := m.registers.reset } := ⟨rfl, rfl, hl⟩
  exact ⟨rfl, rfl, (hr.setResolution false).log_muted⟩

/-- Congruent machines go through some time in the same way. -/
theorem Congruent.advanceClock (h : m.Congruent m') (elapsed : Float) :
    Option.Rel (fun r r' ↦ r.1.Congruent r'.1 ∧ r.2 = r'.2) (m.advanceClock elapsed)
      (m'.advanceClock elapsed) := by
  refine rel_advanceClock (R := Congruent) ?_ Congruent.tick ?_ h elapsed
  · intro m m' h
    rw [h.eq_repointed]
    rfl
  · intro m m' owed h
    obtain ⟨index, log, rfl, hi, hl⟩ := h.exists_eq
    exact ⟨rfl, hi, hl⟩

/-- Congruent machines are loaded in the same way. -/
theorem Congruent.load (h : m.Congruent m') (program : List UInt8) :
    SameOutcome Congruent (m.load program) (m'.load program) := by
  obtain ⟨index, log, rfl, hi, hl⟩ := h.exists_eq
  rw [Machine.load, Machine.load]
  split
  · exact .error _
  · exact .bind_same fun memory ↦ .ok ⟨rfl, hi, hl⟩

/-- Congruent machines take a key in the same way. -/
theorem Congruent.setKey (h : m.Congruent m') (key : Int) (down : Bool) :
    SameOutcome Congruent (m.setKey key down) (m'.setKey key down) := by
  obtain ⟨index, log, rfl, hi, hl⟩ := h.exists_eq
  rw [Machine.setKey, Machine.setKey]
  split
  · exact .ok ⟨rfl, hi, hl⟩
  · exact .error _

/-- Congruent machines take a speed in the same way. -/
theorem Congruent.setClockSpeed (h : m.Congruent m') (speed : Int) :
    (m.setClockSpeed speed).1.Congruent (m'.setClockSpeed speed).1 ∧
      (m.setClockSpeed speed).2 = (m'.setClockSpeed speed).2 := by
  obtain ⟨index, log, rfl, hi, hl⟩ := h.exists_eq
  rw [Machine.setClockSpeed, Machine.setClockSpeed]
  cases intervalOf speed with
  | ok interval => exact ⟨⟨rfl, hi, hl⟩, rfl⟩
  | error f => exact ⟨⟨rfl, hi, hl⟩, rfl⟩

/-- Congruent machines flip a pixel in the same way. -/
theorem Congruent.toggle (h : m.Congruent m') (x y : Int) :
    SameOutcome Congruent (m.toggle x y) (m'.toggle x y) := by
  rw [Machine.toggle, Machine.toggle, h.display]
  exact .bind_same fun r ↦ .ok (h.withDisplay r.1)

/-- Congruent machines scroll in the same way. -/
theorem Congruent.scroll (h : m.Congruent m') (move : Display → Except Fault Display) :
    SameOutcome Congruent (m.scroll move) (m'.scroll move) := by
  rw [Machine.scroll, Machine.scroll, h.display]
  exact .bind_same fun d ↦ .ok (h.withDisplay d)

/-- Congruent machines leave congruent machines where a change of both has the same outcome. -/
theorem Congruent.attempt (h : m.Congruent m') {x x' : Except Fault Machine}
    (hx : SameOutcome Congruent x x') :
    (m.attempt x).1.Congruent (m'.attempt x').1 ∧ (m.attempt x).2 = (m'.attempt x').2 := by
  cases hx with
  | ok h => exact ⟨h, rfl⟩
  | error f => exact ⟨h, rfl⟩

/-- Congruent machines do the same at each operation that does not add to the index register. -/
theorem Congruent.operate (h : m.Congruent m') {o : Operation}
    (ho : ∀ x, m.executes? o ≠ some (.addIndex x)) :
    Option.Rel (fun r r' ↦ r.1.Congruent r'.1 ∧ r.2 = r'.2) (m.operate o) (m'.operate o) := by
  cases o with
  | load program => exact .some (h.attempt (h.load program))
  | setKey key down => exact .some (h.attempt (h.setKey key down))
  | reset => exact .some ⟨h.reset, rfl⟩
  | setClockSpeed speed => exact .some (h.setClockSpeed speed)
  | step => exact .some (h.step ho)
  | execute word => exact .some (h.execute fun x hx ↦ ho x (congrArg some hx))
  | tick => exact .some ⟨h.tick, rfl⟩
  | advanceClock elapsed =>
    have hc := h.advanceClock elapsed
    rw [Machine.operate, Machine.operate]
    generalize m.advanceClock elapsed = r at hc ⊢
    generalize m'.advanceClock elapsed = r' at hc ⊢
    cases hc with
    | none => exact .none
    | some hr => exact .some ⟨hr.1, rfl⟩
  | toggle x y => exact .some (h.attempt (h.toggle x y))
  | clear =>
    rw [Machine.operate, Machine.operate, h.display]
    exact .some ⟨h.withDisplay _, rfl⟩
  | setResolution high => exact .some ⟨h.setResolution high, rfl⟩
  | scrollUp | scrollDown | scrollLeft | scrollRight => exact .some (h.attempt (h.scroll _))
  | flush => exact .some ⟨h.flush, rfl⟩
  | _ =>
    obtain ⟨index, log, rfl, hi, hl⟩ := h.exists_eq
    exact .some ⟨⟨rfl, hi, hl⟩, rfl⟩

/-- Congruent machines do the same, and meet the same faults, as long as no instruction is executed
that adds to the index register. -/
theorem Congruent.operateAll (h : m.Congruent m') {ops : List Operation}
    (hops : ∀ e ∈ m.executed ops, ∀ x, e.2 ≠ .addIndex x) :
    m.faults ops = m'.faults ops ∧
      Option.Rel Congruent (m.operateAll ops) (m'.operateAll ops) := by
  induction ops generalizing m m' with
  | nil => exact ⟨rfl, .some h⟩
  | cons o ops ih =>
    have ho := h.operate fun x hx ↦ hops _ (mem_executed_of_executes? hx) x rfl
    have hrest {r : Machine × Option Fault} (hr : m.operate o = some r) :
        ∀ e ∈ r.1.executed ops, ∀ x, e.2 ≠ .addIndex x := by
      rintro e he
      exact hops e ((executed_cons ops hr).1 ▸ List.mem_append_right _ he)
    rw [faults, faults, Machine.operateAll, Machine.operateAll]
    generalize m.operate o = r at ho hrest ⊢
    generalize m'.operate o = r' at ho ⊢
    cases ho with
    | none => exact ⟨rfl, .none⟩
    | some hr =>
      obtain ⟨hf, hall⟩ := ih hr.1 (hrest rfl)
      exact ⟨congrArg₂ List.cons hr.2 hf, hall⟩

end Machine

/-! ## Runs -/

/-- A host that answers congruent machines alike, and does the same to them. -/
def Host.Blind {σ : Type} (h : Host σ) : Prop := ∀ (m m' : Machine) (s : σ), m.Congruent m' →
  (h.cancelled m' s).1 = (h.cancelled m s).1 ∧
    (h.cancelled m s).2.1.Congruent (h.cancelled m' s).2.1 ∧
    (h.cancelled m' s).2.2 = (h.cancelled m s).2.2

/-- Ends of runs that differ in their machines only, which are congruent. -/
structure Outcome.Congruent {σ : Type} (o o' : Outcome σ) : Prop where
  /-- The machines are congruent. -/
  machine : o.machine.Congruent o'.machine
  /-- The hosts are in the same state. -/
  host_eq : o'.host = o.host
  /-- The runs came to the same end. -/
  ending_eq : o'.ending = o.ending

namespace Run

open Machine

variable {σ : Type} {h : Host σ} {r r' : Run σ}

/-- The instruction that a turn of a run executes. -/
def instruction? (h : Host σ) (r : Run σ) : Option Instruction :=
  if r.machine.halted then none
  else
    match h.cancelled r.machine r.host with
    | (.ok false, m, _) => (resetIfRequested m).instruction?
    | _ => none

/-- The instructions that a run executes. -/
def instructions (h : Host σ) : Nat → Run σ → List Instruction
  | 0, _ => []
  | budget + 1, r =>
    (r.instruction? h).toList ++
      match turn h r with
      | .inl _ => []
      | .inr r' => instructions h budget r'

/-- A run of one turn executes the instruction of that turn. -/
theorem instructions_one (h : Host σ) (r : Run σ) :
    r.instructions h 1 = (r.instruction? h).toList := by
  rw [instructions]
  cases r.turn h with
  | inl _ => exact List.append_nil _
  | inr _ => exact List.append_nil _

/-- Runs in progress that differ in their machines only, which are congruent. -/
structure Congruent (r r' : Run σ) : Prop where
  /-- The machines are congruent. -/
  machine : r.machine.Congruent r'.machine
  /-- Everything else is the same. -/
  eq_withMachine : r' = { r with machine := r'.machine }

/-- Congruent machines make the reset that was asked for in the same way. -/
theorem congruent_resetIfRequested {m m' : Machine} (hm : m.Congruent m') :
    (resetIfRequested m).Congruent (resetIfRequested m') := by
  obtain ⟨index, log, rfl, hi, hl⟩ := hm.exists_eq
  have hd : Machine.Congruent { m with resetRequested := false }
    { m.repointed index log with resetRequested := false } := ⟨rfl, hi, hl⟩
  rw [resetIfRequested, resetIfRequested]
  change Machine.Congruent _ (if m.resetRequested then _ else _)
  split
  · exact hd.reset
  · exact hm

/-- Congruent runs show the same counters. -/
theorem Congruent.showCounters (hr : r.Congruent r') :
    r.showCounters.Congruent r'.showCounters := by
  obtain ⟨hm, he⟩ := hr
  obtain ⟨index, log, hm', hi, hl⟩ := hm.exists_eq
  rw [he, hm', Run.showCounters, Run.showCounters]
  split
  · exact ⟨⟨rfl, hi, hl⟩, rfl⟩
  · exact ⟨⟨rfl, hi, hl⟩, rfl⟩

/-- Congruent runs wait for the same time. -/
theorem Congruent.pace (hr : r.Congruent r') (started : Float) :
    (r.pace h started).Congruent (r'.pace h started) := by
  obtain ⟨hm, he⟩ := hr
  have hinterval : r'.machine.interval = r.machine.interval := by
    rw [hm.eq_repointed]
    rfl
  rw [he, Run.pace, Run.pace]
  simp only [hinterval]
  split
  · exact ⟨hm, rfl⟩
  · exact ⟨hm, rfl⟩

/-- Congruent runs execute an instruction in the same way, unless it adds to the index register. -/
theorem Congruent.cycle (hr : r.Congruent r')
    (hi : ∀ x, (resetIfRequested r.machine).instruction? ≠ some (.addIndex x)) :
    Sum.LiftRel Outcome.Congruent Congruent (r.cycle h) (r'.cycle h) := by
  obtain ⟨hm, he⟩ := hr
  have hs := (congruent_resetIfRequested hm).step hi
  rw [he, Run.cycle, Run.cycle]
  simp only
  generalize (resetIfRequested r.machine).step = q at hs ⊢
  generalize (resetIfRequested r'.machine).step = q' at hs ⊢
  obtain ⟨n, f⟩ := q
  obtain ⟨n', f'⟩ := q'
  obtain ⟨hn, rfl⟩ := hs
  cases f with
  | some fault => exact .inl ⟨hn, rfl, rfl⟩
  | none =>
    have hc := hn.advanceClock ((h.clock (h.clock r.host).2).1 - r.last)
    simp only
    generalize n.advanceClock _ = c at hc ⊢
    generalize n'.advanceClock _ = c' at hc ⊢
    cases hc with
    | none => exact .inl ⟨hn, rfl, rfl⟩
    | @some c c' hc =>
      obtain ⟨n, ticks⟩ := c
      obtain ⟨n', ticks'⟩ := c'
      obtain ⟨hn, rfl⟩ := hc
      exact .inr (Congruent.pace (Congruent.showCounters ⟨hn, rfl⟩) _)

/-- Congruent runs take a turn in the same way, unless its instruction adds to the index
register. -/
theorem Congruent.turn (hb : h.Blind) (hr : r.Congruent r')
    (hi : ∀ x, r.instruction? h ≠ some (.addIndex x)) :
    Sum.LiftRel Outcome.Congruent Congruent (r.turn h) (r'.turn h) := by
  obtain ⟨hm, he⟩ := hr
  have hhalted : r'.machine.halted = r.machine.halted := by
    rw [hm.eq_repointed]
    rfl
  rw [Run.instruction?] at hi
  rw [he, Run.turn, Run.turn]
  simp only [hhalted]
  split
  case isTrue => exact .inl ⟨hm.flush, rfl, rfl⟩
  case isFalse hrunning =>
    rw [if_neg hrunning] at hi
    have hc := hb r.machine r'.machine r.host hm
    generalize h.cancelled r.machine r.host = q at hc hi ⊢
    generalize h.cancelled r'.machine r.host = q' at hc ⊢
    obtain ⟨answer, n, s⟩ := q
    obtain ⟨answer', n', s'⟩ := q'
    obtain ⟨ha, hn, hs⟩ := hc
    cases ha
    cases hs
    rcases answer with fault | calledOff
    · exact .inl ⟨hn, rfl, rfl⟩
    · cases calledOff with
      | true => exact .inl ⟨hn.flush, rfl, rfl⟩
      | false => exact Congruent.cycle ⟨hn, rfl⟩ hi

/-- Congruent runs come to the same end, as long as no instruction is executed that adds to the
index register. -/
theorem Congruent.finish (hb : h.Blind) {budget : Nat} (hr : r.Congruent r')
    (hi : ∀ i ∈ r.instructions h budget, ∀ x, i ≠ .addIndex x) :
    (finish h budget r).Congruent (finish h budget r') := by
  induction budget generalizing r r' with
  | zero =>
    rw [hr.eq_withMachine]
    exact ⟨hr.machine, rfl, rfl⟩
  | succ budget ih =>
    have ht : Sum.LiftRel Outcome.Congruent Congruent (r.turn h) (r'.turn h) := by
      apply hr.turn hb
      rintro x hx
      refine hi _ (List.mem_append_left _ ?_) x rfl
      rw [hx]
      exact List.mem_singleton_self _
    rw [instructions] at hi
    rw [Run.finish, Run.finish]
    generalize r.turn h = q at ht hi ⊢
    generalize r'.turn h = q' at ht ⊢
    cases ht with
    | inl ho => exact ho
    | inr hr => exact ih hr fun i him ↦ hi i (List.mem_append_right _ him)

end Run

namespace Machine

/-- Only the twelve low bits of the index register matter, save to the instruction that adds to it.

Congruent machines fetch the same word.  Unless that adds to the index register, their steps meet
the same fault, if any, and leave congruent machines.  The same goes for any operations, one after
the other, that execute no such instruction, and for runs with hosts that do not look at the index.
In particular, a machine does the same with the twelve low bits of its index. -/
theorem index_counts_modulo_memory (hm : m.Congruent m') :
    m'.fetch = m.fetch ∧
    ((∀ x, m.instruction? ≠ some (.addIndex x)) →
      m.step.2 = m'.step.2 ∧ m.step.1.Congruent m'.step.1) ∧
    (∀ ops, (∀ e ∈ m.executed ops, ∀ x, e.2 ≠ .addIndex x) →
      m.faults ops = m'.faults ops ∧
        Option.Rel Congruent (m.operateAll ops) (m'.operateAll ops)) ∧
    (∀ (σ : Type) (h : Host σ) (budget : Nat) (s : σ), h.Blind →
      (∀ i ∈ (Run.start h m s).instructions h budget, ∀ x, i ≠ .addIndex x) →
      (m.run h budget s).Congruent (m'.run h budget s)) ∧
    m.Congruent (m.setIndex (m.registers.index % 4096)) := by
  refine ⟨hm.fetch, ?_, ?_, ?_, ?_⟩
  · intro hi
    exact (hm.step hi).symm
  · intro ops hops
    exact hm.operateAll hops
  · intro σ h budget s hb hi
    exact Run.Congruent.finish hb ⟨hm, rfl⟩ hi
  · exact m.congruent_repointed (Int.emod_emod _ _) rfl

/-- A machine that is about to draw a sprite of one row.  Its index register points to the last byte
of memory, by a number of more than twelve bits. -/
def beyond : Machine where
  memory := ⟨((Font.memory 4096).bytes.setIfInBounds 0x200 0xD0).setIfInBounds 0x201 0x11⟩
  registers := { index := 0x1FFF, v := Vector.replicate 16 7 }
  random := .cycle [] []

/-- A host that never calls a run off. -/
def tireless : Host Unit where
  clock s := (0.0, s)
  sleep _ s := s
  cancelled m s := (.ok false, m, s)

/-- Two registers are stored around the end of memory, and a sprite is drawn from there, in the same
way as with twelve bits; and so is a sprite in a run. -/
theorem index_counts_modulo_memory_beyond :
    (∃ n n', beyond.operateAll [.execute 0xF155, .step] = some n ∧
      (beyond.setIndex 0xFFF).operateAll [.execute 0xF155, .step] = some n' ∧
      n'.memory = n.memory ∧ n'.display = n.display) ∧
    (beyond.run tireless 1 ()).Congruent ((beyond.setIndex 0xFFF).run tireless 1 ()) := by
  have hm : beyond.Congruent (beyond.setIndex 0xFFF) :=
    beyond.congruent_repointed (by decide) rfl
  obtain ⟨-, -, hops, hrun, -⟩ := index_counts_modulo_memory hm
  constructor
  · have hexecuted : (beyond.executed [.execute 0xF155, .step]).map Prod.snd =
        [.store 1, .draw 0 1 1] := by
      decide +kernel
    have hnone : ∀ e ∈ beyond.executed [.execute 0xF155, .step], ∀ x, e.2 ≠ .addIndex x := by
      apply (List.forall_mem_map (f := Prod.snd)
        (P := fun i : Instruction ↦ ∀ x, i ≠ .addIndex x)).mp
      rw [hexecuted]
      simp
    have hsome : (beyond.operateAll [.execute 0xF155, .step]).isSome := by
      decide +kernel
    obtain ⟨n, hn⟩ := Option.isSome_iff_exists.mp hsome
    obtain ⟨-, hrel⟩ := hops _ hnone
    rw [hn] at hrel
    generalize (beyond.setIndex 0xFFF).operateAll _ = r at hrel ⊢
    cases hrel with
    | some h => exact ⟨n, _, hn, rfl, h.memory, h.display⟩
  · have hblind : tireless.Blind := fun _ _ _ h ↦ ⟨rfl, h, rfl⟩
    apply hrun Unit tireless 1 () hblind
    have hinstruction : (Run.start tireless beyond ()).instruction? tireless =
        some (.draw 0 1 1) := by
      decide +kernel
    rw [Run.instructions_one, hinstruction]
    intro i hi x hx
    rw [hx] at hi
    simp at hi

end Machine

end SuperChip
