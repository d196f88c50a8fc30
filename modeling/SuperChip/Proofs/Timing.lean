import SuperChip.Proofs.Alike
import SuperChip.Proofs.Frame
import SuperChip.Proofs.Run

/-!
# Time reaches programs through the delay timer only

Whatever time does between the steps, a machine stays alike to itself.  So two executions that step
through a program see the same, step by step, as long as the program does not ask for the delay
timer, whenever the timers tick in the one and in the other.  Runs are such executions, so the
same holds of them, whatever the clocks of their hosts show.
-/

namespace SuperChip

/-- The operations that belong to time, and steps. -/
inductive Operation.Timely : Operation → Prop
  /-- The instruction at the program counter is executed. -/
  | step : Timely .step
  /-- The timers count down once. -/
  | tick : Timely .tick
  /-- Some time goes by. -/
  | advanceClock (elapsed : Float) : Timely (.advanceClock elapsed)
  /-- The picture is handed over. -/
  | flush : Timely .flush
  /-- The speed is set. -/
  | setClockSpeed (speed : Int) : Timely (.setClockSpeed speed)
  /-- A run shows its counters. -/
  | showCounters (ops ticks : Nat) : Timely (.showCounters ops ticks)

/-- Whether an operation is a step. -/
def Operation.isStep : Operation → Bool
  | .step => true
  | _ => false

namespace Machine

variable {m m' : Machine}

/-! ## Time -/

/-- Handing over the picture makes no difference. -/
theorem alike_flush (m : Machine) : m.Alike m.flush :=
  { Alike.refl m with display := ⟨rfl, rfl, rfl⟩ }

/-- A tick makes no difference. -/
theorem alike_tick (m : Machine) : m.Alike m.tick := by
  rw [tick_eq]
  apply Alike.trans _ (alike_flush _)
  exact { Alike.refl m with }

/-- Time that goes by makes no difference. -/
theorem alike_advanceClock {elapsed : Float} {ticks : Nat}
    (hm : m.advanceClock elapsed = some (m', ticks)) : m.Alike m' := by
  refine advanceClock_induction (P := m.Alike) ?_ ?_ (.refl m) hm
  · intro m' h
    exact h.trans m'.alike_tick
  · intro m' owed h
    exact { h with }

/-- A new speed makes no difference. -/
theorem alike_setClockSpeed (m : Machine) (speed : Int) : m.Alike (m.setClockSpeed speed).1 := by
  obtain ⟨interval, hm⟩ := m.exists_setClockSpeed_eq speed
  rw [hm]
  exact { Alike.refl m with }

/-- What belongs to time makes no difference. -/
theorem alike_operate {o : Operation} (ho : o.Timely) (hs : o.isStep = false)
    {r : Machine × Option Fault} (hr : m.operate o = some r) : m.Alike r.1 := by
  cases ho with
  | step => cases hs
  | tick =>
    cases hr
    exact m.alike_tick
  | advanceClock elapsed =>
    rw [operate, Option.map_eq_some_iff] at hr
    obtain ⟨⟨m', ticks⟩, hm, rfl⟩ := hr
    exact alike_advanceClock hm
  | flush =>
    cases hr
    exact m.alike_flush
  | setClockSpeed speed =>
    cases hr
    exact m.alike_setClockSpeed speed
  | showCounters ops ticks =>
    cases hr
    exact { Alike.refl m with }

/-! ## Histories -/

/-- What a step did. -/
structure Observation where
  /-- The instruction that was executed. -/
  instruction : Option Instruction
  /-- The machine after the step. -/
  machine : Machine
  /-- The fault that the step met. -/
  fault : Option Fault

/-- The step of a machine. -/
def observe (m : Machine) : Observation := ⟨m.instruction?, m.step.1, m.step.2⟩

/-- The steps among some operations, up to the first one that meets a fault. -/
def history : Machine → List Operation → List Observation
  | _, [] => []
  | m, o :: ops =>
    match m.operate o with
    | none => []
    | some (m', fault) =>
      if o.isStep then m.observe :: if fault.isSome then [] else m'.history ops
      else m'.history ops

/-- A step is observed, and ends the history if it meets a fault. -/
@[simp] theorem history_step (m : Machine) (ops : List Operation) : m.history (.step :: ops) =
    m.observe :: if m.step.2.isSome then [] else m.step.1.history ops := rfl

/-- What is no step is not observed. -/
theorem history_of_operate {o : Operation} {f : Option Fault} (hs : o.isStep = false)
    (ho : m.operate o = some (m', f)) (ops : List Operation) :
    m.history (o :: ops) = m'.history ops := by
  rw [history, ho]
  simp only [hs, Bool.false_eq_true, if_false]

/-- Timely operations lead over time to a step, if there is one among them. -/
theorem exists_of_history {ops : List Operation} (hops : ∀ o ∈ ops, o.Timely) {o : Observation}
    {os : List Observation} (ho : m.history ops = o :: os) :
    ∃ m' ops', m.Alike m' ∧ (∀ o ∈ ops', o.Timely) ∧ o = m'.observe ∧
      os = if m'.step.2.isSome then [] else m'.step.1.history ops' := by
  induction ops generalizing m with
  | nil => cases ho
  | cons p ops ih =>
    have hp := hops p List.mem_cons_self
    have hops' : ∀ o ∈ ops, o.Timely := fun o ho ↦ hops o (List.mem_cons_of_mem p ho)
    cases hs : p.isStep with
    | true =>
      cases hp <;> cases hs
      rw [history_step, List.cons.injEq] at ho
      exact ⟨m, ops, .refl m, hops', ho.1.symm, ho.2.symm⟩
    | false =>
      cases hr : m.operate p with
      | none =>
        rw [history, hr] at ho
        cases ho
      | some r =>
        rw [history_of_operate hs hr] at ho
        obtain ⟨m', ops', h, rest⟩ := ih hops' ho
        exact ⟨m', ops', (alike_operate hp hs hr).trans h, rest⟩

/-- A step that puts the delay timer in a register. -/
def Observation.ReadsDelay (o : Observation) : Prop := ∃ x, o.instruction = some (.getDelay x)

/-- What agrees of two steps. -/
structure Observation.Agree (o o' : Observation) : Prop where
  /-- They executed the same instruction. -/
  instruction : o.instruction = o'.instruction
  /-- They left machines that are alike. -/
  machine : o.machine.Alike o'.machine
  /-- They met the same fault, or none. -/
  fault : o.fault = o'.fault

/-- Histories that agree step by step, as far as both of them go. -/
def HistoriesAgree (os os' : List Observation) : Prop :=
  ∀ (k : Nat) (o o' : Observation), os[k]? = some o → os'[k]? = some o' → o.Agree o'

/-- Histories of machines that are alike begin with steps that agree, if the first one does not read
the delay timer, and go on as histories of machines that are alike, unless a fault ends them. -/
theorem Alike.history_cons (h : m.Alike m') {ops ops' : List Operation}
    (hops : ∀ o ∈ ops, o.Timely) (hops' : ∀ o ∈ ops', o.Timely)
    (hd : ∀ o ∈ m.history ops, ¬ o.ReadsDelay) {o o' : Observation} {os os' : List Observation}
    (ho : m.history ops = o :: os)
    (ho' : m'.history ops' = o' :: os') :
    o.Agree o' ∧ (os = [] ∨ ∃ n n' : Machine, n.Alike n' ∧ ∃ p p' : List Operation,
      (∀ o ∈ p, o.Timely) ∧ (∀ o ∈ p', o.Timely) ∧ os = n.history p ∧ os' = n'.history p') := by
  obtain ⟨n, p, hn, hp, rfl, hos⟩ := exists_of_history hops ho
  obtain ⟨n', p', hn', hp', rfl, hos'⟩ := exists_of_history hops' ho'
  have hnn : n.Alike n' := (hn.symm.trans h).trans hn'
  have hd' : ∀ x, n.instruction? ≠ some (.getDelay x) := by
    intro x hx
    refine hd n.observe ?_ ⟨x, hx⟩
    rw [ho]
    exact List.mem_cons_self
  obtain ⟨hm, hf⟩ := hnn.step hd'
  refine ⟨⟨hnn.instruction?, hm, hf⟩, ?_⟩
  rw [← hf] at hos'
  cases hs : n.step.2.isSome with
  | true =>
    left
    rw [hos, hs, if_pos rfl]
  | false =>
    right
    rw [hs, if_neg Bool.false_ne_true] at hos hos'
    exact ⟨_, _, hm, p, p', hp, hp', hos, hos'⟩

/-- Machines that are alike have histories that agree, if the first one does not read the delay
timer. -/
theorem Alike.history (h : m.Alike m') {ops ops' : List Operation}
    (hops : ∀ o ∈ ops, o.Timely) (hops' : ∀ o ∈ ops', o.Timely)
    (hd : ∀ o ∈ m.history ops, ¬ o.ReadsDelay) :
    HistoriesAgree (m.history ops) (m'.history ops') := by
  intro k
  induction k generalizing m m' ops ops' with
  | zero =>
    intro o o' hk hk'
    obtain ⟨os, hl⟩ := List.head?_eq_some_iff.mp (List.head?_eq_getElem? ▸ hk)
    obtain ⟨os', hl'⟩ := List.head?_eq_some_iff.mp (List.head?_eq_getElem? ▸ hk')
    exact (h.history_cons hops hops' hd hl hl').1
  | succ k ih =>
    intro o o' hk hk'
    cases hl : m.history ops with
    | nil =>
      rw [hl] at hk
      cases hk
    | cons a os =>
      cases hl' : m'.history ops' with
      | nil =>
        rw [hl'] at hk'
        cases hk'
      | cons a' os' =>
        rw [hl, List.getElem?_cons_succ] at hk
        rw [hl', List.getElem?_cons_succ] at hk'
        obtain ⟨-, hnil | ⟨n, n', hn, p, p', hp, hp', rfl, rfl⟩⟩ :=
          h.history_cons hops hops' hd hl hl'
        · rw [hnil] at hk
          cases hk
        · have hd' : ∀ o ∈ n.history p, ¬ o.ReadsDelay :=
            fun o ho ↦ hd o (hl ▸ List.mem_cons_of_mem a ho)
          exact ih hn hp hp' hd' o o' hk hk'

/-! ## Runs -/

/-- Instructions neither ask for a reset nor forget that one was asked for. -/
theorem enduring_resetRequested (asked : Bool) : Enduring fun m ↦ m.resetRequested = asked where
  mapRegisters _ h := h
  memory _ h := h
  delay _ h := h
  sound _ h := h
  random _ h := h
  halted h := h
  painted _ _ h := h
  setResolution _ h := h
  recordUnsupported w h := by
    rw [recordUnsupported]
    split <;> exact h
  trace w h := by
    rw [trace]
    split <;> exact h
  current _ h := h

/-- Time that goes by neither asks for a reset nor forgets that one was asked for. -/
theorem resetRequested_advanceClock {elapsed : Float} {ticks : Nat}
    (hm : m.advanceClock elapsed = some (m', ticks)) : m'.resetRequested = m.resetRequested := by
  refine advanceClock_induction (P := fun n ↦ n.resetRequested = m.resetRequested) ?_ ?_ rfl hm
  · intro n h
    rw [tick_eq]
    exact h
  · intro n owed h
    exact h

end Machine

namespace Run

open Machine

variable {σ : Type} {h : Host σ}

/-- The machine that the next instruction of a run is executed on, unless the run ends before. -/
def next? (h : Host σ) (r : Run σ) : Option Machine :=
  if r.machine.halted then none
  else
    match h.cancelled r.machine r.host with
    | (.ok false, m, _) => some (resetIfRequested m)
    | _ => none

/-- The steps of a run of at most `budget` turns. -/
def history (h : Host σ) : Nat → Run σ → List Observation
  | 0, _ => []
  | budget + 1, r =>
    match next? h r with
    | none => []
    | some m =>
      m.observe ::
        match turn h r with
        | .inl _ => []
        | .inr r => history h budget r

/-- A run of one turn makes a single step. -/
theorem history_one {r : Run σ} {m : Machine} (hn : next? h r = some m) :
    history h 1 r = [m.observe] := by
  rw [history, hn]
  simp only
  split <;> rfl

/-- With a passive host, an instruction is executed on the machine as it is, if no reset was asked
for. -/
theorem of_next? (hp : h.Passive) {r : Run σ} (hr : r.machine.resetRequested = false) {m : Machine}
    (hm : next? h r = some m) : m = r.machine ∧ ∃ s, turn h r = cycle h { r with host := s } := by
  have hhost := hp r.machine r.host
  rw [next?] at hm
  rw [turn]
  split at hm
  · cases hm
  next hn =>
    rw [if_neg hn]
    split at hm
    next m' s hc =>
      rw [hc] at hhost
      cases hm
      cases hhost
      rw [hc, resetIfRequested, hr]
      exact ⟨rfl, s, rfl⟩
    next => cases hm

/-- With a passive host, the steps of a run are those among some timely operations, if no reset was
asked for. -/
theorem exists_history (hp : h.Passive) (budget : Nat) (r : Run σ)
    (hr : r.machine.resetRequested = false) :
    ∃ ops : List Operation, (∀ o ∈ ops, o.Timely) ∧
      history h budget r = r.machine.history ops := by
  induction budget generalizing r with
  | zero => exact ⟨[], List.forall_mem_nil _, rfl⟩
  | succ budget ih =>
    rw [history]
    cases hn : next? h r with
    | none => exact ⟨[], List.forall_mem_nil _, rfl⟩
    | some m =>
      obtain ⟨rfl, s, ht⟩ := of_next? hp hr hn
      have hreset : resetIfRequested r.machine = r.machine := by
        rw [resetIfRequested, hr]
        rfl
      rw [ht]
      cases hc : cycle h { r with host := s } with
      | inl outcome =>
        refine ⟨[.step], List.forall_mem_singleton.mpr .step, ?_⟩
        rw [history_step, Machine.history, ite_self]
      | inr r' =>
        obtain ⟨hf, m, elapsed, n, a, b, hm, hr'⟩ := cycle_eq_inr hc
        rw [hreset] at hf hm
        have hclock : m.resetRequested = false :=
          (resetRequested_advanceClock hm).trans ((enduring_resetRequested false).step hr)
        have hadvance : r.machine.step.1.operate (.advanceClock elapsed) = some (m, none) := by
          rw [operate, hm]
          rfl
        have hshow : m.operate (.showCounters a b) = some (r'.machine, none) := by
          rw [operate, hr']
        obtain ⟨ops, hops, hh⟩ := ih r' (hr' ▸ hclock)
        refine ⟨.step :: .advanceClock elapsed :: .showCounters a b :: ops, ?_, ?_⟩
        · intro o ho
          rcases List.mem_cons.mp ho with rfl | ho
          · exact .step
          rcases List.mem_cons.mp ho with rfl | ho
          · exact .advanceClock elapsed
          rcases List.mem_cons.mp ho with rfl | ho
          · exact .showCounters a b
          · exact hops o ho
        · rw [history_step, hf, history_of_operate rfl hadvance, history_of_operate rfl hshow]
          exact congrArg _ hh

end Run

namespace Machine

/-- Time is hidden from programs that do not read the delay timer.

Two executions from the same machine agree step by step, whatever belongs to time is done between
the steps of the one and of the other, as long as the first one does not read the delay timer.  So
do two runs with passive hosts, whatever their clocks and their speeds. -/
theorem historiesAgree_of_not_readsDelay (m : Machine) :
    (∀ ops ops' : List Operation, (∀ o ∈ ops, o.Timely) → (∀ o ∈ ops', o.Timely) →
      (∀ o ∈ m.history ops, ¬ o.ReadsDelay) →
      HistoriesAgree (m.history ops) (m.history ops')) ∧
    ∀ (σ τ : Type) (h : Host σ) (h' : Host τ) (s : σ) (s' : τ) (speed speed' : Int)
      (budget budget' : Nat), h.Passive → h'.Passive → m.resetRequested = false →
      let r := Run.start h (m.setClockSpeed speed).1 s
      let r' := Run.start h' (m.setClockSpeed speed').1 s'
      (∀ o ∈ Run.history h budget r, ¬ o.ReadsDelay) →
      HistoriesAgree (Run.history h budget r) (Run.history h' budget' r') := by
  constructor
  · intro ops ops' hops hops' hd
    exact (Alike.refl m).history hops hops' hd
  · intro σ τ h h' s s' speed speed' budget budget' hp hp' hr r r' hd
    have hset : ∀ speed, (m.setClockSpeed speed).1.resetRequested = false := by
      intro speed
      rw [setClockSpeed]
      split <;> exact hr
    obtain ⟨ops, hops, hh⟩ := Run.exists_history hp budget r (hset speed)
    obtain ⟨ops', hops', hh'⟩ := Run.exists_history hp' budget' r' (hset speed')
    rw [hh] at hd ⊢
    rw [hh']
    have ha : r.machine.Alike r'.machine :=
      (m.alike_setClockSpeed speed).symm.trans (m.alike_setClockSpeed speed')
    exact ha.history hops hops' hd

/-- A machine with its timers running.  The bytes at its program counter, which belong to the small
glyphs, are a load and a call. -/
def timed : Machine :=
  { random := .cycle [] [], registers := { pc := 6 }, delay := 60, sound := 1 }

/-- A host whose clock goes on by a number of seconds each time it is read. -/
def clockwork (seconds : Float) : Host Float where
  clock now := (now, now + seconds)
  sleep _ now := now
  cancelled m now := (.ok false, m, now)

/-- The load and the call of `timed` agree with a load and a call between which the timers tick, and
a run of one turn agrees with one that has a faster clock. -/
theorem historiesAgree_timed :
    (timed.history [.step, .step]).length = 2 ∧
    (timed.history [.tick, .step, .tick, .flush, .step]).length = 2 ∧
    HistoriesAgree (timed.history [.step, .step])
      (timed.history [.tick, .step, .tick, .flush, .step]) ∧
    HistoriesAgree
      (Run.history (clockwork 0.001) 1 (Run.start (clockwork 0.001) (timed.setClockSpeed 0).1 0.0))
      (Run.history (clockwork 2.0) 1
        (Run.start (clockwork 2.0) (timed.setClockSpeed 0).1 0.0)) := by
  refine ⟨by decide +kernel, by decide +kernel, ?_, ?_⟩
  · refine (historiesAgree_of_not_readsDelay timed).1 _ _ ?_ ?_ ?_
    · simp [Operation.Timely.step]
    · simp [Operation.Timely.step, Operation.Timely.tick, Operation.Timely.flush]
    · have hi : (timed.history [.step, .step]).map (·.instruction) =
          [some (.setByte 0 0x20), some (.call 0x070)] := by decide +kernel
      rintro o ho ⟨x, hx⟩
      have hm := List.mem_map_of_mem (f := (·.instruction)) ho
      rw [hi, hx] at hm
      simp at hm
  · refine (historiesAgree_of_not_readsDelay timed).2 _ _ _ _ _ _ _ _ _ _ (fun _ _ ↦ rfl)
      (fun _ _ ↦ rfl) rfl ?_
    have hn : Run.next? (clockwork 0.001) (Run.start (clockwork 0.001)
        (timed.setClockSpeed 0).1 0.0) = some (timed.setClockSpeed 0).1 := rfl
    have hi : (timed.setClockSpeed 0).1.observe.instruction = some (.setByte 0 0x20) := by
      decide +kernel
    rintro o ho ⟨x, hx⟩
    rw [Run.history_one hn, List.mem_singleton] at ho
    rw [ho, hi] at hx
    cases hx

end Machine

end SuperChip
