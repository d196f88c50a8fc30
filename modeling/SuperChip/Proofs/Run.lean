import SuperChip.Machine.Run
import SuperChip.Proofs.Reachable

/-!
# Runs are made of operations

A run does nothing to its machine that operations do not do as well: it steps, lets time go by,
makes the resets that were asked for and shows its counters, and at its end it hands over the
picture.
What its host does in between is the host's affair.  So what operations keep, runs keep, as long as
the host does only what operations do.
-/

namespace SuperChip

namespace Machine

/-- Some operations lead from `m` to `m'`. -/
def Leads (m m' : Machine) : Prop := ∃ ops, m.operateAll ops = some m'

variable {m m' m'' : Machine}

/-- No operations lead nowhere. -/
theorem Leads.refl (m : Machine) : m.Leads m := ⟨[], rfl⟩

/-- A single operation leads to its result. -/
theorem Leads.single {o : Operation} {f : Option Fault} (hm : m.operate o = some (m', f)) :
    m.Leads m' := by
  refine ⟨[o], ?_⟩
  rw [operateAll, hm]
  rfl

/-- Operations go on where others have led. -/
theorem Leads.trans (h : m.Leads m') (h' : m'.Leads m'') : m.Leads m'' := by
  obtain ⟨ops, hops⟩ := h
  obtain ⟨ops', hops'⟩ := h'
  refine ⟨ops ++ ops', ?_⟩
  rw [operateAll_append, hops]
  exact hops'

/-- A step leads on. -/
theorem leads_step (m : Machine) : m.Leads m.step.1 := .single (o := .step) rfl

/-- A clock leads on if it comes to its end. -/
theorem leads_advanceClock {elapsed : Float} {ticks : Nat}
    (hm : m.advanceClock elapsed = some (m', ticks)) : m.Leads m' := by
  have ho : m.operate (.advanceClock elapsed) = some (m', none) := by
    rw [operate, hm]
    rfl
  exact .single ho

end Machine

variable {σ : Type} {h : Host σ}

/-- A host that does to the machine what operations do, and nothing else. -/
def Host.Orderly (h : Host σ) : Prop := ∀ (m : Machine) (s : σ), m.Leads (h.cancelled m s).2.1

/-- A host that does nothing to the machine. -/
def Host.Passive (h : Host σ) : Prop := ∀ m s, (h.cancelled m s).2.1 = m

/-- A host that does nothing does nothing else. -/
theorem Host.Passive.orderly (hp : h.Passive) : h.Orderly := by
  intro m s
  rw [hp m s]
  exact .refl m

namespace Run

open Machine

/-! ## What an instruction of a run does -/

/-- A reset that was asked for leads on. -/
theorem leads_resetIfRequested (m : Machine) : m.Leads (resetIfRequested m) := by
  rw [resetIfRequested]
  split
  · exact .trans (.single (o := .dropRequest) rfl) (.single (o := .reset) rfl)
  · exact .refl m

/-- Waiting leaves the machine alone. -/
@[simp] theorem machine_pace (started : Float) (r : Run σ) :
    (pace h started r).machine = r.machine := by
  rw [pace]
  split <;> rfl

/-- Showing the counters changes nothing else. -/
theorem machine_showCounters (r : Run σ) : ∃ ops ticks, r.showCounters.machine =
    { r.machine with opsPerSecond := ops, ticksPerSecond := ticks } := by
  rw [showCounters]
  split
  · exact ⟨r.ops, r.ticks, rfl⟩
  · exact ⟨r.machine.opsPerSecond, r.machine.ticksPerSecond, rfl⟩

/-- Where an instruction ends a run, the machine has made its step, and the end is not a good
one. -/
theorem cycle_eq_inl {r : Run σ} {outcome : Outcome σ} (hc : cycle h r = .inl outcome) :
    outcome.machine = (resetIfRequested r.machine).step.1 ∧ outcome.ending ≠ .finished := by
  rw [cycle] at hc
  cases hs : (resetIfRequested r.machine).step with
  | mk m f =>
    cases f with
    | some fault =>
      rw [hs] at hc
      cases hc
      exact ⟨rfl, Ending.noConfusion⟩
    | none =>
      rw [hs] at hc
      simp only at hc
      split at hc
      · cases hc
        exact ⟨rfl, Ending.noConfusion⟩
      · cases hc

/-- Where a run goes on after an instruction, the machine has made its step without a fault, time
has gone by, and the counters may have changed. -/
theorem cycle_eq_inr {r r' : Run σ} (hc : cycle h r = .inr r') :
    (resetIfRequested r.machine).step.2 = none ∧ ∃ m elapsed n ops ticks,
      (resetIfRequested r.machine).step.1.advanceClock elapsed = some (m, n) ∧
      r'.machine = { m with opsPerSecond := ops, ticksPerSecond := ticks } := by
  rw [cycle] at hc
  cases hs : (resetIfRequested r.machine).step with
  | mk m f =>
    cases f with
    | some fault =>
      rw [hs] at hc
      cases hc
    | none =>
      rw [hs] at hc
      simp only at hc
      split at hc
      next => cases hc
      next m' n hm =>
        cases hc
        obtain ⟨ops, ticks, hr⟩ := machine_showCounters (σ := σ) _
        refine ⟨rfl, m', _, n, ops, ticks, hm, ?_⟩
        rw [machine_pace]
        exact hr

/-! ## Runs -/

/-- The machine that a turn leaves, whether or not the run goes on. -/
def left : Outcome σ ⊕ Run σ → Machine
  | .inl outcome => outcome.machine
  | .inr r => r.machine

/-- An instruction of a run leads on. -/
theorem leads_cycle (r : Run σ) : r.machine.Leads (left (cycle h r)) := by
  have hs := (leads_resetIfRequested r.machine).trans (leads_step _)
  cases hc : cycle h r with
  | inl outcome =>
    rw [left, (cycle_eq_inl hc).1]
    exact hs
  | inr r' =>
    obtain ⟨-, m, elapsed, n, ops, ticks, hm, hr⟩ := cycle_eq_inr hc
    rw [left, hr]
    exact (hs.trans (leads_advanceClock hm)).trans (.single (o := .showCounters ops ticks) rfl)

/-- With an orderly host, a turn leads on. -/
theorem leads_turn (ho : h.Orderly) (r : Run σ) : r.machine.Leads (left (turn h r)) := by
  have hhost := ho r.machine r.host
  rw [turn]
  split
  · exact .single (o := .flush) rfl
  · split
    next fault m s hc =>
      rw [hc] at hhost
      exact hhost
    next m s hc =>
      rw [hc] at hhost
      exact hhost.trans (.single (o := .flush) rfl)
    next m s hc =>
      rw [hc] at hhost
      exact hhost.trans (leads_cycle { r with machine := m, host := s })

/-- With an orderly host, a run leads on, however it ends. -/
theorem leads_finish (ho : h.Orderly) (budget : Nat) (r : Run σ) :
    r.machine.Leads (finish h budget r).machine := by
  induction budget generalizing r with
  | zero => exact .refl _
  | succ budget ih =>
    have hturn := leads_turn ho r
    rw [finish]
    cases ht : turn h r with
    | inl outcome =>
      rw [ht] at hturn
      exact hturn
    | inr r' =>
      rw [ht] at hturn
      exact hturn.trans (ih r')

/-- A turn that brings a run to a good end hands over the picture. -/
theorem dirty_of_turn {r : Run σ} {outcome : Outcome σ} (ht : turn h r = .inl outcome)
    (he : outcome.ending = .finished) : outcome.machine.display.dirty = false := by
  rw [turn] at ht
  split at ht
  · cases ht
    rfl
  · split at ht
    · cases ht
      cases he
    · cases ht
      rfl
    · exact absurd he (cycle_eq_inl ht).2

/-- A run that comes to a good end leaves no picture to be handed over. -/
theorem dirty_of_finish {budget : Nat} {r : Run σ} (he : (finish h budget r).ending = .finished) :
    (finish h budget r).machine.display.dirty = false := by
  induction budget generalizing r with
  | zero => cases he
  | succ budget ih =>
    rw [finish] at he ⊢
    cases ht : turn h r with
    | inl outcome =>
      rw [ht] at he
      exact dirty_of_turn ht he
    | inr r' =>
      rw [ht] at he
      exact ih he

end Run

end SuperChip
