import SuperChip.Machine.Thread
import SuperChip.Proofs.Alike
import SuperChip.Proofs.Overlooked
import SuperChip.Proofs.Run

/-!
# Runs execute what they are allowed to execute

Before each instruction a run asks its host whether it is called off, and the host may do something
to the machine before it answers.  What a run does after that is written down here as its deeds: the
answers that it got, and the resets, instructions, ticks and flushes that it made, in their order.

A run keeps books besides: the time that is owed to the timers and the counters that it shows.  They
decide how many ticks are made, and nothing else.  So the deeds of a run, done once more without a
clock, lead to the same machine but for the books, and follow a course that does not mention them.
All that is shown here of runs is shown of courses, by induction.
-/

namespace SuperChip

/-! ## Deeds -/

/-- Something that a run does or is told. -/
inductive Deed
  /-- The host intervenes and says whether the run is called off. -/
  | asked (interventions : List Intervention) (calledOff : Bool)
  /-- The reset that was asked for is made. -/
  | reset
  /-- An instruction is executed. -/
  | executed
  /-- The timers tick. -/
  | ticked
  /-- The picture is handed over at the end. -/
  | flushed
  deriving DecidableEq, Repr

/-- Whether an answer allows an instruction. -/
def Deed.allows : Deed → Bool
  | .asked _ calledOff => !calledOff
  | _ => false

namespace Machine

/-- The machine after something that its host does to it, refused or not. -/
def intervene (m : Machine) : Intervention → Machine
  | .requestReset => m.requestReset
  | .setKey key down => (m.attempt (m.setKey key down)).1
  | .setClockSpeed speed => (m.setClockSpeed speed).1

/-- The machine after some deed. -/
def redo (m : Machine) : Deed → Machine
  | .asked interventions _ => interventions.foldl intervene m
  | .reset => { m with resetRequested := false }.reset
  | .executed => m.step.1
  | .ticked => m.tick
  | .flushed => m.flush

/-- The machine after some deeds. -/
def redoAll (m : Machine) (deeds : List Deed) : Machine := deeds.foldl redo m

/-- The machine without the books of a run. -/
def unbooked (m : Machine) : Machine :=
  { m with owed := 0.0, opsPerSecond := 0, ticksPerSecond := 0 }

end Machine

/-- A host that is asked before each instruction whether the run is called off.  It intervenes
before it answers, and does nothing else to the machine. -/
structure Attendant (σ : Type) where
  /-- Reads the clock, in seconds. -/
  clock : σ → Float × σ
  /-- Waits for some seconds. -/
  sleep : Float → σ → σ
  /-- Intervenes and says whether the run is called off. -/
  attend : Machine → σ → List Intervention × Bool × σ

namespace Attendant

variable {σ : Type} (a : Attendant σ)

/-- The attendant as the host of a run. -/
def host : Host σ where
  clock := a.clock
  sleep := a.sleep
  cancelled m s :=
    let (interventions, calledOff, s) := a.attend m s
    (.ok calledOff, interventions.foldl Machine.intervene m, s)

end Attendant

namespace Run

variable {σ : Type} (a : Attendant σ)

/-- The ticks after an instruction of a run. -/
def ticksAfter (r : Run σ) (m : Machine) : Nat :=
  ((m.advanceClock ((a.clock (a.clock r.host).2).1 - r.last)).map Prod.snd).getD 0

/-- What is done in a run from an answer that allows an instruction to the next question. -/
def cycleDeeds (r : Run σ) : List Deed :=
  let (m, fault) := (resetIfRequested r.machine).step
  (if r.machine.resetRequested then [.reset] else []) ++ .executed ::
    if fault.isSome then [] else List.replicate (ticksAfter a r m) .ticked

/-- What is done in a turn of a run. -/
def turnDeeds (r : Run σ) : List Deed :=
  if r.machine.halted then [.flushed]
  else
    match a.attend r.machine r.host with
    | (interventions, true, _) => [.asked interventions true, .flushed]
    | (interventions, false, s) =>
      .asked interventions false :: cycleDeeds a
        { r with machine := interventions.foldl Machine.intervene r.machine, host := s }

/-- What is done in a run of at most `budget` turns. -/
def deeds : Nat → Run σ → List Deed
  | 0, _ => []
  | budget + 1, r =>
    turnDeeds a r ++
      match turn a.host r with
      | .inl _ => []
      | .inr r' => deeds budget r'

end Run

/-- What is done in a run of a machine. -/
def Machine.deeds {σ : Type} (a : Attendant σ) (budget : Nat) (m : Machine) (s : σ) : List Deed :=
  Run.deeds a budget (Run.start a.host m s)

/-! ## Machines without books -/

namespace Machine

variable {m m' : Machine}

/-- Instructions overlook the books. -/
theorem overlooked_unbooked : Overlooked unbooked where
  registers _ _ := rfl
  memory _ _ := rfl
  display _ _ := rfl
  setResolution _ _ := rfl
  delay _ _ := rfl
  sound _ _ := rfl
  random _ _ := rfl
  halted _ _ := rfl
  current _ _ := rfl
  keys _ := rfl
  recordUnsupported m w := by
    rw [recordUnsupported, recordUnsupported]
    exact apply_ite unbooked _ _ _

theorem unbooked_trace (m : Machine) (w : Word) : (m.trace w).unbooked = m.unbooked.trace w := by
  rw [trace, trace]
  exact apply_ite unbooked _ _ _

/-- A step makes no difference to the books, and they make none to it. -/
theorem step_unbooked (m : Machine) : m.unbooked.step = (m.step.1.unbooked, m.step.2) :=
  overlooked_unbooked.step m unbooked_trace

theorem tick_unbooked (m : Machine) : m.unbooked.tick = m.tick.unbooked := by
  rw [tick_eq, tick_eq]
  rfl

theorem intervene_unbooked (m : Machine) (i : Intervention) :
    m.unbooked.intervene i = (m.intervene i).unbooked := by
  cases i with
  | requestReset => rfl
  | setKey key down =>
    rw [intervene, intervene, setKey, setKey]
    split
    · rfl
    · rfl
  | setClockSpeed speed =>
    rw [intervene, intervene, setClockSpeed, setClockSpeed]
    cases intervalOf speed with
    | ok interval => rfl
    | error f => rfl

theorem foldl_intervene_unbooked (m : Machine) (interventions : List Intervention) :
    interventions.foldl intervene m.unbooked = (interventions.foldl intervene m).unbooked := by
  induction interventions generalizing m with
  | nil => rfl
  | cons i interventions ih =>
    rw [List.foldl_cons, List.foldl_cons, intervene_unbooked, ih]

/-- A deed does the same without the books. -/
theorem redo_unbooked (m : Machine) (d : Deed) : m.unbooked.redo d = (m.redo d).unbooked := by
  cases d with
  | asked interventions calledOff => exact m.foldl_intervene_unbooked interventions
  | reset => rfl
  | executed => exact congrArg Prod.fst m.step_unbooked
  | ticked => exact m.tick_unbooked
  | flushed => rfl

/-- Deeds do the same without the books. -/
theorem redoAll_unbooked (m : Machine) (deeds : List Deed) :
    m.unbooked.redoAll deeds = (m.redoAll deeds).unbooked := by
  induction deeds generalizing m with
  | nil => rfl
  | cons d deeds ih =>
    change (m.unbooked.redo d).redoAll deeds = ((m.redo d).redoAll deeds).unbooked
    rw [redo_unbooked, ih]

/-- The instruction at the program counter is the same without the books. -/
theorem instruction?_unbooked (m : Machine) : m.unbooked.instruction? = m.instruction? := rfl

/-- The instruction that ends the program does so. -/
theorem halted_of_exit (hi : m.instruction? = some .exit) : m.step.1.halted := by
  rw [instruction?] at hi
  cases hw : m.fetch with
  | ok w =>
    rw [hw] at hi
    have hd : Instruction.decode w = .exit := Option.some.inj hi
    rw [step_eq_execute hw, execute, hd]
    rfl
  | error f =>
    rw [hw] at hi
    cases hi

end Machine

/-! ## Courses -/

/-- How far a turn of a run has come. -/
inductive Phase
  /-- The run is about to ask whether it is called off. -/
  | asking
  /-- The run is about to make the reset that was asked for, if any. -/
  | resetting
  /-- The run is about to execute an instruction. -/
  | executing
  /-- The run serves the timers. -/
  | serving
  deriving DecidableEq, Repr

/-- The number of instructions that are allowed already when a phase begins. -/
def Phase.allowed : Phase → Nat
  | .resetting | .executing => 1
  | .asking | .serving => 0

open Machine

/-- The courses that a run may take, from a phase with a machine on, and with so many instructions
allowed: what is done, how it ends, and the machine that is left.  Here a machine has no books. -/
inductive Course : Nat → Phase → Machine → List Deed → Ending → Machine → Prop
  /-- No more instructions are allowed. -/
  | exhausted (p : Machine) : Course 0 .asking p [] .exhausted p
  /-- The program has ended. -/
  | halted {budget : Nat} {p : Machine} (hp : p.halted) :
    Course (budget + 1) .asking p [.flushed] .finished p.flush
  /-- The host calls the run off. -/
  | calledOff {budget : Nat} {p : Machine} (hp : p.halted = false)
    (interventions : List Intervention) :
    Course (budget + 1) .asking p [.asked interventions true, .flushed] .finished
      (interventions.foldl intervene p).flush
  /-- The host does not call the run off. -/
  | goesOn {budget : Nat} {p n : Machine} {deeds : List Deed} {ending : Ending}
    (hp : p.halted = false) (interventions : List Intervention)
    (h : Course (budget + 1) .resetting (interventions.foldl intervene p) deeds ending n) :
    Course (budget + 1) .asking p (.asked interventions false :: deeds) ending n
  /-- The reset that was asked for is made. -/
  | reset {budget : Nat} {p n : Machine} {deeds : List Deed} {ending : Ending}
    (hp : p.resetRequested) (h : Course budget .executing (p.redo .reset) deeds ending n) :
    Course budget .resetting p (.reset :: deeds) ending n
  /-- No reset was asked for. -/
  | noReset {budget : Nat} {p n : Machine} {deeds : List Deed} {ending : Ending}
    (hp : p.resetRequested = false) (h : Course budget .executing p deeds ending n) :
    Course budget .resetting p deeds ending n
  /-- An instruction meets a fault. -/
  | failed {budget : Nat} {p : Machine} {fault : Fault} (hp : p.step.2 = some fault) :
    Course (budget + 1) .executing p [.executed] (.failed fault) p.step.1
  /-- After an instruction, the time owed can never be paid out. -/
  | stalled {budget : Nat} {p : Machine} (hp : p.step.2 = none) :
    Course (budget + 1) .executing p [.executed] .stalled p.step.1
  /-- An instruction is executed. -/
  | executed {budget : Nat} {p n : Machine} {deeds : List Deed} {ending : Ending}
    (hp : p.step.2 = none) (h : Course budget .serving p.step.1 deeds ending n) :
    Course (budget + 1) .executing p (.executed :: deeds) ending n
  /-- The timers tick. -/
  | ticked {budget : Nat} {p n : Machine} {deeds : List Deed} {ending : Ending}
    (h : Course budget .serving p.tick deeds ending n) :
    Course budget .serving p (.ticked :: deeds) ending n
  /-- The timers are served. -/
  | served {budget : Nat} {p n : Machine} {deeds : List Deed} {ending : Ending}
    (h : Course budget .asking p deeds ending n) : Course budget .serving p deeds ending n

variable {budget : Nat} {phase : Phase} {p n : Machine} {deeds before after : List Deed}
  {ending : Ending}

namespace Course

/-- A course does what its deeds do. -/
theorem redoAll_eq (h : Course budget phase p deeds ending n) : p.redoAll deeds = n := by
  induction h with
  | exhausted | halted | calledOff | failed | stalled => rfl
  | goesOn _ _ _ ih | reset _ _ ih | noReset _ _ ih | executed _ _ ih | ticked _ ih
  | served _ ih => exact ih

/-- As many instructions are executed as are allowed. -/
theorem count_executed (h : Course budget phase p deeds ending n) :
    deeds.count .executed = phase.allowed + deeds.countP Deed.allows := by
  induction h with
  | exhausted | halted | calledOff | failed | stalled => rfl
  | goesOn _ interventions _ ih =>
    rw [List.count_cons_of_ne (by simp), List.countP_cons_of_pos (by rfl), ih]
    simp only [Phase.allowed]
    omega
  | reset _ _ ih =>
    rw [List.count_cons_of_ne (by simp), List.countP_cons_of_neg (by simp [Deed.allows]), ih]
    rfl
  | noReset _ _ ih => exact ih
  | executed _ _ ih =>
    rw [List.count_cons_self, List.countP_cons_of_neg (by simp [Deed.allows]), ih]
    simp only [Phase.allowed]
    omega
  | ticked _ ih =>
    rw [List.count_cons_of_ne (by simp), List.countP_cons_of_neg (by simp [Deed.allows]), ih]
  | served _ ih => exact ih

/-- A course that is cut off has executed all the instructions that it may. -/
theorem count_of_exhausted (h : Course budget phase p deeds .exhausted n) :
    deeds.count .executed = budget := by
  generalize he : Ending.exhausted = ending at h
  induction h with
  | exhausted => rfl
  | halted | calledOff | failed | stalled => cases he
  | goesOn _ _ _ ih | reset _ _ ih | ticked _ ih =>
    rw [List.count_cons_of_ne (by simp), ih he]
  | noReset _ _ ih | served _ ih => exact ih he
  | executed _ _ ih => rw [List.count_cons_self, ih he]

/-- Once a run is called off, there is nothing but the last flush. -/
theorem eq_of_calledOff (h : Course budget phase p deeds ending n)
    {interventions : List Intervention}
    (hd : deeds = before ++ .asked interventions true :: after) : after = [.flushed] := by
  have hmem : .asked interventions true ∈ deeds := by simp [hd]
  induction h generalizing before with
  | exhausted | halted | failed | stalled => simp at hmem
  | calledOff hp interventions' =>
    rcases List.cons_eq_append_iff.mp hd with ⟨-, hd⟩ | ⟨before', -, hd⟩
    · cases hd
      rfl
    · have hlast : .asked interventions true ∈ [Deed.flushed] := by simp [hd]
      simp at hlast
  | goesOn _ _ _ ih | reset _ _ ih | executed _ _ ih | ticked _ ih =>
    rcases List.cons_eq_append_iff.mp hd with ⟨-, hd⟩ | ⟨before', -, hd⟩
    · cases hd
    · exact ih hd (by simp [hd])
  | noReset _ _ ih | served _ ih => exact ih hd hmem

/-- When the program has ended, a course serves the timers, and there is nothing after that but the
last flush. -/
theorem prefix_of_halted (h : Course budget phase p deeds ending n) (hp : p.halted)
    (hphase : phase = .serving ∨ phase = .asking) :
    ∃ k, deeds <+: List.replicate k .ticked ++ [.flushed] := by
  induction h with
  | exhausted => exact ⟨0, List.nil_prefix⟩
  | halted => exact ⟨0, List.prefix_rfl⟩
  | calledOff hp' | goesOn hp' => simp [hp'] at hp
  | reset | noReset | failed | stalled | executed => simp at hphase
  | @ticked _ p _ _ _ _ ih =>
    have hp' : p.tick.halted := by
      rw [tick_eq]
      exact hp
    obtain ⟨k, hk⟩ := ih hp' (.inl rfl)
    exact ⟨k + 1, List.cons_prefix_cons.mpr ⟨rfl, hk⟩⟩
  | served _ ih => exact ih hp (.inr rfl)

/-- What comes after an instruction of a course: nothing, if it meets a fault, and nothing but ticks
and the last flush, if it ends the program. -/
theorem after_executed (h : Course budget phase p deeds ending n)
    (hd : deeds = before ++ .executed :: after) :
    (∀ fault, (p.redoAll before).step.2 = some fault → after = [] ∧ ending = .failed fault) ∧
      ((p.redoAll before).instruction? = some .exit →
        ∃ k, after <+: List.replicate k .ticked ++ [.flushed]) := by
  have hmem : .executed ∈ deeds := by simp [hd]
  induction h generalizing before with
  | exhausted | halted | calledOff => simp at hmem
  | goesOn _ _ _ ih | reset _ _ ih | ticked _ ih =>
    rcases List.cons_eq_append_iff.mp hd with ⟨-, hd⟩ | ⟨before', rfl, hrest⟩
    · cases hd
    · exact ih hrest (by simp [hrest])
  | noReset _ _ ih | served _ ih => exact ih hd hmem
  | failed hp =>
    obtain ⟨rfl, hd⟩ | ⟨before', -, hd⟩ := List.cons_eq_append_iff.mp hd
    · cases hd
      refine ⟨?_, fun _ ↦ ⟨0, List.nil_prefix⟩⟩
      intro fault hf
      exact ⟨rfl, congrArg Ending.failed (Option.some.inj (hp.symm.trans hf))⟩
    · simp at hd
  | stalled hp =>
    obtain ⟨rfl, hd⟩ | ⟨before', -, hd⟩ := List.cons_eq_append_iff.mp hd
    · cases hd
      refine ⟨?_, fun _ ↦ ⟨0, List.nil_prefix⟩⟩
      intro fault hf
      cases hp.symm.trans hf
    · simp at hd
  | executed hp h ih =>
    obtain ⟨rfl, hd⟩ | ⟨before', rfl, hrest⟩ := List.cons_eq_append_iff.mp hd
    · cases hd
      refine ⟨?_, fun hi ↦ h.prefix_of_halted (halted_of_exit hi) (.inl rfl)⟩
      intro fault hf
      cases hp.symm.trans hf
    · exact ih hrest (by simp [hrest])

/-- A course that fails does so at an instruction. -/
theorem exists_of_failed {fault : Fault} (h : Course budget phase p deeds (.failed fault) n) :
    ∃ before, deeds = before ++ [.executed] ∧ (p.redoAll before).step.2 = some fault := by
  generalize he : Ending.failed fault = ending at h
  induction h with
  | exhausted | halted | calledOff | stalled => cases he
  | failed hp =>
    cases he
    exact ⟨[], rfl, hp⟩
  | goesOn _ _ _ ih | reset _ _ ih | executed _ _ ih | ticked _ ih =>
    obtain ⟨before, rfl, hf⟩ := ih he
    exact ⟨_ :: before, rfl, hf⟩
  | noReset _ _ ih | served _ ih => exact ih he

/-- A course that finishes hands over the picture at its end, and not before. -/
theorem exists_of_finished (h : Course budget phase p deeds .finished n) :
    ∃ before, deeds = before ++ [.flushed] ∧ .flushed ∉ before := by
  generalize he : Ending.finished = ending at h
  induction h with
  | exhausted | failed | stalled => cases he
  | halted => exact ⟨[], rfl, List.not_mem_nil⟩
  | calledOff hp interventions => exact ⟨[.asked interventions true], rfl, by simp⟩
  | goesOn _ _ _ ih | reset _ _ ih | executed _ _ ih | ticked _ ih =>
    obtain ⟨before, rfl, hf⟩ := ih he
    exact ⟨_ :: before, rfl, by simpa using hf⟩
  | noReset _ _ ih | served _ ih => exact ih he

/-- A course that begins with a program that has ended is the last flush. -/
theorem eq_of_halted (h : Course (budget + 1) .asking p deeds ending n) (hp : p.halted) :
    deeds = [.flushed] ∧ ending = .finished := by
  cases h with
  | halted => exact ⟨rfl, rfl⟩
  | calledOff hp' | goesOn hp' => simp [hp'] at hp

end Course

/-! ## Runs take courses -/

/-- Paying out the time owed takes a course through as many ticks as it counts. -/
theorem course_payOut {m m' : Machine} {j i : Nat} (hm : m.payOut j = some (m', i)) :
    ∃ k, i = j + k ∧ ∀ (budget : Nat) (deeds : List Deed) (ending : Ending) (n : Machine),
      Course budget .serving m'.unbooked deeds ending n →
        Course budget .serving m.unbooked (List.replicate k .ticked ++ deeds) ending n := by
  fun_induction payOut m j with
  | case1 m j hle left hlt ih =>
    obtain ⟨k, rfl, hk⟩ := ih hm
    refine ⟨1 + k, Nat.add_assoc j 1 k, ?_⟩
    intro budget deeds ending n h
    rw [Nat.add_comm, List.replicate_succ]
    refine .ticked ?_
    rw [tick_unbooked]
    exact hk budget deeds ending n h
  | case2 m j hle left hlt => cases hm
  | case3 m j hle =>
    cases hm
    exact ⟨0, rfl, fun _ _ _ _ ↦ id⟩

/-- Time that goes by takes a course through as many ticks as it counts. -/
theorem course_advanceClock {m m' : Machine} {elapsed : Float} {k : Nat}
    (hm : m.advanceClock elapsed = some (m', k))
    (h : Course budget .serving m'.unbooked deeds ending n) :
    Course budget .serving m.unbooked (List.replicate k .ticked ++ deeds) ending n := by
  rw [advanceClock] at hm
  cases hp : ({ m with owed := m.owed + elapsed } : Machine).payOut 0 with
  | none =>
    rw [hp] at hm
    cases hm
  | some r =>
    obtain ⟨i, hi, hcourse⟩ := course_payOut hp
    rw [hp] at hm
    cases hm
    rw [hi, Nat.zero_add]
    apply hcourse
    split at h
    · exact h
    · exact h

namespace Run

variable {σ : Type} {a : Attendant σ}

/-- A run makes the reset that was asked for, if any. -/
theorem course_resetting {m : Machine}
    (h : Course budget .executing (resetIfRequested m).unbooked deeds ending n) :
    Course budget .resetting m.unbooked
      ((if m.resetRequested then [.reset] else []) ++ deeds) ending n := by
  cases hr : m.resetRequested with
  | true =>
    refine .reset hr ?_
    rw [redo_unbooked]
    rw [resetIfRequested, hr] at h
    exact h
  | false =>
    refine .noReset hr ?_
    rw [resetIfRequested, hr] at h
    exact h

/-- Showing the counters and waiting change nothing but the books. -/
theorem unbooked_pace_showCounters {h : Host σ} (started : Float) (r : Run σ) :
    (pace h started r.showCounters).machine.unbooked = r.machine.unbooked := by
  obtain ⟨ops, ticks, hm⟩ := r.machine_showCounters
  rw [machine_pace, hm]
  rfl

/-- An instruction at which a run ends takes a course to its end. -/
theorem course_cycle_inl {r : Run σ} {outcome : Outcome σ}
    (hc : cycle a.host r = .inl outcome) :
    Course (budget + 1) .resetting r.machine.unbooked (cycleDeeds a r) outcome.ending
      outcome.machine.unbooked := by
  have hstep := (resetIfRequested r.machine).step_unbooked
  rw [cycle] at hc
  rw [cycleDeeds]
  cases hs : (resetIfRequested r.machine).step with
  | mk m f =>
    rw [hs] at hstep hc
    apply course_resetting
    cases f with
    | some fault =>
      cases hc
      have hc : Course (budget + 1) .executing (resetIfRequested r.machine).unbooked _ _ _ :=
        .failed (congrArg Prod.snd hstep)
      rw [hstep] at hc
      exact hc
    | none =>
      simp only at hc
      split at hc
      next hm =>
        cases hc
        have hc : Course (budget + 1) .executing (resetIfRequested r.machine).unbooked _ _ _ :=
          .stalled (congrArg Prod.snd hstep)
        rw [hstep] at hc
        have ht : ticksAfter a r m = 0 := congrArg (fun o ↦ (o.map Prod.snd).getD 0) hm
        simp only [ht]
        exact hc
      next => cases hc

/-- An instruction after which a run goes on takes a course on. -/
theorem course_cycle_inr {r r' : Run σ} (hc : cycle a.host r = .inr r')
    (h : Course budget .asking r'.machine.unbooked deeds ending n) :
    Course (budget + 1) .resetting r.machine.unbooked (cycleDeeds a r ++ deeds) ending n := by
  have hstep := (resetIfRequested r.machine).step_unbooked
  rw [cycle] at hc
  rw [cycleDeeds]
  cases hs : (resetIfRequested r.machine).step with
  | mk m f =>
    rw [hs] at hstep hc
    cases f with
    | some fault => cases hc
    | none =>
      simp only at hc
      split at hc
      next => cases hc
      next m' k hm =>
        cases hc
        have ht : ticksAfter a r m = k := congrArg (fun o ↦ (o.map Prod.snd).getD 0) hm
        rw [unbooked_pace_showCounters] at h
        have hserve := course_advanceClock hm (.served h)
        have hc := Course.executed (congrArg Prod.snd hstep) (by rw [hstep]; exact hserve)
        simp only [ht]
        rw [List.append_assoc]
        exact course_resetting hc

/-- What a run learns when it asks an attendant. -/
theorem cancelled_host {m : Machine} {s s' : σ} {interventions : List Intervention}
    {calledOff : Bool} (hs : a.attend m s = (interventions, calledOff, s')) :
    a.host.cancelled m s = (.ok calledOff, interventions.foldl intervene m, s') := by
  simp only [Attendant.host, hs]

/-- A turn at which a run ends takes a course to its end. -/
theorem course_turn_inl {r : Run σ} {outcome : Outcome σ} (ht : turn a.host r = .inl outcome) :
    Course (budget + 1) .asking r.machine.unbooked (turnDeeds a r) outcome.ending
      outcome.machine.unbooked := by
  rw [turn] at ht
  rw [turnDeeds]
  cases hh : r.machine.halted with
  | true =>
    rw [hh] at ht
    cases ht
    exact .halted hh
  | false =>
    rcases hs : a.attend r.machine r.host with ⟨interventions, calledOff, s⟩
    rw [hh, cancelled_host hs] at ht
    cases calledOff with
    | true =>
      cases ht
      have hc : Course (budget + 1) .asking r.machine.unbooked _ _ _ :=
        .calledOff (p := r.machine.unbooked) hh interventions
      rw [foldl_intervene_unbooked] at hc
      exact hc
    | false =>
      refine Course.goesOn (p := r.machine.unbooked) hh interventions ?_
      rw [foldl_intervene_unbooked]
      exact course_cycle_inl ht

/-- A turn after which a run goes on takes a course on. -/
theorem course_turn_inr {r r' : Run σ} (ht : turn a.host r = .inr r')
    (h : Course budget .asking r'.machine.unbooked deeds ending n) :
    Course (budget + 1) .asking r.machine.unbooked (turnDeeds a r ++ deeds) ending n := by
  rw [turn] at ht
  rw [turnDeeds]
  cases hh : r.machine.halted with
  | true =>
    rw [hh] at ht
    cases ht
  | false =>
    rcases hs : a.attend r.machine r.host with ⟨interventions, calledOff, s⟩
    rw [hh, cancelled_host hs] at ht
    cases calledOff with
    | true => cases ht
    | false =>
      refine Course.goesOn (p := r.machine.unbooked) hh interventions ?_
      rw [foldl_intervene_unbooked]
      exact course_cycle_inr ht h

/-- A run takes a course. -/
theorem course_finish (budget : Nat) (r : Run σ) :
    Course budget .asking r.machine.unbooked (Run.deeds a budget r)
      (finish a.host budget r).ending (finish a.host budget r).machine.unbooked := by
  induction budget generalizing r with
  | zero => exact .exhausted _
  | succ budget ih =>
    rw [Run.deeds, finish]
    cases ht : turn a.host r with
    | inl outcome =>
      rw [List.append_nil]
      exact course_turn_inl ht
    | inr r' => exact course_turn_inr ht (ih r')

/-- What comes after the end of a run is never reached. -/
theorem finish_add {budget : Nat} {r : Run σ} (he : (finish a.host budget r).ending ≠ .exhausted)
    (more : Nat) : Run.deeds a (budget + more) r = Run.deeds a budget r ∧
      finish a.host (budget + more) r = finish a.host budget r := by
  induction budget generalizing r with
  | zero => exact absurd rfl he
  | succ budget ih =>
    rw [Nat.add_right_comm, Run.deeds, Run.deeds, finish, finish]
    rw [finish] at he
    cases ht : turn a.host r with
    | inl outcome => exact ⟨rfl, rfl⟩
    | inr r' =>
      rw [ht] at he
      obtain ⟨hd, hf⟩ := ih he
      exact ⟨congrArg (turnDeeds a r ++ ·) hd, hf⟩

end Run

namespace Machine

/-- A run from `m` on, in which some deeds were done, has done what its host allowed it to do and
the program said, and nothing else. -/
structure Obeys {σ : Type} (budget : Nat) (m : Machine) (deeds : List Deed) (outcome : Outcome σ) :
    Prop where
  /-- As many instructions were executed as the host has allowed. -/
  count : deeds.count .executed = deeds.countP Deed.allows
  /-- Once the host has called the run off, the picture is handed over, and nothing else is done. -/
  calledOff : ∀ before interventions after,
    deeds = before ++ .asked interventions true :: after → after = [.flushed]
  /-- After the instruction that ends the program, the timers are served and the picture is handed
  over, and nothing else is done. -/
  ended : ∀ before after, deeds = before ++ .executed :: after →
    (m.redoAll before).instruction? = some .exit →
      ∃ k, after <+: List.replicate k .ticked ++ [.flushed]
  /-- Where the program has ended before the run, only the picture is handed over. -/
  halted : m.halted → 0 < budget → deeds = [.flushed] ∧ outcome.ending = .finished
  /-- The deeds, done without a clock, lead to the machine that is left, but for the books. -/
  machine : (m.redoAll deeds).unbooked = outcome.machine.unbooked
  /-- A run that finishes hands over the picture at its end, and not before. -/
  finished : outcome.ending = .finished → ∃ before, deeds = before ++ [.flushed] ∧ .flushed ∉ before
  /-- A run ends with the fault that an instruction meets, and leaves what that leaves. -/
  failed : ∀ before after fault, deeds = before ++ .executed :: after →
    (m.redoAll before).step.2 = some fault → after = [] ∧ outcome.ending = .failed fault ∧
      outcome.machine.unbooked = (m.redoAll before).step.1.unbooked
  /-- A run meets no other fault than that of its last instruction. -/
  fault : ∀ fault, outcome.ending = .failed fault →
    ∃ before, deeds = before ++ [.executed] ∧ (m.redoAll before).step.2 = some fault
  /-- A run that is cut off has executed as many instructions as it may. -/
  exhausted : outcome.ending = .exhausted → deeds.count .executed = budget

/-- Without its books, a machine that is brought on by some deeds is about to do the same. -/
theorem step_redoAll_unbooked (m : Machine) (before : List Deed) :
    (m.unbooked.redoAll before).instruction? = (m.redoAll before).instruction? ∧
      (m.unbooked.redoAll before).step = ((m.redoAll before).step.1.unbooked,
        (m.redoAll before).step.2) := by
  rw [redoAll_unbooked]
  exact ⟨instruction?_unbooked _, step_unbooked _⟩

/-- A course from a machine without its books says what was done to the machine. -/
theorem obeys_of_course {σ : Type} {m : Machine} {outcome : Outcome σ}
    (h : Course budget .asking m.unbooked deeds outcome.ending outcome.machine.unbooked) :
    Obeys budget m deeds outcome where
  count := h.count_executed.trans (Nat.zero_add _)
  calledOff before interventions after hd := h.eq_of_calledOff hd
  ended before after hd hi :=
    (h.after_executed hd).2 ((m.step_redoAll_unbooked before).1.trans hi)
  halted hm hb := by
    cases budget with
    | zero => cases hb
    | succ budget => exact h.eq_of_halted hm
  machine := (m.redoAll_unbooked deeds).symm.trans h.redoAll_eq
  finished he := by
    rw [he] at h
    exact h.exists_of_finished
  failed before after fault hd hf := by
    have hstep := (m.step_redoAll_unbooked before).2
    obtain ⟨rfl, he⟩ := (h.after_executed hd).1 fault ((congrArg Prod.snd hstep).trans hf)
    refine ⟨rfl, he, ?_⟩
    rw [← h.redoAll_eq, hd, redoAll, List.foldl_append]
    exact congrArg Prod.fst hstep
  fault fault he := by
    rw [he] at h
    obtain ⟨before, hd, hf⟩ := h.exists_of_failed
    exact ⟨before, hd, (congrArg Prod.snd (m.step_redoAll_unbooked before).2).symm.trans hf⟩
  exhausted he := by
    rw [he] at h
    exact h.count_of_exhausted

/-- Runs execute what they are allowed to execute, and do nothing else.

This holds on every machine, for every clock, for all answers of the host, and whatever it does to
the machine before it answers.  If a run comes to its end, it does so however many more instructions
it may execute. -/
theorem run_obeys {σ : Type} (a : Attendant σ) (budget : Nat) (m : Machine) (s : σ) :
    Obeys budget m (m.deeds a budget s) (m.run a.host budget s) ∧
      ((m.run a.host budget s).ending ≠ .exhausted → ∀ more,
        m.deeds a (budget + more) s = m.deeds a budget s ∧
          m.run a.host (budget + more) s = m.run a.host budget s) := by
  constructor
  · exact obeys_of_course (Run.course_finish budget (Run.start a.host m s))
  · intro he more
    exact Run.finish_add he more

/-- An attendant whose clock goes on by ten milliseconds each time it is read.  The first time that
it is asked, it presses a key and asks for a reset. -/
def onceBusy : Attendant (Float × Bool) where
  clock s := (s.1, s.1 + 0.01, s.2)
  sleep _ s := s
  attend _ s := (if s.2 then [.setKey 3 true, .requestReset] else [], false, s.1, false)

/-- A machine that puts a number in a register and ends its program. -/
def leaving : Machine where
  memory := ⟨((((Font.memory 4096).bytes.setIfInBounds 0x200 0x60).setIfInBounds 0x201
    0x05).setIfInBounds 0x202 0x00).setIfInBounds 0x203 0xFD⟩
  random := .cycle [] []

/-- Two instructions are allowed and executed, after a reset; the timers tick after each. -/
theorem run_obeys_leaving :
    leaving.deeds onceBusy 5 (0.0, true) =
      [.asked [.setKey 3 true, .requestReset] false, .reset, .executed, .ticked,
        .asked [] false, .executed, .ticked, .flushed] ∧
    (leaving.run onceBusy.host 5 (0.0, true)).ending = .finished ∧
    (leaving.redoAll [.asked [.setKey 3 true, .requestReset] false, .reset, .executed, .ticked,
      .asked [] false, .executed, .ticked, .flushed]).unbooked =
        (leaving.run onceBusy.host 5 (0.0, true)).machine.unbooked := by
  have hd : leaving.deeds onceBusy 5 (0.0, true) =
      [.asked [.setKey 3 true, .requestReset] false, .reset, .executed, .ticked,
        .asked [] false, .executed, .ticked, .flushed] := by
    decide +kernel
  have he : (leaving.run onceBusy.host 5 (0.0, true)).ending = .finished := by decide +kernel
  have h := (run_obeys onceBusy 5 leaving (0.0, true)).1
  rw [hd] at h
  exact ⟨hd, he, h.machine⟩

end Machine

end SuperChip
