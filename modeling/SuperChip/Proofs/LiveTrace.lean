import SuperChip.Proofs.Execution
import SuperChip.Proofs.Overlooked
import SuperChip.Proofs.Twin

/-!
# The live trace disturbs nothing

A machine may be traced or not, and the trace may be switched on and off at any time.  What is left
of a machine when its trace is taken away does not depend on that: neither does it depend on the
switching what the machine does, nor what else it tells the world, nor what faults are met.

The trace itself has a line for each word that is executed while it is live, in their order, whether
or not the word meets a fault.  The line shows the machine as it is just before, and it is told
before anything that the instruction tells.
-/

namespace SuperChip

namespace Event

/-- Whether an event is a line of the trace. -/
def isTrace : Event → Bool
  | .trace _ => true
  | _ => false

/-- The line that a trace event holds. -/
def traceLine? : Event → Option String
  | .trace line => some line
  | _ => none

/-- Only trace events hold lines. -/
theorem traceLine?_eq_none {e : Event} (he : e.isTrace = false) : e.traceLine? = none := by
  cases e with
  | trace line => cases he
  | _ => rfl

end Event

/-- Whether an operation is another one than to switch the trace. -/
def Operation.keepsTrace : Operation → Bool
  | .setLive _ => false
  | _ => true

/-- Whether an operation executes a word. -/
def Operation.isExecution : Operation → Bool
  | .step | .execute _ => true
  | _ => false

namespace Machine

/-- What is left of a machine without its trace. -/
def untraced (m : Machine) : Machine :=
  { m with
    monitor := { m.monitor with live := false }
    log := m.log.filter (!·.isTrace) }

/-- The lines of the trace so far, the oldest one first. -/
def traceLines (m : Machine) : List String := m.log.reverse.filterMap Event.traceLine?

/-- The text on the live trace is made of its lines. -/
theorem traceText_log (m : Machine) :
    Event.traceText m.log = String.join (m.traceLines.map (· ++ "\n")) := by
  rw [Event.traceText, traceLines, List.map_filterMap]
  congr 2
  funext e
  cases e <;> rfl

/-- The words that operations execute, each with the machine as it is just before. -/
def executions : Machine → List Operation → List (Machine × Word)
  | _, [] => []
  | m, o :: ops =>
    (m.execution? o).toList ++
      match m.operate o with
      | none => []
      | some (m', _) => m'.executions ops

/-- The lines of words that are executed, for those that are executed while the trace is live. -/
def linesOf (executions : List (Machine × Word)) : List String :=
  (executions.filter (·.1.monitor.live)).map fun e ↦ e.1.traceLine e.2

variable {m m' m'' n : Machine}

/-! ## Taking the trace away -/

/-- What is told is still told without the trace, if it is no line of the trace. -/
theorem untraced_tell {events : List Event} (he : ∀ e ∈ events, e.isTrace = false) :
    (m.tell events).untraced = m.untraced.tell events := by
  have hkeep : events.reverse.filter (!·.isTrace) = events.reverse := by
    rw [List.filter_eq_self]
    intro e hmem
    rw [he e (List.mem_reverse.mp hmem)]
    rfl
  rw [untraced, tell, tell, List.filter_append, hkeep]
  rfl

/-- A change of the resolution is no line of the trace. -/
theorem isTrace_resolutionEvents (d : Display) (high : Bool) :
    ∀ e ∈ d.resolutionEvents high, e.isTrace = false := by
  intro e he
  rw [Display.eq_of_mem_resolutionEvents he]
  rfl

/-- A picture that is handed over is no line of the trace. -/
theorem isTrace_flushEvents (d : Display) : ∀ e ∈ d.flushEvents, e.isTrace = false := by
  intro e he
  rw [Display.eq_of_mem_flushEvents he]
  rfl

/-- The resolution is switched in the same way without the trace. -/
theorem untraced_setResolution (m : Machine) (high : Bool) :
    (m.setResolution high).untraced = m.untraced.setResolution high := by
  have ht := untraced_tell (m := m) (isTrace_resolutionEvents m.display high)
  exact congrArg
    (fun n : Machine ↦ { n with display := m.display.setResolution high }) ht

/-- The picture is handed over in the same way without the trace. -/
theorem untraced_flush (m : Machine) : m.flush.untraced = m.untraced.flush := by
  have ht := untraced_tell (m := m) (isTrace_flushEvents m.display)
  exact congrArg (fun n : Machine ↦ { n with display := m.display.flush }) ht

/-- A word that is no instruction is recorded and reported in the same way without the trace. -/
theorem untraced_recordUnsupported (m : Machine) (w : Word) :
    (m.recordUnsupported w).untraced = m.untraced.recordUnsupported w := by
  rw [recordUnsupported, recordUnsupported]
  exact apply_ite untraced _ _ _

/-- Instructions overlook whether the trace is live and what is on it. -/
theorem overlooked_untraced : Overlooked untraced where
  registers _ _ := rfl
  memory _ _ := rfl
  display _ _ := rfl
  setResolution := untraced_setResolution
  delay _ _ := rfl
  sound _ _ := rfl
  random _ _ := rfl
  halted _ _ := rfl
  current _ _ := rfl
  keys _ := rfl
  recordUnsupported := untraced_recordUnsupported

/-- Tracing a word leaves nothing behind but the trace. -/
theorem untraced_trace (m : Machine) (w : Word) : (m.trace w).untraced = m.untraced.trace w := by
  have hr : m.untraced.trace w = m.untraced := rfl
  rw [hr, trace]
  split
  · rfl
  · rfl

/-! ## Operations without the trace -/

theorem untraced_countDown (m : Machine) : m.countDown.untraced = m.untraced.countDown := by
  have hlog : (if m.sound = 1 then .tone (m.tones + 1) :: m.log else m.log).filter (!·.isTrace) =
      if m.sound = 1 then .tone (m.tones + 1) :: m.untraced.log else m.untraced.log := by
    split <;> rfl
  exact congrArg (fun log ↦ { m.untraced.countDown with log }) hlog

/-- The timers tick in the same way without the trace. -/
theorem untraced_tick (m : Machine) : m.tick.untraced = m.untraced.tick := by
  rw [tick_eq, tick_eq, untraced_flush, untraced_countDown]

/-- The time owed is paid out in the same way without the trace. -/
theorem payOut_untraced (m : Machine) (ticks : Nat) :
    m.untraced.payOut ticks = (m.payOut ticks).map fun r ↦ (r.1.untraced, r.2) := by
  fun_induction payOut m ticks with
  | case1 m ticks hle left hlt ih =>
    have hp : m.untraced.payOut ticks =
        ({ m.untraced.tick with owed := left } : Machine).payOut (ticks + 1) := by
      rw [payOut]
      exact (if_pos hle).trans (if_pos hlt)
    rw [hp, ← untraced_tick]
    exact ih
  | case2 m ticks hle left hlt =>
    rw [payOut]
    exact (if_pos hle).trans (if_neg hlt)
  | case3 m ticks hle =>
    rw [payOut]
    exact if_neg hle

/-- Time goes by in the same way without the trace. -/
theorem advanceClock_untraced (m : Machine) (elapsed : Float) :
    m.untraced.advanceClock elapsed =
      (m.advanceClock elapsed).map fun r ↦ (r.1.untraced, r.2) := by
  have hp := payOut_untraced { m with owed := m.owed + elapsed } 0
  rw [advanceClock, advanceClock]
  change (payOut (untraced { m with owed := m.owed + elapsed }) 0).bind _ = _
  rw [hp]
  cases payOut { m with owed := m.owed + elapsed } 0 with
  | none => rfl
  | some r =>
    change some (if r.1.owed < 0.0 then _ else _, r.2) = some (untraced (if _ then _ else _), r.2)
    split <;> rfl

/-- A change is refused in the same way without the trace. -/
theorem attempt_untraced {x : Except Fault Machine} :
    m.untraced.attempt (x.map untraced) = ((m.attempt x).1.untraced, (m.attempt x).2) := by
  cases x <;> rfl

theorem load_untraced (m : Machine) (program : List UInt8) :
    m.untraced.load program = (m.load program).map untraced := by
  rw [load, load]
  split
  · rfl
  · rw [map_bind_except]
    rfl

theorem setKey_untraced (m : Machine) (key : Int) (down : Bool) :
    m.untraced.setKey key down = (m.setKey key down).map untraced := by
  rw [setKey, setKey]
  split
  · rfl
  · rfl

theorem setClockSpeed_untraced (m : Machine) (speed : Int) :
    m.untraced.setClockSpeed speed =
      ((m.setClockSpeed speed).1.untraced, (m.setClockSpeed speed).2) := by
  rw [setClockSpeed, setClockSpeed]
  cases intervalOf speed <;> rfl

theorem toggle_untraced (m : Machine) (x y : Int) :
    m.untraced.toggle x y = (m.toggle x y).map untraced := by
  rw [toggle, toggle, map_bind_except]
  rfl

theorem reset_untraced (m : Machine) : m.untraced.reset = m.reset.untraced := by
  have hr := untraced_setResolution { m with registers := m.registers.reset } false
  exact congrArg (fun n : Machine ↦ { clearKeys { n with display := n.display.clear } with
    delay := 0, sound := 0, owed := 0.0, current := n.registers.pc, halted := false }) hr.symm

/-- An operation that does not switch the trace is done in the same way without the trace, and
meets the same fault. -/
theorem operate_untraced (m : Machine) {o : Operation} (ho : o.keepsTrace) :
    m.untraced.operate o = (m.operate o).map fun r ↦ (r.1.untraced, r.2) := by
  have hattempt {x y : Except Fault Machine} (h : y = x.map untraced) :
      some (m.untraced.attempt y) =
        (some (m.attempt x)).map fun r ↦ (r.1.untraced, r.2) := by
    rw [h, attempt_untraced]
    rfl
  cases o with
  | load program => exact hattempt (m.load_untraced program)
  | setKey key down => exact hattempt (m.setKey_untraced key down)
  | setLive live => cases ho
  | reset => exact congrArg (fun n ↦ some (n, none)) m.reset_untraced
  | setClockSpeed speed => exact congrArg some (m.setClockSpeed_untraced speed)
  | step => exact congrArg some (overlooked_untraced.step m untraced_trace)
  | execute word => exact congrArg some (overlooked_untraced.execute m (m.untraced_trace _))
  | tick => exact congrArg (fun n ↦ some (n, none)) m.untraced_tick.symm
  | advanceClock elapsed =>
    rw [operate, operate, advanceClock_untraced, Option.map_map, Option.map_map]
    rfl
  | toggle x y => exact hattempt (m.toggle_untraced x y)
  | setResolution high =>
    exact congrArg (fun n ↦ some (n, none)) (m.untraced_setResolution high).symm
  | scrollUp rows => exact hattempt (overlooked_untraced.scroll m (·.scrollUp rows))
  | scrollDown rows => exact hattempt (overlooked_untraced.scroll m (·.scrollDown rows))
  | scrollLeft columns => exact hattempt (overlooked_untraced.scroll m (·.scrollLeft columns))
  | scrollRight columns => exact hattempt (overlooked_untraced.scroll m (·.scrollRight columns))
  | flush => exact congrArg (fun n ↦ some (n, none)) m.untraced_flush.symm
  | clearKeys | requestReset | clear | dropRequest | showCounters => rfl

/-- Operations come to the same without the trace and its switching. -/
theorem operateAll_untraced (m : Machine) (ops : List Operation) :
    m.untraced.operateAll (ops.filter Operation.keepsTrace) =
      (m.operateAll ops).map untraced := by
  induction ops generalizing m with
  | nil => rfl
  | cons o ops ih =>
    cases ho : o.keepsTrace with
    | false =>
      cases o with
      | setLive live => exact ih (m.setLive live)
      | _ => cases ho
    | true =>
      rw [List.filter_cons_of_pos ho, operateAll, operateAll, m.operate_untraced ho]
      cases m.operate o with
      | none => rfl
      | some r => exact ih r.1

/-- Operations meet the same faults without the trace and its switching. -/
theorem faults_untraced (m : Machine) (ops : List Operation) :
    (ops.filter Operation.keepsTrace).zip (m.untraced.faults (ops.filter Operation.keepsTrace)) =
      (ops.zip (m.faults ops)).filter (·.1.keepsTrace) := by
  induction ops generalizing m with
  | nil => rfl
  | cons o ops ih =>
    cases ho : o.keepsTrace with
    | false =>
      cases o with
      | setLive live => exact ih (m.setLive live)
      | _ => cases ho
    | true =>
      rw [List.filter_cons_of_pos ho, faults, faults, m.operate_untraced ho]
      cases m.operate o with
      | none => rfl
      | some r =>
        change (o, r.2) :: _ = List.filter _ ((o, r.2) :: _)
        rw [List.filter_cons_of_pos (by exact ho)]
        exact congrArg _ (ih r.1)

/-! ## What is on the trace -/

/-- `m'` is traced as `m` is, and has told the world no further line of the trace. -/
structure TracesNothing (m m' : Machine) : Prop where
  /-- Both are traced, or neither. -/
  live : m'.monitor.live = m.monitor.live
  /-- What was told further is no line of the trace. -/
  log : ∃ events, m'.log = events ++ m.log ∧ ∀ e ∈ events, e.isTrace = false

/-- What has the same trace and log has told nothing further. -/
theorem TracesNothing.of_eq (hlive : m'.monitor.live = m.monitor.live) (hlog : m'.log = m.log) :
    m.TracesNothing m' :=
  ⟨hlive, [], hlog, nofun⟩

/-- What is not heard of is not traced. -/
theorem Unheard.tracesNothing (h : m.Unheard m') : m.TracesNothing m' :=
  .of_eq (congrArg Monitor.live h.monitor) h.log

theorem TracesNothing.trans (h : m.TracesNothing m') (h' : m'.TracesNothing m'') :
    m.TracesNothing m'' := by
  obtain ⟨events, hlog, he⟩ := h.log
  obtain ⟨events', hlog', he'⟩ := h'.log
  refine ⟨h'.live.trans h.live, events' ++ events, ?_, ?_⟩
  · rw [hlog', hlog, List.append_assoc]
  · intro e hmem
    rcases List.mem_append.mp hmem with hmem | hmem
    · exact he' e hmem
    · exact he e hmem

/-- Only the trace and the log matter. -/
theorem TracesNothing.congr (h : m.TracesNothing m')
    (hlive : m''.monitor.live = m'.monitor.live) (hlog : m''.log = m'.log) :
    m.TracesNothing m'' :=
  h.trans (.of_eq hlive hlog)

theorem tracesNothing_tell {events : List Event} (he : ∀ e ∈ events, e.isTrace = false) :
    m.TracesNothing (m.tell events) :=
  ⟨rfl, events.reverse, rfl, fun e hmem ↦ he e (List.mem_reverse.mp hmem)⟩

theorem tracesNothing_setResolution (m : Machine) (high : Bool) :
    m.TracesNothing (m.setResolution high) :=
  (tracesNothing_tell (isTrace_resolutionEvents m.display high)).congr rfl rfl

theorem tracesNothing_flush (m : Machine) : m.TracesNothing m.flush :=
  (tracesNothing_tell (isTrace_flushEvents m.display)).congr rfl rfl

theorem tracesNothing_recordUnsupported (m : Machine) (w : Word) :
    m.TracesNothing (m.recordUnsupported w) := by
  rw [recordUnsupported]
  split
  · exact .of_eq rfl rfl
  · have he : ∀ e ∈ [Event.report (m.unsupportedReport w)], e.isTrace = false := by
      intro e hmem
      rw [List.mem_singleton.mp hmem]
      rfl
    exact (tracesNothing_tell he).congr rfl rfl

/-- While the trace is not live, instructions add nothing to it. -/
theorem enduring_tracesNothing (hm : m.monitor.live = false) : Enduring m.TracesNothing where
  mapRegisters _ h := h.congr rfl rfl
  memory _ h := h.congr rfl rfl
  delay _ h := h.congr rfl rfl
  sound _ h := h.congr rfl rfl
  random _ h := h.congr rfl rfl
  halted h := h.congr rfl rfl
  painted _ _ h := h.congr rfl rfl
  setResolution high h := h.trans (tracesNothing_setResolution _ high)
  recordUnsupported w h := h.trans (tracesNothing_recordUnsupported _ w)
  trace w h := by
    rw [trace, h.live, hm]
    exact h
  current _ h := h.congr rfl rfl

/-- Instructions overlook whether the trace is live. -/
theorem overlooked_setLive (live : Bool) : Overlooked (·.setLive live) where
  registers _ _ := rfl
  memory _ _ := rfl
  display _ _ := rfl
  setResolution _ _ := rfl
  delay _ _ := rfl
  sound _ _ := rfl
  random _ _ := rfl
  halted _ _ := rfl
  current _ _ := rfl
  keys _ := rfl
  recordUnsupported m w := by
    rw [recordUnsupported, recordUnsupported]
    exact apply_ite (fun m : Machine ↦ m.setLive live) _ _ _

/-- Instructions trace nothing.  It is for the execution of a word to do so. -/
theorem tracesNothing_perform {i : Instruction} (hi : m.perform i = .ok m') :
    m.TracesNothing m' := by
  -- The instruction does the same while the trace is not live.
  have hdead : (m.setLive false).perform i = .ok (m'.setLive false) := by
    rw [(overlooked_setLive false).perform, hi]
    rfl
  have hlog := ((enduring_tracesNothing rfl).perform hdead (.of_eq rfl rfl)).log
  exact ⟨(within_perform hi).live, hlog⟩

/-- Executing a word traces it, and nothing else. -/
theorem tracesNothing_execute (m : Machine) (w : Word) :
    (m.trace w).TracesNothing (m.execute w).1 := by
  rw [execute]
  cases hi : (m.trace w).perform (Instruction.decode w) with
  | ok m' => exact tracesNothing_perform hi
  | error f => exact .of_eq rfl rfl

theorem tracesNothing_tick (m : Machine) : m.TracesNothing m.tick := by
  have hc : m.TracesNothing m.countDown := by
    by_cases hs : m.sound = 1
    · refine ⟨rfl, [.tone (m.tones + 1)], if_pos hs, ?_⟩
      intro e hmem
      rw [List.mem_singleton.mp hmem]
      rfl
    · exact .of_eq rfl (if_neg hs)
  rw [tick_eq]
  exact hc.trans (tracesNothing_flush _)

theorem tracesNothing_reset (m : Machine) : m.TracesNothing m.reset :=
  have hr : m.TracesNothing { m with registers := m.registers.reset } := .of_eq rfl rfl
  (hr.trans (tracesNothing_setResolution _ false)).congr rfl rfl

/-- An operation that executes nothing and does not switch the trace adds nothing to it. -/
theorem tracesNothing_operate {o : Operation} (ho : o.keepsTrace)
    (he : m.execution? o = none) {r : Machine × Option Fault} (hr : m.operate o = some r) :
    m.TracesNothing r.1 := by
  cases o
  case setLive live => cases ho
  case execute word => cases he
  case step =>
    cases hr
    rw [step_of_execution?_eq_none he]
    exact .of_eq rfl rfl
  case advanceClock elapsed =>
    rw [operate, Option.map_eq_some_iff] at hr
    obtain ⟨⟨m', ticks⟩, hm, rfl⟩ := hr
    refine advanceClock_induction (P := m.TracesNothing) ?_ ?_ (.of_eq rfl rfl) hm
    · intro n h
      exact h.trans n.tracesNothing_tick
    · intro n owed h
      exact h.congr rfl rfl
  case tick =>
    cases hr
    exact m.tracesNothing_tick
  case reset =>
    cases hr
    exact m.tracesNothing_reset
  case setResolution high =>
    cases hr
    exact m.tracesNothing_setResolution high
  case flush =>
    cases hr
    exact m.tracesNothing_flush
  all_goals exact (unheard_operate hr trivial).tracesNothing

/-! ## The lines of the trace -/

theorem TracesNothing.traceLines_eq (h : m.TracesNothing m') : m'.traceLines = m.traceLines := by
  obtain ⟨events, hlog, he⟩ := h.log
  have hnone : events.reverse.filterMap Event.traceLine? = [] := by
    rw [List.filterMap_eq_nil_iff]
    intro e hmem
    exact Event.traceLine?_eq_none (he e (List.mem_reverse.mp hmem))
  rw [traceLines, hlog, List.reverse_append, List.filterMap_append, hnone, List.append_nil]
  rfl

/-- A word that is traced adds its line, if the trace is live. -/
theorem traceLines_trace (m : Machine) (w : Word) :
    (m.trace w).traceLines = m.traceLines ++ linesOf [(m, w)] := by
  rw [trace, linesOf]
  cases hl : m.monitor.live with
  | true =>
    rw [if_pos rfl, List.filter_cons_of_pos (by exact hl), traceLines, traceLines]
    change (Event.trace (m.traceLine w) :: m.log).reverse.filterMap _ = _
    rw [List.reverse_cons, List.filterMap_append]
    rfl
  | false =>
    rw [if_neg Bool.false_ne_true, List.filter_cons_of_neg (by simp [hl])]
    exact (List.append_nil _).symm

/-- A word is executed on a machine with the trace and the log that the operation has found. -/
theorem monitor_log_of_execution? {o : Operation} {e : Machine × Word}
    (he : m.execution? o = some e) : e.1.monitor = m.monitor ∧ e.1.log = m.log := by
  rcases eq_or_eq_primed_of_execution? he with h | h
  · rw [h]
    exact ⟨rfl, rfl⟩
  · rw [h]
    exact ⟨rfl, rfl⟩

/-- An operation adds the line of the word that it executes, if the trace is live. -/
theorem traceLines_operate {o : Operation} {r : Machine × Option Fault}
    (hr : m.operate o = some r) :
    r.1.traceLines = m.traceLines ++ linesOf (m.execution? o).toList := by
  cases he : m.execution? o with
  | some e =>
    have hfound : e.1.traceLines = m.traceLines := by
      rw [traceLines, (monitor_log_of_execution? he).2, traceLines]
    rw [operate_of_execution? he, Option.some.injEq] at hr
    rw [← hr, (tracesNothing_execute e.1 e.2).traceLines_eq, traceLines_trace, hfound]
    rfl
  | none =>
    change _ = m.traceLines ++ []
    rw [List.append_nil]
    cases ho : o.keepsTrace with
    | true => exact (tracesNothing_operate ho he hr).traceLines_eq
    | false =>
      cases o with
      | setLive live =>
        cases hr
        rfl
      | _ => cases ho

/-- The words that operations execute, after a first one. -/
theorem executions_cons {o : Operation} (ops : List Operation) {r : Machine × Option Fault}
    (hr : m.operate o = some r) :
    m.executions (o :: ops) = (m.execution? o).toList ++ r.1.executions ops := by
  rw [executions, hr]

/-- Operations add the lines of the words that they execute while the trace is live. -/
theorem traceLines_operateAll {ops : List Operation} (hn : m.operateAll ops = some n) :
    n.traceLines = m.traceLines ++ linesOf (m.executions ops) := by
  induction ops generalizing m with
  | nil =>
    cases hn
    exact (List.append_nil _).symm
  | cons o ops ih =>
    obtain ⟨r, hr, hn⟩ := exists_of_operateAll_cons hn
    rw [ih hn, traceLines_operate hr, executions_cons ops hr, linesOf, linesOf, linesOf,
      List.filter_append, List.map_append, List.append_assoc]

/-- Only an operation that switches the trace changes whether it is live. -/
theorem live_operate {o : Operation} (ho : o.keepsTrace) {r : Machine × Option Fault}
    (hr : m.operate o = some r) : r.1.monitor.live = m.monitor.live := by
  cases he : m.execution? o with
  | some e =>
    have ht : (e.1.trace e.2).monitor = e.1.monitor := by
      rw [trace]
      split <;> rfl
    rw [operate_of_execution? he, Option.some.injEq] at hr
    rw [← hr, (tracesNothing_execute e.1 e.2).live, ht, (monitor_log_of_execution? he).1]
  | none => exact (tracesNothing_operate ho he hr).live

/-- While nobody switches it off, a live trace has a line for each word that is executed. -/
theorem linesOf_executions {ops : List Operation} (hm : m.monitor.live)
    (hops : .setLive false ∉ ops) :
    linesOf (m.executions ops) = (m.executions ops).map fun e ↦ e.1.traceLine e.2 := by
  induction ops generalizing m with
  | nil => rfl
  | cons o ops ih =>
    rw [List.mem_cons, not_or] at hops
    have hfirst : linesOf (m.execution? o).toList =
        (m.execution? o).toList.map fun e ↦ e.1.traceLine e.2 := by
      rw [linesOf, List.filter_eq_self.mpr]
      intro e he
      rw [Option.mem_toList] at he
      rw [(monitor_log_of_execution? he).1]
      exact hm
    cases hr : m.operate o with
    | none =>
      rw [executions, hr, List.append_nil]
      exact hfirst
    | some r =>
      have hlive : r.1.monitor.live := by
        cases ho : o.keepsTrace with
        | true => exact (live_operate ho hr).trans hm
        | false =>
          cases o with
          | setLive live =>
            cases hr
            cases live with
            | true => rfl
            | false => exact absurd rfl hops.1
          | _ => cases ho
      have hrest := ih hlive hops.2
      rw [linesOf] at hfirst hrest
      rw [executions_cons ops hr, linesOf, List.filter_append, List.map_append, List.map_append,
        hfirst, hrest]

/-- A well-formed machine executes a word at each step and each execution. -/
theorem WellFormed.length_executions (h : m.WellFormed) {ops : List Operation}
    (hn : m.operateAll ops = some n) :
    (m.executions ops).length = ops.countP Operation.isExecution := by
  induction ops generalizing m with
  | nil => rfl
  | cons o ops ih =>
    obtain ⟨r, hr, hn⟩ := exists_of_operateAll_cons hn
    have hfirst : (m.execution? o).toList.length = if o.isExecution then 1 else 0 := by
      cases o
      case step =>
        obtain ⟨e, he⟩ := h.exists_execution (.inl rfl)
        rw [he]
        rfl
      all_goals rfl
    rw [executions_cons ops hr, List.length_append, hfirst, ih (h.operate hr) hn,
      List.countP_cons, Nat.add_comm]

/-- The line of a word is told first, and then what its instruction tells. -/
theorem log_of_execution? (hm : m.monitor.live) {o : Operation} {e : Machine × Word}
    (he : m.execution? o = some e) :
    ∃ r later, m.operate o = some r ∧
      r.1.log = later ++ .trace (e.1.traceLine e.2) :: m.log ∧
      ∀ event ∈ later, event.isTrace = false := by
  obtain ⟨hmonitor, hlog⟩ := monitor_log_of_execution? he
  obtain ⟨later, hl, hlater⟩ := (tracesNothing_execute e.1 e.2).log
  refine ⟨_, later, operate_of_execution? he, ?_, hlater⟩
  have ht : (e.1.trace e.2).log = .trace (e.1.traceLine e.2) :: e.1.log := by
    rw [trace, hmonitor, hm]
    rfl
  rw [hl, ht, hlog]

/-- The live trace disturbs nothing.

Let two machines be the same but for their traces, and let the same be done to both, but for the
switching of their traces, which may happen at any time.  Then both come to the same but for their
traces: in all fields, in all that was told to the world otherwise, and in the faults that were met.

The trace has the lines of the words that were executed while it was live, in their order.  If it
was live before and nobody has switched it off, these are the lines of all words that were executed,
of which there are, on a well-formed machine, as many as steps and executions.  Whenever a word is
executed while the trace is live, its line shows the machine as it is just before, and is told
before all that its instruction tells, whether or not that meets a fault. -/
theorem trace_disturbs_nothing {ops ops' : List Operation} (hm : m.untraced = m'.untraced)
    (hops : ops.filter Operation.keepsTrace = ops'.filter Operation.keepsTrace) :
    ((m.operateAll ops).map untraced = (m'.operateAll ops').map untraced ∧
      (ops.zip (m.faults ops)).filter (·.1.keepsTrace) =
        (ops'.zip (m'.faults ops')).filter (·.1.keepsTrace)) ∧
    (∀ n, m.operateAll ops = some n →
      n.traceLines = m.traceLines ++ linesOf (m.executions ops) ∧
      (m.monitor.live → .setLive false ∉ ops →
        linesOf (m.executions ops) = (m.executions ops).map fun e ↦ e.1.traceLine e.2) ∧
      (m.WellFormed → (m.executions ops).length = ops.countP Operation.isExecution)) ∧
    ∀ (q : Machine) (o : Operation) (e : Machine × Word), q.monitor.live →
      q.execution? o = some e →
        (e.1 = q ∨ e.1 = q.primed) ∧
        ∃ r later, q.operate o = some r ∧
          r.1.log = later ++ .trace (e.1.traceLine e.2) :: q.log ∧
          ∀ event ∈ later, event.isTrace = false := by
  refine ⟨⟨?_, ?_⟩, ?_, ?_⟩
  · rw [← operateAll_untraced, ← operateAll_untraced, hm, hops]
  · rw [← faults_untraced, ← faults_untraced, hm, hops]
  · intro n hn
    exact ⟨traceLines_operateAll hn, linesOf_executions, fun h ↦ h.length_executions hn⟩
  · intro q o e hq he
    exact ⟨eq_or_eq_primed_of_execution? he, log_of_execution? hq he⟩

/-- A machine that puts a number in a register, returns from where it was not called, and goes on
with words that are no instruction. -/
def wayward : Machine where
  memory := ⟨((((Font.memory 4096).bytes.setIfInBounds 0x200 0x60).setIfInBounds 0x201
    0x05).setIfInBounds 0x202 0x00).setIfInBounds 0x203 0xEE⟩
  random := .cycle [] []

/-- One run is traced until it has returned, and another one only after that. -/
theorem trace_disturbs_nothing_wayward : ∃ n n',
    (wayward.setLive true).operateAll [.step, .step, .setLive false, .tick, .step] = some n ∧
    wayward.operateAll [.step, .step, .tick, .setLive true, .step] = some n' ∧
    n.untraced = n'.untraced ∧ n.traceLines.length = 2 ∧ n'.traceLines.length = 1 := by
  have hsome : ((wayward.setLive true).operateAll [.step, .step, .setLive false, .tick,
      .step]).isSome := by
    decide +kernel
  have hsome' : (wayward.operateAll [.step, .step, .tick, .setLive true, .step]).isSome := by
    decide +kernel
  have hlines : (linesOf ((wayward.setLive true).executions [.step, .step, .setLive false, .tick,
      .step])).length = 2 := by
    decide +kernel
  have hlines' : (linesOf (wayward.executions [.step, .step, .tick, .setLive true,
      .step])).length = 1 := by
    decide +kernel
  obtain ⟨n, hn⟩ := Option.isSome_iff_exists.mp hsome
  obtain ⟨n', hn'⟩ := Option.isSome_iff_exists.mp hsome'
  have hsplit : (wayward.setLive true).untraced = wayward.untraced := rfl
  have hops : [.step, .step, .setLive false, .tick, .step].filter Operation.keepsTrace =
      [.step, .step, .tick, .setLive true, .step].filter Operation.keepsTrace := rfl
  obtain ⟨⟨hsame, -⟩, htrace, -⟩ := trace_disturbs_nothing hsplit hops
  obtain ⟨-, htrace', -⟩ := trace_disturbs_nothing hsplit.symm hops.symm
  rw [hn, hn'] at hsame
  refine ⟨n, n', hn, hn', Option.some.inj hsame, ?_, ?_⟩
  · rw [(htrace n hn).1, List.length_append, hlines]
    rfl
  · rw [(htrace' n' hn').1, List.length_append, hlines']
    rfl

end Machine

end SuperChip
