import SuperChip.Proofs.LiveTrace

/-!
# Words that are no instruction

A word that is no instruction is recorded with its address each time it is executed, and reported
the first time that one is executed at its address.  The word may be another one by then, and the
machine may have been reset; what counts is whether the address was reported before.

What operations record is described by the words that they execute: `Recorded` says what a machine
has recorded and reported further, if it has executed certain words that are no instruction.  Such
descriptions of one run after the other add up, so it is enough to know what one operation records.
-/

namespace SuperChip

open Numeral (hex)

/-- The report that an event is. -/
def Event.report? : Event → Option String
  | .report text => some text
  | _ => none

/-- A word that is no instruction is kept as it is. -/
theorem Instruction.eq_of_decode_eq_unknown {w v : Word} (h : decode w = .unknown v) : v = w := by
  rw [decode] at h
  split at h
  case h_1 =>
    rw [decodeSystem] at h
    split at h
    · cases h
    · split at h <;> first | cases h; rfl | cases h
  case h_9 =>
    rw [decodeArithmetic] at h
    split at h <;> first | cases h; rfl | cases h
  case h_15 =>
    rw [decodeKey] at h
    split at h <;> first | cases h; rfl | cases h
  case h_16 =>
    rw [decodeMisc] at h
    split at h <;> first | cases h; rfl | cases h
  all_goals cases h

namespace Machine

/-- The reports so far, the oldest one first. -/
def reports (m : Machine) : List String := m.log.reverse.filterMap Event.report?

/-- The words that are no instruction among those that operations execute, each with the machine as
it is just before. -/
def unsupportedExecutions (m : Machine) (ops : List Operation) : List (Machine × Word) :=
  (m.executions ops).filter fun e ↦ Instruction.decode e.2 = .unknown e.2

/-- Of words that are executed, the first one at each address. -/
def firstPerAddress (executions : List (Machine × Word)) : List (Machine × Word) :=
  executions.eraseDupsBy fun e e' ↦ e.1.current == e'.1.current

variable {m m' m'' n : Machine} {bad bad' : List (Machine × Word)}

/-- The text on the report stream is made of the reports. -/
theorem reportText_log (m : Machine) :
    Event.reportText m.log = String.join (m.reports.map (· ++ "\n")) := by
  rw [Event.reportText, reports, List.map_filterMap]
  congr 2
  funext e
  cases e <;> rfl

/-! ## The first word at each address -/

theorem firstPerAddress_cons (e : Machine × Word) (es : List (Machine × Word)) :
    firstPerAddress (e :: es) =
      e :: firstPerAddress (es.filter fun e' ↦ e'.1.current ≠ e.1.current) := by
  rw [firstPerAddress, List.eraseDupsBy_cons, firstPerAddress]
  congr 3
  funext e'
  simp

/-- Of words that are executed later, those at addresses that were met before do not count. -/
theorem firstPerAddress_append : ∀ es es' : List (Machine × Word),
    firstPerAddress (es ++ es') = firstPerAddress es ++
      firstPerAddress (es'.filter fun e' ↦ ∀ e ∈ es, e'.1.current ≠ e.1.current)
  | [], es' => by simp [firstPerAddress]
  | e :: es, es' => by
    rw [List.cons_append, firstPerAddress_cons, firstPerAddress_cons, List.filter_append,
      firstPerAddress_append (es.filter _), List.filter_filter, List.cons_append]
    congr 3
    apply List.filter_congr
    intro e' _
    rw [← Bool.decide_and, decide_eq_decide]
    constructor
    · rintro ⟨hes, he⟩ e₀ hmem
      rcases List.mem_cons.mp hmem with rfl | hmem
      · exact he
      · by_cases hsame : e₀.1.current = e.1.current
        · rw [hsame]
          exact he
        · exact hes e₀ (List.mem_filter.mpr ⟨hmem, decide_eq_true hsame⟩)
    · intro h
      exact ⟨fun e₀ hmem ↦ h e₀ (List.mem_cons_of_mem _ (List.mem_of_mem_filter hmem)),
        h e List.mem_cons_self⟩
termination_by es => es.length
decreasing_by exact Nat.lt_succ_of_le (List.length_filter_le _ _)

/-- There is one word for each address, in the order in which the addresses were met first. -/
theorem map_current_firstPerAddress : ∀ es : List (Machine × Word),
    (firstPerAddress es).map (·.1.current) = (es.map (·.1.current)).eraseDups
  | [] => rfl
  | e :: es => by
    rw [firstPerAddress_cons, List.map_cons, map_current_firstPerAddress, List.map_cons,
      List.eraseDups_cons, List.filter_map]
    congr 4
    funext e'
    exact decide_not
termination_by es => es.length
decreasing_by exact Nat.lt_succ_of_le (List.length_filter_le _ _)

/-! ## What is recorded further -/

/-- `m'` has recorded what `m` has, and then some words that are no instruction, and has reported
those of them at addresses that had not been reported. -/
structure Recorded (bad : List (Machine × Word)) (m m' : Machine) : Prop where
  /-- Each word was recorded with its address. -/
  unsupported : m'.monitor.unsupported.reverse =
    m.monitor.unsupported.reverse ++ bad.map fun e ↦ (e.1.current, e.2)
  /-- Each address counts as reported then. -/
  reported : ∀ a, a ∈ m'.monitor.reported ↔ a ∈ m.monitor.reported ∨ ∃ e ∈ bad, a = e.1.current
  /-- No address was added twice. -/
  nodup : m.monitor.reported.Nodup → m'.monitor.reported.Nodup
  /-- The first word at each new address was reported. -/
  reports : m'.reports = m.reports ++
    (firstPerAddress (bad.filter fun e ↦ e.1.current ∉ m.monitor.reported)).map fun e ↦
      e.1.unsupportedReport e.2

/-- What has the same records and reports has recorded nothing. -/
theorem Recorded.of_eq (hmonitor : m'.monitor.unsupported = m.monitor.unsupported)
    (hreported : m'.monitor.reported = m.monitor.reported) (hreports : m'.reports = m.reports) :
    m.Recorded [] m' where
  unsupported := by rw [hmonitor, List.map_nil, List.append_nil]
  reported a := by simp [hreported]
  nodup h := hreported ▸ h
  reports := by rw [hreports]; exact (List.append_nil _).symm

/-- What was recorded first and what was recorded then adds up. -/
theorem Recorded.trans (h : m.Recorded bad m') (h' : m'.Recorded bad' m'') :
    m.Recorded (bad ++ bad') m'' where
  unsupported := by rw [h'.unsupported, h.unsupported, List.map_append, List.append_assoc]
  reported a := by
    rw [h'.reported, h.reported, or_assoc]
    simp only [List.mem_append, or_and_right, exists_or]
  nodup hm := h'.nodup (h.nodup hm)
  reports := by
    rw [h'.reports, h.reports, List.filter_append, firstPerAddress_append, List.map_append,
      List.append_assoc, List.filter_filter]
    congr 4
    apply List.filter_congr
    intro e _
    rw [← Bool.decide_and, decide_eq_decide]
    constructor
    · intro hnew
      refine ⟨fun e' hmem hsame ↦ ?_, fun hold ↦ hnew ((h.reported _).mpr (.inl hold))⟩
      exact hnew ((h.reported _).mpr (.inr ⟨e', List.mem_of_mem_filter hmem, hsame⟩))
    · rintro ⟨hfirst, hnew⟩ hmem
      rcases (h.reported _).mp hmem with hold | ⟨e', hbad, hsame⟩
      · exact hnew hold
      · refine hfirst e' (List.mem_filter.mpr ⟨hbad, decide_eq_true ?_⟩) hsame
        exact hsame ▸ hnew

/-- Only the records and the reports matter. -/
theorem Recorded.congr (h : m.Recorded bad m') (hmonitor : m''.monitor = m'.monitor)
    (hlog : m''.log = m'.log) : m.Recorded bad m'' := by
  have hnothing : m'.Recorded [] m'' :=
    .of_eq (congrArg Monitor.unsupported hmonitor) (congrArg Monitor.reported hmonitor)
      (by rw [Machine.reports, hlog]; rfl)
  simpa using h.trans hnothing

/-- What is told is not recorded if it is no report. -/
theorem recorded_tell {events : List Event} (he : ∀ e ∈ events, e.report? = none) :
    m.Recorded [] (m.tell events) := by
  refine .of_eq rfl rfl ?_
  have hnone : events.filterMap Event.report? = [] := List.filterMap_eq_nil_iff.mpr he
  rw [Machine.reports, tell, List.reverse_append, List.filterMap_append, List.reverse_reverse,
    hnone, List.append_nil]
  rfl

/-- Switching the resolution is not recorded. -/
theorem recorded_setResolution (m : Machine) (high : Bool) :
    m.Recorded [] (m.setResolution high) := by
  have he : ∀ e ∈ m.display.resolutionEvents high, e.report? = none := by
    intro e he
    rw [Display.eq_of_mem_resolutionEvents he]
    rfl
  exact (recorded_tell he).congr rfl rfl

/-- Handing over the picture is not recorded. -/
theorem recorded_flush (m : Machine) : m.Recorded [] m.flush := by
  have he : ∀ e ∈ m.display.flushEvents, e.report? = none := by
    intro e he
    rw [Display.eq_of_mem_flushEvents he]
    rfl
  exact (recorded_tell he).congr rfl rfl

/-- Tracing a word is not recorded. -/
theorem recorded_trace (m : Machine) (w : Word) : m.Recorded [] (m.trace w) := by
  have he : ∀ e ∈ [Event.trace (m.traceLine w)], e.report? = none := by
    intro e he
    rw [List.mem_singleton.mp he]
    rfl
  rw [trace]
  split
  · exact recorded_tell he
  · exact .of_eq rfl rfl rfl

/-- A tick is not recorded. -/
theorem recorded_tick (m : Machine) : m.Recorded [] m.tick := by
  have hcount : m.Recorded [] m.countDown := by
    refine .of_eq rfl rfl ?_
    by_cases hs : m.sound = 1
    · have hlog : m.countDown.log = .tone (m.tones + 1) :: m.log := if_pos hs
      rw [Machine.reports, hlog, List.reverse_cons, List.filterMap_append]
      exact List.append_nil _
    · have hlog : m.countDown.log = m.log := if_neg hs
      rw [Machine.reports, hlog, Machine.reports]
  rw [tick_eq]
  exact hcount.trans (recorded_flush _)

/-- A reset is not recorded. -/
theorem recorded_reset (m : Machine) : m.Recorded [] m.reset :=
  have hr : m.Recorded [] { m with registers := m.registers.reset } := .of_eq rfl rfl rfl
  (hr.trans (recorded_setResolution _ false)).congr rfl rfl

/-- A word that is no instruction is recorded, as a machine would that has the same to report. -/
theorem recorded_recordUnsupported {q : Machine} {w : Word} (hcurrent : q.current = m.current)
    (hreport : q.unsupportedReport w = m.unsupportedReport w) :
    m.Recorded [(q, w)] (m.recordUnsupported w) := by
  rw [recordUnsupported, ← hcurrent, ← hreport]
  split
  case isTrue hold =>
    have hnone : [(q, w)].filter (fun e ↦ e.1.current ∉ m.monitor.reported) = [] := by
      simp [hold]
    refine ⟨List.reverse_cons, ?_, id, ?_⟩
    · intro a
      constructor
      · exact .inl
      · rintro (ha | ⟨e, he, rfl⟩)
        · exact ha
        · rw [List.mem_singleton.mp he]
          exact hold
    · rw [hnone]
      exact (List.append_nil _).symm
  case isFalse hnew =>
    have hfirst : [(q, w)].filter (fun e ↦ e.1.current ∉ m.monitor.reported) = [(q, w)] := by
      simp [hnew]
    refine ⟨List.reverse_cons, ?_, fun h ↦ List.nodup_cons.mpr ⟨hnew, h⟩, ?_⟩
    · intro a
      simp [or_comm]
    · rw [hfirst, Machine.reports]
      change (Event.report (q.unsupportedReport w) :: m.log).reverse.filterMap _ = _
      rw [List.reverse_cons, List.filterMap_append]
      rfl

/-! ## What is recorded as words are executed -/

/-- Instructions leave the reports alone, or they record something. -/
theorem enduring_recorded (m : Machine) : Enduring fun m' ↦
    m.Recorded [] m' ∨ m.monitor.unsupported.length < m'.monitor.unsupported.length where
  mapRegisters _ h := h.imp_left fun h ↦ h.congr rfl rfl
  memory _ h := h.imp_left fun h ↦ h.congr rfl rfl
  delay _ h := h.imp_left fun h ↦ h.congr rfl rfl
  sound _ h := h.imp_left fun h ↦ h.congr rfl rfl
  random _ h := h.imp_left fun h ↦ h.congr rfl rfl
  halted h := h.imp_left fun h ↦ h.congr rfl rfl
  painted _ _ h := h.imp_left fun h ↦ h.congr rfl rfl
  setResolution high h := h.imp_left fun h ↦ h.trans (recorded_setResolution _ high)
  recordUnsupported {m'} w h := by
    have hmore : (m'.recordUnsupported w).monitor.unsupported =
        (m'.current, w) :: m'.monitor.unsupported := unsupported_of_perform rfl
    have hle : m.monitor.unsupported.length ≤ m'.monitor.unsupported.length := by
      rcases h with h | hlt
      · exact Nat.le_of_eq (by simpa using (congrArg List.length h.unsupported).symm)
      · exact Nat.le_of_lt hlt
    rw [hmore]
    exact .inr (Nat.lt_succ_of_le hle)
  trace {m'} w h := by
    have hsame : (m'.trace w).monitor = m'.monitor := by
      obtain ⟨lines, ht⟩ := m'.exists_trace_eq w
      rw [ht]
    rw [hsame]
    exact h.imp_left fun h ↦ h.trans (recorded_trace _ w)
  current _ h := h.imp_left fun h ↦ h.congr rfl rfl

/-- Only words that are no instruction change the records. -/
theorem records_mem_footprint_iff {i : Instruction} :
    .records ∈ i.footprint ↔ ∃ w, i = .unknown w := by
  cases i <;> simp [Instruction.footprint]

/-- Instructions record nothing. -/
theorem recorded_perform {i : Instruction} (hi : m.perform i = .ok m')
    (hknown : ∀ w, i ≠ .unknown w) : m.Recorded [] m' := by
  rcases (enduring_recorded m).perform hi (.inl (.of_eq rfl rfl rfl)) with h | hlt
  · exact h
  · have hrecords : .records ∉ i.footprint := by
      intro hmem
      obtain ⟨w, hw⟩ := records_mem_footprint_iff.mp hmem
      exact hknown w hw
    rw [(within_perform hi).records hrecords] at hlt
    exact absurd hlt (Nat.lt_irrefl _)

/-- A word that is no instruction is recorded, and that is all. -/
theorem execute_of_decode_eq_unknown {w : Word} (hw : Instruction.decode w = .unknown w) :
    m.execute w = ((m.trace w).recordUnsupported w, none) := by
  rw [execute, hw]
  rfl

/-- Executing a word records it if it is no instruction, and nothing otherwise. -/
theorem recorded_execute (m : Machine) (w : Word) :
    m.Recorded ([(m, w)].filter fun e ↦ Instruction.decode e.2 = .unknown e.2)
      (m.execute w).1 := by
  by_cases hw : Instruction.decode w = .unknown w
  · have hsame : m.current = (m.trace w).current ∧
        m.unsupportedReport w = (m.trace w).unsupportedReport w := by
      obtain ⟨lines, ht⟩ := m.exists_trace_eq w
      rw [ht]
      exact ⟨rfl, rfl⟩
    rw [execute_of_decode_eq_unknown hw, List.filter_cons_of_pos (by exact decide_eq_true hw)]
    exact (recorded_trace m w).trans (recorded_recordUnsupported hsame.1 hsame.2)
  · rw [List.filter_cons_of_neg (by simpa using hw), execute]
    cases hi : (m.trace w).perform (Instruction.decode w) with
    | ok m' =>
      refine (recorded_trace m w).trans (recorded_perform hi ?_)
      intro v hv
      exact hw (Instruction.eq_of_decode_eq_unknown hv ▸ hv)
    | error f => exact recorded_trace m w

/-- An operation that executes nothing records nothing. -/
theorem recorded_of_execution?_eq_none {o : Operation} (he : m.execution? o = none)
    {r : Machine × Option Fault} (hr : m.operate o = some r) : m.Recorded [] r.1 := by
  cases o
  case execute word => cases he
  case setLive live =>
    cases hr
    exact .of_eq rfl rfl rfl
  case step =>
    cases hr
    rw [step_of_execution?_eq_none he]
    exact .of_eq rfl rfl rfl
  case advanceClock elapsed =>
    rw [operate, Option.map_eq_some_iff] at hr
    obtain ⟨⟨m', ticks⟩, hm, rfl⟩ := hr
    refine advanceClock_induction (P := fun m' ↦ m.Recorded [] m') ?_ ?_ (.of_eq rfl rfl rfl) hm
    · intro q h
      exact h.trans q.recorded_tick
    · intro q owed h
      exact h.congr rfl rfl
  case tick =>
    cases hr
    exact m.recorded_tick
  case reset =>
    cases hr
    exact m.recorded_reset
  case setResolution high =>
    cases hr
    exact m.recorded_setResolution high
  case flush =>
    cases hr
    exact m.recorded_flush
  all_goals
    have hu := unheard_operate hr trivial
    exact Recorded.congr (.of_eq rfl rfl rfl) hu.monitor hu.log

/-- An operation records the word that it executes, if that is no instruction. -/
theorem recorded_operate {o : Operation} {r : Machine × Option Fault}
    (hr : m.operate o = some r) :
    m.Recorded ((m.execution? o).toList.filter fun e ↦ Instruction.decode e.2 = .unknown e.2)
      r.1 := by
  cases he : m.execution? o with
  | none => exact recorded_of_execution?_eq_none he hr
  | some e =>
    obtain ⟨hmonitor, hlog⟩ := monitor_log_of_execution? he
    have hfound : m.Recorded [] e.1 := Recorded.congr (.of_eq rfl rfl rfl) hmonitor hlog
    rw [operate_of_execution? he, Option.some.injEq] at hr
    rw [← hr]
    exact hfound.trans (recorded_execute e.1 e.2)

/-- Operations record the words that they execute and that are no instructions. -/
theorem recorded_operateAll {ops : List Operation} (hn : m.operateAll ops = some n) :
    m.Recorded (m.unsupportedExecutions ops) n := by
  induction ops generalizing m with
  | nil =>
    cases hn
    exact .of_eq rfl rfl rfl
  | cons o ops ih =>
    obtain ⟨r, hr, hn⟩ := exists_of_operateAll_cons hn
    rw [unsupportedExecutions, executions_cons ops hr, List.filter_append]
    exact (recorded_operate hr).trans (ih hn)

/-- Recording a word changes nothing but the records and the log. -/
theorem exists_recordUnsupported_eq (m : Machine) (w : Word) :
    ∃ reported events, m.recordUnsupported w = { m with
      monitor := { m.monitor with unsupported := (m.current, w) :: m.monitor.unsupported, reported }
      log := events ++ m.log } := by
  rw [recordUnsupported]
  split
  · exact ⟨m.monitor.reported, [], rfl⟩
  · exact ⟨m.current :: m.monitor.reported, [.report (m.unsupportedReport w)], rfl⟩

/-- Executing a word that is no instruction changes nothing but the records and the log. -/
theorem exists_execute_eq_of_unknown {w : Word} (hw : Instruction.decode w = .unknown w) :
    ∃ reported events, m.execute w = ({ m with
      monitor := { m.monitor with unsupported := (m.current, w) :: m.monitor.unsupported, reported }
      log := events ++ m.log }, none) := by
  obtain ⟨lines, ht⟩ := m.exists_trace_eq w
  obtain ⟨reported, events, hr⟩ := (m.trace w).exists_recordUnsupported_eq w
  refine ⟨reported, events ++ lines.map .trace, ?_⟩
  rw [execute_of_decode_eq_unknown hw, hr, ht, List.append_assoc]

/-- Words that are no instruction are recorded completely, and reported once for each address.

After any operations on a new machine, the records list each word executed that is no instruction
with its address, in their order.  An address counts as reported exactly if there is a record of it,
and it counts once.  There is one report for each of these addresses, in the order in which they
were met first.  It names the word that was executed there first, whatever has become of the word at
that address since and whether or not the machine was reset, and shows the machine as it was just
before.

To execute such a word changes nothing but these records and the log, and a step over one moves on
the program counter and notes the address besides. -/
theorem unsupported_words_reported {random : RandomSource} {speed : Int} {observed : Bool}
    (hm : powerOn random speed observed = .ok m) {ops : List Operation}
    (hn : m.operateAll ops = some n) :
    (n.monitor.unsupported.reverse =
      (m.unsupportedExecutions ops).map fun e ↦ (e.1.current, e.2)) ∧
    (n.monitor.reported.Nodup ∧
      ∀ a, a ∈ n.monitor.reported ↔ ∃ w, (a, w) ∈ n.monitor.unsupported) ∧
    (Event.reportText n.log = String.join (n.reports.map (· ++ "\n")) ∧
      n.reports = (firstPerAddress (m.unsupportedExecutions ops)).map (fun e ↦
        "Opcode 0x" ++ hex 4 e.2.toNat ++ " at address 0x" ++ hex 3 e.1.current.toNat ++
          " is not emulated, skipping.\n" ++ e.1.dump e.2) ∧
      (firstPerAddress (m.unsupportedExecutions ops)).map (·.1.current) =
        (n.monitor.unsupported.reverse.map Prod.fst).eraseDups) ∧
    ∀ (q : Machine) (w : Word), Instruction.decode w = .unknown w →
      ∃ reported events,
        q.execute w = ({ q with
          monitor := { q.monitor with
            unsupported := (q.current, w) :: q.monitor.unsupported, reported }
          log := events ++ q.log }, none) ∧
        (q.fetch = .ok w → ∃ reported events, q.step = ({ q with
          current := q.registers.pc
          registers := { q.registers with pc := q.registers.pc + 2 }
          monitor := { q.monitor with
            unsupported := (q.registers.pc, w) :: q.monitor.unsupported, reported }
          log := events ++ q.log }, none)) := by
  have hnew : m.monitor.unsupported = [] ∧ m.monitor.reported = [] ∧ m.reports = [] := by
    obtain ⟨interval, -, hm⟩ := exists_of_bind_ok hm
    cases hm
    exact ⟨rfl, rfl, rfl⟩
  have h := recorded_operateAll hn
  have hunsupported : n.monitor.unsupported.reverse =
      (m.unsupportedExecutions ops).map fun e ↦ (e.1.current, e.2) := by
    rw [h.unsupported, hnew.1]
    rfl
  refine ⟨hunsupported, ⟨h.nodup (hnew.2.1 ▸ List.nodup_nil), ?_⟩, ⟨n.reportText_log, ?_, ?_⟩, ?_⟩
  · intro a
    have hmem (w : Word) : (a, w) ∈ n.monitor.unsupported ↔
        ∃ e ∈ m.unsupportedExecutions ops, (e.1.current, e.2) = (a, w) := by
      rw [← List.mem_reverse, hunsupported, List.mem_map]
    rw [h.reported, hnew.2.1]
    constructor
    · rintro (hnone | ⟨e, he, rfl⟩)
      · cases hnone
      · exact ⟨e.2, (hmem e.2).mpr ⟨e, he, rfl⟩⟩
    · rintro ⟨w, hw⟩
      obtain ⟨e, he, heq⟩ := (hmem w).mp hw
      exact .inr ⟨e, he, (congrArg Prod.fst heq).symm⟩
  · have hall : (m.unsupportedExecutions ops).filter (fun e ↦ e.1.current ∉ m.monitor.reported) =
        m.unsupportedExecutions ops := by
      rw [List.filter_eq_self, hnew.2.1]
      simp
    rw [h.reports, hnew.2.2, hall]
    rfl
  · rw [map_current_firstPerAddress, hunsupported, List.map_map]
    rfl
  · intro q w hw
    obtain ⟨reported, events, he⟩ := exists_execute_eq_of_unknown (m := q) hw
    refine ⟨reported, events, he, ?_⟩
    intro hfetch
    obtain ⟨reported, events, hs⟩ := exists_execute_eq_of_unknown (m := q.primed) hw
    exact ⟨reported, events, (step_eq_execute hfetch).trans hs⟩

/-- Two words that are no instruction are executed at the start of memory for programs, one after a
program was loaded and the machine was reset, and one right after it. -/
def stumbles : List Operation := [.step, .load [0x80, 0x08], .reset, .step, .step]

/-- The second word at the same address is recorded, but not reported. -/
theorem unsupported_words_reported_stumbles : ∃ m n,
    powerOn (.cycle [] []) 0 true = .ok m ∧ m.operateAll stumbles = some n ∧
      n.monitor.unsupported.reverse = [(0x200, 0x0000), (0x200, 0x8008), (0x202, 0x0000)] ∧
      n.reports.length = 2 := by
  have hm : powerOn (.cycle [] []) 0 true =
      .ok { random := .cycle [] [], clockSpeed := 0 } := rfl
  have hsome : (operateAll { random := .cycle [] [], clockSpeed := 0 } stumbles).isSome := by
    decide +kernel
  obtain ⟨n, hn⟩ := Option.isSome_iff_exists.mp hsome
  have hwords : ((unsupportedExecutions { random := .cycle [] [], clockSpeed := 0 } stumbles).map
      fun e ↦ (e.1.current, e.2)) = [(0x200, 0x0000), (0x200, 0x8008), (0x202, 0x0000)] := by
    decide +kernel
  obtain ⟨hunsupported, -, ⟨-, hreports, haddresses⟩, -⟩ := unsupported_words_reported hm hn
  rw [hwords] at hunsupported
  refine ⟨_, n, hm, hn, hunsupported, ?_⟩
  have hlength := congrArg List.length haddresses
  rw [List.length_map, hunsupported] at hlength
  rw [hreports, List.length_map, hlength]
  decide +kernel

end Machine

end SuperChip
