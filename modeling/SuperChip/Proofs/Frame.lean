import SuperChip.Proofs.Step

/-!
# What instructions touch

An instruction is made of a few kinds of changes: to the registers, the memory, the timers, the
random source, the picture, the resolution, the records of the monitor and whether the machine is
halted.  A property that survives these changes survives each instruction, and a step as well, if it
survives the trace and the change of the current address.
-/

namespace SuperChip.Machine

/-- A property of machines that survives each kind of change that instructions are made of. -/
structure Enduring (P : Machine → Prop) : Prop where
  /-- It survives changes of the registers. -/
  mapRegisters : ∀ {m} f, P m → P (m.mapRegisters f)
  /-- It survives changes of the memory. -/
  memory : ∀ {m} memory, P m → P { m with memory }
  /-- It survives changes of the delay timer. -/
  delay : ∀ {m} delay, P m → P { m with delay }
  /-- It survives changes of the sound timer. -/
  sound : ∀ {m} sound, P m → P { m with sound }
  /-- It survives changes of the random source. -/
  random : ∀ {m} random, P m → P { m with random }
  /-- It survives the end of the program. -/
  halted : ∀ {m}, P m → P { m with halted := true }
  /-- It survives changes of the picture. -/
  painted : ∀ {m} d, m.display.Painted d → P m → P { m with display := d }
  /-- It survives changes of the resolution. -/
  setResolution : ∀ {m} high, P m → P (m.setResolution high)
  /-- It survives the recording of words that are no instruction. -/
  recordUnsupported : ∀ {m} w, P m → P (m.recordUnsupported w)
  /-- It survives the trace. -/
  trace : ∀ {m} w, P m → P (m.trace w)
  /-- It survives the start of the next instruction. -/
  current : ∀ {m} current, P m → P { m with current }

variable {P : Machine → Prop} {m m' : Machine}

/-- What endures survives a byte put in a register. -/
theorem Enduring.set (h : Enduring P) (x : Register) (b : UInt8) (hm : P m) : P (m.set x b) :=
  h.mapRegisters _ hm

/-- What endures survives a flag. -/
theorem Enduring.setFlag (h : Enduring P) (flag : Bool) (hm : P m) : P (m.setFlag flag) :=
  h.set _ _ hm

/-- What endures survives a new index. -/
theorem Enduring.setIndex (h : Enduring P) (n : Int) (hm : P m) : P (m.setIndex n) :=
  h.mapRegisters _ hm

/-- What endures survives a skipped instruction. -/
theorem Enduring.skipIf (h : Enduring P) (condition : Bool) (hm : P m) :
    P (m.skipIf condition) := by
  rw [Machine.skipIf]
  split
  · exact h.mapRegisters _ hm
  · exact hm

/-- What endures survives the storing of bytes. -/
theorem Enduring.storeCells (h : Enduring P) {bytes : List UInt8}
    (hs : m.storeCells bytes = .ok m') (hm : P m) : P m' := by
  obtain ⟨memory, -, hs⟩ := exists_of_bind_ok hs
  cases hs
  exact h.memory _ hm

/-- What endures survives scrolling. -/
theorem Enduring.scroll (h : Enduring P) (move : Display → Except Fault Display)
    (hp : ∀ d, move m.display = .ok d → m.display.Painted d) (hs : m.scroll move = .ok m')
    (hm : P m) : P m' := by
  obtain ⟨d, hd, hs⟩ := exists_of_bind_ok hs
  cases hs
  exact h.painted _ (hp d hd) hm

/-- What endures survives each instruction. -/
theorem Enduring.perform (h : Enduring P) {i : Instruction} (hi : m.perform i = .ok m')
    (hm : P m) : P m' := by
  cases i with
  | unknown w =>
    cases hi
    exact h.recordUnsupported _ hm
  | clear =>
    cases hi
    exact h.painted _ m.display.painted_clear hm
  | ret | call target =>
    obtain ⟨r, -, hi⟩ := exists_of_bind_ok hi
    cases hi
    exact h.mapRegisters (fun _ ↦ r) hm
  | skipIfByte | skipUnlessByte | skipIfEqual | skipUnlessEqual | skipIfKey | skipUnlessKey =>
    cases hi
    exact h.skipIf _ hm
  | jump | jumpOffset | saveFlags | loadFlags =>
    cases hi
    exact h.mapRegisters _ hm
  | setByte | addByte | copy | or | and | xor =>
    cases hi
    exact h.set _ _ hm
  | add | sub | subFrom =>
    cases hi
    exact h.setFlag _ (h.set _ _ hm)
  | shiftRight | shiftLeft =>
    cases hi
    exact h.set _ _ (h.set _ _ hm)
  | setIndex | smallGlyph | bigGlyph =>
    cases hi
    exact h.setIndex _ hm
  | addIndex x =>
    cases hi
    exact h.setFlag _ (h.setIndex _ hm)
  | random x mask =>
    cases hi
    exact h.set _ _ (h.random _ hm)
  | draw x y rows =>
    obtain ⟨s, -, hi⟩ := exists_of_bind_ok hi
    obtain ⟨⟨d, collided⟩, hd, hi⟩ := exists_of_bind_ok hi
    cases hi
    exact h.setFlag _ (h.painted _ (Display.painted_toggleAll hd) hm)
  | getDelay x =>
    obtain ⟨b, -, hi⟩ := exists_of_bind_ok hi
    cases hi
    exact h.set _ _ hm
  | awaitKey x =>
    rw [Machine.perform] at hi
    split at hi
    · cases hi
      exact h.set _ _ hm
    · cases hi
      exact h.mapRegisters _ hm
  | setDelay x =>
    cases hi
    exact h.delay _ hm
  | setSound x =>
    cases hi
    exact h.sound _ hm
  | storeDecimal x => exact h.storeCells hi hm
  | store x =>
    obtain ⟨m'', hs, hi⟩ := exists_of_bind_ok hi
    cases hi
    exact h.setIndex _ (h.storeCells hs hm)
  | load x =>
    obtain ⟨bytes, -, hi⟩ := exists_of_bind_ok hi
    cases hi
    exact h.setIndex _ (h.mapRegisters _ hm)
  | scrollDown rows =>
    exact h.scroll (·.scrollDown rows.val) (fun _ ↦ Display.painted_scroll) hi hm
  | scrollRight => exact h.scroll (·.scrollRight 4) (fun _ ↦ Display.painted_scroll) hi hm
  | scrollLeft => exact h.scroll (·.scrollLeft 4) (fun _ ↦ Display.painted_scroll) hi hm
  | exit =>
    cases hi
    exact h.halted hm
  | lowResolution | highResolution =>
    cases hi
    exact h.setResolution _ hm

/-- What endures survives each word that is executed, whether or not it meets a fault. -/
theorem Enduring.execute (h : Enduring P) (w : Word) (hm : P m) : P (m.execute w).1 := by
  have ht := h.trace w hm
  rw [Machine.execute]
  cases hi : (m.trace w).perform (Instruction.decode w) with
  | error f => exact ht
  | ok m' => exact h.perform hi ht

/-- What endures survives each step, whether or not it meets a fault. -/
theorem Enduring.step (h : Enduring P) (hm : P m) : P m.step.1 := by
  have hc := h.current m.registers.pc hm
  rw [Machine.step]
  cases ({ m with current := m.registers.pc } : Machine).fetch with
  | ok w => exact h.execute w (h.mapRegisters _ hc)
  | error f => exact hc

end SuperChip.Machine
