import Mathlib.Data.Set.Insert
import SuperChip.Proofs.Step

/-!
# Footprints

The footprint of an instruction is the set of those parts of a machine that it may change.  An
instruction stays within its footprint: every other part is afterwards as it was before, and so is
everything that belongs to the host, which is part of no footprint.

Memory is changed only where the index register points, and around the end of memory: the addresses
of its cells wrap around.  `VF` is a register like the others, so an instruction that leaves a flag
has it in its footprint besides the register that it is about.
-/

namespace SuperChip

/-- A part of a machine that instructions may change. -/
inductive Part
  /-- The byte `k` bytes after the one that the index register points to. -/
  | cell (k : Nat)
  /-- A user flag. -/
  | flag (x : Register)
  /-- A register. -/
  | register (x : Register)
  /-- The index register. -/
  | index
  /-- The call stack. -/
  | stack
  /-- The program counter, after it was moved past the instruction. -/
  | counter
  /-- The delay timer. -/
  | delay
  /-- The sound timer. -/
  | sound
  /-- The picture, its resolution, and whether it is yet to be handed over. -/
  | display
  /-- Whether the program has ended. -/
  | halted
  /-- The random bytes to come. -/
  | random
  /-- The records of words that are no instruction. -/
  | records

/-- What an instruction may change. -/
def Instruction.footprint : Instruction → Set Part
  | .unknown _ => {.records}
  | .clear | .scrollDown _ | .scrollRight | .scrollLeft | .lowResolution | .highResolution =>
    {.display}
  | .ret | .call _ => {.stack, .counter}
  | .jump _ | .jumpOffset _ | .skipIfByte _ _ | .skipUnlessByte _ _ | .skipIfEqual _ _
  | .skipUnlessEqual _ _ | .skipIfKey _ | .skipUnlessKey _ => {.counter}
  | .setByte x _ | .addByte x _ | .copy x _ | .or x _ | .and x _ | .xor x _ | .getDelay x =>
    {.register x}
  | .add x _ | .sub x _ | .subFrom x _ | .shiftRight x _ | .shiftLeft x _ =>
    {.register x, .register 15}
  | .random x _ => {.register x, .random}
  | .awaitKey x => {.register x, .counter}
  | .draw _ _ _ => {.display, .register 15}
  | .setIndex _ | .smallGlyph _ | .bigGlyph _ => {.index}
  | .addIndex _ => {.index, .register 15}
  | .setDelay _ => {.delay}
  | .setSound _ => {.sound}
  | .storeDecimal _ => Part.cell '' {k | k < 3}
  | .store x => insert .index (Part.cell '' {k | k ≤ x.val})
  | .load x => insert .index (Part.register '' {r | r ≤ x})
  | .saveFlags x => Part.flag '' {r | r ≤ x}
  | .loadFlags x => Part.register '' {r | r ≤ x}
  | .exit => {.halted}

namespace Machine

/-- `m'` differs from `m` in the parts `f` only.  The cells are those that the index register of `m`
points to. -/
structure Within (f : Set Part) (m m' : Machine) : Prop where
  /-- Bytes that lie in no cell are the same. -/
  memory : ∀ a : Nat, (∀ k, .cell k ∈ f → a ≠ (m.cell k).toNat) →
    m'.memory.bytes[a]? = m.memory.bytes[a]?
  /-- The user flags are the same. -/
  flags : ∀ x, .flag x ∉ f → m'.registers.flags.get x = m.registers.flags.get x
  /-- The registers are the same. -/
  registers : ∀ x, .register x ∉ f → m'.registers.v.get x = m.registers.v.get x
  /-- The index register is the same. -/
  index : .index ∉ f → m'.registers.index = m.registers.index
  /-- The call stack is the same. -/
  stack : .stack ∉ f → m'.registers.stack = m.registers.stack
  /-- The program counter is the same. -/
  counter : .counter ∉ f → m'.registers.pc = m.registers.pc
  /-- The delay timer is the same. -/
  delay : .delay ∉ f → m'.delay = m.delay
  /-- The sound timer is the same. -/
  sound : .sound ∉ f → m'.sound = m.sound
  /-- The display is the same. -/
  display : .display ∉ f → m'.display = m.display
  /-- Both are halted, or neither. -/
  halted : .halted ∉ f → m'.halted = m.halted
  /-- The same random bytes are to come. -/
  random : .random ∉ f → m'.random = m.random
  /-- The records are the same. -/
  records : .records ∉ f → m'.monitor = m.monitor
  /-- Memory has its size in any case. -/
  size : m'.memory.size = m.memory.size
  /-- The call stack has its room in any case. -/
  capacity : m'.registers.capacity = m.registers.capacity
  /-- The instruction being executed has its address in any case. -/
  current : m'.current = m.current
  /-- The display has its listeners in any case. -/
  observed : m'.display.observed = m.display.observed
  /-- The trace is live or not, as before. -/
  live : m'.monitor.live = m.monitor.live
  /-- The same keys are down. -/
  keys : m'.keys = m.keys
  /-- A reset is asked for or not, as before. -/
  resetRequested : m'.resetRequested = m.resetRequested
  /-- The same time is owed to the timers. -/
  owed : m'.owed = m.owed
  /-- The speed is the same. -/
  clockSpeed : m'.clockSpeed = m.clockSpeed
  /-- An instruction has the same time. -/
  interval : m'.interval = m.interval
  /-- The count of instructions is the same. -/
  opsPerSecond : m'.opsPerSecond = m.opsPerSecond
  /-- The count of ticks is the same. -/
  ticksPerSecond : m'.ticksPerSecond = m.ticksPerSecond
  /-- As many tones have sounded. -/
  tones : m'.tones = m.tones

variable {m m' : Machine} {f : Set Part}

/-- A machine differs from itself in nothing. -/
theorem Within.refl (f : Set Part) (m : Machine) : Within f m m := by
  constructor <;> intros <;> rfl

/-! ## Parts of instructions -/

/-- A write replaces the byte at its location. -/
theorem exists_of_write {memory memory' : Memory} {n : Nat} {value : Int}
    (h : memory.write n value = .ok memory') :
    ∃ b, memory' = ⟨memory.bytes.setIfInBounds n b⟩ := by
  obtain ⟨-, -, rfl⟩ := Memory.write_eq_ok_iff.mp h
  exact ⟨_, by rw [Memory.place, if_neg (by omega), Int.toNat_natCast]⟩

/-- Storing bytes changes the cells that they are stored to, and nothing else. -/
theorem exists_of_storeCells {bytes : List UInt8} (h : m.storeCells bytes = .ok m') :
    ∃ memory, m' = { m with memory } ∧ memory.size = m.memory.size ∧
      ∀ a : Nat, (∀ k < bytes.length, a ≠ (m.cell k).toNat) →
        memory.bytes[a]? = m.memory.bytes[a]? := by
  obtain ⟨memory, hm, h⟩ := exists_of_bind_ok h
  cases h
  refine ⟨memory, rfl, foldlM_ok_induction (P := fun memory : Memory ↦
    memory.size = m.memory.size ∧ ∀ a : Nat, (∀ k < bytes.length, a ≠ (m.cell k).toNat) →
      memory.bytes[a]? = m.memory.bytes[a]?) ?_ ⟨rfl, fun _ _ ↦ rfl⟩ hm⟩
  rintro memory memory' ⟨b, k⟩ hk ⟨hs, ih⟩ hw
  obtain ⟨c, rfl⟩ := exists_of_write hw
  refine ⟨Array.size_setIfInBounds.trans hs, ?_⟩
  intro a ha
  have hne : a ≠ (m.cell k).toNat := ha k (List.snd_lt_of_mem_zipIdx hk)
  exact (Array.getElem?_setIfInBounds_ne hne.symm).trans (ih a ha)

/-- Putting a byte at one place of a bank leaves the others alone. -/
theorem get_set_of_ne {b : Bank} {x y : Register} (byte : UInt8) (h : x ≠ y) :
    (b.set x.val byte x.isLt).get y = b.get y :=
  Vector.getElem_set_ne x.isLt y.isLt fun he ↦ h (Fin.ext he)

/-- Copying a bank up to a place takes the places up to there from the source. -/
theorem get_copyUpTo (b source : Bank) (x y : Register) :
    (b.copyUpTo source x).get y = if y ≤ x then source.get y else b.get y :=
  Vector.getElem_ofFn y.isLt

/-- Copying a bank up to a place leaves the places beyond it alone. -/
theorem get_copyUpTo_of_not_le {b source : Bank} {x y : Register} (h : ¬ y ≤ x) :
    (b.copyUpTo source x).get y = b.get y := by
  rw [get_copyUpTo, if_neg h]

/-- A call keeps the way back and goes to its target. -/
theorem eq_of_call {r r' : Registers} {target : Int} (h : r.call target = .ok r') :
    r' = { r with pc := Address.ofInt target, stack := r.pc :: r.stack } := by
  rw [Registers.call] at h
  split at h
  · cases h
  · cases h
    rfl

/-- A return takes the newest way back. -/
theorem exists_of_ret {r r' : Registers} (h : r.ret = .ok r') :
    ∃ a stack, r.stack = a :: stack ∧ r' = { r with pc := a, stack } := by
  rw [Registers.ret] at h
  split at h
  · cases h
  next a stack hs =>
    cases h
    exact ⟨a, stack, hs, rfl⟩

namespace Within

/-- Registers of the footprint may be changed. -/
theorem withRegisters (h : Within f m m') {b : Bank}
    (hb : ∀ x, .register x ∉ f → b.get x = m'.registers.v.get x) :
    Within f m { m' with registers := { m'.registers with v := b } } where
  __ := h
  registers x hx := (hb x hx).trans (h.registers x hx)

/-- User flags of the footprint may be changed. -/
theorem withFlags (h : Within f m m') {b : Bank}
    (hb : ∀ x, .flag x ∉ f → b.get x = m'.registers.flags.get x) :
    Within f m { m' with registers := { m'.registers with flags := b } } where
  __ := h
  flags x hx := (hb x hx).trans (h.flags x hx)

/-- A byte may be put in a register of the footprint. -/
theorem set (h : Within f m m') {x : Register} (hx : .register x ∈ f) (b : UInt8) :
    Within f m (m'.set x b) := by
  apply h.withRegisters
  intro y hy
  apply get_set_of_ne
  rintro rfl
  exact hy hx

/-- A flag may be put in `VF` if that is in the footprint. -/
theorem setFlag (h : Within f m m') (hx : .register 15 ∈ f) (flag : Bool) :
    Within f m (m'.setFlag flag) :=
  h.set hx _

/-- The index register may be changed if it is in the footprint. -/
theorem setIndex (h : Within f m m') (hi : .index ∈ f) (n : Int) : Within f m (m'.setIndex n) where
  __ := h
  index := absurd hi

/-- The program counter may be changed if it is in the footprint. -/
theorem withPc (h : Within f m m') (hc : .counter ∈ f) {g : Registers → Registers}
    (hg : ∃ pc, g m'.registers = { m'.registers with pc }) : Within f m (m'.mapRegisters g) := by
  obtain ⟨pc, hpc⟩ := hg
  rw [mapRegisters, hpc]
  exact { h with counter := absurd hc }

/-- An instruction may be skipped if the program counter is in the footprint. -/
theorem skipIf (h : Within f m m') (hc : .counter ∈ f) (condition : Bool) :
    Within f m (m'.skipIf condition) := by
  rw [Machine.skipIf]
  split
  · exact h.withPc hc ⟨_, rfl⟩
  · exact h

/-- The program counter and the call stack may be changed if they are in the footprint. -/
theorem withStack (h : Within f m m') (hs : .stack ∈ f) (hc : .counter ∈ f) (pc : Address)
    (stack : List Address) :
    Within f m { m' with registers := { m'.registers with pc, stack } } where
  __ := h
  stack := absurd hs
  counter := absurd hc

/-- The picture may be changed if the display is in the footprint. -/
theorem withDisplay (h : Within f m m') (hd : .display ∈ f) {d : Display}
    (ho : d.observed = m'.display.observed) : Within f m { m' with display := d } where
  __ := h
  display := absurd hd
  observed := ho.trans h.observed

/-- The resolution may be switched if the display is in the footprint. -/
theorem setResolution (h : Within f m m') (hd : .display ∈ f) (high : Bool) :
    Within f m (m'.setResolution high) :=
  { h.withDisplay hd (m'.display.observed_setResolution high) with }

/-- Bytes may be stored to cells of the footprint. -/
theorem storeCells {bytes : List UInt8} (hf : ∀ k < bytes.length, .cell k ∈ f)
    (h : m.storeCells bytes = .ok m') : Within f m m' := by
  obtain ⟨memory, rfl, hs, hm⟩ := exists_of_storeCells h
  exact { Within.refl f m with
    memory := fun a ha ↦ hm a fun k hk ↦ ha k (hf k hk)
    size := hs }

/-- The picture may be moved if the display is in the footprint. -/
theorem scroll (hd : .display ∈ f) (move : Display → Except Fault Display)
    (hp : ∀ d, move m.display = .ok d → m.display.Painted d) (h : m.scroll move = .ok m') :
    Within f m m' := by
  obtain ⟨d, hm, h⟩ := exists_of_bind_ok h
  cases h
  exact (refl f m).withDisplay hd (hp d hm).observed_eq

end Within

/-! ## Instructions -/

/-- An instruction stays within its footprint. -/
theorem within_perform {i : Instruction} (hi : m.perform i = .ok m') :
    m.Within i.footprint m' := by
  have h : m.Within i.footprint m := .refl _ m
  cases i with
  | unknown w =>
    cases hi
    rw [recordUnsupported]
    split
    · exact { h with records := absurd rfl }
    · exact { h with records := absurd rfl }
  | clear =>
    cases hi
    exact h.withDisplay rfl rfl
  | ret =>
    obtain ⟨r, hr, hi⟩ := exists_of_bind_ok hi
    obtain ⟨a, stack, -, rfl⟩ := exists_of_ret hr
    cases hi
    exact h.withStack (.inl rfl) (.inr rfl) _ _
  | call target =>
    obtain ⟨r, hr, hi⟩ := exists_of_bind_ok hi
    cases eq_of_call hr
    cases hi
    exact h.withStack (.inl rfl) (.inr rfl) _ _
  | jump | jumpOffset =>
    cases hi
    exact h.withPc rfl ⟨_, rfl⟩
  | skipIfByte | skipUnlessByte | skipIfEqual | skipUnlessEqual | skipIfKey | skipUnlessKey =>
    cases hi
    exact h.skipIf rfl _
  | setByte | addByte | copy | or | and | xor =>
    cases hi
    exact h.set rfl _
  | add | sub | subFrom =>
    cases hi
    exact (h.set (.inl rfl) _).setFlag (.inr rfl) _
  | shiftRight | shiftLeft =>
    cases hi
    exact (h.set (.inr rfl) _).set (.inl rfl) _
  | random x mask =>
    cases hi
    have hr : m.Within (Instruction.random x mask).footprint
        { m with random := m.random.next.2 } := { h with random := absurd (.inr rfl) }
    exact hr.set (.inl rfl) _
  | draw x y rows =>
    obtain ⟨s, -, hi⟩ := exists_of_bind_ok hi
    obtain ⟨⟨d, collided⟩, hd, hi⟩ := exists_of_bind_ok hi
    cases hi
    exact (h.withDisplay (.inl rfl) (Display.painted_toggleAll hd).observed_eq).setFlag
      (.inr rfl) _
  | getDelay x =>
    obtain ⟨b, -, hi⟩ := exists_of_bind_ok hi
    cases hi
    exact h.set rfl _
  | awaitKey x =>
    rw [perform] at hi
    split at hi
    · cases hi
      exact h.set (.inl rfl) _
    · cases hi
      exact h.withPc (.inr rfl) ⟨_, rfl⟩
  | setDelay =>
    cases hi
    exact { h with delay := absurd rfl }
  | setSound =>
    cases hi
    exact { h with sound := absurd rfl }
  | setIndex | smallGlyph | bigGlyph =>
    cases hi
    exact h.setIndex rfl _
  | addIndex =>
    cases hi
    exact (h.setIndex (.inl rfl) _).setFlag (.inr rfl) _
  | storeDecimal x =>
    refine Within.storeCells ?_ hi
    intro k hk
    exact ⟨k, hk, rfl⟩
  | store x =>
    obtain ⟨m'', hs, hi⟩ := exists_of_bind_ok hi
    cases hi
    refine (Within.storeCells ?_ hs).setIndex (.inl rfl) _
    intro k hk
    rw [List.length_take] at hk
    exact .inr ⟨k, Nat.le_of_lt_succ (Nat.lt_of_lt_of_le hk (Nat.min_le_left _ _)), rfl⟩
  | load x =>
    obtain ⟨bytes, -, hi⟩ := exists_of_bind_ok hi
    cases hi
    refine Within.setIndex (h.withRegisters ?_) (.inl rfl) _
    intro y hy
    exact get_copyUpTo_of_not_le fun hle ↦ hy (.inr ⟨y, hle, rfl⟩)
  | scrollDown rows =>
    exact .scroll rfl (·.scrollDown rows.val) (fun _ ↦ Display.painted_scroll) hi
  | scrollRight => exact .scroll rfl (·.scrollRight 4) (fun _ ↦ Display.painted_scroll) hi
  | scrollLeft => exact .scroll rfl (·.scrollLeft 4) (fun _ ↦ Display.painted_scroll) hi
  | exit =>
    cases hi
    exact { h with halted := absurd rfl }
  | lowResolution | highResolution =>
    cases hi
    exact h.setResolution rfl _
  | saveFlags x =>
    cases hi
    refine h.withFlags ?_
    intro y hy
    exact get_copyUpTo_of_not_le fun hle ↦ hy ⟨y, hle, rfl⟩
  | loadFlags x =>
    cases hi
    refine h.withRegisters ?_
    intro y hy
    exact get_copyUpTo_of_not_le fun hle ↦ hy ⟨y, hle, rfl⟩

/-- Cells are written by the instruction that stores digits and by the one that stores registers. -/
theorem cell_mem_footprint_iff {i : Instruction} {k : Nat} : .cell k ∈ i.footprint ↔
    (∃ x, i = .storeDecimal x ∧ k < 3) ∨ ∃ x, i = .store x ∧ k ≤ x.val := by
  cases i <;> simp [Instruction.footprint]

/-- A random byte is drawn once by the instruction that asks for one. -/
theorem random_of_perform {x : Register} {mask : UInt8}
    (hi : m.perform (.random x mask) = .ok m') : m'.random = m.random.next.2 := by
  cases hi
  rfl

/-- A word that is no instruction is recorded with its address. -/
theorem unsupported_of_perform {w : Word} (hi : m.perform (.unknown w) = .ok m') :
    m'.monitor.unsupported = (m.current, w) :: m.monitor.unsupported := by
  cases hi
  rw [recordUnsupported]
  split <;> rfl

/-! ## Steps -/

/-- A word that meets no fault performs its instruction. -/
theorem perform_of_execute {w : Word} (hf : (m.execute w).2 = none) :
    (m.trace w).perform (Instruction.decode w) = .ok (m.execute w).1 := by
  rw [execute] at hf ⊢
  cases hm : (m.trace w).perform (Instruction.decode w) with
  | ok m' => rfl
  | error g =>
    rw [hm] at hf
    cases hf

/-- The trace is no part of a machine. -/
theorem Within.of_trace {w : Word} (h : Within f (m.trace w) m') : Within f m m' := by
  obtain ⟨lines, ht⟩ := m.exists_trace_eq w
  rw [ht] at h
  exact { h with }

/-- A word that meets no fault stays within the footprint of its instruction. -/
theorem within_execute {w : Word} (hf : (m.execute w).2 = none) :
    m.Within (Instruction.decode w).footprint (m.execute w).1 :=
  (within_perform (perform_of_execute hf)).of_trace

/-- A step that meets no fault has fetched a word and executed it. -/
theorem exists_of_step (hf : m.step.2 = none) :
    ∃ w, m.fetch = .ok w ∧ m.step = m.primed.execute w := by
  cases hw : m.fetch with
  | ok w => exact ⟨w, rfl, step_eq_execute hw⟩
  | error g =>
    have hw' : ({ m with current := m.registers.pc } : Machine).fetch = .error g := hw
    rw [step, hw'] at hf
    cases hf

/-- A step that meets no fault changes nothing outside the footprint of its instruction, starting
from the machine whose program counter is past that instruction.

The instruction that asks for a random byte draws one, and words that are no instruction are
recorded one by one.  A byte of memory, be it of the program or of the glyphs, changes only if
digits or registers are stored where it lies. -/
theorem within_footprint_of_step (hf : m.step.2 = none) :
    ∃ w, m.fetch = .ok w ∧
      m.primed.Within (Instruction.decode w).footprint m.step.1 ∧
      (∀ x mask, Instruction.decode w = .random x mask →
        m.step.1.random = m.random.next.2) ∧
      (∀ v, Instruction.decode w = .unknown v →
        m.step.1.monitor.unsupported = (m.registers.pc, v) :: m.monitor.unsupported) ∧
      ∀ a : Address, m.step.1.memory.bytes[a.toNat]? ≠ m.memory.bytes[a.toNat]? →
        ∃ k, a = m.cell k ∧ ((∃ x, Instruction.decode w = .storeDecimal x ∧ k < 3) ∨
          ∃ x, Instruction.decode w = .store x ∧ k ≤ x.val) := by
  obtain ⟨w, hw, hs⟩ := exists_of_step hf
  rw [hs] at hf ⊢
  have hp := perform_of_execute hf
  have hwithin := within_execute hf
  obtain ⟨lines, ht⟩ := m.primed.exists_trace_eq w
  refine ⟨w, hw, hwithin, ?_, ?_, ?_⟩
  · intro x mask hi
    rw [hi] at hp
    rw [random_of_perform hp, ht]
    rfl
  · intro v hi
    rw [hi] at hp
    rw [unsupported_of_perform hp, ht]
    rfl
  · intro a ha
    by_contra hn
    refine ha (hwithin.memory a.toNat ?_)
    intro k hk he
    exact hn ⟨k, BitVec.eq_of_toNat_eq he, cell_mem_footprint_iff.mp hk⟩

/-- A machine that is about to store two registers, the first one in the last byte of memory. -/
def brimming : Machine where
  memory := ⟨((Font.memory 4096).bytes.setIfInBounds 0x200 0xF1).setIfInBounds 0x201 0x55⟩
  registers := { index := 0xFFF, v := Vector.replicate 16 7 }
  random := .cycle [] []

/-- Storing around the end of memory changes its last byte and its first one, and no other. -/
theorem within_footprint_of_step_brimming : brimming.step.2 = none ∧
    (∀ x, brimming.step.1.registers.v.get x = brimming.registers.v.get x) ∧
    ∀ a : Address, a ≠ 0xFFF → a ≠ 0x000 →
      brimming.step.1.memory.bytes[a.toNat]? = brimming.memory.bytes[a.toNat]? := by
  have hf : brimming.step.2 = none := by decide +kernel
  obtain ⟨w, hw, h, -, -, hm⟩ := within_footprint_of_step hf
  have hc : brimming.fetch.toOption = some 0xF155 := by decide +kernel
  rw [hw] at hc
  cases hc
  have hi : Instruction.decode 0xF155 = .store 1 := by decide
  rw [hi] at h hm
  refine ⟨hf, ?_, ?_⟩
  · intro x
    exact h.registers x (by simp [Instruction.footprint])
  · intro a hlast hfirst
    by_contra ha
    obtain ⟨k, rfl, ⟨x, hx, -⟩ | ⟨x, hx, hk⟩⟩ := hm a ha
    · cases hx
    · cases hx
      have hk : k ≤ 1 := hk
      obtain rfl | rfl := Nat.le_one_iff_eq_zero_or_eq_one.mp hk
      · exact hlast (by decide)
      · exact hfirst (by decide)

end Machine

end SuperChip
