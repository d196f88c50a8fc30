import Mathlib.Data.List.GetD
import SuperChip.Proofs.Footprint
import SuperChip.Proofs.Pixels

/-!
# Block transfers

Storing `V0` … `Vx` and loading them are inverse to each other, wherever the index register points.
The cells are at most sixteen and memory has 4096 bytes, so no two of them have the same address,
also where they wrap around the end of memory.  Each of the bytes is therefore found where it was
stored, and what was loaded is stored back where it lay.
-/

namespace SuperChip

/-- Memories of 4096 bytes are the same if they have the same byte at each address. -/
theorem Memory.ext_of_getD {a b : Memory} (ha : a.size = 4096) (hb : b.size = 4096)
    (h : ∀ k : Address, a.bytes.getD k.toNat 0 = b.bytes.getD k.toNat 0) : a = b := by
  obtain ⟨a⟩ := a
  obtain ⟨b⟩ := b
  congr 1
  apply Array.ext (ha.trans hb.symm)
  intro k hk hk'
  have hlt : k < 4096 := Nat.lt_of_lt_of_eq hk ha
  have hk := h (BitVec.ofNat 12 k)
  rw [BitVec.toNat_ofNat, Nat.mod_eq_of_lt hlt] at hk
  simpa [Array.getD, *] using hk

namespace Machine

variable {m n : Machine} {w : Word}

/-! ## Cells -/

/-- The cells of a block no longer than memory have different addresses. -/
theorem cell_inj (m : Machine) {j k : Nat} (hj : j < 4096) (hk : k < 4096)
    (h : m.cell j = m.cell k) : j = k := by
  have hn := congrArg BitVec.toNat h
  rw [cell, cell, Address.toNat_ofInt, Address.toNat_ofInt] at hn
  omega

/-- `memory` is the memory of `m` with bytes stored from where its index register points. -/
structure Stored (m : Machine) (bytes : List UInt8) (memory : Memory) : Prop where
  /-- There are as many bytes as before. -/
  size_eq : memory.size = m.memory.size
  /-- The bytes lie in their cells. -/
  stored : ∀ k, k < bytes.length → memory.bytes.getD (m.cell k).toNat 0 = bytes.getD k 0
  /-- The other bytes are as before. -/
  others : ∀ a : Address, (∀ k, k < bytes.length → a ≠ m.cell k) →
    memory.bytes.getD a.toNat 0 = m.memory.bytes.getD a.toNat 0

/-- Storing a byte after others. -/
theorem storeCells_concat {bytes : List UInt8} {b : UInt8} {memory memory' : Memory}
    (h : m.storeCells bytes = .ok { m with memory })
    (hb : memory.write (m.cell bytes.length).toNat b.toNat = .ok memory') :
    m.storeCells (bytes ++ [b]) = .ok { m with memory := memory' } := by
  obtain ⟨memory₁, hf, hm⟩ := exists_of_bind_ok h
  obtain rfl : memory₁ = memory := congrArg Machine.memory (Except.ok.inj hm)
  rw [storeCells, List.zipIdx_append, List.foldlM_append, hf]
  simp only [bind, Except.bind]
  rw [List.zipIdx_singleton, Nat.zero_add, List.foldlM_cons, hb]
  rfl

/-- Bytes that are no more than memory has are stored in their cells. -/
theorem WellFormed.exists_stored (h : m.WellFormed) {bytes : List UInt8}
    (hlen : bytes.length ≤ 4096) :
    ∃ memory, m.storeCells bytes = .ok { m with memory } ∧ m.Stored bytes memory := by
  induction bytes using List.reverseRecOn with
  | nil => exact ⟨m.memory, rfl, rfl, fun k hk ↦ absurd hk k.not_lt_zero, fun _ _ ↦ rfl⟩
  | append_singleton bytes b ih =>
    rw [List.length_append, List.length_singleton] at hlen
    obtain ⟨memory, hm, hs⟩ := ih (Nat.le_of_succ_le hlen)
    have hcell : (m.cell bytes.length).toNat < memory.bytes.size :=
      Nat.lt_of_lt_of_eq (m.cell bytes.length).isLt (hs.size_eq.trans h.memory).symm
    refine ⟨_, storeCells_concat hm (Memory.write_natCast hcell b), ?_, ?_, ?_⟩
    · exact Array.size_setIfInBounds.trans hs.size_eq
    · intro k hk
      rw [List.length_append, List.length_singleton] at hk
      rw [Memory.getD_setIfInBounds hcell]
      rcases Nat.lt_succ_iff_lt_or_eq.mp hk with hk | rfl
      · -- The last byte lies in none of the cells before it.
        have hne : (m.cell k).toNat ≠ (m.cell bytes.length).toNat := fun he ↦
          hk.ne (m.cell_inj (by omega) (by omega) (BitVec.eq_of_toNat_eq he))
        rw [if_neg hne, hs.stored k hk, List.getD_append _ _ _ _ hk]
      · rw [if_pos rfl, List.getD_append_right _ _ _ _ le_rfl, Nat.sub_self]
        rfl
    · intro a ha
      rw [List.length_append, List.length_singleton] at ha
      have hne : a.toNat ≠ (m.cell bytes.length).toNat := fun he ↦
        ha bytes.length (Nat.lt_succ_self _) (BitVec.eq_of_toNat_eq he)
      rw [Memory.getD_setIfInBounds hcell, if_neg hne]
      exact hs.others a fun k hk ↦ ha k (Nat.lt_succ_of_lt hk)

/-! ## Storing and loading registers -/

/-- `m'` is `m` after `V0` … `Vx` were stored where its index register points. -/
structure Spilled (x : Register) (m m' : Machine) : Prop where
  /-- The registers lie in their cells. -/
  cells : ∀ k ≤ x, m'.memory.bytes.getD (m.cell k.val).toNat 0 = m.registers.get k
  /-- The other bytes are as before. -/
  others : ∀ a : Address, (∀ k ≤ x, a ≠ m.cell k.val) →
    m'.memory.bytes.getD a.toNat 0 = m.memory.bytes.getD a.toNat 0
  /-- There are as many bytes as before. -/
  size_eq : m'.memory.size = m.memory.size
  /-- The index register points past the cells. -/
  index_eq : m'.registers.index = (m.registers.index + x.val + 1) % 65536

/-- `m'` is `m` after `V0` … `Vx` were loaded from where its index register points. -/
structure Filled (x : Register) (m m' : Machine) : Prop where
  /-- The registers hold the bytes of their cells, and the others what they held. -/
  registers_eq : ∀ k, m'.registers.get k = if k ≤ x then m.byteAt k.val else m.registers.get k
  /-- Memory is as before. -/
  memory_eq : m'.memory = m.memory
  /-- The index register points past the cells. -/
  index_eq : m'.registers.index = (m.registers.index + x.val + 1) % 65536

/-- There are as many bytes to store as there are registers up to `Vx`. -/
theorem length_take_bank (b : Bank) (x : Register) :
    (b.toList.take (x.val + 1)).length = x + 1 := by
  rw [List.length_take, Vector.length_toList]
  exact Nat.min_eq_left x.isLt

/-- The bytes to store are those of the registers. -/
theorem getD_take_bank (b : Bank) {k x : Register} (hk : k ≤ x) :
    (b.toList.take (x.val + 1)).getD k.val 0 = b.get k := by
  rw [List.getD_eq_getElem?_getD, List.getElem?_take_of_lt (Nat.lt_succ_of_le hk),
    List.getElem?_eq_getElem (by rw [Vector.length_toList]; exact k.isLt), Option.getD_some,
    Vector.getElem_toList]
  rfl

/-- Registers are stored in their cells. -/
theorem WellFormed.exists_spilled (h : m.WellFormed) (x : Register) :
    ∃ m', m.perform (.store x) = .ok m' ∧ m.Spilled x m' := by
  have hlen := length_take_bank m.registers.v x
  have hle : (m.registers.v.toList.take (x.val + 1)).length ≤ 4096 := by
    rw [hlen]
    exact Nat.le_trans x.isLt (by decide)
  obtain ⟨memory, hm, hs⟩ := h.exists_stored hle
  rw [Machine.perform, hm]
  refine ⟨_, rfl, ?_, ?_, hs.size_eq, rfl⟩
  · intro k hk
    have hlt : k.val < (m.registers.v.toList.take (x.val + 1)).length := by
      rw [hlen]
      exact Nat.lt_succ_of_le hk
    exact (hs.stored k.val hlt).trans (getD_take_bank _ hk)
  · intro a ha
    apply hs.others a
    intro k hk
    have hle : k ≤ x.val := Nat.le_of_lt_succ (Nat.lt_of_lt_of_eq hk hlen)
    exact ha ⟨k, Nat.lt_of_le_of_lt hle x.isLt⟩ hle

/-- A bank that holds the bytes of the cells fills the registers. -/
theorem filled_copyUpTo {b : Bank} {x : Register} (hb : ∀ k ≤ x, b.get k = m.byteAt k.val) :
    m.Filled x ((m.mapRegisters fun r ↦ { r with v := r.v.copyUpTo b x }).advanceIndex x) where
  registers_eq k := by
    refine (get_copyUpTo m.registers.v b x k).trans ?_
    split
    case isTrue hk => exact hb k hk
    case isFalse => rfl
  memory_eq := by rw [advanceIndex, setIndex, mapRegisters, mapRegisters]
  index_eq := by rw [advanceIndex, setIndex, mapRegisters, mapRegisters]

/-- Registers are loaded from their cells. -/
theorem WellFormed.exists_filled (h : m.WellFormed) (x : Register) :
    ∃ m', m.perform (.load x) = .ok m' ∧ m.Filled x m' := by
  refine ⟨_, h.perform_load x, filled_copyUpTo ?_⟩
  intro k hk
  exact (Vector.getElem_ofFn k.isLt).trans (m.getD_loaded (Nat.lt_succ_of_le hk))

/-! ## Words -/

/-- The low byte of a word of the last group says what is done with `Vx`. -/
theorem decode_transfer (hw : w.group = 0xF) :
    (w.nn = 0x55 → Instruction.decode w = .store w.x) ∧
    (w.nn = 0x65 → Instruction.decode w = .load w.x) := by
  have hd : Instruction.decode w = Instruction.decodeMisc w := by
    rw [Instruction.decode, hw]
    rfl
  rw [hd, Instruction.decodeMisc]
  constructor
  all_goals
    intro hn
    rw [hn]
    rfl

/-- A word that stores registers meets no fault. -/
theorem WellFormed.spilled_execute (h : m.WellFormed) (hw : w.group = 0xF ∧ w.nn = 0x55) :
    (m.execute w).2 = none ∧ m.Spilled w.x (m.execute w).1 := by
  obtain ⟨lines, ht⟩ := m.exists_trace_eq w
  obtain ⟨n, hn, hs⟩ := (h.trace w).exists_spilled w.x
  rw [Machine.execute, (decode_transfer hw.1).1 hw.2, hn]
  rw [ht] at hs
  exact ⟨rfl, { hs with }⟩

/-- A word that loads registers meets no fault. -/
theorem WellFormed.filled_execute (h : m.WellFormed) (hw : w.group = 0xF ∧ w.nn = 0x65) :
    (m.execute w).2 = none ∧ m.Filled w.x (m.execute w).1 := by
  obtain ⟨lines, ht⟩ := m.exists_trace_eq w
  obtain ⟨n, hn, hs⟩ := (h.trace w).exists_filled w.x
  rw [Machine.execute, (decode_transfer hw.1).2 hw.2, hn]
  rw [ht] at hs
  exact ⟨rfl, { hs with }⟩

/-! ## There and back -/

/-- The machine with other bytes in its registers and another number in its index register. -/
def refill (m : Machine) (v : Bank) (index : Int) : Machine :=
  m.mapRegisters fun r ↦ { r with v, index }

/-- Registers may be refilled, and the index register may go back to where it pointed. -/
theorem WellFormed.refill (hn : n.WellFormed) (h : m.WellFormed) (v : Bank) :
    (n.refill v m.registers.index).WellFormed :=
  hn.mapRegisters ⟨h.registers.index, hn.registers.capacity, hn.registers.stack⟩

/-- What was stored is loaded, from where it was stored. -/
theorem Spilled.registers_of_filled {x : Register} {v : Bank} {n' : Machine}
    (hs : m.Spilled x n) (hf : (n.refill v m.registers.index).Filled x n') (k : Register) :
    n'.registers.get k = if k ≤ x then m.registers.get k else v.get k := by
  rw [hf.registers_eq k]
  split
  case isTrue hk => exact hs.cells k hk
  case isFalse => rfl

/-- What was loaded is stored where it lay. -/
theorem Filled.memory_of_spilled {x : Register} {n' : Machine} (h : m.WellFormed)
    (hf : m.Filled x n) (hs : (n.setIndex m.registers.index).Spilled x n') :
    n'.memory = m.memory := by
  have hmem : (n.setIndex m.registers.index).memory = m.memory := hf.memory_eq
  have hsize : n'.memory.size = m.memory.size := hs.size_eq.trans (congrArg Memory.size hmem)
  refine Memory.ext_of_getD (hsize.trans h.memory) h.memory ?_
  intro a
  by_cases ha : ∃ k ≤ x, a = m.cell k.val
  · obtain ⟨k, hk, rfl⟩ := ha
    refine (hs.cells k hk).trans ((hf.registers_eq k).trans ?_)
    rw [if_pos hk, byteAt]
  · rw [hs.others a fun k hk he ↦ ha ⟨k, hk, he⟩, hmem]

/-- Storing registers and loading them are inverse to each other, wherever the index register
points.

Storing `V0` … `Vx` changes no byte but those of the `x + 1` cells.  Whatever is in the registers
after that, once the index register points there again, loading brings `V0` … `Vx` back and leaves
the others alone.  Loading registers and storing them again, to where they were loaded from, leaves
memory as it was.  Each time the index register moves on by `x + 1`.  The cells have different
addresses, also where they wrap around the end of memory.  Nothing of this meets a fault. -/
theorem transfers_inverse (h : m.WellFormed) {store load : Word}
    (hstore : store.group = 0xF ∧ store.nn = 0x55) (hload : load.group = 0xF ∧ load.nn = 0x65)
    (hx : load.x = store.x) :
    let next := (m.registers.index + store.x.val + 1) % 65536
    (∃ n, m.execute store = (n, none) ∧ n.registers.index = next ∧
      (∀ a : Address, (∀ k ≤ store.x, a ≠ m.cell k.val) →
        n.memory.bytes.getD a.toNat 0 = m.memory.bytes.getD a.toNat 0) ∧
      ∀ v : Bank, ∃ n', (n.refill v m.registers.index).execute load = (n', none) ∧
        n'.registers.index = next ∧
        ∀ k, n'.registers.get k = if k ≤ store.x then m.registers.get k else v.get k) ∧
    (∃ n, m.execute load = (n, none) ∧ n.registers.index = next ∧
      ∃ n', (n.setIndex m.registers.index).execute store = (n', none) ∧
        n'.registers.index = next ∧ n'.memory = m.memory) ∧
    ∀ j ≤ store.x, ∀ k ≤ store.x, m.cell j.val = m.cell k.val → j = k := by
  intro next
  refine ⟨?_, ?_, ?_⟩
  · obtain ⟨hnone, hs⟩ := h.spilled_execute hstore
    refine ⟨_, Prod.ext rfl hnone, hs.index_eq, hs.others, ?_⟩
    intro v
    obtain ⟨hnone', hf⟩ := ((h.execute store).refill h v).filled_execute hload
    rw [hx] at hf
    exact ⟨_, Prod.ext rfl hnone', hf.index_eq, hs.registers_of_filled hf⟩
  · obtain ⟨hnone, hf⟩ := h.filled_execute hload
    rw [hx] at hf
    have hn : ((m.execute load).1.setIndex m.registers.index).WellFormed :=
      (h.execute load).setIndex h.registers.index.1 h.registers.index.2
    obtain ⟨hnone', hs⟩ := hn.spilled_execute hstore
    exact ⟨_, Prod.ext rfl hnone, hf.index_eq, _, Prod.ext rfl hnone', hs.index_eq,
      hf.memory_of_spilled h hs⟩
  · intro j _ k _ he
    have hlt : ∀ k : Register, k.val < 4096 := fun k ↦ Nat.lt_of_lt_of_le k.isLt (by decide)
    exact Fin.ext (m.cell_inj (hlt j) (hlt k) he)

/-- A machine whose registers hold their own numbers.  Its index register points to the last byte
but one of memory, and has room for one number more only. -/
def overhanging : Machine where
  registers := { index := 0xFFFE, v := Vector.ofFn fun k ↦ UInt8.ofNat k.val }
  random := .cycle [] []

/-- Four registers go around the end of memory and come back, and so does the index register. -/
theorem transfers_inverse_overhanging :
    (∃ n n', overhanging.execute 0xF355 = (n, none) ∧ n.registers.index = 2 ∧
      (n.refill Bank.blank 0xFFFE).execute 0xF365 = (n', none) ∧ n'.registers.get 3 = 3 ∧
      n'.registers.get 4 = 0) ∧
    ∃ n n', overhanging.execute 0xF365 = (n, none) ∧
      (n.setIndex 0xFFFE).execute 0xF355 = (n', none) ∧ n'.memory = Font.memory 4096 := by
  have h : overhanging.WellFormed := wellFormed_new ⟨by decide, rfl, by decide⟩
  obtain ⟨⟨n, hn, hi, -, hback⟩, ⟨l, hl, -, l', hl', -, hm⟩, -⟩ :=
    @transfers_inverse overhanging h 0xF355 0xF365 (by decide) (by decide) (by decide)
  obtain ⟨n', hn', -, hk⟩ := hback Bank.blank
  refine ⟨⟨n, n', hn, hi, hn', ?_, ?_⟩, l, l', hl, hl', hm⟩
  · rw [hk 3]
    decide
  · rw [hk 4]
    decide

end Machine

end SuperChip
