import SuperChip.Memory.Holder
import SuperChip.Proofs.Memory

/-!
# Changes are made as a whole or not at all

Whatever is put in a memory, wherever and however much it is, all of it is there afterwards and no
other byte has changed, or nothing has changed at all.  Only the upper end of a memory is looked at
beforehand; below it, that nothing is written in part rests on how spans are read.  A span that
begins before the first byte or that reaches from the end of the memory over to its start is shorter
than what is put there, and then it is refused.

The same holds in place, where the bytes, the size and the last location are set one after the
other: a fault comes before the first of them is set.
-/

namespace SuperChip

namespace Memory

variable {capacity : Capacity} {m m' : Memory} {location : Int}

/-! ## Room -/

/-- There is room for a memory of this size: one can be made. -/
def HasRoom (capacity : Capacity) (m : Memory) : Prop :=
  ∃ size made, ofSize size capacity = .ok made ∧ made.size = m.size

theorem ofSize_eq_ok_iff {size : Int} : ofSize size capacity = .ok m ↔
    ∃ n : Nat, size = n ∧ size < capacity.exhausted ∧ m = blank n := by
  rw [ofSize]
  cases h : Capacity.store size capacity with
  | ok n =>
    obtain ⟨rfl, hlt⟩ := Capacity.store_eq_ok_iff.mp h
    constructor
    · intro he
      cases he
      exact ⟨n, rfl, hlt, rfl⟩
    · rintro ⟨k, hk, -, rfl⟩
      rw [Int.natCast_inj.mp hk]
      rfl
  | error f =>
    refine iff_of_false nofun ?_
    rintro ⟨n, hn, hlt, -⟩
    cases h.symm.trans (Capacity.store_eq_ok_iff.mpr ⟨hn, hlt⟩)

theorem hasRoom_iff : m.HasRoom capacity ↔ (m.size : Int) < capacity.exhausted := by
  constructor
  · rintro ⟨size, made, h, hsize⟩
    obtain ⟨n, rfl, hlt, rfl⟩ := ofSize_eq_ok_iff.mp h
    rwa [← hsize, size_blank]
  · intro h
    exact ⟨m.size, blank m.size, ofSize_eq_ok_iff.mpr ⟨m.size, rfl, h, rfl⟩, size_blank _⟩

/-! ## Written blocks -/

/-- `m'` is `m` with a block at a location.  The whole block is there, and no other byte has
changed. -/
structure Written (location : Int) (block : List UInt8) (m m' : Memory) : Prop where
  /-- The size is the same. -/
  size_eq : m'.size = m.size
  /-- Each byte of the block has its place, counted on from that of the location. -/
  written : ∀ (k : Nat) (_ : k < block.length), ∃ (i : Nat) (_ : i < m'.bytes.size),
    (i : Int) = m.place location + k ∧ m'.bytes[i] = block[k]
  /-- Everywhere else are the bytes that were there. -/
  others : ∀ i : Nat, (∀ k < block.length, (i : Int) ≠ m.place location + k) →
    m'.bytes[i]? = m.bytes[i]?

section Overwrite

variable {bytes : Array UInt8} {start : Nat} {block : List UInt8}

/-- What lies before or beyond the part that is written over is left alone. -/
theorem getElem?_overwrite_of_outside {i : Nat} (h : i < start ∨ start + block.length ≤ i) :
    (overwrite bytes start block)[i]? = bytes[i]? := by
  induction block generalizing bytes start with
  | nil => rfl
  | cons b block ih =>
    rw [List.length_cons] at h
    rw [overwrite, ih (by omega), Array.getElem?_setIfInBounds_ne (by omega)]

/-- In the part that is written over are the bytes that were written. -/
theorem getElem?_overwrite_add (h : start + block.length ≤ bytes.size) {k : Nat}
    (hk : k < block.length) : (overwrite bytes start block)[start + k]? = some block[k] := by
  induction block generalizing bytes start k with
  | nil => exact absurd hk (Nat.not_lt_zero k)
  | cons b block ih =>
    rw [List.length_cons] at h hk
    rw [overwrite]
    cases k with
    | zero =>
      rw [getElem?_overwrite_of_outside (.inl (by omega))]
      exact Array.getElem?_setIfInBounds_self_of_lt (by omega)
    | succ k =>
      rw [← Nat.add_assoc, Nat.add_right_comm]
      exact ih (by rw [Array.size_setIfInBounds]; omega) (by omega)

end Overwrite

/-- A block that is written over the bytes from the place of a location on is there. -/
theorem written_overwrite {block : List UInt8} {start : Nat}
    (hstart : (start : Int) = m.place location) (h : start + block.length ≤ m.size) :
    m.Written location block ⟨overwrite m.bytes start block⟩ where
  size_eq := size_overwrite _ _ _
  written k hk := by
    obtain ⟨hi, hbyte⟩ := Array.getElem?_eq_some_iff.mp (getElem?_overwrite_add h hk)
    exact ⟨start + k, hi, by omega, hbyte⟩
  others i hi := by
    apply getElem?_overwrite_of_outside
    rcases Nat.lt_or_ge i start with hlt | hge
    · exact .inl hlt
    · refine .inr (Nat.not_lt.mp fun hlt ↦ ?_)
      exact hi (i - start) (by omega) (by omega)

/-- An empty block is written wherever it is put. -/
theorem written_nil (m : Memory) (location : Int) : m.Written location [] m :=
  ⟨rfl, fun k hk ↦ absurd hk (Nat.not_lt_zero k), fun _ _ ↦ rfl⟩

theorem written_of_write {value : Int} (h : m.write location value = .ok m') :
    m.Written location [UInt8.ofNat value.toNat] m' := by
  obtain ⟨-, ⟨h0, hlt⟩, rfl⟩ := write_eq_ok_iff.mp h
  have hplace : 0 ≤ m.place location ∧ m.place location < m.size := by
    rw [place]
    split <;> omega
  exact written_overwrite (Int.toNat_of_nonneg hplace.1) (by rw [List.length_singleton]; omega)

theorem written_of_writeBlock {block : List UInt8} (h : m.writeBlock location block = .ok m') :
    m.Written location block m' := by
  obtain ⟨⟨hend, hspan⟩, rfl⟩ := writeBlock_eq_ok_iff.mp h
  rcases List.eq_nil_or_concat block with rfl | ⟨block, b, rfl⟩
  · exact m.written_nil location
  · rw [List.length_concat] at hend hspan
    have hplace : (bound m.size location : Int) = m.place location ∧
        m.place location + block.length < m.size := by
      rw [bound, place]
      split <;> omega
    exact written_overwrite hplace.1 (by rw [List.length_concat]; omega)

/-! ## Requests to put bytes somewhere -/

namespace Put

/-- There is a place for what shall be put. -/
def Fits (m : Memory) : Put → Prop
  | byte location _ => 0 ≤ location + m.size ∧ location < m.size
  | block location bytes => m.SpanFits location bytes.length
  | zeros location count => m.SpanFits location count

/-- There is room for what has to be made before it is put: zeros, of which there may be as many as
there are bytes. -/
def HasRoom (capacity : Capacity) (m : Memory) : Put → Prop
  | zeros _ _ => m.HasRoom capacity
  | _ => True

variable {p : Put}

/-- What is put somewhere is written there. -/
theorem written_of_result (h : p.result capacity m = .ok m') :
    p.OfBytes ∧ p.bytes.length = p.length ∧ m.Written p.location p.bytes m' := by
  cases p with
  | byte location value => exact ⟨(write_eq_ok_iff.mp h).1, rfl, written_of_write h⟩
  | block location bytes => exact ⟨trivial, rfl, written_of_writeBlock h⟩
  | zeros location count =>
    obtain ⟨n, rfl, -, h⟩ := zeroBlock_eq_ok_iff.mp h
    exact ⟨trivial, by rw [bytes, List.length_replicate]; rfl, written_of_writeBlock h⟩

/-- What is put somewhere has its place. -/
theorem fits_of_result (h : p.result capacity m = .ok m') : p.Fits m := by
  cases p with
  | byte location value => exact (write_eq_ok_iff.mp h).2.1
  | block location bytes => exact (writeBlock_eq_ok_iff.mp h).1
  | zeros location count =>
    obtain ⟨n, rfl, -, h⟩ := zeroBlock_eq_ok_iff.mp h
    have hfits := (writeBlock_eq_ok_iff.mp h).1
    rwa [List.length_replicate] at hfits

/-- Bytes that have their place are put there. -/
theorem exists_result (hp : p.HasRoom capacity m) (hbytes : p.OfBytes) (h0 : 0 ≤ p.length)
    (h : p.Fits m) : ∃ m', p.result capacity m = .ok m' := by
  cases p with
  | byte location value => exact ⟨_, write_eq_ok_iff.mpr ⟨hbytes, h, rfl⟩⟩
  | block location bytes => exact ⟨_, writeBlock_eq_ok_iff.mpr ⟨h, rfl⟩⟩
  | zeros location count =>
    obtain ⟨n, rfl⟩ := Int.eq_ofNat_of_zero_le h0
    -- What has its place in memory is no more than memory.
    have hroom : (n : Int) < capacity.exhausted := by
      obtain ⟨hend, hspan⟩ := h
      have hm := hasRoom_iff.mp hp
      omega
    refine ⟨_, zeroBlock_eq_ok_iff.mpr ⟨n, rfl, hroom, writeBlock_eq_ok_iff.mpr ⟨?_, rfl⟩⟩⟩
    rw [List.length_replicate]
    exact h

theorem fits_iff_of_nonneg (h0 : 0 ≤ p.location) (hlength : 0 < p.length) :
    p.Fits m ↔ p.location + p.length ≤ m.size := by
  cases p <;> simp only [Fits, SpanFits, location, length] at * <;> omega

/-- Nothing is put from before the first byte on, or from the end of memory over to its start. -/
theorem not_fits_of_across (hneg : p.location < 0) (hlength : 0 < p.length)
    (hacross : p.location + m.size < 0 ∨ 0 < p.location + p.length) : ¬ p.Fits m := by
  cases p <;> simp only [Fits, SpanFits, location, length] at * <;> omega

/-- What ends past the last byte is refused. -/
theorem result_of_past (h : m.size < p.location + p.length) :
    p.result capacity m = .error (.memoryOverflow (p.location + p.length - 1) m.size) := by
  have hpast : m.check (p.location + p.length - 1) = _ := check_of_past (by omega)
  cases p with
  | byte location value =>
    have hlast : (byte location value).location + (byte location value).length - 1 = location :=
      Int.add_sub_cancel location 1
    rw [hlast] at hpast ⊢
    rw [result, write, hpast]
    rfl
  | block location bytes =>
    rw [result, writeBlock]
    exact congrArg (· >>= _) hpast
  | zeros location count =>
    rw [result, zeroBlock]
    exact congrArg (· >>= _) hpast

end Put

/-- What has been changed has room again. -/
theorem HasRoom.of_result (hm : m.HasRoom capacity) {c : Change}
    (h : c.result capacity m = .ok m') : m'.HasRoom capacity := by
  cases c with
  | put p =>
    obtain ⟨-, -, hwritten⟩ := Put.written_of_result h
    rwa [HasRoom, hwritten.size_eq]
  | resize size => exact ⟨size, m', h, rfl⟩

end Memory

/-! ## In place -/

namespace Holder

variable {m m' : Memory}

/-- What becomes of the holder of a memory: it holds a result, and a fault leaves it alone. -/
def settled (m : Memory) : Except Fault Memory → EStateM.Result Fault Holder Unit
  | .ok m' => .ok () (.of m')
  | .error f => .error f (.of m)

/-- If the size stays as it is, a holder has to set nothing but the bytes. -/
theorem of_eq_of_size_eq (h : m'.size = m.size) :
    of m' = { of m with bytes := m'.bytes } := by
  rw [of, of, Memory.top, Memory.top, h]

theorem run_ofExcept {α : Type} (x : Except Fault α) (h : Holder) :
    (MonadExcept.ofExcept x : EStateM Fault Holder α).run h =
      match x with
      | .ok a => .ok a h
      | .error f => .error f h := by
  cases x <;> rfl

theorem run_check (m : Memory) (location : Int) :
    (check location).run (.of m) =
      match m.check location with
      | .ok _ => .ok () (.of m)
      | .error f => .error f (.of m) := by
  rw [check, EStateM.run_bind, EStateM.run_get, Memory.check]
  change EStateM.run (if m.top < location then _ else _) _ = _
  split <;> rfl

theorem run_setByte (m : Memory) (position value : Int) :
    (setByte position value).run (.of m) = settled m
      (match position? m.size position with
      | none => .error .indexOutOfRange
      | some k => do
        let b ← byte? value
        return ⟨m.bytes.setIfInBounds k b⟩) := by
  rw [setByte, EStateM.run_bind, EStateM.run_get]
  change EStateM.run (match position? m.size position with | none => _ | some k => _) _ = _
  cases position? m.size position with
  | none => rfl
  | some k =>
    simp only
    rw [EStateM.run_bind, run_ofExcept]
    cases byte? value with
    | error f => rfl
    | ok b => exact congrArg (EStateM.Result.ok ()) (of_eq_of_size_eq Array.size_setIfInBounds).symm

theorem run_setSpan (m : Memory) (location size : Int) (block : List UInt8) :
    (setSpan location (location + size) block).run (.of m) = settled m
      (if m.spanLength location size = block.length then
        .ok ⟨Memory.overwrite m.bytes (bound m.size location) block⟩
      else .error .lengthMismatch) := by
  rw [setSpan, EStateM.run_bind, EStateM.run_get]
  change EStateM.run (if m.spanLength location size = block.length then _ else _) _ = _
  split
  · exact congrArg (EStateM.Result.ok ()) (of_eq_of_size_eq (Memory.size_overwrite _ _ _)).symm
  · rfl

/-- What is put in place comes to what is put in memory. -/
theorem run_put (capacity : Capacity) (m : Memory) (p : Memory.Put) :
    (put capacity p).run (.of m) = settled m (p.result capacity m) := by
  cases p with
  | byte location value =>
    rw [put, Memory.Put.result, Memory.write, EStateM.run_bind, run_check]
    cases m.check location with
    | error f => rfl
    | ok _ => exact run_setByte m location value
  | block location bytes =>
    rw [put, Memory.Put.result, Memory.writeBlock, EStateM.run_bind, run_check]
    cases m.check (location + bytes.length - 1) with
    | error f => rfl
    | ok _ => exact run_setSpan m location bytes.length bytes
  | zeros location count =>
    rw [put, Memory.Put.result, Memory.zeroBlock, EStateM.run_bind, run_check]
    cases m.check (location + count - 1) with
    | error f => rfl
    | ok _ =>
      simp only
      rw [EStateM.run_bind, run_ofExcept]
      cases Capacity.block count capacity with
      | error f => rfl
      | ok room =>
        have h := run_setSpan m location count (List.replicate room 0)
        rw [List.length_replicate] at h
        exact h

/-- A change in place comes to the change of the memory. -/
theorem run_change (capacity : Capacity) (m : Memory) (c : Memory.Change) :
    (change capacity c).run (.of m) = settled m (c.result capacity m) := by
  cases c with
  | put p => exact run_put capacity m p
  | resize size =>
    rw [change, resize, Memory.Change.result, Memory.ofSize, EStateM.run_bind, run_ofExcept]
    cases h : Capacity.store size capacity with
    | error f => rfl
    | ok n =>
      obtain ⟨rfl, -⟩ := Capacity.store_eq_ok_iff.mp h
      have hof : of (.blank n) = ⟨Array.replicate n 0, n, n - 1⟩ := by
        rw [of, Memory.top, Memory.size_blank]
        rfl
      exact congrArg (EStateM.Result.ok ()) hof.symm

end Holder

/-! ## Whole or not at all -/

namespace Memory

/-- A change of a memory is made as a whole or not at all.

Whatever is asked for, in place there is either a fault, and bytes, size and last location are all
as they were, or they are those of the memory that the change comes to.  What is put somewhere is
there, all of it, and no other byte has changed.  From a location that is not negative, bytes are
put exactly if they end within the memory, and what ends past it is refused, with the last of its
locations.  From a negative one, a block is refused that begins before the first byte or reaches
over to the start of the memory.

This holds of every host, however much room it has.  Only zeros need room, as they are made before
they are put. -/
theorem changed_whole_or_not_at_all (capacity : Capacity) (m : Memory) :
    (∀ c : Change,
      (∃ f, c.result capacity m = .error f ∧
        (Holder.change capacity c).run (.of m) = .error f (.of m)) ∨
      ∃ m', c.result capacity m = .ok m' ∧
        (Holder.change capacity c).run (.of m) = .ok () (.of m') ∧
        (m.HasRoom capacity → m'.HasRoom capacity)) ∧
    (∀ (p : Put) (m' : Memory), p.result capacity m = .ok m' →
      p.OfBytes ∧ p.bytes.length = p.length ∧ m.Written p.location p.bytes m') ∧
    (∀ p : Put, p.HasRoom capacity m → 0 ≤ p.location → 0 < p.length → p.OfBytes →
      ((∃ m', p.result capacity m = .ok m') ↔ p.location + p.length ≤ m.size)) ∧
    (∀ p : Put, m.size < p.location + p.length →
      p.result capacity m = .error (.memoryOverflow (p.location + p.length - 1) m.size)) ∧
    ∀ p : Put, p.location < 0 → 0 < p.length →
      p.location + m.size < 0 ∨ 0 < p.location + p.length →
      ∃ f, p.result capacity m = .error f := by
  refine ⟨fun c ↦ ?_, fun p m' ↦ Put.written_of_result, fun p hp h0 hlength hbytes ↦ ?_,
    fun p ↦ Put.result_of_past, fun p hneg hlength hacross ↦ ?_⟩
  · rw [Holder.run_change]
    cases h : c.result capacity m with
    | error f => exact .inl ⟨f, rfl, rfl⟩
    | ok m' => exact .inr ⟨m', rfl, rfl, fun hm ↦ hm.of_result h⟩
  · rw [← Put.fits_iff_of_nonneg h0 hlength]
    refine ⟨?_, Put.exists_result hp hbytes (Int.le_of_lt hlength)⟩
    rintro ⟨m', h⟩
    exact Put.fits_of_result h
  · cases h : p.result capacity m with
    | error f => exact ⟨f, rfl⟩
    | ok m' => exact absurd (Put.fits_of_result h) (Put.not_fits_of_across hneg hlength hacross)

/-- Five bytes. -/
def five : Memory := ⟨#[1, 2, 3, 4, 5]⟩

/-- Of five bytes, two zeros from the third one on are put there.  A block that would run from the
last two bytes over to the first is refused as a whole, and so is one past the end. -/
theorem changed_whole_or_not_at_all_five :
    five.HasRoom .usual ∧
      (∃ m', (Holder.change .usual (.put (.zeros 2 2))).run (.of five) = .ok () (.of m') ∧
        five.Written 2 [0, 0] m') ∧
      (∃ f, (Holder.change .usual (.put (.block (-2) [6, 7, 8]))).run (.of five) =
        .error f (.of five)) ∧
      (Holder.change .usual (.put (.block 4 [6, 7]))).run (.of five) =
        .error (.memoryOverflow 5 5) (.of five) := by
  have hroom : five.HasRoom .usual := ⟨5, blank 5, rfl, rfl⟩
  obtain ⟨hwhole, hwritten, hput, hpast, hacross⟩ := changed_whole_or_not_at_all .usual five
  refine ⟨hroom, ?_, ?_, ?_⟩
  · obtain ⟨m', hm'⟩ := (hput (.zeros 2 2) hroom (by decide) (by decide) trivial).mpr (by decide)
    rcases hwhole (.put (.zeros 2 2)) with ⟨f, hf, -⟩ | ⟨n, hn, hrun, -⟩
    · cases hm'.symm.trans hf
    · cases hm'.symm.trans hn
      exact ⟨m', hrun, (hwritten _ _ hm').2.2⟩
  · obtain ⟨f, hf⟩ := hacross (.block (-2) [6, 7, 8]) (by decide) (by decide) (by decide)
    rcases hwhole (.put (.block (-2) [6, 7, 8])) with ⟨f', -, hrun⟩ | ⟨m', hm', -⟩
    · exact ⟨f', hrun⟩
    · cases hf.symm.trans hm'
  · have hf := hpast (.block 4 [6, 7]) (by decide)
    rcases hwhole (.put (.block 4 [6, 7])) with ⟨f', hf', hrun⟩ | ⟨m', hm', -⟩
    · cases hf.symm.trans hf'
      exact hrun
    · cases hf.symm.trans hm'

end Memory

end SuperChip
