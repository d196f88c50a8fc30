import SuperChip.Memory

/-!
# Accesses to memory

Writing and blanking come to a result exactly if there is a place for what is written, and then to a
plain operation on arrays; locations may be of either sign.  At those within memory, reading,
writing and blanking cannot fail.  The last part is about memories that hold a picture: each of
their bytes is that of a pixel, off or on, and what is done to a display keeps them so.
-/

namespace SuperChip

/-- A computation that comes to a result has come through its first part. -/
theorem exists_of_bind_ok {α β : Type} {x : Except Fault α} {f : α → Except Fault β} {b : β}
    (h : x >>= f = .ok b) : ∃ a, x = .ok a ∧ f a = .ok b := by
  cases x with
  | error e => cases h
  | ok a => exact ⟨a, rfl, h⟩

/-- A computation comes to a result exactly if its first part does, and the rest after that. -/
theorem bind_eq_ok_iff {α β : Type} {x : Except Fault α} {f : α → Except Fault β} {b : β} :
    x >>= f = .ok b ↔ ∃ a, x = .ok a ∧ f a = .ok b := by
  refine ⟨exists_of_bind_ok, ?_⟩
  rintro ⟨a, rfl, h⟩
  exact h

/-- A computation that fails has failed in its first part, or after it. -/
theorem error_of_bind_error {α β : Type} {x : Except Fault α} {f : α → Except Fault β} {e : Fault}
    (h : x >>= f = .error e) : x = .error e ∨ ∃ a, x = .ok a ∧ f a = .error e := by
  cases x with
  | error e' =>
    cases h
    exact .inl rfl
  | ok a => exact .inr ⟨a, rfl, h⟩

/-! ## Room -/

namespace Capacity

variable {c : Capacity} {size : Int} {n : Nat}

theorem room_eq_ok_iff {k : Nat} : c.room k = .ok n ↔ k = n ∧ k < c.exhausted := by
  rw [room]
  split
  case isTrue h => exact ⟨fun he ↦ ⟨Except.ok.inj he, h⟩, fun he ↦ congrArg Except.ok he.1⟩
  case isFalse h => simp [h]

/-- There is room for a store exactly if its size is not negative and memory is not exhausted. -/
theorem store_eq_ok_iff : store size c = .ok n ↔ size = n ∧ size < c.exhausted := by
  constructor
  · intro h
    obtain ⟨-, -, h⟩ := exists_of_bind_ok h
    split at h
    · cases h
    · obtain ⟨rfl, hlt⟩ := room_eq_ok_iff.mp h
      omega
  · rintro ⟨rfl, hlt⟩
    refine bind_eq_ok_iff.mpr ⟨(), checkSize_natCast hlt, ?_⟩
    rw [if_neg (by omega), Int.toNat_natCast]
    exact room_eq_ok_iff.mpr ⟨rfl, hlt⟩

/-- A block can be asked for exactly if there is room for a store of its size. -/
theorem block_eq_ok_iff : block size c = .ok n ↔ size = n ∧ size < c.exhausted := by
  constructor
  · intro h
    obtain ⟨-, -, h⟩ := exists_of_bind_ok h
    split at h
    · cases h
    · split at h
      · cases h
      · obtain ⟨rfl, hlt⟩ := room_eq_ok_iff.mp h
        omega
  · rintro ⟨rfl, hlt⟩
    have hbounded := c.bounded
    refine bind_eq_ok_iff.mpr ⟨(), checkSize_natCast hlt, ?_⟩
    rw [if_neg (by omega), if_neg (by omega), Int.toNat_natCast]
    exact room_eq_ok_iff.mpr ⟨rfl, hlt⟩

end Capacity

namespace Memory

variable {c : Capacity} {m m' : Memory} {location : Int}

/-! ## What operations come to -/

/-- The place that a location stands for: one that is negative counts from the end. -/
def place (m : Memory) (location : Int) : Int :=
  if location < 0 then location + m.size else location

/-- All locations up to the last byte pass the check, those that are negative as well. -/
theorem check_eq_ok_iff : m.check location = .ok () ↔ location < m.size := by
  rw [check, top]
  split
  · exact iff_of_false nofun (by omega)
  · exact iff_of_true rfl (by omega)

/-- A location past the last byte is refused. -/
theorem check_of_past (h : m.size ≤ location) :
    m.check location = .error (.memoryOverflow location m.size) := by
  rw [check, top, if_pos (by omega)]

/-- There is a place for `count` bytes at a location.  They end within memory; besides, they are
none, or the location is not negative, or both of their bounds count from the end. -/
def SpanFits (m : Memory) (location count : Int) : Prop :=
  location + count ≤ m.size ∧
    (count = 0 ∨ 0 ≤ location ∨ (0 ≤ location + m.size ∧ location + count < 0))

/-- A span that ends within memory is as long as it was asked for if there is a place for it. -/
theorem spanLength_eq_iff {n : Nat} (h : location + n ≤ m.size) :
    m.spanLength location n = n ↔ m.SpanFits location n := by
  rw [spanLength, bound, bound, SpanFits]
  split <;> split <;> omega

/-- A block is written exactly if there is a place for it. -/
theorem writeBlock_eq_ok_iff {block : List UInt8} : m.writeBlock location block = .ok m' ↔
    m.SpanFits location block.length ∧
      m' = ⟨overwrite m.bytes (bound m.size location) block⟩ := by
  rw [writeBlock]
  by_cases hend : location + block.length ≤ m.size
  · rw [check_eq_ok_iff.mpr (by omega), ← spanLength_eq_iff hend]
    simp only [bind, Except.bind]
    split
    case isTrue h => simp [h, pure, Except.pure, eq_comm]
    case isFalse h => simp [h]
  · rw [check_of_past (by omega)]
    exact iff_of_false nofun fun h ↦ hend h.1.1

/-- Blanking comes to writing zeros, if there is room for as many. -/
theorem zeroBlock_eq_ok_iff {size : Int} : m.zeroBlock location size c = .ok m' ↔
    ∃ n : Nat, size = n ∧ size < c.exhausted ∧
      m.writeBlock location (List.replicate n 0) = .ok m' := by
  constructor
  · intro h
    obtain ⟨_, hcheck, h⟩ := exists_of_bind_ok h
    obtain ⟨n, hn, h⟩ := exists_of_bind_ok h
    obtain ⟨rfl, hlt⟩ := Capacity.block_eq_ok_iff.mp hn
    refine ⟨n, rfl, hlt, ?_⟩
    rw [writeBlock, List.length_replicate, hcheck]
    exact h
  · rintro ⟨n, rfl, hlt, h⟩
    rw [writeBlock, List.length_replicate] at h
    obtain ⟨_, hcheck, h⟩ := exists_of_bind_ok h
    rw [zeroBlock, hcheck, Capacity.block_eq_ok_iff.mpr ⟨rfl, hlt⟩]
    exact h

/-- A byte is written exactly if it is one and the location is that of a byte. -/
theorem write_eq_ok_iff {value : Int} : m.write location value = .ok m' ↔
    (0 ≤ value ∧ value ≤ 255) ∧ (0 ≤ location + m.size ∧ location < m.size) ∧
      m' = ⟨m.bytes.setIfInBounds (m.place location).toNat (UInt8.ofNat value.toNat)⟩ := by
  constructor
  · intro h
    obtain ⟨_, hcheck, h⟩ := exists_of_bind_ok h
    split at h
    · cases h
    next k hk =>
      obtain ⟨b, hb, h⟩ := exists_of_bind_ok h
      obtain ⟨hvalue, rfl⟩ := byte?_eq_ok_iff.mp hb
      obtain ⟨hplace, hlt⟩ := position?_eq_some_iff.mp hk
      cases h
      refine ⟨hvalue, ⟨?_, check_eq_ok_iff.mp hcheck⟩, ?_⟩
      · split at hplace <;> omega
      · rw [place, hplace, Int.toNat_natCast]
  · rintro ⟨hvalue, ⟨h0, hlt⟩, rfl⟩
    have hk : position? m.size location = some (m.place location).toNat := by
      rw [position?_eq_some_iff, place]
      split <;> omega
    rw [write, check_eq_ok_iff.mpr hlt, hk]
    simp only [bind, Except.bind]
    rw [byte?_eq_ok_iff.mpr ⟨hvalue, rfl⟩]
    rfl

/-! ## Locations within memory -/

/-- Reading within memory gives the byte that lies there. -/
theorem read_natCast {k : Nat} (h : k < m.bytes.size) : m.read k = .ok m.bytes[k] := by
  rw [read, size, position?_natCast h, Option.bind_some, Array.getElem?_eq_getElem h]

/-- Writing within memory replaces the byte that lies there. -/
theorem write_natCast {k : Nat} (h : k < m.size) (b : UInt8) :
    m.write k b.toNat = .ok ⟨m.bytes.setIfInBounds k b⟩ := by
  rw [write, check_eq_ok_iff.mpr (Int.ofNat_lt.mpr h), position?_natCast h]
  simp only [byte?_toNat]
  rfl

/-- Blanking a block within memory overwrites it with zeros.  In a memory that is no larger than
that of a display there is room for it, whatever the host. -/
theorem zeroBlock_natCast {start count : Nat} (h : start + count ≤ m.size)
    (hm : m.size ≤ 128 * 64) :
    m.zeroBlock start count c =
      .ok ⟨overwrite m.bytes start (List.replicate count 0)⟩ := by
  have hroom : (count : Int) < c.exhausted := by
    have := c.sufficient
    omega
  refine zeroBlock_eq_ok_iff.mpr ⟨count, rfl, hroom, writeBlock_eq_ok_iff.mpr ⟨?_, ?_⟩⟩
  · rw [List.length_replicate, SpanFits]
    omega
  · rw [bound_natCast (by omega)]

/-- A block that is written leaves the size as it was. -/
theorem size_of_writeBlock {block : List UInt8} (h : m.writeBlock location block = .ok m') :
    m'.size = m.size := by
  obtain ⟨-, rfl⟩ := writeBlock_eq_ok_iff.mp h
  exact size_overwrite _ _ _

/-! ## Pictures -/

/-- Each byte is that of a pixel: `0x00` for off or `0xFF` for on. -/
def IsPicture (m : Memory) : Prop := ∀ b ∈ m.bytes, b = 0x00 ∨ b = 0xFF

/-- A blank memory is a blank picture. -/
theorem isPicture_blank (n : Nat) : (blank n).IsPicture := by
  intro b hb
  exact .inl (Array.eq_of_mem_replicate hb)

/-- Putting a pixel in a picture leaves a picture. -/
theorem IsPicture.setIfInBounds {m : Memory} (h : m.IsPicture) (k : Nat) {b : UInt8}
    (hb : b = 0x00 ∨ b = 0xFF) : IsPicture ⟨m.bytes.setIfInBounds k b⟩ := by
  intro c hc
  rcases Array.mem_or_eq_of_mem_setIfInBounds hc with hc | rfl
  · exact h c hc
  · exact hb

/-- Blanking a part of a picture leaves a picture. -/
theorem IsPicture.overwrite_zeros {m : Memory} (h : m.IsPicture) (start count : Nat) :
    IsPicture ⟨overwrite m.bytes start (List.replicate count 0)⟩ := by
  induction count generalizing m start with
  | zero => exact h
  | succ count ih =>
    rw [List.replicate_succ, overwrite]
    exact ih (h.setIfInBounds start (.inl rfl)) (start + 1)

/-- Moving the pixels of a picture leaves a picture. -/
theorem IsPicture.shift {m : Memory} (h : m.IsPicture) (offset : Int) :
    (m.shift offset).IsPicture := by
  intro b hb
  obtain ⟨k, rfl⟩ := Array.mem_ofFn.mp hb
  split
  case isTrue =>
    cases hg : m.bytes[((k : Int) - offset).toNat]? with
    | none => exact h _ (Array.getElem_mem k.isLt)
    | some c => exact h c (Array.mem_of_getElem? hg)
  case isFalse => exact h _ (Array.getElem_mem k.isLt)

/-- A flipped pixel is a pixel. -/
theorem IsPicture.flip {m : Memory} (h : m.IsPicture) {k : Nat} (hk : k < m.bytes.size) :
    m.bytes[k] ^^^ 0xFF = 0x00 ∨ m.bytes[k] ^^^ 0xFF = 0xFF := by
  rcases h _ (Array.getElem_mem hk) with hb | hb <;> rw [hb]
  · exact .inr rfl
  · exact .inl rfl

end Memory

end SuperChip
