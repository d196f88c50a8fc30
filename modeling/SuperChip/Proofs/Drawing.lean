import Mathlib.Data.List.Nodup
import SuperChip.Proofs.Pixels
import SuperChip.Proofs.Step

/-!
# Drawing a sprite

A sprite is drawn by flipping a pixel for each of its set bits.  As it has no more columns and rows
than the screen, no two of its bits lie on the same pixel, even where it wraps around an edge.  So
each pixel with a bit on it is flipped once, whatever the order, and the others are left alone.

The bits are given by the bytes that the index register points to, not by the list of cells that is
drawn: `SpriteBit` says which they are in both formats, and that list is shown to have each of them
once.
-/

namespace SuperChip

/-! ## The cells of a sprite -/

namespace Sprite

variable {s : Sprite}

/-- The columns of a row are those of its set bits. -/
theorem mem_columns {width bits c : Nat} :
    c ∈ columns width bits ↔ c < width ∧ bits.testBit (width - 1 - c) := by
  rw [columns, List.mem_filter, List.mem_range]

/-- No column of a row is listed twice. -/
theorem nodup_columns (width bits : Nat) : (columns width bits).Nodup := List.nodup_range.filter _

/-- A cell of a sprite is a set bit in one of its rows. -/
theorem mem_cells {c r : Nat} :
    (c, r) ∈ s.cells ↔ ∃ bits, s.rows[r]? = some bits ∧ c < s.width ∧
      bits.testBit (s.width - 1 - c) := by
  rw [cells, List.mem_flatMap]
  constructor
  · rintro ⟨⟨bits, row⟩, hrow, hc⟩
    obtain ⟨column, hcolumn, heq⟩ := List.mem_map.mp hc
    cases heq
    exact ⟨bits, List.mem_zipIdx_iff_getElem?.mp hrow, mem_columns.mp hcolumn⟩
  · rintro ⟨bits, hrow, hc⟩
    exact ⟨(bits, r), List.mem_zipIdx_iff_getElem?.mpr hrow,
      List.mem_map.mpr ⟨c, mem_columns.mpr hc, rfl⟩⟩

/-- No cell of a sprite is listed twice. -/
theorem nodup_cells (s : Sprite) : s.cells.Nodup := by
  rw [cells, List.nodup_flatMap]
  constructor
  · intro r _
    exact (nodup_columns _ _).map fun c c' h ↦ congrArg Prod.fst h
  · -- Cells of different rows are different.
    have hrows : s.rows.zipIdx.Pairwise fun a b ↦ a.2 ≠ b.2 := by
      rw [← List.pairwise_map, List.zipIdx_map_snd]
      exact List.nodup_range'
    refine hrows.imp ?_
    intro a b hne cell ha hb
    obtain ⟨c, -, rfl⟩ := List.mem_map.mp ha
    obtain ⟨c', -, heq⟩ := List.mem_map.mp hb
    exact hne (congrArg Prod.snd heq).symm

end Sprite

namespace Display

variable {d : Display}

/-- The cells of a sprite that is no larger than sixteen by sixteen lie on different pixels. -/
theorem nodup_locations (d : Display) (x y : Nat) {s : Sprite} (hwidth : s.width ≤ 16)
    (hrows : s.rows.length ≤ 16) :
    ((s.cells.map fun cell ↦ (((x + cell.1 : Nat) : Int), ((y + cell.2 : Nat) : Int))).map
      fun cell ↦ d.location cell.1 cell.2).Nodup := by
  rw [List.map_map]
  refine s.nodup_cells.map_on ?_
  rintro ⟨c, r⟩ hcell ⟨c', r'⟩ hcell' hloc
  obtain ⟨bits, hbits, hc, -⟩ := Sprite.mem_cells.mp hcell
  obtain ⟨bits', hbits', hc', -⟩ := Sprite.mem_cells.mp hcell'
  have hr : r < s.rows.length := (List.getElem?_eq_some_iff.mp hbits).1
  have hr' : r' < s.rows.length := (List.getElem?_eq_some_iff.mp hbits').1
  obtain ⟨hx, hy⟩ := location_eq_iff.mp hloc
  change ((x + c : Nat) : Int) % d.width = ((x + c' : Nat) : Int) % d.width at hx
  change ((y + r : Nat) : Int) % d.height = ((y + r' : Nat) : Int) % d.height at hy
  rw [Prod.mk.injEq]
  rcases d.size_cases with ⟨hw, hh⟩ | ⟨hw, hh⟩ <;> rw [hw] at hx <;> rw [hh] at hy <;> omega

end Display

namespace Machine

variable {m : Machine} {w : Word}

/-! ## The sprite in memory -/

/-- The sprite of `rows` rows that the index register points to has a set bit in a column and a row.
One of no rows has, in high resolution, sixteen rows of two bytes each; otherwise a row is a byte.
-/
def SpriteBit (m : Machine) (rows : Fin 16) (column row : Nat) : Prop :=
  if rows = 0 ∧ m.display.high then
    (column < 16 ∧ row < 16) ∧
      (m.byteAt (2 * row + column / 8)).toNat.testBit (7 - column % 8)
  else (column < 8 ∧ row < rows.val) ∧ (m.byteAt row).toNat.testBit (7 - column)

instance (m : Machine) (rows : Fin 16) (column row : Nat) :
    Decidable (m.SpriteBit rows column row) := by
  unfold SpriteBit
  infer_instance

/-- The bits of a row of two bytes. -/
theorem testBit_pair (m : Machine) (row : Nat) {c : Nat} (hc : c < 16) :
    ((m.byteAt (2 * row)).toNat * 256 + (m.byteAt (2 * row + 1)).toNat).testBit (15 - c) =
      (m.byteAt (2 * row + c / 8)).toNat.testBit (7 - c % 8) := by
  rw [Nat.mul_comm, show 256 = 2 ^ 8 from rfl,
    Nat.testBit_two_pow_mul_add _ (m.byteAt (2 * row + 1)).toNat_lt]
  by_cases h : c < 8
  · have hdiv : c / 8 = 0 := by omega
    have hbit : 15 - c - 8 = 7 - c % 8 := by omega
    rw [if_neg (by omega), hdiv, hbit, Nat.add_zero]
  · have hdiv : c / 8 = 1 := by omega
    have hbit : 15 - c = 7 - c % 8 := by omega
    rw [if_pos (by omega), hdiv, hbit]

/-- The sprite that is drawn has a cell for each set bit in memory, and no other. -/
theorem WellFormed.exists_sprite_cells (h : m.WellFormed) (rows : Fin 16) :
    ∃ s, m.sprite rows = .ok s ∧ s.width ≤ 16 ∧ s.rows.length ≤ 16 ∧
      ∀ c r, (c, r) ∈ s.cells ↔ m.SpriteBit rows c r := by
  rw [sprite]
  by_cases hbig : rows = 0 ∧ m.display.high
  · rw [if_pos hbig, h.loadCells_eq]
    refine ⟨_, rfl, Nat.le_refl 16, by simp, fun c r ↦ ?_⟩
    rw [Sprite.mem_cells, SpriteBit, if_pos hbig]
    constructor
    · rintro ⟨bits, hbits, hc, htest⟩
      obtain ⟨hr, rfl⟩ := getElem?_table.mp hbits
      rw [m.getD_loaded (by omega), m.getD_loaded (by omega)] at htest
      exact ⟨⟨hc, hr⟩, (m.testBit_pair r hc).symm.trans htest⟩
    · rintro ⟨⟨hc, hr⟩, htest⟩
      refine ⟨_, getElem?_table.mpr ⟨hr, rfl⟩, hc, ?_⟩
      rw [m.getD_loaded (by omega), m.getD_loaded (by omega)]
      exact (m.testBit_pair r hc).trans htest
  · rw [if_neg hbig, h.loadCells_eq]
    refine ⟨_, rfl, by simp, by simp, fun c r ↦ ?_⟩
    rw [Sprite.mem_cells, SpriteBit, if_neg hbig, List.map_map]
    constructor
    · rintro ⟨bits, hbits, hc, htest⟩
      obtain ⟨hr, rfl⟩ := getElem?_table.mp hbits
      exact ⟨⟨hc, hr⟩, htest⟩
    · rintro ⟨⟨hc, hr⟩, htest⟩
      exact ⟨_, getElem?_table.mpr ⟨hr, rfl⟩, hc, htest⟩

/-! ## Drawing it -/

/-- A set bit of the sprite, given by its column and its row, lies on the pixel in a column and a
row of the screen when the word draws the sprite. -/
def Hits (m : Machine) (w : Word) (bit : Nat × Nat) (x y : Int) : Prop :=
  m.SpriteBit w.n bit.1 bit.2 ∧
    x = ((m.get w.x).toNat + bit.1) % m.display.width ∧
    y = ((m.get w.y).toNat + bit.2) % m.display.height

instance (m : Machine) (w : Word) (bit : Nat × Nat) (x y : Int) :
    Decidable (m.Hits w bit x y) := by
  unfold Hits
  infer_instance

/-- The sprite lies on a pixel of the screen if one of its set bits does. -/
def Covers (m : Machine) (w : Word) (x y : Int) : Prop := ∃ bit, m.Hits w bit x y

/-- Set bits lie on the screen. -/
theorem Hits.onScreen {bit : Nat × Nat} {x y : Int} (h : m.Hits w bit x y) :
    m.display.OnScreen x y := by
  obtain ⟨-, rfl, rfl⟩ := h
  rcases m.display.size_cases with ⟨hw, hh⟩ | ⟨hw, hh⟩ <;> rw [Display.OnScreen, hw, hh] <;> omega

/-- No sprite has more than sixteen columns or rows. -/
theorem SpriteBit.lt {rows : Fin 16} {c r : Nat} (h : m.SpriteBit rows c r) : c < 16 ∧ r < 16 := by
  rw [SpriteBit] at h
  split at h <;> omega

/-- It is enough to look for a bit in sixteen columns and rows. -/
theorem covers_iff {x y : Int} :
    m.Covers w x y ↔ ∃ c : Fin 16, ∃ r : Fin 16, m.Hits w (c, r) x y := by
  constructor
  · rintro ⟨⟨c, r⟩, hhit⟩
    exact ⟨⟨c, hhit.1.lt.1⟩, ⟨r, hhit.1.lt.2⟩, hhit⟩
  · rintro ⟨c, r, hhit⟩
    exact ⟨(c, r), hhit⟩

instance (m : Machine) (w : Word) (x y : Int) : Decidable (m.Covers w x y) :=
  decidable_of_iff _ covers_iff.symm

/-- Only one bit lies on a pixel. -/
theorem Hits.unique {bit bit' : Nat × Nat} {x y : Int} (h : m.Hits w bit x y)
    (h' : m.Hits w bit' x y) : bit = bit' := by
  obtain ⟨c, r⟩ := bit
  obtain ⟨c', r'⟩ := bit'
  obtain ⟨hbit, rfl, rfl⟩ := h
  obtain ⟨hbit', hx, hy⟩ := h'
  have hlt := hbit.lt
  have hlt' := hbit'.lt
  rw [Prod.mk.injEq]
  rcases m.display.size_cases with ⟨hw, hh⟩ | ⟨hw, hh⟩ <;> rw [hw] at hx <;> rw [hh] at hy <;> omega

/-- A bit lies on the pixel at whose location it is drawn. -/
theorem location_eq_iff_of_onScreen {x y : Int} (hxy : m.display.OnScreen x y) (c r : Nat) :
    m.display.location ((m.get w.x).toNat + c : Nat) ((m.get w.y).toNat + r : Nat) =
        m.display.location x y ↔
      x = ((m.get w.x).toNat + c) % m.display.width ∧
        y = ((m.get w.y).toNat + r) % m.display.height := by
  rw [Display.location_eq_iff, Int.emod_eq_of_lt hxy.1.1 hxy.1.2,
    Int.emod_eq_of_lt hxy.2.1 hxy.2.2, Int.natCast_add, Int.natCast_add, eq_comm,
    @eq_comm _ _ y]

/-- A bit that lies on a pixel flips that one. -/
theorem Hits.pixelAt_eq {c r : Nat} {x y : Int} (h : m.Hits w (c, r) x y) :
    m.display.pixelAt ((m.get w.x).toNat + c : Nat) ((m.get w.y).toNat + r : Nat) =
      m.display.pixelAt x y := by
  rw [Display.pixelAt, (location_eq_iff_of_onScreen h.onScreen c r).mpr h.2, Display.pixelAt]

/-- A set bit lies on the pixel of its place, which wraps around. -/
theorem SpriteBit.hits {c r : Nat} (h : m.SpriteBit w.n c r) :
    m.Hits w (c, r) (((m.get w.x).toNat + c) % m.display.width)
      (((m.get w.y).toNat + r) % m.display.height) := ⟨h, rfl, rfl⟩

/-- Drawing the sprite flips the pixels that it lies on, and tells whether one of them was on. -/
theorem WellFormed.exists_drawn (h : m.WellFormed) (w : Word) :
    ∃ s d collided locations, m.sprite w.n = .ok s ∧
      m.display.draw (m.get w.x).toNat (m.get w.y).toNat s = .ok (d, collided) ∧
      m.display.Flipped locations d ∧ d.WellFormed ∧
      (locations ≠ [] ↔ ∃ c r, m.SpriteBit w.n c r) ∧
      (∀ x y, m.display.OnScreen x y →
        (m.display.location x y ∈ locations ↔ m.Covers w x y)) ∧
      (collided = true ↔ ∃ x y, m.Covers w x y ∧ m.display.pixelAt x y = 0xFF) := by
  obtain ⟨s, hs, hwidth, hrows, hbits⟩ := h.exists_sprite_cells w.n
  have hnodup := m.display.nodup_locations (m.get w.x).toNat (m.get w.y).toNat hwidth hrows
  obtain ⟨d, collided, hd, hflip, hcol⟩ := h.display.sized.exists_toggleAll hnodup
  obtain ⟨d', collided', hd', hwf⟩ := h.display.exists_toggleAll (s.cells.map fun cell ↦
    ((((m.get w.x).toNat + cell.1 : Nat) : Int), (((m.get w.y).toNat + cell.2 : Nat) : Int)))
  rw [hd] at hd'
  cases hd'
  refine ⟨s, d, collided, _, hs, hd, hflip, hwf, ?_, ?_, ?_⟩
  · rw [List.map_map, ne_eq, List.map_eq_nil_iff]
    constructor
    · intro hne
      obtain ⟨⟨c, r⟩, hcell⟩ := List.exists_mem_of_ne_nil _ hne
      exact ⟨c, r, (hbits c r).mp hcell⟩
    · rintro ⟨c, r, hbit⟩
      exact List.ne_nil_of_mem ((hbits c r).mpr hbit)
  · intro x y hxy
    rw [List.map_map, List.mem_map]
    constructor
    · rintro ⟨⟨c, r⟩, hcell, hloc⟩
      exact ⟨(c, r), (hbits c r).mp hcell, (location_eq_iff_of_onScreen hxy c r).mp hloc⟩
    · rintro ⟨⟨c, r⟩, hbit, hplace⟩
      exact ⟨(c, r), (hbits c r).mpr hbit, (location_eq_iff_of_onScreen hxy c r).mpr hplace⟩
  · rw [hcol]
    constructor
    · rintro ⟨place, hplace, hon⟩
      obtain ⟨⟨c, r⟩, hcell, rfl⟩ := List.mem_map.mp hplace
      have hhit := ((hbits c r).mp hcell).hits
      exact ⟨_, _, ⟨_, hhit⟩, hhit.pixelAt_eq.symm.trans hon⟩
    · rintro ⟨x, y, ⟨⟨c, r⟩, hhit⟩, hon⟩
      have hcell := (hbits c r).mpr hhit.1
      exact ⟨_, List.mem_map.mpr ⟨(c, r), hcell, rfl⟩, hhit.pixelAt_eq.trans hon⟩

/-- A word of group thirteen draws a sprite. -/
theorem decode_of_group (hw : w.group = 0xD) : Instruction.decode w = .draw w.x w.y w.n := by
  rw [Instruction.decode, hw]
  rfl

/-- Drawing a sprite leaves the display that it is drawn on, and the flag of its collision. -/
theorem exists_execute_draw_eq (hw : w.group = 0xD) {s : Sprite} {d : Display} {collided : Bool}
    (hs : m.sprite w.n = .ok s)
    (hd : m.display.draw (m.get w.x).toNat (m.get w.y).toNat s = .ok (d, collided)) :
    ∃ lines : List String, m.execute w =
      (setFlag { m with display := d, log := lines.map .trace ++ m.log } collided, none) := by
  obtain ⟨lines, ht⟩ := m.exists_trace_eq w
  have hs' : (m.trace w).sprite w.n = .ok s := by
    rw [ht]
    exact hs
  have hd' : (m.trace w).display.draw ((m.trace w).get w.x).toNat ((m.trace w).get w.y).toNat s =
      .ok (d, collided) := by
    rw [ht]
    exact hd
  have hp : (m.trace w).perform (.draw w.x w.y w.n) =
      .ok (setFlag { m.trace w with display := d } collided) := by
    rw [perform, hs']
    simp only [bind, Except.bind]
    rw [hd']
    rfl
  refine ⟨lines, ?_⟩
  rw [execute, decode_of_group hw, hp, ht]

/-- Drawing draws exactly the sprite.

On a well-formed machine it meets no fault and changes the display and `VF` only, but for the trace.
A pixel that a set bit of the sprite lies on is flipped, and there is one such bit only; any other
pixel on the screen is left as it was.  `VF` is one if a pixel was switched off, and zero if none
was.  The display is noticed if the sprite has a set bit.  The place of the sprite is that which the
registers hold before, even if one of them is `VF`. -/
theorem execute_draw (h : m.WellFormed) (hw : w.group = 0xD) :
    ∃ (d : Display) (collided : Bool) (lines : List String),
      m.execute w =
        ({ m with
          display := d
          registers := { m.registers with
            v := m.registers.v.set 15 (if collided then 1 else 0) }
          log := lines.map .trace ++ m.log }, none) ∧
      d.WellFormed ∧ d.high = m.display.high ∧ d.observed = m.display.observed ∧
      (d.dirty = true ↔ m.display.dirty = true ∨ ∃ c r, m.SpriteBit w.n c r) ∧
      (∀ x y, m.display.OnScreen x y →
        (m.Covers w x y → d.pixelAt x y = m.display.pixelAt x y ^^^ 0xFF ∧
          ∃! bit, m.Hits w bit x y) ∧
        (¬ m.Covers w x y → d.pixelAt x y = m.display.pixelAt x y)) ∧
      (collided = true ↔ ∃ x y, m.Covers w x y ∧ m.display.pixelAt x y ≠ 0) := by
  obtain ⟨s, d, collided, locations, hs, hd, hflip, hwf, hnone, hmem, hcol⟩ := h.exists_drawn w
  obtain ⟨lines, he⟩ := exists_execute_draw_eq hw hs hd
  refine ⟨d, collided, lines, he, hwf, hflip.high_eq, hflip.observed_eq, ?_, ?_, ?_⟩
  · rw [hflip.dirty_eq, ← hnone]
    simp
  · intro x y hxy
    rw [hflip.pixelAt_eq]
    constructor
    · rintro ⟨bit, hhit⟩
      rw [if_pos ((hmem x y hxy).mpr ⟨bit, hhit⟩)]
      exact ⟨rfl, bit, hhit, fun bit' hhit' ↦ hhit'.unique hhit⟩
    · intro hfree
      rw [if_neg fun hloc ↦ hfree ((hmem x y hxy).mp hloc)]
  · rw [hcol]
    simp only [h.display.pixelAt_ne_zero_iff]

/-- A machine about to draw the glyph of zero in the last columns and rows, with one pixel on in the
first column of the third row. -/
def cornered : Machine where
  random := .cycle [] []
  registers := { v := (Bank.blank.set 0 62).set 1 30 }
  display := { pixels := ⟨(Memory.blank (64 * 32)).bytes.setIfInBounds (2 * 64) 0xFF⟩ }

/-- The glyph wraps around both edges, switches that pixel off, and tells so. -/
theorem execute_draw_cornered : ∃ (d : Display) (lines : List String),
    cornered.execute 0xD015 =
      ({ cornered with
        display := d
        registers := { cornered.registers with v := cornered.registers.v.set 15 1 }
        log := lines.map .trace }, none) ∧
    d.pixelAt 62 30 = 0xFF ∧ d.pixelAt 0 2 = 0 := by
  have hdisplay : cornered.display.WellFormed := by
    refine ⟨?_, (Memory.isPicture_blank _).setIfInBounds _ (.inr rfl)⟩
    rw [cornered, Memory.size, Array.size_setIfInBounds]
    exact Memory.size_blank _
  have h : cornered.WellFormed :=
    ⟨size_fontMemory, ⟨by decide, rfl, by decide⟩, hdisplay, zero_range, zero_range⟩
  have hfirst : cornered.Covers 0xD015 62 30 := ⟨(0, 0), by decide +kernel⟩
  have hlast : cornered.Covers 0xD015 0 2 := ⟨(2, 4), by decide +kernel⟩
  obtain ⟨d, collided, lines, he, -, -, -, -, hpix, hcol⟩ := execute_draw h (w := 0xD015) rfl
  have hcollided : collided = true := hcol.mpr ⟨0, 2, hlast, by decide +kernel⟩
  subst hcollided
  refine ⟨d, lines, ?_, ?_, ?_⟩
  · rw [he]
    exact congrArg (fun log ↦ (({ cornered with
      display := d
      registers := { cornered.registers with v := cornered.registers.v.set 15 1 }
      log } : Machine), none)) (List.append_nil _)
  · rw [((hpix 62 30 hfirst.choose_spec.onScreen).1 hfirst).1]
    decide +kernel
  · rw [((hpix 0 2 hlast.choose_spec.onScreen).1 hlast).1]
    decide +kernel

end Machine

end SuperChip
