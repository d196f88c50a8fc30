import Mathlib.Logic.Function.Iterate
import SuperChip.Proofs.Drawing

/-!
# Drawings on top of each other

A pixel is flipped by each sprite that is drawn on it, and what was there before makes no
difference to that.  So the picture that is left by some drawings depends on how many of them lie on
each pixel, or rather on whether that number is odd: their order does not matter, and two equal ones
may be left out.

A program draws by pointing to the sprite, putting its place in two registers and executing the word
that draws.  A `Stamp` is all of that.
-/

namespace SuperChip

/-- A sprite about to be drawn. -/
structure Stamp where
  /-- Where the index register is to point. -/
  index : Int
  /-- The word that draws. -/
  word : Word
  /-- The column to draw at. -/
  column : UInt8
  /-- The row to draw at. -/
  row : UInt8
  /-- The index register has sixteen bits. -/
  index_range : 0 ≤ index ∧ index ≤ 0xFFFF
  /-- The word draws. -/
  group_eq : word.group = 0xD
  /-- The column is not put in `VF`. -/
  x_ne : word.x ≠ 15
  /-- The row is not put in `VF`. -/
  y_ne : word.y ≠ 15

/-- The byte of a pixel that was flipped. -/
def flipped (b : UInt8) : UInt8 := b ^^^ 0xFF

/-- A pixel that is flipped twice is as it was. -/
theorem flipped_flipped (b : UInt8) : flipped (flipped b) = b := by
  rw [flipped, flipped, UInt8.xor_assoc, UInt8.xor_self, UInt8.xor_zero]

/-- It matters whether a pixel is flipped an odd number of times. -/
theorem iterate_flipped_mod_two (n : Nat) (b : UInt8) : flipped^[n % 2] b = flipped^[n] b := by
  have htwo : flipped^[2] = id := funext flipped_flipped
  conv_rhs => rw [← Nat.mod_add_div n 2, Function.iterate_add_apply, Function.iterate_mul, htwo,
    Function.iterate_id, id]

namespace Machine

/-- The machine when the word of a stamp is about to be executed. -/
def aim (m : Machine) (s : Stamp) : Machine :=
  ((m.setIndex s.index).set s.word.x s.column).set s.word.y s.row

/-- Draws a stamp. -/
def stamp (m : Machine) (s : Stamp) : Except Fault Machine :=
  match (m.aim s).execute s.word with
  | (m, none) => .ok m
  | (_, some f) => .error f

/-- Draws some stamps, one after the other. -/
def stampAll (m : Machine) (l : List Stamp) : Except Fault Machine := l.foldlM stamp m

/-- A stamp lies on a pixel of the screen. -/
def Inks (m : Machine) (s : Stamp) (x y : Int) : Prop := (m.aim s).Covers s.word x y

instance (m : Machine) (s : Stamp) (x y : Int) : Decidable (m.Inks s x y) := by
  unfold Inks
  infer_instance

/-- The number of stamps that lie on a pixel of the screen. -/
def layers (m : Machine) (l : List Stamp) (x y : Int) : Nat := l.countP fun s ↦ m.Inks s x y

/-- `m'` is `m` after each pixel on the screen was flipped as often as stamps lie on it. -/
structure Inked (l : List Stamp) (m m' : Machine) : Prop where
  /-- Still well formed. -/
  wellFormed : m'.WellFormed
  /-- Memory is the same. -/
  memory_eq : m'.memory = m.memory
  /-- The resolution is the same. -/
  high_eq : m'.display.high = m.display.high
  /-- Pixels are flipped once for each of the stamps that lie on them. -/
  pixelAt_eq : ∀ x y, m.display.OnScreen x y →
    m'.display.pixelAt x y = flipped^[m.layers l x y] (m.display.pixelAt x y)

variable {m m' n n' : Machine} {s : Stamp} {l l' : List Stamp}

/-! ## Aiming -/

/-- A machine that is about to draw is well formed. -/
theorem WellFormed.aim (h : m.WellFormed) (s : Stamp) : (m.aim s).WellFormed :=
  ((h.setIndex s.index_range.1 s.index_range.2).set s.word.x s.column).set s.word.y s.row

/-- A stamp is put at its row and its column, or twice at its row if there is one register for
both. -/
theorem get_aim (m : Machine) (s : Stamp) :
    (m.aim s).get s.word.x = (if s.word.y = s.word.x then s.row else s.column) ∧
      (m.aim s).get s.word.y = s.row := by
  refine ⟨?_, Registers.get_set_self _ _ _⟩
  split
  case isTrue hyx =>
    rw [← hyx]
    exact Registers.get_set_self _ _ _
  case isFalse hyx => exact (Registers.get_set_of_ne _ _ hyx).trans (Registers.get_set_self _ _ _)

/-- Putting the byte of a register in it changes nothing. -/
theorem set_get_self (m : Machine) (x : Register) : m.set x (m.get x) = m :=
  congrArg (fun v ↦ m.mapRegisters fun r ↦ { r with v }) (Vector.set_getElem_self x.isLt)

/-- Putting a byte in a register replaces one that was put there before. -/
theorem set_set_self (m : Machine) (x : Register) (a b : UInt8) :
    (m.set x a).set x b = m.set x b :=
  congrArg (fun v ↦ m.mapRegisters fun r ↦ { r with v }) (Vector.set_set a x.isLt)

/-- A machine that aims at the place of a stamp is not changed by aiming. -/
theorem aim_eq_self (hi : m.registers.index = s.index)
    (hx : m.get s.word.x = if s.word.y = s.word.x then s.row else s.column)
    (hy : m.get s.word.y = s.row) : m.aim s = m := by
  have hindex : m.setIndex s.index = m := by
    rw [← hi]
    rfl
  rw [aim, hindex]
  split at hx
  case isTrue hyx => rw [hyx, set_set_self, ← hx, set_get_self]
  case isFalse => rw [← hx, set_get_self, ← hy, set_get_self]

/-- What a stamp lies on depends on memory and on the resolution. -/
theorem inks_congr (hm : m'.memory = m.memory) (hh : m'.display.high = m.display.high) {x y : Int} :
    m'.Inks s x y ↔ m.Inks s x y := by
  have hbyte : (m'.aim s).byteAt = (m.aim s).byteAt := by
    funext k
    change m'.memory.bytes.getD _ 0 = m.memory.bytes.getD _ 0
    rw [hm]
    rfl
  have hbit : (m'.aim s).SpriteBit = (m.aim s).SpriteBit := by
    funext rows c r
    rw [SpriteBit, SpriteBit, hbyte]
    change (if rows = 0 ∧ m'.display.high then _ else _) = _
    rw [hh]
    rfl
  have hwidth : (m'.aim s).display.width = (m.aim s).display.width := by
    change m'.display.width = m.display.width
    rw [Display.width, Display.width, hh]
  have hheight : (m'.aim s).display.height = (m.aim s).display.height := by
    change m'.display.height = m.display.height
    rw [Display.height, Display.height, hh]
  have hhits : (m'.aim s).Hits s.word = (m.aim s).Hits s.word := by
    funext bit x y
    rw [Hits, Hits, hbit, hwidth, hheight, (m'.get_aim s).1, (m'.get_aim s).2, (m.get_aim s).1,
      (m.get_aim s).2]
  rw [Inks, Inks, Covers, Covers, hhits]

/-! ## Stamping -/

/-- A word that draws flips the pixels that its sprite lies on, says in `VF` whether one of them was
on, and leaves what the sprite was drawn from as it was. -/
theorem WellFormed.exists_execute_draw (h : m.WellFormed) {w : Word} (hw : w.group = 0xD) :
    ∃ n, m.execute w = (n, none) ∧ n.WellFormed ∧ n.memory = m.memory ∧
      n.registers.index = m.registers.index ∧ (∀ k, k ≠ 15 → n.get k = m.get k) ∧
      n.display.high = m.display.high ∧
      (∀ x y, m.display.OnScreen x y → n.display.pixelAt x y =
        if m.Covers w x y then flipped (m.display.pixelAt x y) else m.display.pixelAt x y) ∧
      (n.get 15 = 1 ↔ ∃ x y, m.Covers w x y ∧ m.display.pixelAt x y = 0xFF) := by
  obtain ⟨s, d, collided, locations, hs, hd, hflip, hwf, -, hmem, hcol⟩ := h.exists_drawn w
  obtain ⟨lines, he⟩ := exists_execute_draw_eq hw hs hd
  refine ⟨_, he, ?_, rfl, rfl, ?_, hflip.high_eq, ?_, ?_⟩
  · exact WellFormed.setFlag (m := { m with display := d, log := lines.map .trace ++ m.log })
      ⟨h.memory, h.registers, hwf, h.delay, h.sound⟩ collided
  · intro k hk
    exact Registers.get_set_of_ne _ _ (Ne.symm hk)
  · intro x y hxy
    refine (hflip.pixelAt_eq x y).trans ?_
    simp only [hmem x y hxy, flipped]
  · rw [← hcol, ← flag_eq_one_iff]
    exact Iff.of_eq (congrArg (· = 1) (Registers.get_set_self _ _ _))

/-- The layers of a single stamp. -/
theorem layers_singleton (m : Machine) (s : Stamp) (x y : Int) :
    m.layers [s] x y = if m.Inks s x y then 1 else 0 := by
  rw [layers, List.countP_singleton]
  simp only [decide_eq_true_eq]

/-- Drawing a stamp flips the pixels that it lies on, and leaves the machine aiming at its place. -/
theorem WellFormed.exists_stamp (h : m.WellFormed) (s : Stamp) :
    ∃ n, m.stamp s = .ok n ∧ m.Inked [s] n ∧ n.aim s = n ∧
      (n.get 15 = 1 ↔ ∃ x y, m.Inks s x y ∧ m.display.pixelAt x y = 0xFF) := by
  obtain ⟨n, he, hwf, hmem, hindex, hget, hhigh, hpix, hflag⟩ :=
    (h.aim s).exists_execute_draw s.group_eq
  refine ⟨n, by rw [stamp, he], ⟨hwf, hmem, hhigh, ?_⟩, ?_, hflag⟩
  · intro x y hxy
    refine (hpix x y hxy).trans ?_
    rw [layers_singleton]
    by_cases hink : m.Inks s x y
    · rw [if_pos hink]
      exact if_pos hink
    · rw [if_neg hink]
      exact if_neg hink
  · exact aim_eq_self hindex ((hget _ s.x_ne).trans (m.get_aim s).1)
      ((hget _ s.y_ne).trans (m.get_aim s).2)

/-! ## Stamping on top of each other -/

/-- The layers of some stamps and of others add up. -/
theorem layers_append (m : Machine) (l l' : List Stamp) (x y : Int) :
    m.layers (l ++ l') x y = m.layers l x y + m.layers l' x y := List.countP_append

/-- The order of stamps makes no difference to their layers. -/
theorem layers_perm (m : Machine) (hl : l.Perm l') (x y : Int) :
    m.layers l x y = m.layers l' x y := hl.countP_eq _

/-- Layers depend on memory and on the resolution. -/
theorem layers_congr (hm : m'.memory = m.memory) (hh : m'.display.high = m.display.high)
    (l : List Stamp) (x y : Int) : m'.layers l x y = m.layers l x y := by
  rw [layers, layers]
  simp only [inks_congr hm hh]

/-- Where no stamp is drawn, nothing is flipped. -/
theorem WellFormed.inked_nil (h : m.WellFormed) : m.Inked [] m :=
  ⟨h, rfl, rfl, fun _ _ _ ↦ rfl⟩

/-- Stamps are drawn after others. -/
theorem Inked.append (h : m.Inked l n) (h' : n.Inked l' n') : m.Inked (l ++ l') n' where
  wellFormed := h'.wellFormed
  memory_eq := h'.memory_eq.trans h.memory_eq
  high_eq := h'.high_eq.trans h.high_eq
  pixelAt_eq x y hxy := by
    rw [h'.pixelAt_eq x y ((Display.onScreen_congr h.high_eq).mpr hxy), h.pixelAt_eq x y hxy,
      layers_congr h.memory_eq h.high_eq, layers_append, Nat.add_comm,
      Function.iterate_add_apply]

/-- Stamps can be drawn, one after the other. -/
theorem WellFormed.exists_stampAll (h : m.WellFormed) (l : List Stamp) :
    ∃ n, m.stampAll l = .ok n ∧ m.Inked l n := by
  induction l generalizing m with
  | nil => exact ⟨m, rfl, h.inked_nil⟩
  | cons s l ih =>
    obtain ⟨n, hn, hs, -⟩ := h.exists_stamp s
    obtain ⟨n', hn', hl⟩ := ih hs.wellFormed
    refine ⟨n', ?_, hs.append hl⟩
    rw [stampAll, List.foldlM_cons, hn]
    exact hn'

/-- Stamps of which as many lie on each pixel, up to an even number, leave the same picture. -/
theorem Inked.pixels_eq (h : m.Inked l n) (h' : m.Inked l' n')
    (hl : ∀ x y, m.layers l x y % 2 = m.layers l' x y % 2) :
    n'.display.pixels = n.display.pixels := by
  have hhigh := h'.high_eq.trans h.high_eq.symm
  refine h.wellFormed.display.sized.pixels_ext h'.wellFormed.display.sized hhigh ?_
  intro x y hxy
  have hxy := (Display.onScreen_congr h.high_eq).mp hxy
  rw [h.pixelAt_eq x y hxy, h'.pixelAt_eq x y hxy, ← iterate_flipped_mod_two, ← hl,
    iterate_flipped_mod_two]

/-- A sprite with a set bit lies on some pixel. -/
theorem exists_inks_iff : (∃ x y, m.Inks s x y) ↔ ∃ c r, (m.aim s).SpriteBit s.word.n c r := by
  constructor
  · rintro ⟨x, y, ⟨c, r⟩, hhit⟩
    exact ⟨c, r, hhit.1⟩
  · rintro ⟨c, r, hbit⟩
    exact ⟨_, _, (c, r), hbit.hits⟩

/-- A sprite that is drawn twice collides once or more, unless it has no set bit: a pixel that it
lies on is on before the first time or before the second. -/
theorem WellFormed.flag_of_stamp_stamp (h : m.WellFormed) (hs : m.Inked [s] n)
    (hflag : n.get 15 = 1 ↔ ∃ x y, m.Inks s x y ∧ m.display.pixelAt x y = 0xFF)
    (hflag' : n'.get 15 = 1 ↔ ∃ x y, n.Inks s x y ∧ n.display.pixelAt x y = 0xFF) :
    n.get 15 = 1 ∨ n'.get 15 = 1 ↔ ∃ c r, (m.aim s).SpriteBit s.word.n c r := by
  rw [hflag, hflag', ← exists_inks_iff]
  simp only [inks_congr hs.memory_eq hs.high_eq]
  constructor
  · rintro (⟨x, y, hink, -⟩ | ⟨x, y, hink, -⟩)
    · exact ⟨x, y, hink⟩
    · exact ⟨x, y, hink⟩
  · rintro ⟨x, y, hink⟩
    by_cases hon : m.display.pixelAt x y = 0xFF
    · exact .inl ⟨x, y, hink, hon⟩
    · right
      have hoff : m.display.pixelAt x y = 0 := by
        by_contra hne
        exact hon ((h.display.pixelAt_ne_zero_iff x y).mp hne)
      have hxy : m.display.OnScreen x y := by
        obtain ⟨bit, hhit⟩ := hink
        exact hhit.onScreen
      refine ⟨x, y, hink, ?_⟩
      rw [hs.pixelAt_eq x y hxy, layers_singleton, if_pos hink, hoff]
      rfl

/-- Drawings may be done in any order, and undo themselves.

Whatever the picture is at the beginning, any stamps can be drawn one after the other, and leave the
same pixels in each order.  Two equal ones may be left out, wherever they stand.  A stamp that is
drawn twice in a row leaves the pixels that were there before.  It leaves its place in the
registers, so that it is enough to execute its word again.  `VF` is one after the first or after the
second time, unless the sprite has no set bit. -/
theorem drawings_commute_and_cancel (h : m.WellFormed) :
    (∀ l l' : List Stamp, l.Perm l' → ∃ n n', m.stampAll l = .ok n ∧ m.stampAll l' = .ok n' ∧
      n'.display.pixels = n.display.pixels) ∧
    (∀ (l₁ l₂ l₃ : List Stamp) (s : Stamp), ∃ n n',
      m.stampAll (l₁ ++ s :: l₂ ++ s :: l₃) = .ok n ∧ m.stampAll (l₁ ++ l₂ ++ l₃) = .ok n' ∧
      n'.display.pixels = n.display.pixels) ∧
    ∀ s : Stamp, ∃ n n', m.stamp s = .ok n ∧ n.stamp s = .ok n' ∧ n.aim s = n ∧
      n'.display.pixels = m.display.pixels ∧
      (n.get 15 = 1 ∨ n'.get 15 = 1 ↔ ∃ c r, (m.aim s).SpriteBit s.word.n c r) := by
  refine ⟨?_, ?_, ?_⟩
  · intro l l' hl
    obtain ⟨n, hn, hs⟩ := h.exists_stampAll l
    obtain ⟨n', hn', hs'⟩ := h.exists_stampAll l'
    refine ⟨n, n', hn, hn', hs.pixels_eq hs' fun x y ↦ ?_⟩
    rw [m.layers_perm hl]
  · intro l₁ l₂ l₃ s
    obtain ⟨n, hn, hs⟩ := h.exists_stampAll (l₁ ++ s :: l₂ ++ s :: l₃)
    obtain ⟨n', hn', hs'⟩ := h.exists_stampAll (l₁ ++ l₂ ++ l₃)
    refine ⟨n, n', hn, hn', hs.pixels_eq hs' fun x y ↦ ?_⟩
    have hcons (l : List Stamp) : m.layers (s :: l) x y = m.layers [s] x y + m.layers l x y :=
      m.layers_append [s] l x y
    rw [layers_append, layers_append, hcons l₂, hcons l₃, layers_append, layers_append]
    omega
  · intro s
    obtain ⟨n, hn, hs, haim, hflag⟩ := h.exists_stamp s
    obtain ⟨n', hn', hs', -, hflag'⟩ := hs.wellFormed.exists_stamp s
    refine ⟨n, n', hn, hn', haim, ?_, h.flag_of_stamp_stamp hs hflag hflag'⟩
    apply h.inked_nil.pixels_eq (hs.append hs')
    intro x y
    rw [layers_append]
    change 0 % 2 = _
    omega

/-- The small glyph of `digit`, drawn near the last column and the last row. -/
def glyph (digit : Fin 16) : Stamp where
  index := 5 * digit.val
  word := 0xD015
  column := 62
  row := 30
  index_range := by omega
  group_eq := by decide
  x_ne := by decide
  y_ne := by decide

/-- A glyph between two others that are equal is drawn as if by itself; a glyph that is drawn twice
collides. -/
theorem drawings_commute_and_cancel_glyphs :
    (∃ n n', ({ random := .cycle [] [] } : Machine).stampAll [glyph 0, glyph 1, glyph 0] = .ok n ∧
      ({ random := .cycle [] [] } : Machine).stampAll [glyph 1] = .ok n' ∧
      n'.display.pixels = n.display.pixels) ∧
    ∃ n n', ({ random := .cycle [] [] } : Machine).stamp (glyph 0) = .ok n ∧
      n.stamp (glyph 0) = .ok n' ∧ (n.get 15 = 1 ∨ n'.get 15 = 1) := by
  have h : ({ random := .cycle [] [] } : Machine).WellFormed :=
    wellFormed_new Registers.wellFormed_new
  obtain ⟨-, hcancel, htwice⟩ := drawings_commute_and_cancel h
  refine ⟨hcancel [] [glyph 1] [] (glyph 0), ?_⟩
  obtain ⟨n, n', hn, hn', -, -, hflag⟩ := htwice (glyph 0)
  refine ⟨n, n', hn, hn', hflag.mpr ⟨0, 0, ?_⟩⟩
  decide +kernel

end Machine

end SuperChip
