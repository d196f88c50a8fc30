import Mathlib.Data.List.Induction
import SuperChip.Proofs.Display

/-!
# Pixels by their place

The store of a display, read through coordinates.  `pixelAt` is the byte of the pixel at a column
and a row, which wrap around as they do when a pixel is flipped; `OnScreen` says that they need not.
A display is `Sized` if its store has a byte for each pixel, whichever byte that is.  Such a display
is known once its pixels on the screen are, besides its resolution and its two flags.

Bytes are read with zero in place of what lies beyond the store, so that the laws on blanking need
no bounds.
-/

namespace SuperChip

namespace Memory

/-! ## Single bytes of a store -/

/-- A byte that is put in a store is read at its place, and elsewhere the others are. -/
theorem getD_setIfInBounds {bytes : Array UInt8} {n : Nat} (hn : n < bytes.size) (b : UInt8)
    (k : Nat) : (bytes.setIfInBounds n b).getD k 0 = if k = n then b else bytes.getD k 0 := by
  rw [Array.getD_eq_getD_getElem?, Array.getD_eq_getD_getElem?]
  split
  case isTrue hk =>
    subst hk
    rw [Array.getElem?_setIfInBounds_self_of_lt hn, Option.getD_some]
  case isFalse hk => rw [Array.getElem?_setIfInBounds_ne (Ne.symm hk)]

/-- A zero that is put anywhere is read there, since zero is read beyond the store as well. -/
theorem getD_setIfInBounds_zero (bytes : Array UInt8) (n k : Nat) :
    (bytes.setIfInBounds n 0).getD k 0 = if k = n then 0 else bytes.getD k 0 := by
  rcases Nat.lt_or_ge n bytes.size with hn | hn
  · exact getD_setIfInBounds hn 0 k
  · rw [Array.setIfInBounds_eq_of_size_le hn]
    split
    case isTrue hk =>
      subst hk
      rw [Array.getD_eq_getD_getElem?, Array.getElem?_eq_none hn, Option.getD_none]
    case isFalse => rfl

/-- Blanking a block leaves zeros there, and the other bytes alone. -/
theorem getD_overwrite_zeros (bytes : Array UInt8) (start count k : Nat) :
    (overwrite bytes start (List.replicate count 0)).getD k 0 =
      if start ≤ k ∧ k < start + count then 0 else bytes.getD k 0 := by
  induction count generalizing bytes start with
  | zero =>
    rw [if_neg (by omega)]
    rfl
  | succ count ih =>
    rw [List.replicate_succ, overwrite, ih, getD_setIfInBounds_zero]
    grind

/-- A moved byte comes from `offset` locations before; where that is beyond an end, the old byte
stays. -/
theorem getD_shift (m : Memory) (offset : Int) {k : Nat} (hk : k < m.size) :
    (m.shift offset).bytes.getD k 0 =
      if 0 ≤ (k : Int) - offset ∧ (k : Int) - offset < m.size
      then m.bytes.getD ((k : Int) - offset).toNat 0 else m.bytes.getD k 0 := by
  have hk' : k < m.bytes.size := hk
  have hread : (m.shift offset).bytes.getD k 0 =
      (if 0 ≤ (k : Int) - offset then m.bytes[((k : Int) - offset).toNat]? else none).getD
        (m.bytes.getD k 0) := by
    have hold : m.bytes[k] = m.bytes.getD k 0 := by
      rw [Array.getD_eq_getD_getElem?, Array.getElem?_eq_getElem hk', Option.getD_some]
    rw [← hold, Array.getD_eq_getD_getElem?, shift, Array.getElem?_ofFn, dif_pos hk',
      Option.getD_some]
    rfl
  rw [hread]
  by_cases hneg : 0 ≤ (k : Int) - offset
  · rw [if_pos hneg, Array.getD_eq_getD_getElem? (i := ((k : Int) - offset).toNat)]
    by_cases hlt : (k : Int) - offset < m.size
    · have hlt' : ((k : Int) - offset).toNat < m.bytes.size := by
        rw [size] at hlt
        omega
      rw [if_pos ⟨hneg, hlt⟩, Array.getElem?_eq_getElem hlt', Option.getD_some, Option.getD_some]
    · have hge : m.bytes.size ≤ ((k : Int) - offset).toNat := by
        rw [size] at hlt
        omega
      rw [if_neg (fun h ↦ hlt h.2), Array.getElem?_eq_none hge, Option.getD_none]
  · rw [if_neg hneg, if_neg (fun h ↦ hneg h.1), Option.getD_none]

/-- Blanking some blocks in turn leaves zeros in each of them, and the other bytes alone. -/
theorem exists_zeroBlocks {m : Memory} (hm : m.size ≤ 128 * 64) {start : Nat → Int} {count : Nat}
    {l : List Nat}
    (hstart : ∀ r ∈ l, ∃ n : Nat, start r = n ∧ n + count ≤ m.size) :
    ∃ m', l.foldlM (fun (m : Memory) r ↦ m.zeroBlock (start r) count) m = .ok m' ∧
      m'.size = m.size ∧ ∀ k : Nat, m'.bytes.getD k 0 =
        if ∃ r ∈ l, start r ≤ k ∧ (k : Int) < start r + count then 0 else m.bytes.getD k 0 := by
  induction l generalizing m with
  | nil => exact ⟨m, rfl, rfl, fun k ↦ by rw [if_neg (by simp)]⟩
  | cons r l ih =>
    obtain ⟨n, hn, hle⟩ := hstart r List.mem_cons_self
    have hs : size ⟨overwrite m.bytes n (List.replicate count 0)⟩ = m.size := size_overwrite _ _ _
    obtain ⟨m', hm', hs', hget⟩ := ih (m := ⟨overwrite m.bytes n (List.replicate count 0)⟩)
      (hs ▸ hm) (fun r hr ↦ hs ▸ hstart r (List.mem_cons_of_mem _ hr))
    refine ⟨m', ?_, hs'.trans hs, ?_⟩
    · rw [List.foldlM_cons, hn, zeroBlock_natCast hle hm]
      exact hm'
    · intro k
      rw [hget, getD_overwrite_zeros]
      have hfirst : (n ≤ k ∧ k < n + count) ↔ start r ≤ k ∧ (k : Int) < start r + count := by
        rw [hn]
        omega
      simp only [List.mem_cons, exists_eq_or_imp, hfirst]
      by_cases hl : ∃ r ∈ l, start r ≤ k ∧ (k : Int) < start r + count
      · rw [if_pos hl, if_pos (.inr hl)]
      · simp only [hl, if_false, or_false]

end Memory

namespace Display

/-! ## Displays with a byte for each pixel -/

/-- The store of a display fits its resolution. -/
def Sized (d : Display) : Prop := d.pixels.size = d.width * d.height

/-- The byte of the pixel at a column and a row, which wrap around. -/
def pixelAt (d : Display) (x y : Int) : UInt8 := d.pixels.bytes.getD (d.location x y).toNat 0

/-- A column and a row lie on the screen. -/
def OnScreen (d : Display) (x y : Int) : Prop := (0 ≤ x ∧ x < d.width) ∧ 0 ≤ y ∧ y < d.height

instance (d : Display) (x y : Int) : Decidable (d.OnScreen x y) := by
  unfold OnScreen
  infer_instance

variable {d d' d'' : Display}

/-- Well-formed displays have a byte for each pixel. -/
theorem WellFormed.sized (h : d.WellFormed) : d.Sized := h.size_eq

/-- The byte of a pixel is the one at its location. -/
theorem Sized.pixelAt_eq_getElem (h : d.Sized) (x y : Int) :
    ∃ (k : Nat) (hk : k < d.pixels.bytes.size), d.location x y = k ∧
      d.pixelAt x y = d.pixels.bytes[k] := by
  obtain ⟨k, hk, hlt⟩ := d.location_eq_natCast x y
  have hlt : k < d.pixels.bytes.size := Nat.lt_of_lt_of_eq hlt h.symm
  refine ⟨k, hlt, hk, ?_⟩
  rw [pixelAt, hk, Int.toNat_natCast, Array.getD_eq_getD_getElem?, Array.getElem?_eq_getElem hlt,
    Option.getD_some]

/-- In a picture, a byte that is not zero is that of a pixel that is on. -/
theorem WellFormed.pixelAt_ne_zero_iff (h : d.WellFormed) (x y : Int) :
    d.pixelAt x y ≠ 0 ↔ d.pixelAt x y = 0xFF := by
  obtain ⟨k, hlt, -, hbyte⟩ := h.sized.pixelAt_eq_getElem x y
  rcases h.isPicture _ (Array.getElem_mem hlt) with h0 | h1
  · simp [hbyte, h0]
  · simp [hbyte, h1]

/-- There are few pixels. -/
theorem Sized.size_le (h : d.Sized) : d.pixels.size ≤ 128 * 64 := by
  have hsize := h
  rcases d.size_cases with ⟨hw, hh⟩ | ⟨hw, hh⟩
  all_goals
    rw [Sized, hw, hh] at hsize
    omega

/-- On the screen, pixels are stored row by row. -/
theorem OnScreen.location_eq {x y : Int} (h : d.OnScreen x y) :
    d.location x y = y * d.width + x := by
  rw [location, Int.emod_eq_of_lt h.2.1 h.2.2, Int.emod_eq_of_lt h.1.1 h.1.2]

/-- Displays of the same resolution store a pixel at the same location. -/
theorem location_congr (h : d'.high = d.high) (x y : Int) : d'.location x y = d.location x y := by
  rw [location, location, width, width, height, height, h]

/-- Displays of the same resolution have the same places on their screens. -/
theorem onScreen_congr (h : d'.high = d.high) {x y : Int} : d'.OnScreen x y ↔ d.OnScreen x y := by
  rw [OnScreen, OnScreen, width, width, height, height, h]

/-- Each byte of the store is that of a place on the screen. -/
theorem exists_location_eq {k : Nat} (hk : k < d.width * d.height) :
    ∃ x y : Int, d.OnScreen x y ∧ d.location x y = k := by
  have hx : d.OnScreen (k % d.width : Nat) (k / d.width : Nat) := by
    have hmod := Nat.mod_lt k d.width_pos
    have hdiv := (Nat.div_lt_iff_lt_mul d.width_pos).mpr (Nat.mul_comm d.width _ ▸ hk)
    exact ⟨⟨Int.natCast_nonneg _, Int.ofNat_lt.mpr hmod⟩, Int.natCast_nonneg _,
      Int.ofNat_lt.mpr hdiv⟩
  refine ⟨_, _, hx, ?_⟩
  rw [hx.location_eq, ← Int.natCast_mul, ← Int.natCast_add, Nat.div_add_mod']

/-- Displays of the same resolution that agree on the screen have the same pixels. -/
theorem Sized.pixels_ext (h : d.Sized) (h' : d'.Sized) (hhigh : d'.high = d.high)
    (hpix : ∀ x y, d.OnScreen x y → d'.pixelAt x y = d.pixelAt x y) : d'.pixels = d.pixels := by
  have hsize : d'.pixels.size = d.pixels.size := by
    rw [h, h', width, width, height, height, hhigh]
  have hbytes : d'.pixels.bytes = d.pixels.bytes := by
    apply Array.ext hsize
    intro k hk' hk
    have hlt : k < d.width * d.height := Nat.lt_of_lt_of_eq hk h
    obtain ⟨x, y, hxy, hloc⟩ := exists_location_eq hlt
    have hxy := hpix x y hxy
    rw [pixelAt, pixelAt, location_congr hhigh, hloc, Int.toNat_natCast] at hxy
    simpa [Array.getD, hk, hk'] using hxy
  exact congrArg Memory.mk hbytes

/-- Displays that agree on the screen, and in their resolution and flags, are the same. -/
theorem Sized.ext (h : d.Sized) (h' : d'.Sized) (hhigh : d'.high = d.high)
    (hdirty : d'.dirty = d.dirty) (hobs : d'.observed = d.observed)
    (hpix : ∀ x y, d.OnScreen x y → d'.pixelAt x y = d.pixelAt x y) : d' = d := by
  have hpixels := h.pixels_ext h' hhigh hpix
  obtain ⟨high, pixels, dirty, observed⟩ := d
  obtain ⟨high', pixels', dirty', observed'⟩ := d'
  subst hhigh hdirty hobs hpixels
  rfl

/-! ## Flipping pixels -/

/-- Two places are one if they are as far from each other as the screen is wide, or a few times as
far, and likewise for its height. -/
theorem location_eq_iff {x y x' y' : Int} : d.location x y = d.location x' y' ↔
    x % d.width = x' % d.width ∧ y % d.height = y' % d.height := by
  rw [location, location]
  rcases d.size_cases with ⟨hw, hh⟩ | ⟨hw, hh⟩ <;> rw [hw, hh] <;> omega

/-- `d'` is `d` with the pixels flipped that are stored at some locations. -/
structure Flipped (locations : List Int) (d d' : Display) : Prop where
  /-- The resolution is the same. -/
  high_eq : d'.high = d.high
  /-- Whether anyone is told is the same. -/
  observed_eq : d'.observed = d.observed
  /-- There is still a byte for each pixel. -/
  sized : d'.Sized
  /-- It is noticed, unless there is nothing to flip. -/
  dirty_eq : d'.dirty = (d.dirty || !locations.isEmpty)
  /-- Each pixel is flipped if it is to be, and left alone otherwise. -/
  pixelAt_eq : ∀ x y, d'.pixelAt x y =
    if d.location x y ∈ locations then d.pixelAt x y ^^^ 0xFF else d.pixelAt x y

/-- Flipping a pixel flips that one, and tells whether it is on then. -/
theorem Sized.exists_toggle (h : d.Sized) (x y : Int) :
    ∃ d', d.toggle x y = .ok (d', d.pixelAt x y ^^^ 0xFF != 0) ∧
      d.Flipped [d.location x y] d' := by
  obtain ⟨k, hlt, hk, hbyte⟩ := h.pixelAt_eq_getElem x y
  rw [toggle_eq hk hlt, ← hbyte]
  refine ⟨_, rfl, rfl, rfl, Array.size_setIfInBounds.trans h, by simp, ?_⟩
  intro u v
  obtain ⟨j, hj, -⟩ := d.location_eq_natCast u v
  change (d.pixels.bytes.setIfInBounds k (d.pixelAt x y ^^^ 0xFF)).getD (d.location u v).toNat 0 = _
  rw [hj, Int.toNat_natCast, Memory.getD_setIfInBounds hlt]
  simp only [List.mem_singleton, hk, Int.natCast_inj]
  split
  case isTrue hjk => rw [pixelAt, pixelAt, hk, hj, hjk]
  case isFalse => rw [pixelAt, hj, Int.toNat_natCast]

/-- Flipping a pixel after others. -/
theorem toggleAll_concat {cells : List (Int × Int)} {c : Int × Int} {collided on : Bool}
    (h : d.toggleAll cells = .ok (d', collided)) (h' : d'.toggle c.1 c.2 = .ok (d'', on)) :
    d.toggleAll (cells ++ [c]) = .ok (d'', collided || !on) := by
  rw [toggleAll] at h
  rw [toggleAll, List.foldlM_append, h]
  change (d'.toggle c.1 c.2 >>= fun r ↦ pure (r.1, collided || !r.2)) >>= pure = _
  rw [h']
  rfl

/-- Flipping pixels at different places flips each of them, and tells whether one of them was on. -/
theorem Sized.exists_toggleAll (h : d.Sized) {cells : List (Int × Int)}
    (hnodup : (cells.map fun c ↦ d.location c.1 c.2).Nodup) :
    ∃ d' collided, d.toggleAll cells = .ok (d', collided) ∧
      d.Flipped (cells.map fun c ↦ d.location c.1 c.2) d' ∧
      (collided = true ↔ ∃ c ∈ cells, d.pixelAt c.1 c.2 = 0xFF) := by
  induction cells using List.reverseRecOn with
  | nil => exact ⟨d, false, rfl, ⟨rfl, rfl, h, (Bool.or_false _).symm, fun _ _ ↦ rfl⟩, by simp⟩
  | append_singleton cells c ih =>
    rw [List.map_append, List.nodup_append] at hnodup
    obtain ⟨hcells, -, hnew⟩ := hnodup
    obtain ⟨d₁, collided, hd₁, hf₁, hcol⟩ := ih hcells
    obtain ⟨d₂, hd₂, hf₂⟩ := hf₁.sized.exists_toggle c.1 c.2
    -- The last pixel has not been flipped before.
    have hc : d.location c.1 c.2 ∉ cells.map fun c ↦ d.location c.1 c.2 :=
      fun hmem ↦ hnew _ hmem _ (List.mem_singleton.mpr rfl) rfl
    have hold : d₁.pixelAt c.1 c.2 = d.pixelAt c.1 c.2 := by
      rw [hf₁.pixelAt_eq, if_neg hc]
    refine ⟨d₂, _, toggleAll_concat hd₁ hd₂, ⟨hf₂.high_eq.trans hf₁.high_eq,
      hf₂.observed_eq.trans hf₁.observed_eq, hf₂.sized, ?_, ?_⟩, ?_⟩
    · rw [hf₂.dirty_eq]
      simp
    · intro x y
      rw [hf₂.pixelAt_eq, hf₁.pixelAt_eq]
      simp only [location_congr hf₁.high_eq, List.map_append, List.mem_append, List.map_singleton,
        List.mem_singleton]
      by_cases hlast : d.location x y = d.location c.1 c.2
      · rw [if_pos hlast, if_pos (Or.inr hlast), if_neg (hlast ▸ hc)]
      · simp only [hlast, if_false, or_false]
    · rw [hold, Bool.or_eq_true, hcol]
      simp [or_and_right, exists_or]

end Display

end SuperChip
