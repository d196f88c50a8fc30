import Mathlib.Data.Int.ModEq
import SuperChip.Proofs.Pixels

/-!
# The picture is a torus

A display has a pixel for every pair of integers.  Two pairs share theirs exactly if their columns
are congruent modulo the width and their rows modulo the height, in either resolution, so flipping a
pixel is seen at those places and at no others.  Flipping it again brings the old picture back.
-/

namespace SuperChip.Display

variable {d d' d'' : Display} {x y : Int}

/-- Two places have the same pixel exactly if they are congruent. -/
theorem location_eq_iff_modEq {x' y' : Int} : d.location x' y' = d.location x y ↔
    x' ≡ x [ZMOD d.width] ∧ y' ≡ y [ZMOD d.height] := location_eq_iff

/-- Reading a pixel cannot fail, and tells whether its byte is not zero. -/
theorem Sized.get_eq (h : d.Sized) (x y : Int) : d.get x y = .ok (d.pixelAt x y != 0) := by
  obtain ⟨k, hlt, hk, hbyte⟩ := h.pixelAt_eq_getElem x y
  rw [get, hk, Memory.read_natCast hlt, hbyte]
  rfl

/-- A pixel is on after it has been flipped exactly if it was off before. -/
theorem WellFormed.flip_ne_zero (h : d.WellFormed) (x y : Int) :
    (d.pixelAt x y ^^^ 0xFF != 0) = !(d.pixelAt x y != 0) := by
  obtain ⟨k, hlt, -, hbyte⟩ := h.sized.pixelAt_eq_getElem x y
  rcases h.isPicture _ (Array.getElem_mem hlt) with h0 | h1
  · rw [hbyte, h0]
    rfl
  · rw [hbyte, h1]
    rfl

/-- What flipping a pixel tells and leaves. -/
theorem WellFormed.exists_flipped (h : d.WellFormed) (x y : Int) :
    ∃ d', d.toggle x y = .ok (d', !(d.pixelAt x y != 0)) ∧ d.Flipped [d.location x y] d' ∧
      d'.WellFormed := by
  obtain ⟨d', hd', hflipped⟩ := h.sized.exists_toggle x y
  obtain ⟨e, on, he, hwf⟩ := h.exists_toggle x y
  cases he.symm.trans hd'
  exact ⟨d', by rw [hd', h.flip_ne_zero], hflipped, hwf⟩

/-- The same pixels flipped twice are as they were. -/
theorem Flipped.pixels_eq_of_again {locations : List Int} (h : d.Sized)
    (hf : d.Flipped locations d') (hf' : d'.Flipped locations d'') : d''.pixels = d.pixels := by
  refine h.pixels_ext hf'.sized (hf'.high_eq.trans hf.high_eq) fun x y _ ↦ ?_
  rw [hf'.pixelAt_eq, hf.pixelAt_eq, location_congr hf.high_eq]
  split
  · rw [UInt8.xor_assoc, UInt8.xor_self, UInt8.xor_zero]
  · rfl

/-- Flipping a pixel of a well-formed display.

It cannot fail, and leaves a well-formed display of the same resolution.  The flip is seen at all
places that are congruent to the one where it was made, and at no others, and it tells what is read
there.  Flipping the pixel again leaves the pixels that were there at first. -/
theorem flip_seen_on_torus (h : d.WellFormed) (x y : Int) :
    ∃ d' on, d.toggle x y = .ok (d', on) ∧ d'.WellFormed ∧ d'.high = d.high ∧
      (∀ x' y', ∃ was, d.get x' y' = .ok was ∧ d'.get x' y' =
        .ok (if x' ≡ x [ZMOD d.width] ∧ y' ≡ y [ZMOD d.height] then !was else was)) ∧
      d'.get x y = .ok on ∧
      ∃ d'', d'.toggle x y = .ok (d'', !on) ∧ d''.pixels = d.pixels := by
  obtain ⟨d', hd', hflipped, hwf⟩ := h.exists_flipped x y
  obtain ⟨d'', hd'', hagain, -⟩ := hwf.exists_flipped x y
  -- What is read after the flip, at any place.
  have hget (x' y' : Int) : (d'.pixelAt x' y' != 0) =
      if x' ≡ x [ZMOD d.width] ∧ y' ≡ y [ZMOD d.height] then !(d.pixelAt x' y' != 0)
      else d.pixelAt x' y' != 0 := by
    simp only [hflipped.pixelAt_eq, List.mem_singleton, location_eq_iff_modEq]
    split
    · exact h.flip_ne_zero x' y'
    · rfl
  have hon : (d'.pixelAt x y != 0) = !(d.pixelAt x y != 0) := by
    rw [hget, if_pos ⟨Int.ModEq.rfl, Int.ModEq.rfl⟩]
  rw [location_congr hflipped.high_eq] at hagain
  refine ⟨d', _, hd', hwf, hflipped.high_eq, fun x' y' ↦ ⟨_, h.sized.get_eq x' y', ?_⟩, ?_, d'', ?_,
    hflipped.pixels_eq_of_again h.sized hagain⟩
  · rw [hwf.sized.get_eq, hget]
  · rw [hwf.sized.get_eq, hon]
  · rw [hd'', hon]

/-- On a new display all pixels are off. -/
theorem get_new (x y : Int) : get {} x y = .ok false := by
  rw [(wellFormed_new true).sized.get_eq, pixelAt, Array.getD_eq_getD_getElem?, Memory.blank,
    Array.getElem?_replicate]
  split <;> rfl

/-- A pixel that is flipped beyond the upper left corner of a new display is switched on in the
lower right one, and the pixel beside it stays off. -/
theorem flip_seen_on_torus_corner : WellFormed {} ∧ ∃ d' on, toggle {} (-1) (-1) = .ok (d', on) ∧
    d'.get 63 31 = .ok true ∧ d'.get 62 31 = .ok false := by
  have hwf : WellFormed {} := wellFormed_new true
  obtain ⟨d', on, hd', -, -, hget, -⟩ := flip_seen_on_torus hwf (-1) (-1)
  refine ⟨hwf, d', on, hd', ?_, ?_⟩
  · obtain ⟨was, hwas, hcorner⟩ := hget 63 31
    cases (get_new 63 31).symm.trans hwas
    exact hcorner
  · obtain ⟨was, hwas, hbeside⟩ := hget 62 31
    cases (get_new 62 31).symm.trans hwas
    exact hbeside

end SuperChip.Display
