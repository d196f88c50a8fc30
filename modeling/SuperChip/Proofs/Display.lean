import SuperChip.Display
import SuperChip.Proofs.Memory

/-!
# Well-formed displays

A display is well formed if its store has a byte for each pixel of its resolution and each byte is
that of a pixel.  Nothing that is done to a well-formed display can fail, scrolling by less than
nothing apart, and the display is well formed afterwards.

What is done to the picture never changes the resolution, and never goes unnoticed: the display is
dirty then, so the next flush hands the picture over.
-/

namespace SuperChip

/-! ## Steps in a sequence -/

section Fold

variable {α β : Type}

/-- A sequence of steps that cannot fail while an invariant holds, and keep it, does not fail and
keeps it. -/
theorem exists_foldlM_ok {f : β → α → Except Fault β} {P : β → Prop} {l : List α} {b : β}
    (hb : P b) (hf : ∀ b, P b → ∀ a ∈ l, ∃ b', f b a = .ok b' ∧ P b') :
    ∃ b', l.foldlM f b = .ok b' ∧ P b' := by
  induction l generalizing b with
  | nil => exact ⟨b, rfl, hb⟩
  | cons a l ih =>
    obtain ⟨c, hc, hPc⟩ := hf b hb a List.mem_cons_self
    obtain ⟨d, hd, hPd⟩ := ih hPc fun b hb a ha ↦ hf b hb a (List.mem_cons_of_mem _ ha)
    refine ⟨d, ?_, hPd⟩
    rw [List.foldlM_cons, hc]
    exact hd

/-- What each step keeps, a sequence of steps keeps. -/
theorem foldlM_ok_induction {f : β → α → Except Fault β} {P : β → Prop} {l : List α} {b b' : β}
    (hf : ∀ b b', ∀ a ∈ l, P b → f b a = .ok b' → P b') (hb : P b) (h : l.foldlM f b = .ok b') :
    P b' := by
  induction l generalizing b with
  | nil =>
    cases h
    exact hb
  | cons a l ih =>
    rw [List.foldlM_cons] at h
    obtain ⟨c, hc, h⟩ := exists_of_bind_ok h
    exact ih (fun b b' a ha ↦ hf b b' a (List.mem_cons_of_mem _ ha))
      (hf b c a List.mem_cons_self hb hc) h

end Fold

namespace Display

/-! ## Well-formedness -/

/-- The store of a display fits its resolution and holds pixels. -/
structure WellFormed (d : Display) : Prop where
  /-- There is a byte for each pixel. -/
  size_eq : d.pixels.size = d.width * d.height
  /-- Each byte is that of a pixel. -/
  isPicture : d.pixels.IsPicture

variable {d d' : Display}

/-- There are few pixels. -/
theorem WellFormed.size_le (h : d.WellFormed) : d.pixels.size ≤ 128 * 64 := by
  rw [h.size_eq, width, height]
  split <;> decide

/-- A blank picture is well formed. -/
theorem wellFormed_blankAt (d : Display) (high : Bool) : (d.blankAt high).WellFormed where
  size_eq := by cases high <;> simp [blankAt, width, height]
  isPicture := Memory.isPicture_blank _

/-- A new display is well formed. -/
theorem wellFormed_new (observed : Bool) : WellFormed { observed } where
  size_eq := Memory.size_blank _
  isPicture := Memory.isPicture_blank _

/-- Switching the resolution keeps a display well formed. -/
theorem WellFormed.setResolution (h : d.WellFormed) (high : Bool) :
    (d.setResolution high).WellFormed := by
  rw [Display.setResolution]
  split
  · exact h
  · exact d.wellFormed_blankAt high

/-- Flushing keeps a display well formed. -/
theorem WellFormed.flush (h : d.WellFormed) : d.flush.WellFormed := ⟨h.size_eq, h.isPicture⟩

/-- Switching all pixels off keeps a display well formed. -/
theorem WellFormed.clear (h : d.WellFormed) : d.clear.WellFormed where
  size_eq := (Memory.size_clear _).trans h.size_eq
  isPicture := Memory.isPicture_blank _

/-- New pixels of the same number keep a display well formed. -/
theorem WellFormed.withPixels (h : d.WellFormed) {pixels : Memory}
    (hs : pixels.size = d.pixels.size) (hp : pixels.IsPicture) :
    ({ d with pixels, dirty := true } : Display).WellFormed :=
  ⟨hs.trans h.size_eq, hp⟩

/-! ## Events -/

/-- Switching to a resolution tells nothing but that. -/
theorem eq_of_mem_resolutionEvents {d : Display} {high : Bool} {e : Event}
    (he : e ∈ d.resolutionEvents high) : e = .resolution high := by
  rw [resolutionEvents] at he
  split at he
  · cases he
  · exact List.mem_singleton.mp he

/-- A flush tells nothing but the picture. -/
theorem eq_of_mem_flushEvents {d : Display} {e : Event} (he : e ∈ d.flushEvents) :
    e = .redraw d.frame := by
  rw [flushEvents] at he
  split at he
  · exact List.mem_singleton.mp he
  · cases he

/-! ## Drawing -/

/-- The two sizes of a picture. -/
theorem size_cases (d : Display) :
    (d.width = 128 ∧ d.height = 64) ∨ (d.width = 64 ∧ d.height = 32) := by
  cases h : d.high
  · exact .inr ⟨by rw [width, h]; rfl, by rw [height, h]; rfl⟩
  · exact .inl ⟨by rw [width, h]; rfl, by rw [height, h]; rfl⟩

/-- Coordinates wrap around, so each pair of them is the place of a pixel. -/
theorem location_eq_natCast (d : Display) (x y : Int) :
    ∃ k : Nat, d.location x y = k ∧ k < d.width * d.height := by
  refine ⟨(d.location x y).toNat, ?_, ?_⟩ <;> rw [location] <;>
    rcases d.size_cases with ⟨hw, hh⟩ | ⟨hw, hh⟩ <;> rw [hw, hh] <;> omega

/-- Flipping a pixel that has a place in the store inverts its byte there. -/
theorem toggle_eq {x y : Int} {k : Nat} (hk : d.location x y = k)
    (hlt : k < d.pixels.bytes.size) :
    d.toggle x y =
      .ok ({ d with
            pixels := ⟨d.pixels.bytes.setIfInBounds k (d.pixels.bytes[k] ^^^ 0xFF)⟩
            dirty := true },
        d.pixels.bytes[k] ^^^ 0xFF != 0) := by
  rw [toggle, hk, Memory.read_natCast hlt]
  simp only [bind, Except.bind]
  rw [Memory.write_natCast hlt]
  rfl

/-- Flipping a pixel cannot fail. -/
theorem WellFormed.exists_toggle (h : d.WellFormed) (x y : Int) :
    ∃ d' on, d.toggle x y = .ok (d', on) ∧ d'.WellFormed := by
  obtain ⟨k, hk, hlt⟩ := d.location_eq_natCast x y
  rw [← h.size_eq, Memory.size] at hlt
  exact ⟨_, _, toggle_eq hk hlt, h.withPixels Array.size_setIfInBounds
    (h.isPicture.setIfInBounds k (h.isPicture.flip hlt))⟩

/-- Flipping some pixels in turn cannot fail. -/
theorem WellFormed.exists_toggleAll (h : d.WellFormed) (cells : List (Int × Int)) :
    ∃ d' collided, d.toggleAll cells = .ok (d', collided) ∧ d'.WellFormed := by
  have hflip : ∀ s : Display × Bool, s.1.WellFormed → ∀ c ∈ cells, ∃ s' : Display × Bool,
      (do let r ← s.1.toggle c.1 c.2; return (r.1, s.2 || !r.2)) = .ok s' ∧ s'.1.WellFormed := by
    rintro ⟨e, collided⟩ he ⟨x, y⟩ -
    obtain ⟨e', on, ht, he'⟩ := he.exists_toggle x y
    refine ⟨(e', collided || !on), ?_, he'⟩
    simp only [ht]
    rfl
  obtain ⟨⟨d', collided⟩, hd, hwf⟩ := exists_foldlM_ok (b := (d, false)) h hflip
  exact ⟨d', collided, hd, hwf⟩

/-! ## Scrolling -/

/-- Scrolling by less than nothing is refused. -/
theorem scroll_of_neg (d : Display) {distance : Int} (h : distance < 0) (extent : Nat)
    (move : Nat → Except Fault Memory) :
    d.scroll distance extent move = .error (.negativeScroll distance) := by
  rw [scroll, if_pos h]

/-- Scrolling cannot fail if moving the pixels by less than the extent cannot. -/
theorem WellFormed.exists_scroll (h : d.WellFormed) {distance : Int} (h0 : 0 ≤ distance)
    {extent : Nat} {move : Nat → Except Fault Memory}
    (hmove : ∀ n, n < extent → ∃ pixels, move n = .ok pixels ∧
      pixels.size = d.pixels.size ∧ pixels.IsPicture) :
    ∃ d', d.scroll distance extent move = .ok d' ∧ d'.WellFormed := by
  rw [scroll, if_neg (by omega)]
  split
  · exact ⟨d, rfl, h⟩
  · split
    · exact ⟨d.clear, rfl, h.clear⟩
    · obtain ⟨pixels, hm, hs, hp⟩ := hmove distance.toNat (by omega)
      exact ⟨_, by rw [hm]; rfl, h.withPixels hs hp⟩

/-- Moved pixels with a strip of them blanked are a picture of the same size. -/
theorem WellFormed.exists_zeroBlock (h : d.WellFormed) {pixels : Memory}
    (hs : pixels.size = d.pixels.size) (hp : pixels.IsPicture) (start count : Nat)
    (hle : start + count ≤ d.width * d.height) :
    ∃ pixels', pixels.zeroBlock start count = .ok pixels' ∧
      pixels'.size = d.pixels.size ∧ pixels'.IsPicture := by
  rw [← h.size_eq, ← hs] at hle
  have hfew : pixels.size ≤ 128 * 64 := by
    rw [hs]
    exact h.size_le
  exact ⟨_, Memory.zeroBlock_natCast hle hfew, (Memory.size_overwrite _ _ _).trans hs,
    hp.overwrite_zeros start count⟩

/-- Rows below the height fit the picture. -/
theorem mul_width_le {n : Nat} (h : n < d.height) : n * d.width ≤ d.width * d.height := by
  rw [Nat.mul_comm n]
  exact Nat.mul_le_mul_left _ (Nat.le_of_lt h)

/-- Scrolling up cannot fail. -/
theorem WellFormed.exists_scrollUp (h : d.WellFormed) {rows : Int} (h0 : 0 ≤ rows) :
    ∃ d', d.scrollUp rows = .ok d' ∧ d'.WellFormed := by
  apply h.exists_scroll h0
  intro n hn
  have hle : n * d.width ≤ d.height * d.width := by
    rw [Nat.mul_comm d.height]
    exact mul_width_le hn
  have hsum : d.height * d.width - n * d.width + n * d.width = d.width * d.height := by
    rw [Nat.sub_add_cancel hle, Nat.mul_comm]
  rw [← Int.natCast_sub hle]
  exact h.exists_zeroBlock (Memory.size_shift _ _) (h.isPicture.shift _) _ _ (Nat.le_of_eq hsum)

/-- Scrolling down cannot fail. -/
theorem WellFormed.exists_scrollDown (h : d.WellFormed) {rows : Int} (h0 : 0 ≤ rows) :
    ∃ d', d.scrollDown rows = .ok d' ∧ d'.WellFormed := by
  apply h.exists_scroll h0
  intro n hn
  apply h.exists_zeroBlock (Memory.size_shift _ _) (h.isPicture.shift _) 0
  rw [Nat.zero_add]
  exact mul_width_le hn

/-- Blanking a strip of each row in turn cannot fail. -/
theorem WellFormed.exists_zeroRows (h : d.WellFormed) {pixels : Memory}
    (hs : pixels.size = d.pixels.size) (hp : pixels.IsPicture) {start : Nat → Int} {count : Nat}
    (hstart : ∀ row < d.height, ∃ k : Nat, start row = k ∧ k + count ≤ d.width * d.height) :
    ∃ pixels', (List.range d.height).foldlM
        (fun (pixels : Memory) row ↦ pixels.zeroBlock (start row) count) pixels = .ok pixels' ∧
      pixels'.size = d.pixels.size ∧ pixels'.IsPicture := by
  refine exists_foldlM_ok (P := fun pixels : Memory ↦
    pixels.size = d.pixels.size ∧ pixels.IsPicture) ⟨hs, hp⟩ ?_
  rintro pixels ⟨hs, hp⟩ row hrow
  obtain ⟨k, hk, hle⟩ := hstart row (List.mem_range.mp hrow)
  rw [hk]
  exact h.exists_zeroBlock hs hp k count hle

/-- Scrolling to the left cannot fail. -/
theorem WellFormed.exists_scrollLeft (h : d.WellFormed) {columns : Int} (h0 : 0 ≤ columns) :
    ∃ d', d.scrollLeft columns = .ok d' ∧ d'.WellFormed := by
  apply h.exists_scroll h0
  intro n hn
  apply h.exists_zeroRows (Memory.size_shift _ _) (h.isPicture.shift _)
  intro row hrow
  have hle : d.width * (row + 1) ≤ d.width * d.height := Nat.mul_le_mul_left _ hrow
  have hn' : n ≤ d.width * (row + 1) := by
    rw [Nat.mul_succ]
    omega
  refine ⟨d.width * (row + 1) - n, (Int.natCast_sub hn').symm, ?_⟩
  rw [Nat.sub_add_cancel hn']
  exact hle

/-- Scrolling to the right cannot fail. -/
theorem WellFormed.exists_scrollRight (h : d.WellFormed) {columns : Int} (h0 : 0 ≤ columns) :
    ∃ d', d.scrollRight columns = .ok d' ∧ d'.WellFormed := by
  apply h.exists_scroll h0
  intro n hn
  apply h.exists_zeroRows (Memory.size_shift _ _) (h.isPicture.shift _)
  intro row hrow
  have hle : d.width * (row + 1) ≤ d.width * d.height := Nat.mul_le_mul_left _ hrow
  refine ⟨d.width * row, rfl, ?_⟩
  rw [Nat.mul_succ] at hle
  omega

/-- Switching the resolution does not change whether anyone is told. -/
theorem observed_setResolution (d : Display) (high : Bool) :
    (d.setResolution high).observed = d.observed := by
  rw [Display.setResolution]
  split <;> rfl

/-! ## Painting -/

/-- `d'` is what becomes of `d` when something is done to its picture, or nothing at all. -/
def Painted (d d' : Display) : Prop :=
  d' = d ∨ (d'.dirty = true ∧ d'.high = d.high ∧ d'.observed = d.observed)

section Painted

variable {d'' : Display}

/-- Doing nothing is painting. -/
theorem Painted.refl (d : Display) : d.Painted d := .inl rfl

/-- Painting and painting again is painting. -/
theorem Painted.trans (h : d.Painted d') (h' : d'.Painted d'') : d.Painted d'' := by
  rcases h' with rfl | ⟨hd', hh', ho'⟩
  · exact h
  · rcases h with rfl | ⟨-, hh, ho⟩
    · exact .inr ⟨hd', hh', ho'⟩
    · exact .inr ⟨hd', hh'.trans hh, ho'.trans ho⟩

/-- Painting does not change the resolution. -/
theorem Painted.high_eq (h : d.Painted d') : d'.high = d.high := by
  rcases h with rfl | ⟨-, hh, -⟩
  · rfl
  · exact hh

/-- Painting does not change whether anyone is told. -/
theorem Painted.observed_eq (h : d.Painted d') : d'.observed = d.observed := by
  rcases h with rfl | ⟨-, -, ho⟩
  · rfl
  · exact ho

/-- A display that is clean after painting has the picture that it had. -/
theorem Painted.eq_of_clean (h : d.Painted d') (hc : d'.dirty = false) : d' = d := by
  rcases h with rfl | ⟨hd, -, -⟩
  · rfl
  · rw [hc] at hd
    exact absurd hd Bool.false_ne_true

/-- Switching all pixels off is painting. -/
theorem painted_clear (d : Display) : d.Painted d.clear := .inr ⟨rfl, rfl, rfl⟩

/-- Flipping a pixel is painting. -/
theorem painted_toggle {x y : Int} {on : Bool} (h : d.toggle x y = .ok (d', on)) :
    d.Painted d' := by
  obtain ⟨b, -, h⟩ := exists_of_bind_ok h
  obtain ⟨pixels, -, h⟩ := exists_of_bind_ok h
  cases h
  exact .inr ⟨rfl, rfl, rfl⟩

/-- Flipping some pixels in turn is painting. -/
theorem painted_toggleAll {cells : List (Int × Int)} {collided : Bool}
    (h : d.toggleAll cells = .ok (d', collided)) : d.Painted d' := by
  refine foldlM_ok_induction (P := fun s : Display × Bool ↦ d.Painted s.1) ?_ (.refl d) h
  rintro ⟨e, c⟩ r ⟨x, y⟩ - hp hr
  obtain ⟨⟨e', on⟩, ht, hr⟩ := exists_of_bind_ok hr
  cases hr
  exact hp.trans (painted_toggle ht)

/-- Scrolling is painting. -/
theorem painted_scroll {distance : Int} {extent : Nat} {move : Nat → Except Fault Memory}
    (h : d.scroll distance extent move = .ok d') : d.Painted d' := by
  rw [scroll] at h
  split at h
  · cases h
  · split at h
    · cases h
      exact .refl d
    · split at h
      · cases h
        exact d.painted_clear
      · obtain ⟨pixels, -, h⟩ := exists_of_bind_ok h
        cases h
        exact .inr ⟨rfl, rfl, rfl⟩

end Painted

end Display

end SuperChip
