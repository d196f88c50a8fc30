import SuperChip.Machine.Operation
import SuperChip.Proofs.Pixels

/-!
# Scrolling moves the picture and nothing else

A scroll moves all bytes of the store by the same number of locations, across the ends of rows, and
then blanks the strip that was vacated.  On the screen this is a motion by a vector: each pixel
comes from the place that lies that far back, and is off if that place is not on the screen.

So after any scrolls, a pixel is what lay at the place from which all of them together lead to it,
provided that they never left the screen on the way.  One motion after another is the motion by the
sum of their vectors if no pixel leaves the screen and comes back, which is why scrolls in one
direction add up, and why horizontal scrolls and vertical ones commute.
-/

namespace SuperChip

/-- A way to scroll. -/
inductive Direction
  /-- Towards the first row. -/
  | up
  /-- Towards the last row. -/
  | down
  /-- Towards the first column. -/
  | left
  /-- Towards the last column. -/
  | right
  deriving DecidableEq, Repr

namespace Direction

/-- How many columns to the right a pixel gets at distance one. -/
def dx : Direction → Int
  | .up | .down => 0
  | .left => -1
  | .right => 1

/-- How many rows down a pixel gets at distance one. -/
def dy : Direction → Int
  | .up => -1
  | .down => 1
  | .left | .right => 0

/-- Whether a direction is along rows. -/
def isHorizontal : Direction → Bool
  | .up | .down => false
  | .left | .right => true

/-- The operation that scrolls a machine. -/
def operation : Direction → Int → Operation
  | .up => .scrollUp
  | .down => .scrollDown
  | .left => .scrollLeft
  | .right => .scrollRight

end Direction

/-- A scroll in a direction. -/
structure Scroll where
  /-- The direction. -/
  direction : Direction
  /-- The number of rows or columns. -/
  distance : Int
  deriving DecidableEq, Repr

namespace Scroll

/-- How many columns to the right a scroll moves the picture. -/
def dx (s : Scroll) : Int := s.direction.dx * s.distance

/-- How many rows down a scroll moves the picture. -/
def dy (s : Scroll) : Int := s.direction.dy * s.distance

/-- How many columns to the right some scrolls together move the picture. -/
def netX : List Scroll → Int
  | [] => 0
  | s :: scrolls => s.dx + netX scrolls

/-- How many rows down some scrolls together move the picture. -/
def netY : List Scroll → Int
  | [] => 0
  | s :: scrolls => s.dy + netY scrolls

end Scroll

namespace Display

open Scroll (netX netY)

/-- Scrolls in a direction. -/
def scrollBy (d : Display) (s : Scroll) : Except Fault Display :=
  match s.direction with
  | .up => d.scrollUp s.distance
  | .down => d.scrollDown s.distance
  | .left => d.scrollLeft s.distance
  | .right => d.scrollRight s.distance

/-- The number of rows or columns in a direction. -/
def extent (d : Display) : Direction → Nat
  | .up | .down => d.height
  | .left | .right => d.width

/-- Scrolls one after the other. -/
def scrollAll (d : Display) (scrolls : List Scroll) : Except Fault Display :=
  scrolls.foldlM scrollBy d

/-- A pixel is on the screen, and stays there with each of some scrolls. -/
def StaysOn (d : Display) (scrolls : List Scroll) (x y : Int) : Prop :=
  ∀ k ≤ scrolls.length, d.OnScreen (x + netX (scrolls.take k)) (y + netY (scrolls.take k))

instance (d : Display) (scrolls : List Scroll) (x y : Int) : Decidable (d.StaysOn scrolls x y) := by
  unfold StaysOn
  infer_instance

/-- `d'` has the picture of `d` moved by `dx` columns to the right and `dy` rows down.  What moves
off the screen is lost, and the places that nothing moves to are off. -/
structure Moved (dx dy : Int) (d d' : Display) : Prop where
  /-- The resolution is the same. -/
  high_eq : d'.high = d.high
  /-- Whether anyone is told is the same. -/
  observed_eq : d'.observed = d.observed
  /-- There is still a byte for each pixel. -/
  sized : d'.Sized
  /-- Each pixel on the screen is the one that was there `dx` columns and `dy` rows before. -/
  pixelAt_eq : ∀ x y, d.OnScreen x y → d'.pixelAt x y =
    if d.OnScreen (x - dx) (y - dy) then d.pixelAt (x - dx) (y - dy) else 0

variable {d d' d'' : Display}

/-! ## Motions -/

/-- Nothing is a motion by nothing. -/
theorem Sized.moved (h : d.Sized) : d.Moved 0 0 d where
  high_eq := rfl
  observed_eq := rfl
  sized := h
  pixelAt_eq x y hxy := by
    rw [Int.sub_zero, Int.sub_zero, if_pos hxy]

/-- Two motions add up if no pixel leaves the screen with the first one and comes back with the
second one. -/
theorem Moved.trans {dx dy dx' dy' : Int} (h : d.Moved dx dy d') (h' : d'.Moved dx' dy' d'')
    (hback : ∀ x y, d.OnScreen x y → d.OnScreen (x - (dx + dx')) (y - (dy + dy')) →
      d.OnScreen (x - dx') (y - dy')) : d.Moved (dx + dx') (dy + dy') d'' where
  high_eq := h'.high_eq.trans h.high_eq
  observed_eq := h'.observed_eq.trans h.observed_eq
  sized := h'.sized
  pixelAt_eq x y hxy := by
    have hx : x - dx' - dx = x - (dx + dx') := by omega
    have hy : y - dy' - dy = y - (dy + dy') := by omega
    rw [h'.pixelAt_eq x y ((onScreen_congr h.high_eq).mpr hxy)]
    by_cases hmid : d.OnScreen (x - dx') (y - dy')
    · rw [if_pos ((onScreen_congr h.high_eq).mpr hmid), h.pixelAt_eq _ _ hmid, hx, hy]
    · rw [if_neg fun hc ↦ hmid ((onScreen_congr h.high_eq).mp hc),
        if_neg fun hc ↦ hmid (hback x y hxy hc)]

/-- Motions by the same vector come to the same picture. -/
theorem Moved.unique {dx dy : Int} (h : d.Moved dx dy d') (h' : d.Moved dx dy d'')
    (hdirty : d'.dirty = d''.dirty) : d' = d'' := by
  have hhigh : d'.high = d''.high := h.high_eq.trans h'.high_eq.symm
  refine h'.sized.ext h.sized hhigh hdirty (h.observed_eq.trans h'.observed_eq.symm) ?_
  intro x y hxy
  have hxy := (onScreen_congr h'.high_eq).mp hxy
  rw [h.pixelAt_eq x y hxy, h'.pixelAt_eq x y hxy]

/-! ## Single scrolls -/

/-- Scrolling by some distance below the extent puts the moved pixels in the store. -/
theorem scroll_of_lt {n extent : Nat} {move : Nat → Except Fault Memory} {pixels : Memory}
    (h0 : 0 < n) (hlt : n < extent) (hmove : move n = .ok pixels) :
    d.scroll n extent move = .ok { d with pixels, dirty := true } := by
  rw [scroll, if_neg (by omega), if_neg (by omega), if_neg (by omega), Int.toNat_natCast, hmove]
  rfl

/-- The store after a motion along its bytes, in which the places that nothing moves to were
blanked. -/
theorem Sized.moved_of_blanked (h : d.Sized) {pixels : Memory} {offset dx dy : Int}
    {blank : Nat → Prop} [DecidablePred blank] (hoffset : offset = dy * d.width + dx)
    (hsize : pixels.size = d.pixels.size)
    (hget : ∀ k, pixels.bytes.getD k 0 =
      if blank k then 0 else (d.pixels.shift offset).bytes.getD k 0)
    (hblank : ∀ x y, d.OnScreen x y →
      (blank (y * d.width + x).toNat ↔ ¬ d.OnScreen (x - dx) (y - dy))) :
    d.Moved dx dy { d with pixels, dirty := true } where
  high_eq := rfl
  observed_eq := rfl
  sized := hsize.trans h
  pixelAt_eq x y hxy := by
    have hloc : location { d with pixels, dirty := true } x y = y * d.width + x := hxy.location_eq
    rw [pixelAt, hloc, hget]
    by_cases hback : d.OnScreen (x - dx) (y - dy)
    · obtain ⟨k, hk, hlt⟩ := d.location_eq_natCast x y
      obtain ⟨k', hk', hlt'⟩ := d.location_eq_natCast (x - dx) (y - dy)
      have hdiff : (k : Int) - offset = k' := by
        rw [← hk, ← hk', hxy.location_eq, hback.location_eq, hoffset, Int.sub_mul]
        omega
      rw [if_neg fun hb ↦ (hblank x y hxy).mp hb hback, if_pos hback, pixelAt, hk',
        ← hxy.location_eq, hk, Int.toNat_natCast, Int.toNat_natCast,
        Memory.getD_shift _ _ (h ▸ hlt), hdiff, if_pos ⟨by omega, by rw [h]; omega⟩,
        Int.toNat_natCast]
    · rw [if_neg hback, if_pos ((hblank x y hxy).mpr hback)]

/-- Moving the bytes by whole rows and blanking the rows that are vacated, from `first` on, is a
motion by rows. -/
theorem Sized.exists_moveRows (h : d.Sized) (n first : Nat) (dy : Int)
    (hfirst : first + n ≤ d.height)
    (hvacated : ∀ y : Int, 0 ≤ y → y < d.height →
      ((first ≤ y ∧ y < first + n) ↔ ¬ (0 ≤ y - dy ∧ y - dy < d.height))) :
    ∃ pixels, (d.pixels.shift (dy * d.width)).zeroBlock (first * d.width : Nat)
        (n * d.width : Nat) = .ok pixels ∧
      d.Moved 0 dy { d with pixels, dirty := true } := by
  have hsize := Memory.size_shift d.pixels (dy * d.width)
  have hroom : first * d.width + n * d.width ≤ (d.pixels.shift (dy * d.width)).size := by
    rw [hsize, h, ← Nat.add_mul, Nat.mul_comm]
    exact Nat.mul_le_mul_left _ hfirst
  refine ⟨_, Memory.zeroBlock_natCast hroom (hsize ▸ h.size_le),
    h.moved_of_blanked (Int.add_zero _).symm ((Memory.size_overwrite _ _ _).trans hsize)
      (Memory.getD_overwrite_zeros _ _ _) ?_⟩
  intro x y hxy
  have hrow := hvacated y hxy.2.1 hxy.2.2
  rcases d.size_cases with ⟨hw, hh⟩ | ⟨hw, hh⟩ <;> simp only [OnScreen, hw, hh] at * <;> omega

/-- Moving the bytes along rows and blanking the columns that are vacated, from `first` on, in each
row in turn is a motion by columns. -/
theorem Sized.exists_moveColumns (h : d.Sized) (n : Nat) {first : Nat} (dx : Int)
    {start : Nat → Int} (hfirst : first + n ≤ d.width)
    (hstart : ∀ row, start row = (row * d.width + first : Nat))
    (hvacated : ∀ x : Int, 0 ≤ x → x < d.width →
      ((first ≤ x ∧ x < first + n) ↔ ¬ (0 ≤ x - dx ∧ x - dx < d.width))) :
    ∃ pixels, (List.range d.height).foldlM
        (fun (pixels : Memory) row ↦ pixels.zeroBlock (start row) n) (d.pixels.shift dx) =
          .ok pixels ∧
      d.Moved dx 0 { d with pixels, dirty := true } := by
  have hsize := Memory.size_shift d.pixels dx
  have hroom : ∀ row ∈ List.range d.height, ∃ k : Nat,
      start row = k ∧ k + n ≤ (d.pixels.shift dx).size := by
    intro row hrow
    refine ⟨_, hstart row, ?_⟩
    rw [List.mem_range] at hrow
    rw [hsize, h]
    rcases d.size_cases with ⟨hw, hh⟩ | ⟨hw, hh⟩ <;> simp only [hw, hh] at * <;> omega
  obtain ⟨pixels, hzero, hs, hget⟩ := Memory.exists_zeroBlocks (hsize ▸ h.size_le) hroom
  refine ⟨pixels, hzero, h.moved_of_blanked (by omega) (hs.trans hsize) hget ?_⟩
  intro x y hxy
  have hcolumn := hvacated x hxy.1.1 hxy.1.2
  simp only [List.mem_range, hstart]
  constructor
  · rintro ⟨row, hrow, hle, hlt⟩
    rcases d.size_cases with ⟨hw, hh⟩ | ⟨hw, hh⟩ <;> simp only [OnScreen, hw, hh] at * <;> omega
  · intro hback
    refine ⟨y.toNat, ?_⟩
    rcases d.size_cases with ⟨hw, hh⟩ | ⟨hw, hh⟩ <;> simp only [OnScreen, hw, hh] at * <;> omega

/-- Scrolling up moves the pixels by rows. -/
theorem Sized.exists_scrollUp (h : d.Sized) {n : Nat} (h0 : 0 < n) (hn : n < d.height) :
    ∃ pixels, d.scrollUp n = .ok { d with pixels, dirty := true } ∧
      d.Moved 0 (-n) { d with pixels, dirty := true } := by
  obtain ⟨pixels, hmove, hmoved⟩ := h.exists_moveRows n (d.height - n) (-n) (by omega) (by omega)
  rw [Nat.sub_mul, Int.natCast_sub (Nat.mul_le_mul_right _ (Nat.le_of_lt hn)), Int.neg_mul] at hmove
  exact ⟨pixels, scroll_of_lt h0 hn hmove, hmoved⟩

/-- Scrolling down moves the pixels by rows. -/
theorem Sized.exists_scrollDown (h : d.Sized) {n : Nat} (h0 : 0 < n) (hn : n < d.height) :
    ∃ pixels, d.scrollDown n = .ok { d with pixels, dirty := true } ∧
      d.Moved 0 n { d with pixels, dirty := true } := by
  obtain ⟨pixels, hmove, hmoved⟩ := h.exists_moveRows n 0 n (by omega) (by omega)
  rw [Nat.zero_mul] at hmove
  exact ⟨pixels, scroll_of_lt h0 hn hmove, hmoved⟩

/-- Scrolling to the left moves the pixels by columns. -/
theorem Sized.exists_scrollLeft (h : d.Sized) {n : Nat} (h0 : 0 < n) (hn : n < d.width) :
    ∃ pixels, d.scrollLeft n = .ok { d with pixels, dirty := true } ∧
      d.Moved (-n) 0 { d with pixels, dirty := true } := by
  have hstart (row : Nat) : ((d.width * (row + 1) : Nat) : Int) - n =
      (row * d.width + (d.width - n) : Nat) := by
    rw [Nat.mul_succ, Nat.mul_comm]
    omega
  obtain ⟨pixels, hmove, hmoved⟩ := h.exists_moveColumns n (-n) (by omega) hstart (by omega)
  exact ⟨pixels, scroll_of_lt h0 hn hmove, hmoved⟩

/-- Scrolling to the right moves the pixels by columns. -/
theorem Sized.exists_scrollRight (h : d.Sized) {n : Nat} (h0 : 0 < n) (hn : n < d.width) :
    ∃ pixels, d.scrollRight n = .ok { d with pixels, dirty := true } ∧
      d.Moved n 0 { d with pixels, dirty := true } := by
  have hstart (row : Nat) : ((d.width * row : Nat) : Int) = (row * d.width + 0 : Nat) := by
    rw [Nat.mul_comm, Nat.add_zero]
  obtain ⟨pixels, hmove, hmoved⟩ := h.exists_moveColumns n n (by omega) hstart (by omega)
  exact ⟨pixels, scroll_of_lt h0 hn hmove, hmoved⟩

/-- Switching all pixels off is a motion that leads each pixel off the screen. -/
theorem Sized.moved_clear (h : d.Sized) {dx dy : Int}
    (hfar : ∀ x y, d.OnScreen x y → ¬ d.OnScreen (x - dx) (y - dy)) : d.Moved dx dy d.clear where
  high_eq := rfl
  observed_eq := rfl
  sized := (Memory.size_clear _).trans h
  pixelAt_eq x y hxy := by
    rw [if_neg (hfar x y hxy), pixelAt, clear, Memory.clear, Memory.blank,
      Array.getD_eq_getD_getElem?, Array.getElem?_replicate]
    split <;> rfl

/-- Whatever the direction, scrolling is refused, does nothing, switches all pixels off, or moves
them, according to the distance. -/
theorem exists_scrollBy_eq (d : Display) (direction : Direction) :
    ∃ move, ∀ n, d.scrollBy ⟨direction, n⟩ = d.scroll n (d.extent direction) move := by
  cases direction with
  | up => exact ⟨_, fun n ↦ show d.scrollUp n = d.scroll n d.height _ from rfl⟩
  | down => exact ⟨_, fun n ↦ show d.scrollDown n = d.scroll n d.height _ from rfl⟩
  | left => exact ⟨_, fun n ↦ show d.scrollLeft n = d.scroll n d.width _ from rfl⟩
  | right => exact ⟨_, fun n ↦ show d.scrollRight n = d.scroll n d.width _ from rfl⟩

/-- Scrolling by less than nothing is refused. -/
theorem scrollBy_of_neg {s : Scroll} (hneg : s.distance < 0) :
    d.scrollBy s = .error (.negativeScroll s.distance) := by
  obtain ⟨move, hmove⟩ := d.exists_scrollBy_eq s.direction
  rw [hmove s.distance, d.scroll_of_neg hneg]

/-- Scrolling by nothing does nothing. -/
theorem scrollBy_zero (d : Display) (direction : Direction) :
    d.scrollBy ⟨direction, 0⟩ = .ok d := by
  obtain ⟨move, hmove⟩ := d.exists_scrollBy_eq direction
  rw [hmove]
  rfl

/-- Scrolling by less than the extent moves the pixels. -/
theorem Sized.exists_scrollBy_of_lt (h : d.Sized) {direction : Direction} {n : Nat} (h0 : 0 < n)
    (hn : n < d.extent direction) :
    ∃ pixels, d.scrollBy ⟨direction, n⟩ = .ok { d with pixels, dirty := true } ∧
      d.Moved (direction.dx * n) (direction.dy * n) { d with pixels, dirty := true } := by
  cases direction with
  | up => simpa [scrollBy, Direction.dx, Direction.dy] using h.exists_scrollUp h0 hn
  | down => simpa [scrollBy, Direction.dx, Direction.dy] using h.exists_scrollDown h0 hn
  | left => simpa [scrollBy, Direction.dx, Direction.dy] using h.exists_scrollLeft h0 hn
  | right => simpa [scrollBy, Direction.dx, Direction.dy] using h.exists_scrollRight h0 hn

/-- From the extent on, all pixels leave the screen. -/
theorem not_onScreen_of_extent_le {direction : Direction} {n : Nat} (hn : d.extent direction ≤ n)
    {x y : Int} (hxy : d.OnScreen x y) :
    ¬ d.OnScreen (x - direction.dx * n) (y - direction.dy * n) := by
  intro hback
  cases direction <;> simp only [OnScreen, extent, Direction.dx, Direction.dy] at * <;> omega

/-- A scroll by a distance that is not negative moves the picture.  It is noticed unless the
distance is zero. -/
theorem Sized.exists_scrollBy (h : d.Sized) {s : Scroll} (h0 : 0 ≤ s.distance) :
    ∃ d', d.scrollBy s = .ok d' ∧ d.Moved s.dx s.dy d' ∧
      d'.dirty = (d.dirty || s.distance != 0) := by
  obtain ⟨direction, distance⟩ := s
  obtain ⟨n, rfl⟩ := Int.eq_ofNat_of_zero_le h0
  rcases Nat.eq_zero_or_pos n with rfl | hpos
  · refine ⟨d, d.scrollBy_zero direction, ?_, by simp⟩
    simpa [Scroll.dx, Scroll.dy] using h.moved
  · have hdirty : (d.dirty || (n : Int) != 0) = true := by
      simp
      omega
    rcases Nat.lt_or_ge n (d.extent direction) with hlt | hge
    · obtain ⟨pixels, hs, hm⟩ := h.exists_scrollBy_of_lt hpos hlt
      exact ⟨_, hs, hm, hdirty.symm⟩
    · refine ⟨d.clear, ?_, h.moved_clear fun x y ↦ not_onScreen_of_extent_le hge, hdirty.symm⟩
      obtain ⟨move, hmove⟩ := d.exists_scrollBy_eq direction
      rw [hmove, scroll, if_neg (by omega), if_neg (by omega), if_pos (Int.ofNat_le.mpr hge)]

/-! ## One scroll after the other -/

/-- A pixel that stays on the screen with all of some scrolls stays there with the first one, and
then with the others. -/
theorem staysOn_cons {s : Scroll} {scrolls : List Scroll} {x y : Int} :
    d.StaysOn (s :: scrolls) x y ↔ d.OnScreen x y ∧ d.StaysOn scrolls (x + s.dx) (y + s.dy) := by
  constructor
  · intro h
    refine ⟨by simpa [netX, netY] using h 0 (Nat.zero_le _), ?_⟩
    intro k hk
    simpa [netX, netY, Int.add_assoc] using h (k + 1) (Nat.succ_le_succ hk)
  · rintro ⟨hfirst, hrest⟩ k hk
    cases k with
    | zero => simpa [netX, netY] using hfirst
    | succ k => simpa [netX, netY, Int.add_assoc] using hrest k (Nat.le_of_succ_le_succ hk)

/-- Displays of the same resolution let pixels leave their screens in the same way. -/
theorem staysOn_congr (h : d'.high = d.high) {scrolls : List Scroll} {x y : Int} :
    d'.StaysOn scrolls x y ↔ d.StaysOn scrolls x y :=
  forall₂_congr fun _ _ ↦ onScreen_congr h

/-- Scrolls by distances that are not negative leave each pixel that was led to its place without
leaving the screen, and no other. -/
theorem Sized.exists_scrollAll (h : d.Sized) {scrolls : List Scroll}
    (h0 : ∀ s ∈ scrolls, 0 ≤ s.distance) :
    ∃ d', d.scrollAll scrolls = .ok d' ∧ d'.high = d.high ∧ d'.observed = d.observed ∧ d'.Sized ∧
      d'.dirty = (d.dirty || scrolls.any (·.distance != 0)) ∧
      ∀ x y, d.OnScreen x y →
        (d.StaysOn scrolls (x - netX scrolls) (y - netY scrolls) →
          d'.pixelAt x y = d.pixelAt (x - netX scrolls) (y - netY scrolls)) ∧
        (¬ d.StaysOn scrolls (x - netX scrolls) (y - netY scrolls) → d'.pixelAt x y = 0) := by
  induction scrolls generalizing d with
  | nil =>
    refine ⟨d, rfl, rfl, rfl, h, (Bool.or_false _).symm, ?_⟩
    intro x y hxy
    refine ⟨fun _ ↦ by simp [netX, netY], ?_⟩
    intro hleft
    refine absurd ?_ hleft
    intro k _
    simpa [netX, netY] using hxy
  | cons s scrolls ih =>
    obtain ⟨d₁, hs, hmoved, hdirty₁⟩ := h.exists_scrollBy (h0 s List.mem_cons_self)
    obtain ⟨d', hrest, hhigh, hobs, hsized, hdirty, hpix⟩ :=
      ih hmoved.sized fun t ht ↦ h0 t (List.mem_cons_of_mem _ ht)
    refine ⟨d', ?_, hhigh.trans hmoved.high_eq, hobs.trans hmoved.observed_eq, hsized, ?_, ?_⟩
    · rw [scrollAll, List.foldlM_cons, hs]
      exact hrest
    · rw [hdirty, hdirty₁, List.any_cons, Bool.or_assoc]
    · intro x y hxy
      -- Between the first scroll and the others, the pixel lies as far back as the others lead.
      obtain ⟨hkept, hlost⟩ := hpix x y ((onScreen_congr hmoved.high_eq).mpr hxy)
      have hx : x - netX (s :: scrolls) = x - netX scrolls - s.dx := by
        rw [netX]
        omega
      have hy : y - netY (s :: scrolls) = y - netY scrolls - s.dy := by
        rw [netY]
        omega
      rw [staysOn_congr hmoved.high_eq] at hkept hlost
      rw [hx, hy, staysOn_cons, Int.sub_add_cancel, Int.sub_add_cancel]
      by_cases hstays : d.StaysOn scrolls (x - netX scrolls) (y - netY scrolls)
      · have hfirst : d.OnScreen (x - netX scrolls) (y - netY scrolls) := by
          simpa [netX, netY] using hstays 0 (Nat.zero_le _)
        rw [hkept hstays, hmoved.pixelAt_eq _ _ hfirst]
        refine ⟨fun hback ↦ if_pos hback.1, fun hback ↦ if_neg fun hc ↦ hback ⟨hc, hstays⟩⟩
      · exact ⟨fun hback ↦ absurd hback.2 hstays, fun _ ↦ hlost hstays⟩

/-- Two scrolls one after the other are a motion by the sum of their vectors, if no pixel leaves the
screen and comes back. -/
theorem Sized.exists_bind_scrollBy (h : d.Sized) {s t : Scroll} (hs : 0 ≤ s.distance)
    (ht : 0 ≤ t.distance)
    (hback : ∀ x y, d.OnScreen x y → d.OnScreen (x - (s.dx + t.dx)) (y - (s.dy + t.dy)) →
      d.OnScreen (x - t.dx) (y - t.dy)) :
    ∃ d', (d.scrollBy s >>= (·.scrollBy t)) = .ok d' ∧
      d.Moved (s.dx + t.dx) (s.dy + t.dy) d' ∧
      d'.dirty = (d.dirty || (s.distance != 0 || t.distance != 0)) := by
  obtain ⟨d₁, hd₁, hm₁, hdirty₁⟩ := h.exists_scrollBy hs
  obtain ⟨d₂, hd₂, hm₂, hdirty₂⟩ := hm₁.sized.exists_scrollBy ht
  refine ⟨d₂, ?_, hm₁.trans hm₂ hback, ?_⟩
  · rw [hd₁]
    exact hd₂
  · rw [hdirty₂, hdirty₁, Bool.or_assoc]

/-- Scrolls in one direction add up. -/
theorem Sized.scrollBy_add (h : d.Sized) (direction : Direction) {a b : Int} (ha : 0 ≤ a)
    (hb : 0 ≤ b) :
    (d.scrollBy ⟨direction, a⟩ >>= (·.scrollBy ⟨direction, b⟩)) =
      d.scrollBy ⟨direction, a + b⟩ := by
  have hsum : 0 ≤ a + b := Int.add_nonneg ha hb
  obtain ⟨d', hd', hm', hdirty'⟩ := h.exists_bind_scrollBy (s := ⟨direction, a⟩)
    (t := ⟨direction, b⟩) ha hb (by
      intro x y hxy hback
      cases direction <;>
        simp only [OnScreen, Scroll.dx, Scroll.dy, Direction.dx, Direction.dy] at * <;> omega)
  obtain ⟨d'', hd'', hm'', hdirty''⟩ := h.exists_scrollBy (s := ⟨direction, a + b⟩) hsum
  have hx : Scroll.dx ⟨direction, a⟩ + Scroll.dx ⟨direction, b⟩ = Scroll.dx ⟨direction, a + b⟩ :=
    (Int.mul_add _ _ _).symm
  have hy : Scroll.dy ⟨direction, a⟩ + Scroll.dy ⟨direction, b⟩ = Scroll.dy ⟨direction, a + b⟩ :=
    (Int.mul_add _ _ _).symm
  have hdirty : (a != 0 || b != 0) = (a + b != 0) := by
    rw [Bool.eq_iff_iff]
    simp
    omega
  rw [hd', hd'']
  rw [hx, hy] at hm'
  rw [hm'.unique hm'' (by rw [hdirty', hdirty'', hdirty])]

/-- A scroll along rows and one along columns commute. -/
theorem Sized.scrollBy_comm (h : d.Sized) {s t : Scroll} (hs : s.direction.isHorizontal)
    (ht : ¬ t.direction.isHorizontal) (hs0 : 0 ≤ s.distance) (ht0 : 0 ≤ t.distance) :
    (d.scrollBy s >>= (·.scrollBy t)) = (d.scrollBy t >>= (·.scrollBy s)) := by
  have hsy : s.dy = 0 := by
    obtain ⟨direction, distance⟩ := s
    cases direction <;> simp_all [Scroll.dy, Direction.dy, Direction.isHorizontal]
  have htx : t.dx = 0 := by
    obtain ⟨direction, distance⟩ := t
    cases direction <;> simp_all [Scroll.dx, Direction.dx, Direction.isHorizontal]
  obtain ⟨d', hd', hm', hdirty'⟩ := h.exists_bind_scrollBy hs0 ht0 (by
    intro x y hxy hback
    simp only [OnScreen] at *
    omega)
  obtain ⟨d'', hd'', hm'', hdirty''⟩ := h.exists_bind_scrollBy ht0 hs0 (by
    intro x y hxy hback
    simp only [OnScreen] at *
    omega)
  rw [hd', hd'']
  rw [Int.add_comm s.dx, Int.add_comm s.dy] at hm'
  rw [hm'.unique hm'' (by rw [hdirty', hdirty'', Bool.or_comm (s.distance != 0)])]

/-- A machine whose display is scrolled has it scrolled by a scroll. -/
theorem operate_scroll (m : Machine) (s : Scroll) :
    m.operate (s.direction.operation s.distance) =
      some (m.attempt (m.scroll (·.scrollBy s))) := by
  obtain ⟨direction, distance⟩ := s
  cases direction <;> rfl

/-- Scrolls move the picture, and do nothing else.

After any scrolls by distances that are not negative, each pixel on the screen is the one that lay
at the place from which all of them together lead to it, if that place is on the screen and each of
the scrolls in turn has kept the pixel there; otherwise it is off.  Scrolls in one direction add up,
and scrolls along rows commute with those along columns.  A scroll by nothing leaves the display as
it was, and every other one is noticed; a scroll by less than nothing is refused, and the machine
whose display it was to scroll is left as it was. -/
theorem scrolls_move_picture (h : d.Sized) :
    (∀ scrolls : List Scroll, (∀ s ∈ scrolls, 0 ≤ s.distance) →
      ∃ d', d.scrollAll scrolls = .ok d' ∧ d'.high = d.high ∧ d'.observed = d.observed ∧
        d'.Sized ∧ d'.dirty = (d.dirty || scrolls.any (·.distance != 0)) ∧
        ∀ x y, d.OnScreen x y →
          (d.StaysOn scrolls (x - netX scrolls) (y - netY scrolls) →
            d'.pixelAt x y = d.pixelAt (x - netX scrolls) (y - netY scrolls)) ∧
          (¬ d.StaysOn scrolls (x - netX scrolls) (y - netY scrolls) → d'.pixelAt x y = 0)) ∧
    (∀ (direction : Direction) (a b : Int), 0 ≤ a → 0 ≤ b →
      (d.scrollBy ⟨direction, a⟩ >>= (·.scrollBy ⟨direction, b⟩)) =
        d.scrollBy ⟨direction, a + b⟩) ∧
    (∀ s t : Scroll, s.direction.isHorizontal → ¬ t.direction.isHorizontal →
      0 ≤ s.distance → 0 ≤ t.distance →
        (d.scrollBy s >>= (·.scrollBy t)) = (d.scrollBy t >>= (·.scrollBy s))) ∧
    (∀ direction, d.scrollBy ⟨direction, 0⟩ = .ok d) ∧
    (∀ s : Scroll, 0 < s.distance → ∃ d', d.scrollBy s = .ok d' ∧ d'.dirty = true) ∧
    ∀ s : Scroll, s.distance < 0 →
      d.scrollBy s = .error (.negativeScroll s.distance) ∧
      ∀ m : Machine, m.operate (s.direction.operation s.distance) =
        some (m, some (.negativeScroll s.distance)) := by
  refine ⟨fun _ ↦ h.exists_scrollAll, fun direction _ _ ↦ h.scrollBy_add direction,
    fun _ _ ↦ h.scrollBy_comm, d.scrollBy_zero, ?_, ?_⟩
  · intro s hpos
    obtain ⟨d', hd', -, hdirty⟩ := h.exists_scrollBy (Int.le_of_lt hpos)
    refine ⟨d', hd', ?_⟩
    rw [hdirty]
    simp
    omega
  · intro s hneg
    refine ⟨scrollBy_of_neg hneg, fun m ↦ ?_⟩
    rw [operate_scroll, Machine.scroll, scrollBy_of_neg hneg]
    rfl

/-- A picture with one pixel on, in column 3 of row 5. -/
def dotted : Display where
  pixels := ⟨(Memory.blank (64 * 32)).bytes.setIfInBounds (5 * 64 + 3) 0xFF⟩

/-- The pixel goes down and to the right and is not lost, but it is lost at the left edge, and does
not come back. -/
theorem scrolls_move_picture_dotted :
    (∃ d', dotted.scrollAll [⟨.down, 2⟩, ⟨.right, 60⟩] = .ok d' ∧ d'.pixelAt 63 7 = 0xFF) ∧
    ∃ d', dotted.scrollAll [⟨.left, 4⟩, ⟨.right, 4⟩] = .ok d' ∧ d'.pixelAt 3 5 = 0 := by
  have hsized : dotted.Sized := by
    rw [Sized, dotted, Memory.size, Array.size_setIfInBounds]
    exact Memory.size_blank _
  obtain ⟨hall, -⟩ := scrolls_move_picture hsized
  constructor
  · obtain ⟨d', hd', -, -, -, -, hpix⟩ := hall [⟨.down, 2⟩, ⟨.right, 60⟩] (by decide)
    refine ⟨d', hd', ?_⟩
    rw [(hpix 63 7 (by decide +kernel)).1 (by decide +kernel)]
    decide +kernel
  · obtain ⟨d', hd', -, -, -, -, hpix⟩ := hall [⟨.left, 4⟩, ⟨.right, 4⟩] (by decide)
    exact ⟨d', hd', (hpix 3 5 (by decide +kernel)).2 (by decide +kernel)⟩

end Display

end SuperChip
