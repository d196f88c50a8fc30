import SuperChip.Proofs.Pad

/-!
# The title and the last frame in a terminal

A screen in a terminal is used by calls: frames are handed over, the waiting one is shown, the title
is set, and the terminal itself may change.  `Kept` is what such calls keep of a screen, whatever
their order: its writes fit, and its pad has the size for the frames and shows the title, if each
character of that takes one cell and there is room in memory for a line that long.

A frame may need another pad, which is made and given the title before any pixel is written.  So the
writes of a frame always find a pad of its size.

All of this is about frames whose pads are not refused.  A refused pad leaves a screen that has
noted a size for which it has no pad: the state is given, and nothing is said of what comes after.
-/

namespace SuperChip

/-- A frame has rows and columns, and a byte for each of its pixels. -/
structure Frame.IsWhole (frame : Frame) : Prop where
  /-- There are columns. -/
  width_pos : 1 ≤ frame.width
  /-- There are rows. -/
  height_pos : 1 ≤ frame.height
  /-- There are as many bytes as pixels. -/
  size_eq : (frame.pixels.size : Int) = frame.width * frame.height

/-- The byte of the pixel in a column and a row. -/
def Frame.pixel (frame : Frame) (x y : Int) : UInt8 :=
  frame.pixels.getD (y * frame.width + x).toNat 0

namespace Terminal

/-- The pad for a frame whose pixels are stretched: a row for the title, and a row and a column to
spare. -/
def padFor (frame : Frame) (scale : Int) : Command :=
  .newPad (frame.height + 2) (frame.width * scale + 1)

/-- A call of a screen, or a change of the terminal that it is in. -/
inductive Call
  /-- A frame is handed over. -/
  | draw (frame : Frame)
  /-- The waiting frame is to be shown. -/
  | refresh
  /-- The title is set. -/
  | setTitle (title : String)
  /-- The terminal has become another one. -/
  | move (surroundings : Surroundings)

namespace Call

/-- A call hands over nothing but frames with a byte for each pixel. -/
def IsWhole : Call → Prop
  | .draw frame => frame.IsWhole
  | _ => True

/-- A call hands over nothing but frames whose pads are never refused. -/
def PadMade (library : Library) (scale : Int) : Call → Prop
  | .draw frame => library.Grants (padFor frame scale)
  | _ => True

/-- A call sets no title but one whose characters take one cell each. -/
def IsPlain (library : Library) : Call → Prop
  | .setTitle title => library.Shows title.toList
  | _ => True

/-- The title after a call. -/
def titleAfter (title : String) : Call → String
  | .setTitle title => title
  | _ => title

/-- The terminal after a call. -/
def surroundingsAfter (surroundings : Surroundings) : Call → Surroundings
  | .move surroundings => surroundings
  | _ => surroundings

/-- The frame that waits after a call. -/
def waitingAfter (waiting : Option Frame) : Call → Option Frame
  | .draw frame => some frame
  | .refresh => none
  | _ => waiting

end Call

/-- The terminal as it has become last. -/
def lastSurroundings (surroundings : Surroundings) (calls : List Call) : Surroundings :=
  calls.foldl Call.surroundingsAfter surroundings

namespace Screen

open Command (AllFit)

variable {s s' : Screen} {p : Pad} {frame : Frame}

/-- What becomes of a screen with a call, fault or not. -/
def call (s : Screen) : Call → Screen
  | .draw frame => { s with base := s.base.draw frame }
  | .refresh => s.refresh.1
  | .setTitle title => (s.setTitle title).1
  | .move surroundings => { s with surroundings }

/-- A screen after some calls, faults or not. -/
def after (s : Screen) (calls : List Call) : Screen := calls.foldl call s

/-- What no call changes: how pixels are stretched, the library, and the room for texts. -/
structure SameMake (s s' : Screen) : Prop where
  /-- Pixels are stretched alike. -/
  scale_eq : s'.base.scale = s.base.scale
  /-- The library is the same. -/
  library_eq : s'.library = s.library
  /-- There is as much room. -/
  capacity_eq : s'.capacity = s.capacity

/-- What calls keep of a screen: its writes fit, and if it has a pad, that has the size for the
frames and shows the title, if each character of that takes one cell and there is room for its
line. -/
structure Kept (s : Screen) : Prop where
  /-- Pixels have columns. -/
  scale_pos : 1 ≤ s.base.scale
  /-- The library can be relied upon. -/
  obliging : s.library.Obliging
  /-- A frame that waits has a byte for each pixel, and its pad is never refused. -/
  waiting : ∀ frame, s.base.slot = some frame →
    frame.IsWhole ∧ s.library.Grants (padFor frame s.base.scale)
  /-- There is a pad and all is well with it, or there is none and no frame was shown. -/
  pad : (∃ p, s.Framed p ∧ (s.library.Shows s.title → s.lineWidth < s.capacity.exhausted →
      s.ShowsTitle p)) ∨
    ((s.hasPad = false ∧ s.base.width = 0) ∧ AllFit s.library s.commands ∧
      Pad.ofCommands? s.library s.commands = none)

/-- All writes fit. -/
theorem Kept.allFit (h : s.Kept) : AllFit s.library s.commands := by
  rcases h.pad with ⟨p, hp, -⟩ | ⟨-, hfit, -⟩
  · exact hp.allFit
  · exact hfit

/-- Another frame may wait, and it does not matter how many frames were shown and what terminal it
is. -/
theorem Kept.withSlot (h : s.Kept) {slot : FrameSlot} (hslot : ∀ frame, slot = some frame →
      frame.IsWhole ∧ s.library.Grants (padFor frame s.base.scale))
    (shown : Nat) (surroundings : Surroundings) :
    ({ s with base := { s.base with slot, shown }, surroundings } : Screen).Kept := by
  refine ⟨h.scale_pos, h.obliging, hslot, ?_⟩
  rcases h.pad with ⟨p, hp, htitle⟩ | hnone
  · exact .inl ⟨p, { hp with }, htitle⟩
  · exact .inr hnone

/-! ## The waiting frame -/

/-- Where no frame waits, nothing is shown. -/
theorem refresh_of_slot_eq_none (hslot : s.base.slot = none) : s.refresh = (s, .ok false) := by
  rw [refresh, SuperChip.Screen.next?, hslot]
  rfl

/-- A frame that waits comes with its orders. -/
theorem next?_of_slot (hslot : s.base.slot = some frame) :
    s.base.next? = some ({ s.base with slot := none }, s.base.orders frame) := by
  rw [SuperChip.Screen.next?, hslot]
  rfl

/-- A frame that waits is taken away, and counted if its orders are carried out. -/
theorem refresh_of_obey (hslot : s.base.slot = some frame)
    (hobey : obey (s.base.orders frame) { s with base := { s.base with slot := none } } =
      (s', none)) :
    s.refresh = ({ s' with base := s'.base.countShown }, .ok true) := by
  rw [refresh, next?_of_slot hslot]
  simp only [hobey]

/-- A frame that waits is taken away, and not counted if its orders meet a fault. -/
theorem refresh_of_obey_fault {f : Fault} (hslot : s.base.slot = some frame)
    (hobey : obey (s.base.orders frame) { s with base := { s.base with slot := none } } =
      (s', some f)) :
    s.refresh = (s', .error f) := by
  rw [refresh, next?_of_slot hslot]
  simp only [hobey]

/-- An order to get ready that is carried out is followed by the others. -/
theorem obey_resize {width height : Int} {orders : List Order}
    (h : s.resize width height = (s', none)) :
    obey (.resize width height :: orders) s = obey orders s' := by
  rw [obey, h]

/-- An order to get ready that meets a fault is the last one. -/
theorem obey_resize_fault {width height : Int} {orders : List Order} {f : Fault}
    (h : s.resize width height = (s', some f)) :
    obey (.resize width height :: orders) s = (s', some f) := by
  rw [obey, h]

/-- An order to paint is carried out. -/
theorem obey_paint (s : Screen) (pixels : Array UInt8) :
    obey [.paint pixels] s = s.paint pixels := by
  rw [obey]
  split
  · next s' h => exact h.symm
  · rfl

/-- A screen that is ready for a frame: it has a pad, and the frame is no longer waiting. -/
def readied (s : Screen) (frame : Frame) : Screen :=
  { s with
    base := { s.base with width := frame.width, height := frame.height, slot := none }
    hasPad := true }

/-- Before the pixels of a frame are written, there is a pad of the right size for it, which shows
the title as far as it can; drawing the title may have met a fault. -/
theorem Kept.exists_ready (h : s.Kept) (hslot : s.base.slot = some frame) :
    ∃ fault xs p, ((s.readied frame).command xs).Framed p ∧
      (∀ r c, 1 ≤ r → xs.countP (·.covers r c) = 0) ∧
      (s.library.Shows s.title → frame.width * s.base.scale < s.capacity.exhausted →
        fault = none ∧ (s.readied frame).ShowsTitle p) ∧
      (fault = none → s.lineWidth < s.capacity.exhausted →
        frame.width * s.base.scale < s.capacity.exhausted) ∧
      (fault = none →
        obey (s.base.orders frame) { s with base := { s.base with slot := none } } =
          ((s.readied frame).command xs).paint frame.pixels) ∧
      (∀ f, fault = some f →
        obey (s.base.orders frame) { s with base := { s.base with slot := none } } =
          ((s.readied frame).command xs, some f)) := by
  obtain ⟨hframe, hpad⟩ := h.waiting frame hslot
  by_cases hsame : frame.width = s.base.width ∧ frame.height = s.base.height
  · rcases h.pad with ⟨p, hp, htitle⟩ | ⟨⟨-, hwidth⟩, -⟩
    · have hready : ({ s with base := { s.base with slot := none } } : Screen) =
          s.readied frame := by
        rw [readied, hsame.1, hsame.2, ← hp.hasPad]
      have hframed : ({ s with base := { s.base with slot := none } } : Screen).Framed p :=
        { hp with }
      have hline : s.lineWidth = frame.width * s.base.scale := by rw [lineWidth, hsame.1]
      rw [SuperChip.Screen.orders, if_pos hsame, hready]
      refine ⟨none, [], p, hready ▸ hframed, fun _ _ _ ↦ rfl, ?_, fun _ ↦ hline ▸ id,
        fun _ ↦ obey_paint _ _, by simp⟩
      intro hshows hroom
      have hshown : ShowsTitle { s with base := { s.base with slot := none } } p :=
        htitle hshows (hline ▸ hroom)
      exact ⟨rfl, hready ▸ hshown⟩
    · have := hframe.width_pos
      omega
  · obtain ⟨fault, xs, p, heq, hp, hbelow, hroom, hshows⟩ := exists_resize
      (s := { s with base := { s.base with slot := none } }) h.obliging h.allFit h.scale_pos
      hframe.width_pos hframe.height_pos hpad
    rw [SuperChip.Screen.orders, if_neg hsame]
    refine ⟨fault, xs, p, hp, hbelow, hshows, fun hnone _ ↦ hroom hnone, ?_, ?_⟩
    · rintro rfl
      exact (obey_resize heq).trans (obey_paint _ _)
    · rintro f rfl
      exact obey_resize_fault heq

/-- A refresh shows the waiting frame, with one write for each cell below the title, if it meets no
fault, which it does not if there is room for the title, each character of which takes one cell, and
the terminal has rows and columns.  Whatever calls keep of a screen, a refresh keeps. -/
theorem Kept.exists_refresh (h : s.Kept) (hslot : s.base.slot = some frame) :
    ∃ (s' : Screen) (answer : Except Fault Bool), s.refresh = (s', answer) ∧ s'.Kept ∧
      s.SameMake s' ∧
      (s'.base.slot = none ∧ s'.title = s.title ∧ s'.base.width = frame.width ∧
        s'.surroundings = s.surroundings) ∧
      (frame.width * s.base.scale < s.capacity.exhausted → s.library.Shows s.title →
        s.surroundings.HasCells → answer = .ok true) ∧
      ((∃ f, answer = .error f) ∨ (s.lineWidth < s.capacity.exhausted →
        frame.width * s.base.scale < s.capacity.exhausted)) ∧
      (answer = .ok true → ∃ (xs : List Command) (p : Pad),
        s'.commands = xs ++ s.commands ∧ s'.Framed p ∧
        ∀ r c, 1 ≤ r → r ≤ frame.height → 0 ≤ c → c < frame.width * s.base.scale →
          xs.countP (·.covers r c) = 1 ∧
          p.cell r c = some (' ', frame.pixel (c / s.base.scale) (r - 1) != 0)) := by
  obtain ⟨fault, xs, p, hp, hbelow, hshows, hstays, hobey, hfault⟩ := h.exists_ready hslot
  cases fault with
  | some f =>
    refine ⟨_, .error f, refresh_of_obey_fault hslot (hfault f rfl),
      ⟨h.scale_pos, h.obliging, ?_, .inl ⟨p, hp, fun hplain hroom ↦ (hshows hplain hroom).2⟩⟩,
      ⟨rfl, rfl, rfl⟩, ⟨rfl, rfl, rfl, rfl⟩, ?_, .inl ⟨f, rfl⟩, ?_⟩
    · intro frame' hslot'
      cases hslot'
    · intro hroom hplain
      cases (hshows hplain hroom).1
    · intro hanswer
      cases hanswer
  | none =>
    obtain ⟨seen, fault, ys, p', hpaint, hp', hfault, htop, hcells⟩ :=
      hp.exists_paint h.obliging (h.waiting frame hslot).1.size_eq
    have hkept : ({ (s.readied frame).command xs with seen }.command ys).Kept := by
      refine ⟨h.scale_pos, h.obliging, ?_, .inl ⟨p', hp', ?_⟩⟩
      · intro frame' hslot'
        cases hslot'
      · intro hplain hroom c hc hc'
        exact (htop c).trans ((hshows hplain hroom).2 c hc hc')
    cases fault with
    | some f =>
      refine ⟨_, .error f, refresh_of_obey_fault hslot ((hobey rfl).trans hpaint), hkept,
        ⟨rfl, rfl, rfl⟩, ⟨rfl, rfl, rfl, rfl⟩, ?_, .inl ⟨f, rfl⟩, ?_⟩
      · intro _ _ hterminal
        cases hfault hterminal
      · intro hanswer
        cases hanswer
    | none =>
      refine ⟨_, .ok true, refresh_of_obey hslot ((hobey rfl).trans hpaint), hkept.withSlot hkept.waiting _ _,
        ⟨rfl, rfl, rfl⟩, ⟨rfl, rfl, rfl, rfl⟩, fun _ _ _ ↦ rfl, .inr (hstays rfl),
        fun _ ↦ ⟨ys.reverse ++ xs.reverse, p', ?_, { hp' with }, ?_⟩⟩
      · rw [List.append_assoc]
        rfl
      · intro r c hr hr' hc hc'
        obtain ⟨hcount, hcell⟩ := hcells r c hr hr' hc hc'
        refine ⟨?_, hcell⟩
        rw [List.countP_append, List.countP_reverse, List.countP_reverse, hcount, hbelow r c hr]

/-- Setting the title keeps what calls keep, and meets no fault if each character takes one cell and
there is room for its line. -/
theorem Kept.exists_setTitle (h : s.Kept) (title : String) :
    ∃ fault xs, s.setTitle title = ({ s with title := title.toList }.command xs, fault) ∧
      ({ s with title := title.toList }.command xs).Kept ∧
      (s.lineWidth < s.capacity.exhausted → s.library.Shows title.toList → fault = none) := by
  rcases h.pad with ⟨p, hp, -⟩ | ⟨⟨hnone, hwidth⟩, hpad⟩
  · have hp₁ : ({ s with title := title.toList } : Screen).Framed p := { hp with }
    obtain ⟨fault, xs, p', heq, hp', -, -, hshows⟩ := hp₁.exists_drawTitle h.obliging
    exact ⟨fault, xs, heq, ⟨h.scale_pos, h.obliging, h.waiting,
      .inl ⟨p', hp', fun hplain hroom ↦ ((hshows hplain).2 hroom).2⟩⟩,
      fun hroom hplain ↦ ((hshows hplain).2 hroom).1⟩
  · refine ⟨none, [], if_neg (by simp [hnone]), ?_, fun _ _ ↦ rfl⟩
    exact ⟨h.scale_pos, h.obliging, h.waiting, .inr ⟨⟨hnone, hwidth⟩, hpad⟩⟩

/-- Each call keeps what calls keep, if it hands over no frame without a byte for each pixel and no
frame whose pad is refused. -/
theorem Kept.call (h : s.Kept) {call : Call} (hcall : call.IsWhole)
    (hmade : call.PadMade s.library s.base.scale) : (s.call call).Kept := by
  cases call with
  | draw frame =>
    refine h.withSlot ?_ _ _
    intro frame' hslot
    rw [FrameSlot.offer_eq] at hslot
    cases hslot
    exact ⟨hcall, hmade⟩
  | refresh =>
    cases hslot : s.base.slot with
    | none =>
      rw [Screen.call, refresh_of_slot_eq_none hslot]
      exact h
    | some frame =>
      obtain ⟨s', answer, hrefresh, hkept, -⟩ := h.exists_refresh hslot
      rw [Screen.call, hrefresh]
      exact hkept
  | setTitle title =>
    obtain ⟨fault, xs, htitle, hkept, -⟩ := h.exists_setTitle title
    rw [Screen.call, htitle]
    exact hkept
  | move surroundings => exact h.withSlot h.waiting _ _

/-- A call leaves the make of a screen as it is, and the title, the terminal and the waiting frame
as they are after it. -/
theorem Kept.call_eq (h : s.Kept) (call : Call) {title : String} (htitle : s.title = title.toList) :
    s.SameMake (s.call call) ∧ (s.call call).title = (call.titleAfter title).toList ∧
      (s.call call).surroundings = call.surroundingsAfter s.surroundings ∧
      (s.call call).base.slot = call.waitingAfter s.base.slot := by
  cases call with
  | draw frame => exact ⟨⟨rfl, rfl, rfl⟩, htitle, rfl, FrameSlot.offer_eq _ _⟩
  | refresh =>
    cases hslot : s.base.slot with
    | none =>
      rw [Screen.call, refresh_of_slot_eq_none hslot]
      exact ⟨⟨rfl, rfl, rfl⟩, htitle, rfl, hslot⟩
    | some frame =>
      obtain ⟨s', answer, hrefresh, -, hmake, ⟨hnone, hsame, -, hplace⟩, -⟩ :=
        h.exists_refresh hslot
      rw [Screen.call, hrefresh]
      exact ⟨hmake, hsame.trans htitle, hplace, hnone⟩
  | setTitle title =>
    obtain ⟨fault, xs, heq, -⟩ := h.exists_setTitle title
    rw [Screen.call, heq]
    exact ⟨⟨rfl, rfl, rfl⟩, rfl, rfl, rfl⟩
  | move surroundings => exact ⟨⟨rfl, rfl, rfl⟩, htitle, rfl, rfl⟩

/-- What each call keeps, all of them keep.  The make of the screen stays as it is, the title is the
one that was set last, the terminal is what it has become last, and the frame that waits is the one
that was handed over last, if it was not shown since. -/
theorem Kept.after (h : s.Kept) {calls : List Call} (hcalls : ∀ call ∈ calls, call.IsWhole)
    (hpads : ∀ call ∈ calls, call.PadMade s.library s.base.scale) {title : String}
    (htitle : s.title = title.toList) :
    (s.after calls).Kept ∧ s.SameMake (s.after calls) ∧
      (s.after calls).title = (calls.foldl Call.titleAfter title).toList ∧
      (s.after calls).surroundings = lastSurroundings s.surroundings calls ∧
      (s.after calls).base.slot = calls.foldl Call.waitingAfter s.base.slot := by
  induction calls generalizing s title with
  | nil => exact ⟨h, ⟨rfl, rfl, rfl⟩, htitle, rfl, rfl⟩
  | cons call calls ih =>
    obtain ⟨hcall, hcalls⟩ := List.forall_mem_cons.mp hcalls
    obtain ⟨hpad, hpads⟩ := List.forall_mem_cons.mp hpads
    obtain ⟨hmake, htitle', hplace, hslot⟩ := h.call_eq call htitle
    rw [← hmake.library_eq, ← hmake.scale_eq] at hpads
    obtain ⟨hkept, hmakes, htitles, hplaces, hslots⟩ :=
      ih (h.call hcall hpad) hcalls hpads htitle'
    rw [hplace] at hplaces
    rw [hslot] at hslots
    exact ⟨hkept, ⟨hmakes.scale_eq.trans hmake.scale_eq, hmakes.library_eq.trans hmake.library_eq,
      hmakes.capacity_eq.trans hmake.capacity_eq⟩, htitles, hplaces, hslots⟩

/-- A frame of one row, with its first pixel lit. -/
def smallFrame : Frame := ⟨#[0xFF, 0], 2, 1⟩

/-- A frame of two rows, with the second pixel of its last row lit. -/
def largeFrame : Frame := ⟨#[0, 0, 0, 0, 0xFF, 0], 3, 2⟩

/-- A title is set, a frame is shown, and then a larger one is handed over. -/
def changes : List Call := [.setTitle "GAME", .draw smallFrame, .refresh, .draw largeFrame]

end Screen

end Terminal

end SuperChip
