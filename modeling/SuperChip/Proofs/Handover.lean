import Mathlib.Data.List.Basic
import SuperChip.Handover

/-!
# The newest frame wins

However the two threads take turns, the frames are shown in the order in which they were drawn, none
of them twice, and the last one is not lost: when the machine has finished a draw, its frame is in
the slot until it is taken to be shown.

`Handover.Invariant` says where each frame is and what each thread may count on.  It survives each
move, so it holds whatever moves are made.  That draws and refreshes come to an end is shown by
counting the steps that are left.
-/

namespace SuperChip

/-! ## What a refresh is yet to do -/

/-- The frames that a refresh is yet to paint on a screen. -/
def Refreshing.pending (s : Screen) : Refreshing → List Frame
  | .idle => []
  | .showing orders => s.paintings orders

/-- One while a refresh is under way, and zero otherwise. -/
def Refreshing.count : Refreshing → Nat
  | .idle => 0
  | .showing _ => 1

/-- What a refresh is yet to paint does not depend on the slot. -/
theorem Refreshing.pending_withSlot (r : Refreshing) (s : Screen) (slot : FrameSlot) :
    r.pending { s with slot } = r.pending s := by
  cases r with
  | idle => rfl
  | showing orders => exact s.paintings_withSlot slot orders

namespace Handover

/-! ## Frames by number -/

/-- The frames with the given numbers. -/
def framesOf (drawn : List Frame) (numbers : List Nat) : List Frame :=
  numbers.filterMap (drawn[·]?)

/-- If there are frames with the given numbers, then each number stands for its frame. -/
theorem framesOf_eq_map {drawn : List Frame} {numbers : List Nat}
    (h : ∀ n ∈ numbers, n < drawn.length) :
    framesOf drawn numbers = (numbers.pmap Fin.mk h).map fun n ↦ drawn[n] := by
  induction numbers with
  | nil => rfl
  | cons n numbers ih =>
    have hn := h n List.mem_cons_self
    rw [List.pmap_cons, List.map_cons, ← ih, framesOf,
      List.filterMap_cons_some (List.getElem?_eq_getElem hn)]
    rfl

/-- The frames with the given numbers are as many, if there are such frames. -/
theorem length_framesOf {drawn : List Frame} {numbers : List Nat}
    (h : ∀ n ∈ numbers, n < drawn.length) : (framesOf drawn numbers).length = numbers.length := by
  rw [framesOf_eq_map h, List.length_map, List.length_pmap]

/-- Frames with increasing numbers are some of the frames, in their order. -/
theorem framesOf_sublist {drawn : List Frame} {numbers : List Nat}
    (h : ∀ n ∈ numbers, n < drawn.length) (hp : numbers.Pairwise (· < ·)) :
    (framesOf drawn numbers).Sublist drawn := by
  rw [framesOf_eq_map h]
  apply List.map_getElem_sublist
  exact hp.pmap h fun _ _ _ _ hlt ↦ hlt

/-- Frames keep their numbers when more are drawn. -/
theorem framesOf_append {drawn : List Frame} {numbers : List Nat}
    (h : ∀ n ∈ numbers, n < drawn.length) (more : List Frame) :
    framesOf (drawn ++ more) numbers = framesOf drawn numbers := by
  apply List.filterMap_congr
  intro n hn
  exact List.getElem?_append_left (h n hn)

/-! ## The slot -/

/-- The numbers of the frames that were put in the slot and not dropped. -/
def kept (h : Handover) : List Nat := h.taken ++ h.waiting.toList

/-- What the machine's thread may count on, where it is. -/
inductive DrawingInvariant (h : Handover) : Drawing → Prop
  /-- All draws are finished, and the frame of the last one is kept. -/
  | idle (hdrawn : h.drawn.length = h.tries.length)
    (hlast : ∀ n, h.tries.length = n + 1 → n ∈ h.kept) : DrawingInvariant h .idle
  /-- The last draw is under way.  If it has found the slot full, then the slot is empty now. -/
  | putting (frame : Frame) (tries : Nat) (drawn : List Frame) (hdrawn : h.drawn = drawn ++ [frame])
    (hlength : drawn.length = h.tries.length)
    (htries : tries = 0 ∨ (tries = 1 ∧ h.screen.slot = none)) :
    DrawingInvariant h (.putting frame tries)
  /-- The last draw is under way and has found the slot full once. -/
  | dropping (frame : Frame) (drawn : List Frame) (hdrawn : h.drawn = drawn ++ [frame])
    (hlength : drawn.length = h.tries.length) : DrawingInvariant h (.dropping frame 1)

/-- What goes through the slot, and where the machine's thread is. -/
structure SlotInvariant (h : Handover) : Prop where
  /-- The slot holds the frame that waits. -/
  slot_eq : h.screen.slot = h.waiting.bind (h.drawn[·]?)
  /-- The frames taken and the one that waits are in the order in which they were drawn. -/
  increasing : h.kept.Pairwise (· < ·)
  /-- They were put in the slot by draws that are finished. -/
  finished : ∀ n ∈ h.kept, n < h.tries.length
  /-- No finished draw has tried more than twice. -/
  tries_le : ∀ n ∈ h.tries, n ≤ 2
  /-- The machine's thread finds what it counts on. -/
  drawing : DrawingInvariant h h.drawing

variable {h : Handover}

/-- No more draws are finished than were begun. -/
theorem DrawingInvariant.length_le {d : Drawing} (hd : DrawingInvariant h d) :
    h.tries.length ≤ h.drawn.length := by
  cases hd with
  | idle hdrawn hlast => exact Nat.le_of_eq hdrawn.symm
  | putting frame tries drawn hdrawn hlength | dropping frame drawn hdrawn hlength =>
    rw [hdrawn, List.length_append, hlength]
    exact Nat.le_add_right _ _

/-- The machine's thread does not look at what is taken from the slot. -/
theorem DrawingInvariant.congr {h' : Handover} {d : Drawing} (hd : DrawingInvariant h d)
    (hdrawn : h'.drawn = h.drawn) (htries : h'.tries = h.tries) (hkept : h'.kept = h.kept)
    (hslot : h.screen.slot = none → h'.screen.slot = none) : DrawingInvariant h' d := by
  cases hd with
  | idle hlength hlast =>
    refine .idle ?_ ?_
    · rw [hdrawn, htries]
      exact hlength
    · rw [htries, hkept]
      exact hlast
  | putting frame tries drawn hframe hlength htwice =>
    refine .putting frame tries drawn (hdrawn.trans hframe) ?_ (htwice.imp_right (.imp_right hslot))
    rw [htries]
    exact hlength
  | dropping frame drawn hframe hlength =>
    refine .dropping frame drawn (hdrawn.trans hframe) ?_
    rw [htries]
    exact hlength

namespace SlotInvariant

/-- The numbers kept belong to frames. -/
theorem lt_length (hi : h.SlotInvariant) {n : Nat} (hn : n ∈ h.kept) : n < h.drawn.length :=
  Nat.lt_of_lt_of_le (hi.finished n hn) hi.drawing.length_le

/-- The numbers taken belong to frames. -/
theorem lt_length_of_taken (hi : h.SlotInvariant) {n : Nat} (hn : n ∈ h.taken) :
    n < h.drawn.length :=
  hi.lt_length (List.mem_append_left _ hn)

/-- The numbers taken are in the order in which their frames were drawn. -/
theorem increasing_taken (hi : h.SlotInvariant) : h.taken.Pairwise (· < ·) :=
  hi.increasing.sublist (List.sublist_append_left _ _)

/-- The beginning of a draw. -/
theorem draw (hi : h.SlotInvariant) (hd : h.drawing = .idle) (frame : Frame) :
    SlotInvariant { h with drawing := .putting frame 0, drawn := h.drawn ++ [frame] } := by
  have hdrawing := hi.drawing
  rw [hd] at hdrawing
  cases hdrawing with
  | idle hdrawn hlast =>
    exact { hi with
      slot_eq := by
        rw [hi.slot_eq]
        apply Option.bind_congr
        intro n hn
        exact (List.getElem?_append_left (hi.lt_length (by simp [kept, hn]))).symm
      drawing := .putting frame 0 h.drawn rfl hdrawn (.inl rfl) }

/-- A frame that is put in the empty slot. -/
theorem put (hi : h.SlotInvariant) {frame : Frame} {tries : Nat}
    (hd : h.drawing = .putting frame tries) :
    SlotInvariant { h with
      screen := { h.screen with slot := some frame }
      drawing := .idle
      waiting := some h.tries.length
      tries := h.tries ++ [tries + 1] } := by
  have hdrawing := hi.drawing
  rw [hd] at hdrawing
  cases hdrawing with
  | putting _ _ drawn hdrawn hlength htries =>
    constructor
    · change some frame = h.drawn[h.tries.length]?
      rw [hdrawn, ← hlength, List.getElem?_concat_length]
    · change (h.taken ++ [h.tries.length]).Pairwise (· < ·)
      rw [List.pairwise_append]
      refine ⟨hi.increasing_taken, List.pairwise_singleton _ _, ?_⟩
      intro n hn k hk
      rw [List.mem_singleton.mp hk]
      exact hi.finished n (List.mem_append_left _ hn)
    · change ∀ n ∈ h.taken ++ [h.tries.length], n < (h.tries ++ [tries + 1]).length
      rw [List.length_append]
      intro n hn
      rcases List.mem_append.mp hn with hn | hn
      · exact Nat.lt_succ_of_lt (hi.finished n (List.mem_append_left _ hn))
      · rw [List.mem_singleton.mp hn]
        exact Nat.lt_succ_self _
    · intro n hn
      rcases List.mem_append.mp hn with hn | hn
      · exact hi.tries_le n hn
      · rw [List.mem_singleton.mp hn]
        omega
    · refine .idle ?_ ?_
      · simp [hdrawn, hlength]
      · intro n hn
        simp_all [kept]

/-- A draw that has found the slot full. -/
theorem refuse (hi : h.SlotInvariant) {frame old : Frame} {tries : Nat}
    (hd : h.drawing = .putting frame tries) (hs : h.screen.slot = some old) :
    SlotInvariant { h with drawing := .dropping frame (tries + 1) } := by
  have hdrawing := hi.drawing
  rw [hd] at hdrawing
  cases hdrawing with
  | putting _ _ drawn hdrawn hlength htries =>
    rcases htries with rfl | ⟨-, hnone⟩
    · exact { hi with drawing := .dropping frame drawn hdrawn hlength }
    · rw [hs] at hnone
      cases hnone

/-- A frame that is dropped, or was taken before it could be. -/
theorem drop (hi : h.SlotInvariant) {frame : Frame} {tries : Nat}
    (hd : h.drawing = .dropping frame tries) :
    SlotInvariant { h with
      screen := { h.screen with slot := none }
      drawing := .putting frame tries
      waiting := none } := by
  have hdrawing := hi.drawing
  rw [hd] at hdrawing
  cases hdrawing with
  | dropping _ drawn hdrawn hlength =>
    constructor
    · rfl
    · change (h.taken ++ []).Pairwise (· < ·)
      rw [List.append_nil]
      exact hi.increasing_taken
    · intro n hn
      exact hi.finished n (by simp_all [kept])
    · exact hi.tries_le
    · exact .putting frame 1 drawn hdrawn hlength (.inr ⟨rfl, rfl⟩)

/-- A draw that finds the slot empty when it is about to drop the frame in it. -/
theorem miss (hi : h.SlotInvariant) {frame : Frame} {tries : Nat}
    (hd : h.drawing = .dropping frame tries) (hs : h.screen.slot = none) :
    SlotInvariant { h with drawing := .putting frame tries } := by
  have hdrawing := hi.drawing
  rw [hd] at hdrawing
  cases hdrawing with
  | dropping _ drawn hdrawn hlength =>
    exact { hi with drawing := .putting frame 1 drawn hdrawn hlength (.inr ⟨rfl, hs⟩) }

/-- A frame that is taken to be shown. -/
theorem take (hi : h.SlotInvariant) (refreshing : Refreshing) :
    SlotInvariant { h with
      screen := { h.screen with slot := none }
      refreshing
      waiting := none
      taken := h.taken ++ h.waiting.toList } := by
  have hk : kept { h with
      screen := { h.screen with slot := none }
      refreshing
      waiting := none
      taken := h.taken ++ h.waiting.toList } = h.kept :=
    List.append_nil _
  constructor
  · rfl
  · rw [hk]
    exact hi.increasing
  · rw [hk]
    exact hi.finished
  · exact hi.tries_le
  · exact hi.drawing.congr rfl rfl hk fun _ ↦ rfl

/-- The main thread does nothing else that matters to the slot. -/
theorem main (hi : h.SlotInvariant) {screen : Screen} (hs : screen.slot = h.screen.slot)
    (refreshing : Refreshing) (painted : List Frame) (answers : List Bool) :
    SlotInvariant { h with screen, refreshing, painted, answers } where
  slot_eq := hs.trans hi.slot_eq
  increasing := hi.increasing
  finished := hi.finished
  tries_le := hi.tries_le
  drawing := hi.drawing.congr rfl rfl rfl hs.trans

end SlotInvariant

/-! ## The picture -/

/-- What becomes of the frames taken from the slot. -/
structure ShowInvariant (h : Handover) : Prop where
  /-- The frames taken are painted, or about to be. -/
  painted_eq : h.painted ++ h.refreshing.pending h.screen = framesOf h.drawn h.taken
  /-- A refresh paints no more than the frame that it has taken. -/
  length_pending_le : (h.refreshing.pending h.screen).length ≤ 1
  /-- The frames taken are counted, except for the one of the refresh under way. -/
  shown_eq : h.screen.shown + h.refreshing.count = h.taken.length

namespace ShowInvariant

/-- The machine's thread does not get in the way of a refresh. -/
theorem machine (hs : h.ShowInvariant) (slot : FrameSlot) (drawing : Drawing) (tries : List Nat)
    (waiting : Option Nat) :
    ShowInvariant { h with screen := { h.screen with slot }, drawing, tries, waiting } := by
  have hp := h.refreshing.pending_withSlot h.screen slot
  constructor
  · rw [hp]
    exact hs.painted_eq
  · rw [hp]
    exact hs.length_pending_le
  · exact hs.shown_eq

/-- The beginning of a draw. -/
theorem draw (hs : h.ShowInvariant) (ht : ∀ n ∈ h.taken, n < h.drawn.length) (drawing : Drawing)
    (frame : Frame) : ShowInvariant { h with drawing, drawn := h.drawn ++ [frame] } :=
  { hs with
    painted_eq := by
      rw [framesOf_append ht]
      exact hs.painted_eq }

/-- A refresh that takes the frame in the slot. -/
theorem take (hs : h.ShowInvariant) (hr : h.refreshing = .idle) {n : Nat} {frame : Frame}
    (hw : h.waiting = some n) (hn : h.drawn[n]? = some frame) :
    ShowInvariant { h with
      screen := { h.screen with slot := none }
      refreshing := .showing (h.screen.orders frame)
      waiting := none
      taken := h.taken ++ h.waiting.toList } := by
  obtain ⟨hpainted, -, hshown⟩ := hs
  rw [hr] at hpainted hshown
  have hp : Refreshing.pending { h.screen with slot := none } (.showing (h.screen.orders frame)) =
      [frame] := by
    rw [Refreshing.pending, Screen.paintings_withSlot, Screen.paintings_orders]
  constructor
  · change h.painted ++ Refreshing.pending _ _ = framesOf h.drawn (h.taken ++ h.waiting.toList)
    rw [hp, framesOf, List.filterMap_append, hw]
    change _ = framesOf h.drawn h.taken ++ _
    rw [← hpainted]
    simp [Refreshing.pending, hn]
  · rw [hp]
    exact Nat.le_refl 1
  · change h.screen.shown + 1 = (h.taken ++ h.waiting.toList).length
    rw [List.length_append, ← hshown, hw]
    rfl

/-- A refresh that carries out an order. -/
theorem order (hs : h.ShowInvariant) {order : Order} {orders : List Order}
    (hr : h.refreshing = .showing (order :: orders)) :
    ShowInvariant { h with
      screen := h.screen.obey order
      refreshing := .showing orders
      painted := h.painted ++ (h.screen.painting? order).toList } := by
  obtain ⟨hpainted, hle, hshown⟩ := hs
  rw [hr] at hpainted hle hshown
  constructor
  · rw [← hpainted, List.append_assoc]
    rfl
  · refine Nat.le_trans ?_ hle
    exact (List.sublist_append_right _ _).length_le
  · rw [← hshown]
    cases order <;> rfl

/-- A refresh that has carried out its orders. -/
theorem finish (hs : h.ShowInvariant) (hr : h.refreshing = .showing []) (answers : List Bool) :
    ShowInvariant { h with screen := h.screen.countShown, refreshing := .idle, answers } := by
  obtain ⟨hpainted, hle, hshown⟩ := hs
  rw [hr] at hpainted hle hshown
  exact ⟨hpainted, hle, hshown⟩

end ShowInvariant

/-! ## Moves -/

/-- Where the frames are. -/
structure Invariant (h : Handover) : Prop where
  /-- What goes through the slot. -/
  slot : h.SlotInvariant
  /-- What is shown. -/
  picture : h.ShowInvariant

namespace Invariant

/-- Nothing has happened yet. -/
theorem start (scale : Int) : (Handover.start scale).Invariant where
  slot :=
    { slot_eq := rfl
      increasing := .nil
      finished := fun _ hn ↦ nomatch hn
      tries_le := fun _ hn ↦ nomatch hn
      drawing := .idle rfl fun _ hn ↦ nomatch hn }
  picture := ⟨rfl, Nat.zero_le 1, rfl⟩

/-- A step of the machine's thread keeps the invariant. -/
theorem stepMachine (hi : h.Invariant) : h.stepMachine.Invariant := by
  rw [Handover.stepMachine]
  split
  case h_1 => exact hi
  case h_2 frame tries hd =>
    cases hs : h.screen.slot with
    | none => exact ⟨hi.slot.put hd, hi.picture.machine _ _ _ _⟩
    | some old => exact ⟨hi.slot.refuse hd hs, hi.picture.machine _ _ _ _⟩
  case h_3 frame tries hd =>
    cases hs : h.screen.slot with
    | none => exact ⟨hi.slot.miss hd hs, hi.picture.machine _ _ _ _⟩
    | some old => exact ⟨hi.slot.drop hd, hi.picture.machine _ _ _ _⟩

/-- A step of the main thread keeps the invariant. -/
theorem stepMain (hi : h.Invariant) : h.stepMain.Invariant := by
  cases hr : h.refreshing with
  | idle =>
    cases hs : h.screen.slot with
    | none =>
      rw [stepMain_of_empty hr hs]
      exact ⟨hi.slot.main rfl _ _ _, { hi.picture with }⟩
    | some frame =>
      have hslot := hi.slot.slot_eq
      rw [hs] at hslot
      obtain ⟨n, hw, hn⟩ := Option.bind_eq_some_iff.mp hslot.symm
      rw [stepMain_of_slot hr hs]
      exact ⟨hi.slot.take _, hi.picture.take hr hw hn⟩
  | showing orders =>
    cases orders with
    | nil =>
      rw [stepMain_of_nil hr]
      have hslot : h.screen.countShown.slot = h.screen.slot := rfl
      exact ⟨hi.slot.main hslot _ _ _, hi.picture.finish hr _⟩
    | cons order orders =>
      rw [stepMain_of_order hr]
      refine ⟨hi.slot.main ?_ _ _ _, hi.picture.order hr⟩
      cases order <;> rfl

/-- Each move keeps the invariant. -/
theorem move (hi : h.Invariant) (m : Move) : (h.move m).Invariant := by
  cases m with
  | draw frame =>
    rw [Handover.move]
    split
    case h_1 hd =>
      exact ⟨hi.slot.draw hd frame, hi.picture.draw (fun n ↦ hi.slot.lt_length_of_taken) _ _⟩
    case h_2 => exact hi
  | machine => exact hi.stepMachine
  | main => exact hi.stepMain

/-- Moves keep the invariant. -/
theorem run (hi : h.Invariant) (moves : List Move) : (h.run moves).Invariant :=
  run_induction (fun _ m hi ↦ hi.move m) hi moves

end Invariant

/-! ## Draws come to an end -/

/-- How many steps of its own the machine's thread needs at most to finish its draw. -/
def stepsLeft (h : Handover) : Nat :=
  match h.drawing with
  | .idle => 0
  | .putting _ _ => if h.screen.slot.isSome then 3 else 1
  | .dropping _ _ => 2

/-- No draw needs more than three steps. -/
theorem stepsLeft_le (h : Handover) : h.stepsLeft ≤ 3 := by
  rw [stepsLeft]
  split
  · exact Nat.zero_le 3
  · split <;> decide
  · decide

/-- A draw that needs no more steps is finished. -/
theorem stepsLeft_pos (hd : h.drawing ≠ .idle) : 0 < h.stepsLeft := by
  rw [stepsLeft]
  split
  case h_1 he => exact absurd he hd
  case h_2 => split <;> decide
  case h_3 => decide

/-- A step of a draw is one less to make. -/
theorem stepsLeft_stepMachine (hd : h.drawing ≠ .idle) : h.stepMachine.stepsLeft < h.stepsLeft := by
  cases hs : h.screen.slot with
  | none =>
    cases hdrawing : h.drawing with
    | idle => exact absurd hdrawing hd
    | putting | dropping =>
      simp [stepsLeft, stepMachine, hdrawing, hs, FrameSlot.put?, FrameSlot.take?]
  | some old =>
    cases hdrawing : h.drawing with
    | idle => exact absurd hdrawing hd
    | putting | dropping =>
      simp [stepsLeft, stepMachine, hdrawing, hs, FrameSlot.put?, FrameSlot.take?]

/-- The main thread does not draw. -/
theorem drawing_stepMain (h : Handover) : h.stepMain.drawing = h.drawing := by
  rw [stepMain]
  split
  · split <;> rfl
  · rfl
  · rfl

/-- The main thread puts nothing in the slot. -/
theorem slot_stepMain (hs : h.screen.slot = none) : h.stepMain.screen.slot = none := by
  rw [stepMain]
  split
  · rw [Screen.next?, hs]
    exact hs
  case h_2 order orders hr => cases order <;> exact hs
  · exact hs

/-- The main thread does not make a draw any longer. -/
theorem stepsLeft_stepMain_le (h : Handover) : h.stepMain.stepsLeft ≤ h.stepsLeft := by
  rw [stepsLeft, stepsLeft, drawing_stepMain]
  split
  · exact Nat.le_refl 0
  · cases hs : h.screen.slot with
    | none => exact Nat.le_of_eq (by rw [slot_stepMain hs])
    | some old =>
      rw [Option.isSome_some, if_pos rfl]
      split <;> decide
  · exact Nat.le_refl 2

/-- A draw is finished when the machine's thread has made as many steps as it needs, whatever
happens in between. -/
theorem exists_idle {moves : List Move} (hm : h.stepsLeft ≤ moves.count .machine) :
    ∃ done, done <+: moves ∧ (h.run done).drawing = .idle := by
  induction moves generalizing h with
  | nil =>
    refine ⟨[], List.nil_prefix, ?_⟩
    by_contra hd
    exact absurd (stepsLeft_pos hd) (Nat.not_lt.mpr hm)
  | cons m moves ih =>
    by_cases hd : h.drawing = .idle
    · exact ⟨[], List.nil_prefix, hd⟩
    · have hleft : (h.move m).stepsLeft ≤ moves.count .machine := by
        cases m with
        | draw frame =>
          rw [move_draw_of_ne hd]
          exact hm
        | machine =>
          rw [List.count_cons_self] at hm
          exact Nat.le_of_lt_succ (Nat.lt_of_lt_of_le (stepsLeft_stepMachine hd) hm)
        | main => exact Nat.le_trans h.stepsLeft_stepMain_le hm
      obtain ⟨done, hdone, hidle⟩ := ih hleft
      exact ⟨m :: done, List.cons_prefix_cons.mpr ⟨rfl, hdone⟩, hidle⟩

/-! ## Refreshes come to an end -/

/-- What the machine's thread can change. -/
theorem exists_of_ne_main {m : Move} (hm : m ≠ .main) : ∃ slot drawing drawn tries waiting,
    h.move m = { h with screen := { h.screen with slot }, drawing, drawn, tries, waiting } := by
  cases m with
  | draw frame =>
    rw [move]
    split <;> exact ⟨_, _, _, _, _, rfl⟩
  | machine =>
    rw [move, stepMachine]
    split
    · exact ⟨_, _, _, _, _, rfl⟩
    · split <;> exact ⟨_, _, _, _, _, rfl⟩
    · split <;> exact ⟨_, _, _, _, _, rfl⟩
  | main => exact absurd rfl hm

/-- A refresh has shown its frame when the main thread has carried out its orders, whatever happens
in between. -/
theorem exists_shown {orders : List Order} (hr : h.refreshing = .showing orders)
    {moves : List Move} (hm : orders.length < moves.count .main) :
    ∃ done, done <+: moves ∧ (h.run done).refreshing = .idle ∧
      (h.run done).painted = h.painted ++ h.screen.paintings orders ∧
      (h.run done).answers = h.answers ++ [true] := by
  -- A move of the main thread carries out an order; the others leave the orders as they are.
  induction moves generalizing h orders with
  | nil => exact absurd hm (Nat.not_lt_zero _)
  | cons m moves ih =>
    by_cases hmain : m = .main
    · rw [hmain] at hm ⊢
      rw [List.count_cons_self] at hm
      cases orders with
      | nil =>
        refine ⟨[.main], List.cons_prefix_cons.mpr ⟨rfl, List.nil_prefix⟩, ?_⟩
        change h.stepMain.refreshing = _ ∧ h.stepMain.painted = _ ∧ h.stepMain.answers = _
        rw [stepMain_of_nil hr]
        exact ⟨rfl, (List.append_nil _).symm, rfl⟩
      | cons order orders =>
        have hmove : h.move .main = _ := stepMain_of_order hr
        obtain ⟨done, hdone, hidle, hpainted, hanswers⟩ :=
          ih (congrArg refreshing hmove) (Nat.lt_of_succ_lt_succ hm)
        refine ⟨.main :: done, List.cons_prefix_cons.mpr ⟨rfl, hdone⟩, hidle, ?_, ?_⟩
        · refine hpainted.trans ?_
          rw [hmove, List.append_assoc]
          rfl
        · refine hanswers.trans ?_
          rw [hmove]
    · rw [List.count_cons_of_ne hmain] at hm
      obtain ⟨slot, drawing, drawn, tries, waiting, hmove⟩ := exists_of_ne_main (h := h) hmain
      have hr' : (h.move m).refreshing = .showing orders := by rw [hmove, hr]
      obtain ⟨done, hdone, hidle, hpainted, hanswers⟩ := ih hr' hm
      refine ⟨m :: done, List.cons_prefix_cons.mpr ⟨rfl, hdone⟩, hidle, ?_, ?_⟩
      · refine hpainted.trans ?_
        rw [hmove, Screen.paintings_withSlot]
      · refine hanswers.trans ?_
        rw [hmove]

/-- A frame in the slot is shown by the next refresh, whatever the machine does once the refresh has
taken it. -/
theorem exists_next_shown {frame : Frame} (hs : h.screen.slot = some frame)
    (hr : h.refreshing = .idle) {moves : List Move} (hm : 3 ≤ moves.count .main) :
    ∃ done, done <+: moves ∧ (h.run (.main :: done)).refreshing = .idle ∧
      (h.run (.main :: done)).painted = h.painted ++ [frame] ∧
      (h.run (.main :: done)).answers = h.answers ++ [true] := by
  have hmove : h.move .main = _ := stepMain_of_slot hr hs
  have hlength := Nat.lt_of_lt_of_le (Nat.lt_succ_of_le (h.screen.length_orders_le frame)) hm
  obtain ⟨done, hdone, hidle, hpainted, hanswers⟩ :=
    exists_shown (congrArg refreshing hmove) hlength
  refine ⟨done, hdone, hidle, ?_, ?_⟩
  · refine hpainted.trans ?_
    rw [hmove, Screen.paintings_withSlot, Screen.paintings_orders]
  · refine hanswers.trans ?_
    rw [hmove]

/-! ## The newest frame -/

/-- When no draw is under way, the frame drawn last is in the slot, unless it was taken. -/
theorem Invariant.slot_eq_last (hi : h.Invariant) (hd : h.drawing = .idle) {drawn : List Frame}
    {frame : Frame} (hdrawn : h.drawn = drawn ++ [frame]) (ht : drawn.length ∉ h.taken) :
    h.screen.slot = some frame := by
  have hdrawing := hi.slot.drawing
  rw [hd] at hdrawing
  cases hdrawing with
  | idle hlength hlast =>
    have hn : drawn.length ∈ h.kept := by
      apply hlast
      rw [← hlength, hdrawn, List.length_append]
      rfl
    rcases List.mem_append.mp hn with hn | hn
    · exact absurd hn ht
    · rw [hi.slot.slot_eq, Option.mem_toList.mp hn, hdrawn]
      exact List.getElem?_concat_length

/-- The frames painted are those counted, except for the one of the refresh under way. -/
theorem Invariant.length_painted (hi : h.Invariant) :
    h.painted.length + (h.refreshing.pending h.screen).length =
      h.screen.shown + h.refreshing.count := by
  rw [hi.picture.shown_eq, ← length_framesOf fun n ↦ hi.slot.lt_length_of_taken,
    ← hi.picture.painted_eq, List.length_append]

/-- When a frame is painted, it is the one that was taken last, the screen has its size, and all
frames painted before are counted. -/
theorem Invariant.of_paint (hi : h.Invariant) {pixels : Array UInt8} {orders : List Order}
    (hr : h.refreshing = .showing (.paint pixels :: orders)) :
    (framesOf h.drawn h.taken).getLast? =
        some { pixels, width := h.screen.width, height := h.screen.height } ∧
      h.screen.shown = h.painted.length := by
  obtain ⟨hpainted, hle, -⟩ := hi.picture
  have hlength := hi.length_painted
  have hp : h.refreshing.pending h.screen =
      { pixels, width := h.screen.width, height := h.screen.height } ::
        h.screen.paintings orders := by
    rw [hr]
    rfl
  rw [hp] at hpainted hle hlength
  have hnil : h.screen.paintings orders = [] :=
    List.eq_nil_of_length_eq_zero (Nat.le_zero.mp (Nat.le_of_succ_le_succ hle))
  rw [hnil] at hpainted hlength
  rw [hr] at hlength
  refine ⟨?_, (Nat.succ.inj hlength).symm⟩
  rw [← hpainted, List.getLast?_concat]

/-- The newest frame wins, in whichever order the two threads take their steps.

The slot never holds more than one frame.  The frames that are painted are some of those that are
drawn, in their order, and none of them twice; the frames taken from the slot are those painted, and
the one that a refresh is about to paint.  When the machine does not draw, the frame drawn last is
in the slot unless it was taken, and the next refresh shows it, whatever happens once the refresh
has begun.  A draw tries at most twice to put its frame in the slot, and is finished after three
steps of its own.  When a frame is painted, the screen has the size of that frame, and has counted
the frames painted before. -/
theorem newest_frame_wins {scale : Int} {moves : List Move} (hh : (start scale).run moves = h) :
    h.screen.slot.toList.length ≤ 1 ∧
    (h.painted.Sublist h.drawn ∧ h.taken.Pairwise (· < ·) ∧
      h.painted ++ h.refreshing.pending h.screen = framesOf h.drawn h.taken) ∧
    (h.drawing = .idle → ∀ (drawn : List Frame) (frame : Frame), h.drawn = drawn ++ [frame] →
      drawn.length ∉ h.taken →
        h.screen.slot = some frame ∧
        (h.refreshing = .idle → ∀ later : List Move, 3 ≤ later.count .main →
          ∃ done, done <+: later ∧ (h.run (.main :: done)).refreshing = .idle ∧
            (h.run (.main :: done)).painted = h.painted ++ [frame] ∧
            (h.run (.main :: done)).answers = h.answers ++ [true])) ∧
    ((∀ n ∈ h.tries, n ≤ 2) ∧ (h.drawing = .idle → h.tries.length = h.drawn.length) ∧
      ∀ later : List Move, 3 ≤ later.count .machine →
        ∃ done, done <+: later ∧ (h.run done).drawing = .idle) ∧
    (∀ (pixels : Array UInt8) (orders : List Order),
      h.refreshing = .showing (.paint pixels :: orders) →
        (framesOf h.drawn h.taken).getLast? =
          some { pixels, width := h.screen.width, height := h.screen.height } ∧
        h.screen.shown = h.painted.length) ∧
    (h.refreshing = .idle → h.screen.shown = h.painted.length) := by
  have hi : h.Invariant := hh ▸ (Invariant.start scale).run moves
  refine ⟨?_, ⟨?_, hi.slot.increasing_taken, hi.picture.painted_eq⟩, ?_, ⟨hi.slot.tries_le, ?_, ?_⟩,
    fun _ _ ↦ hi.of_paint, ?_⟩
  · cases h.screen.slot with
    | none => exact Nat.zero_le 1
    | some frame => exact Nat.le_refl 1
  · refine (List.sublist_append_left _ (h.refreshing.pending h.screen)).trans ?_
    rw [hi.picture.painted_eq]
    exact framesOf_sublist (fun n ↦ hi.slot.lt_length_of_taken) hi.slot.increasing_taken
  · intro hd drawn frame hdrawn ht
    have hs := hi.slot_eq_last hd hdrawn ht
    refine ⟨hs, ?_⟩
    intro hr later hlater
    exact exists_next_shown hs hr hlater
  · intro hd
    have hdrawing := hi.slot.drawing
    rw [hd] at hdrawing
    cases hdrawing with
    | idle hlength hlast => exact hlength.symm
  · intro later hlater
    exact exists_idle (Nat.le_trans h.stepsLeft_le hlater)
  · intro hr
    have hlength := hi.length_painted
    rw [hr] at hlength
    exact hlength.symm

/-- A draw that has found the slot full, and then empty, because a refresh has taken the older frame
in between. -/
def raced : Handover :=
  (start 1).run [.draw ⟨#[0], 64, 32⟩, .machine, .draw ⟨#[1], 128, 64⟩, .machine, .main, .machine,
    .main, .machine, .main, .main]

/-- Both frames are shown, the older one first, although the second draw had to try twice. -/
theorem newest_frame_wins_raced :
    raced.painted = [⟨#[0], 64, 32⟩] ∧ raced.tries = [1, 2] ∧
      raced.screen.slot = some ⟨#[1], 128, 64⟩ ∧
      ∃ done, done <+: [Move.main, .machine, .main, .main] ∧
        (raced.run (.main :: done)).painted = [⟨#[0], 64, 32⟩, ⟨#[1], 128, 64⟩] := by
  have hpainted : raced.painted = [⟨#[0], 64, 32⟩] := by decide
  have hdrawn : raced.drawn = [⟨#[0], 64, 32⟩] ++ [⟨#[1], 128, 64⟩] := by decide
  obtain ⟨-, -, hnewest, -⟩ := newest_frame_wins (h := raced) rfl
  obtain ⟨hs, hnext⟩ := hnewest (by decide) _ _ hdrawn (by decide)
  obtain ⟨done, hdone, -, hshown, -⟩ :=
    hnext (by decide) [.main, .machine, .main, .main] (by decide)
  refine ⟨hpainted, by decide, hs, done, hdone, ?_⟩
  rw [hshown, hpainted]
  rfl

end Handover

end SuperChip
