import SuperChip.Screen

/-!
# Handing frames over

The machine draws in a thread of its own, and the screen is refreshed in the main thread.  What they
share is the slot.  A frame is put in it, or taken from it, at a stroke; but a draw that finds the
slot full takes several such steps, and the other thread may do anything between them.

A state here says where each thread is, and keeps a record of what has happened so far.  Frames are
numbered from zero, in the order in which they are drawn.  The two threads may take their steps in
any order; if nobody interferes, their steps come to `Screen.draw` and `Screen.refresh`.
-/

namespace SuperChip

/-! ## The steps of a refresh -/

namespace Screen

/-- What an order paints: the pixels, in the size that the screen has by then. -/
def painting? (s : Screen) : Order → Option Frame
  | .resize _ _ => none
  | .paint pixels => some { pixels, width := s.width, height := s.height }

/-- What is painted by orders that are carried out one after the other. -/
def paintings (s : Screen) : List Order → List Frame
  | [] => []
  | order :: orders => (s.painting? order).toList ++ (s.obey order).paintings orders

/-- The orders for a frame paint that frame. -/
@[simp] theorem paintings_orders (s : Screen) (frame : Frame) :
    s.paintings (s.orders frame) = [frame] := by
  rw [orders]
  split
  case isTrue h =>
    obtain ⟨hw, hh⟩ := h
    simp [paintings, painting?, ← hw, ← hh]
  case isFalse => rfl

/-- There are at most two orders for a frame. -/
theorem length_orders_le (s : Screen) (frame : Frame) : (s.orders frame).length ≤ 2 := by
  rw [orders]
  split
  · exact Nat.le_succ 1
  · exact Nat.le_refl 2

/-- Orders do not look at the slot. -/
@[simp] theorem paintings_withSlot (s : Screen) (slot : FrameSlot) (orders : List Order) :
    ({ s with slot } : Screen).paintings orders = s.paintings orders := by
  induction orders generalizing s with
  | nil => rfl
  | cons order orders ih =>
    cases order with
    | resize width height => exact ih (s.resize width height)
    | paint pixels => exact congrArg _ (ih s)

end Screen

/-! ## The two threads -/

/-- Where the machine's thread is.  While it draws, the number of times is kept that it has tried to
put the frame in the slot. -/
inductive Drawing
  /-- It does not draw. -/
  | idle
  /-- It is about to put a frame in the slot. -/
  | putting (frame : Frame) (tries : Nat)
  /-- It has found the slot full, and is about to drop the frame in it. -/
  | dropping (frame : Frame) (tries : Nat)
  deriving DecidableEq, Repr

/-- Where the main thread is. -/
inductive Refreshing
  /-- It does not refresh the screen. -/
  | idle
  /-- It has taken a frame, and is about to carry out some orders. -/
  | showing (orders : List Order)
  deriving DecidableEq, Repr

/-- The two threads, what they share, and what they have done. -/
structure Handover where
  /-- The screen, with the slot. -/
  screen : Screen
  /-- Where the machine's thread is. -/
  drawing : Drawing := .idle
  /-- Where the main thread is. -/
  refreshing : Refreshing := .idle
  /-- The frames that were drawn, or are being drawn. -/
  drawn : List Frame := []
  /-- How often each finished draw tried to put its frame in the slot. -/
  tries : List Nat := []
  /-- The number of the frame in the slot. -/
  waiting : Option Nat := none
  /-- The numbers of the frames that were taken from the slot to be shown. -/
  taken : List Nat := []
  /-- The frames that were painted, in the sizes that the screen had. -/
  painted : List Frame := []
  /-- Whether each finished refresh has shown a frame. -/
  answers : List Bool := []
  deriving DecidableEq, Repr

namespace Handover

/-- Something that one of the threads does. -/
inductive Move
  /-- The machine begins to draw a frame, unless it is drawing. -/
  | draw (frame : Frame)
  /-- The machine goes on drawing, by one step. -/
  | machine
  /-- The main thread goes on refreshing, or begins to refresh, by one step. -/
  | main
  deriving DecidableEq, Repr

/-- The threads of a new screen. -/
def start (scale : Int) : Handover := { screen := { scale } }

/-- The next step of the machine's thread. -/
def stepMachine (h : Handover) : Handover :=
  match h.drawing with
  | .idle => h
  | .putting frame tries =>
    match h.screen.slot.put? frame with
    | some slot =>
      { h with
        screen := { h.screen with slot }
        drawing := .idle
        waiting := some h.tries.length
        tries := h.tries ++ [tries + 1] }
    | none => { h with drawing := .dropping frame (tries + 1) }
  | .dropping frame tries =>
    match h.screen.slot.take? with
    | some (_, slot) =>
      { h with screen := { h.screen with slot }, drawing := .putting frame tries, waiting := none }
    | none => { h with drawing := .putting frame tries }

/-- The next step of the main thread. -/
def stepMain (h : Handover) : Handover :=
  match h.refreshing with
  | .idle =>
    match h.screen.next? with
    | some (screen, orders) =>
      { h with
        screen
        refreshing := .showing orders
        waiting := none
        taken := h.taken ++ h.waiting.toList }
    | none => { h with answers := h.answers ++ [false] }
  | .showing (order :: orders) =>
    { h with
      screen := h.screen.obey order
      refreshing := .showing orders
      painted := h.painted ++ (h.screen.painting? order).toList }
  | .showing [] =>
    { h with
      screen := h.screen.countShown
      refreshing := .idle
      answers := h.answers ++ [true] }

section

variable {h : Handover}

/-- A refresh that finds the slot empty ends at once. -/
theorem stepMain_of_empty (hr : h.refreshing = .idle) (hs : h.screen.slot = none) :
    h.stepMain = { h with answers := h.answers ++ [false] } := by
  rw [stepMain, Screen.next?, hs]
  split <;> simp_all [FrameSlot.take?]

/-- A refresh begins with the frame in the slot. -/
theorem stepMain_of_slot {frame : Frame} (hr : h.refreshing = .idle)
    (hs : h.screen.slot = some frame) :
    h.stepMain = { h with
      screen := { h.screen with slot := none }
      refreshing := .showing (h.screen.orders frame)
      waiting := none
      taken := h.taken ++ h.waiting.toList } := by
  rw [stepMain, hr, Screen.next?, hs]
  rfl

/-- A refresh goes on with its next order. -/
theorem stepMain_of_order {order : Order} {orders : List Order}
    (hr : h.refreshing = .showing (order :: orders)) :
    h.stepMain = { h with
      screen := h.screen.obey order
      refreshing := .showing orders
      painted := h.painted ++ (h.screen.painting? order).toList } := by
  rw [stepMain, hr]

/-- A refresh ends when no order is left. -/
theorem stepMain_of_nil (hr : h.refreshing = .showing []) :
    h.stepMain = { h with
      screen := h.screen.countShown
      refreshing := .idle
      answers := h.answers ++ [true] } := by
  rw [stepMain, hr]

end

/-- What becomes of the threads when one of them does something. -/
def move (h : Handover) : Move → Handover
  | .draw frame =>
    match h.drawing with
    | .idle => { h with drawing := .putting frame 0, drawn := h.drawn ++ [frame] }
    | _ => h
  | .machine => h.stepMachine
  | .main => h.stepMain

/-- No draw begins while another one is under way. -/
theorem move_draw_of_ne {h : Handover} (hd : h.drawing ≠ .idle) (frame : Frame) :
    h.move (.draw frame) = h := by
  rw [move]
  split
  · contradiction
  · rfl

/-- What becomes of the threads after some moves. -/
def run (h : Handover) (moves : List Move) : Handover := moves.foldl move h

/-- What each move keeps, all of them keep. -/
theorem run_induction {P : Handover → Prop} (hP : ∀ h m, P h → P (h.move m)) {h : Handover}
    (hh : P h) (moves : List Move) : P (h.run moves) := by
  induction moves generalizing h with
  | nil => exact hh
  | cons m moves ih => exact ih (hP h m hh)

/-! ## Threads that are left alone -/

/-- A draw that nobody interferes with puts its frame in the slot. -/
theorem run_draw {h : Handover} (hd : h.drawing = .idle) (frame : Frame) :
    (h.run [.draw frame, .machine, .machine, .machine]).screen = h.screen.draw frame ∧
      (h.run [.draw frame, .machine, .machine, .machine]).drawing = .idle := by
  simp only [run, List.foldl, move, hd]
  cases hs : h.screen.slot with
  | none => simp [stepMachine, FrameSlot.put?, hs, Screen.draw]
  | some old => simp [stepMachine, FrameSlot.put?, FrameSlot.take?, hs, Screen.draw]

/-- Orders that nobody interferes with are carried out in turn. -/
theorem run_showing {h : Handover} {orders : List Order} (hr : h.refreshing = .showing orders) :
    (h.run (List.replicate (orders.length + 1) .main)).screen =
        (orders.foldl Screen.obey h.screen).countShown ∧
      (h.run (List.replicate (orders.length + 1) .main)).refreshing = .idle ∧
      (h.run (List.replicate (orders.length + 1) .main)).answers = h.answers ++ [true] := by
  induction orders generalizing h with
  | nil =>
    change h.stepMain.screen = _ ∧ h.stepMain.refreshing = _ ∧ h.stepMain.answers = _
    rw [stepMain_of_nil hr]
    exact ⟨rfl, rfl, rfl⟩
  | cons order orders ih =>
    have hm : h.move .main = _ := stepMain_of_order hr
    have hrun := ih (congrArg refreshing hm)
    rw [hm] at hrun
    rw [List.length_cons, List.replicate_succ, run, List.foldl_cons, hm]
    exact hrun

/-- A refresh that nobody interferes with shows the frame in the slot, and answers whether there is
one. -/
theorem exists_run_refresh {h : Handover} (hr : h.refreshing = .idle) :
    ∃ n, (h.run (List.replicate n .main)).screen = h.screen.refresh.1 ∧
      (h.run (List.replicate n .main)).refreshing = .idle ∧
      (h.run (List.replicate n .main)).answers = h.answers ++ [h.screen.slot.isSome] := by
  cases hs : h.screen.slot with
  | none =>
    refine ⟨1, ?_⟩
    change h.stepMain.screen = _ ∧ h.stepMain.refreshing = _ ∧ h.stepMain.answers = _
    rw [stepMain_of_empty hr hs, Screen.refresh, Screen.next?, hs]
    exact ⟨rfl, hr, rfl⟩
  | some frame =>
    refine ⟨(h.screen.orders frame).length + 1 + 1, ?_⟩
    have hm : h.move .main = _ := stepMain_of_slot hr hs
    have hrun := run_showing (congrArg refreshing hm)
    rw [hm] at hrun
    rw [List.replicate_succ, run, List.foldl_cons, hm, Screen.refresh, Screen.next?, hs]
    exact hrun

end Handover

end SuperChip
