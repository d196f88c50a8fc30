import SuperChip.Proofs.Memory
import SuperChip.Terminal.Screen

/-!
# The pad of a terminal

What is on the pad is read off the commands to the terminal.  A write changes the cells of its text,
all in one row, and no other; a new pad is blank; and no other command touches it.  This is so as
long as each character that is written takes one cell and the text lies within the pad.  Of a pad
that anything else was written on, nothing is known but its size, until it is written over.

A screen in a terminal makes a pad of the size for its frames, writes the title in the top row, and
shows a frame by one write for each pixel.  These cover the rows below the title without overlap: a
cell belongs to the pixel whose place is its row times the width and its column divided by the
stretch.  Every write lies within the pad, so none ever wraps around or is refused for that.
-/

namespace SuperChip.Terminal

/-! ## Pads and commands -/

/-- A pad and what it shows. -/
structure Pad where
  /-- The number of rows. -/
  rows : Int
  /-- The number of columns. -/
  columns : Int
  /-- The character in a row and a column, and whether it is reversed, as far as that is known. -/
  cell : Int → Int → Option (Char × Bool)

/-- Each character of a text takes one cell. -/
def Library.Shows (library : Library) (text : List Char) : Prop := ∀ c ∈ text, library.isPlain c

instance (library : Library) (text : List Char) : Decidable (library.Shows text) :=
  List.decidableBAll _ text

/-- A terminal has rows and columns. -/
def Surroundings.HasCells (surroundings : Surroundings) : Prop :=
  1 ≤ surroundings.rows ∧ 1 ≤ surroundings.columns

namespace Pad

/-- A new pad. -/
def blank (rows columns : Int) : Pad := ⟨rows, columns, fun _ _ ↦ some (' ', false)⟩

/-- A text that starts in a row and a column lies within the pad, and not in its last column. -/
def Fits (p : Pad) (row column : Int) (text : String) : Prop :=
  (0 ≤ row ∧ row < p.rows) ∧ 0 ≤ column ∧ column + text.length < p.columns

instance (p : Pad) (row column : Int) (text : String) : Decidable (p.Fits row column text) :=
  inferInstanceAs (Decidable (_ ∧ _))

/-- Writes a text. -/
def write (library : Library) (p : Pad) (row column : Int) (text : String) (reversed : Bool) :
    Pad :=
  { p with cell := fun r c ↦
      if p.Fits row column text ∧ library.Shows text.toList then
        if r = row ∧ column ≤ c ∧ c < column + text.length
        then some (text.toList.getD (c - column).toNat ' ', reversed) else p.cell r c
      else none }

/-- The pad that was made last, as the commands since, the newest one first, have left it. -/
def ofCommands? (library : Library) : List Command → Option Pad
  | [] => none
  | .newPad rows columns :: _ => some (blank rows columns)
  | .write row column text reversed :: commands =>
    (ofCommands? library commands).map (·.write library row column text reversed)
  | _ :: commands => ofCommands? library commands

end Pad

namespace Command

/-- Whether a command writes on a cell, each character on one. -/
def covers (r c : Int) : Command → Bool
  | .write row column text _ => r = row ∧ column ≤ c ∧ c < column + text.length
  | _ => false

/-- A command makes no new pad, and what it writes lies within the one there is. -/
def Keeps (p : Pad) : Command → Prop
  | .newPad _ _ => False
  | .write row column text _ => p.Fits row column text
  | _ => True

/-- Each character that a command writes takes one cell. -/
def IsPlain (library : Library) : Command → Prop
  | .write _ _ text _ => library.Shows text.toList
  | _ => True

/-- What can be asked for once there is a pad: to write a text within it, each character of which
takes one cell, and to show it in a terminal that has rows and columns. -/
def InOrder (library : Library) (p : Pad) : Command → Prop
  | .write row column text _ => p.Fits row column text ∧ library.Shows text.toList
  | .clear | .update => True
  | .resize rows columns => 1 ≤ rows ∧ 1 ≤ columns
  | .showPad lastRow lastColumn => 0 ≤ lastRow ∧ 0 ≤ lastColumn
  | _ => False

/-- A command has nothing to do with the pad, other than to show it. -/
def LeavesPad : Command → Prop
  | .newPad _ _ | .write _ _ _ _ => False
  | _ => True

/-- Each write lies within the pad that it finds. -/
def AllFit (library : Library) (commands : List Command) : Prop :=
  ∀ row column text reversed earlier, .write row column text reversed :: earlier <:+ commands →
    ∃ p, Pad.ofCommands? library earlier = some p ∧ p.Fits row column text

end Command

/-- What can be relied upon, whatever the library. -/
structure Library.Obliging (library : Library) : Prop where
  /-- A blank takes one cell. -/
  isPlain_blank : library.isPlain ' ' = true
  /-- Where there is a pad, what is in order is not refused. -/
  refusal?_eq_none : ∀ {commands p x}, Pad.ofCommands? library commands = some p →
    x.InOrder library p → library.refusal? commands x = none

/-- The library never refuses a command. -/
def Library.Grants (library : Library) (x : Command) : Prop :=
  ∀ commands, library.refusal? commands x = none

namespace Command

variable {library : Library} {commands added : List Command} {p p' : Pad} {x : Command}

/-- Pads of one size keep the same commands. -/
theorem Keeps.congr (h : x.Keeps p) (hrows : p'.rows = p.rows) (hcolumns : p'.columns = p.columns) :
    x.Keeps p' := by
  cases x with
  | write row column text reversed =>
    rw [Keeps, Pad.Fits, hrows, hcolumns]
    exact h
  | _ => exact h

/-- The same is in order for pads of one size. -/
theorem InOrder.congr (h : x.InOrder library p) (hrows : p'.rows = p.rows)
    (hcolumns : p'.columns = p.columns) : x.InOrder library p' := by
  cases x with
  | write row column text reversed =>
    rw [InOrder, Pad.Fits, hrows, hcolumns]
    exact h
  | _ => exact h

/-- What is in order keeps the pad there is, and writes plainly. -/
theorem InOrder.keeps (h : x.InOrder library p) : x.Keeps p ∧ x.IsPlain library := by
  cases x with
  | write row column text reversed => exact h
  | newPad rows columns => exact h.elim
  | _ => exact ⟨trivial, trivial⟩

/-- What leaves the pad alone keeps it. -/
theorem LeavesPad.keeps (h : x.LeavesPad) : x.Keeps p := by
  cases x with
  | write row column text reversed => exact h.elim
  | newPad rows columns => exact h.elim
  | _ => trivial

/-- What leaves the pad alone writes nothing that takes more than one cell. -/
theorem LeavesPad.isPlain (h : x.LeavesPad) : x.IsPlain library := by
  cases x with
  | write row column text reversed => exact h.elim
  | _ => trivial

/-- What leaves the pad alone writes on no cell. -/
theorem LeavesPad.covers_eq_false (h : x.LeavesPad) (r c : Int) : x.covers r c = false := by
  cases x with
  | write row column text reversed => exact h.elim
  | _ => rfl

/-- A command that keeps a pad leaves one of the same size.  If it writes plainly, it changes only
the cells that it writes on. -/
theorem exists_pad_cons (hp : Pad.ofCommands? library commands = some p) (hx : x.Keeps p) :
    ∃ p', Pad.ofCommands? library (x :: commands) = some p' ∧ p'.rows = p.rows ∧
      p'.columns = p.columns ∧
      (x.IsPlain library → ∀ r c, x.covers r c = false → p'.cell r c = p.cell r c) := by
  cases x with
  | newPad rows columns => exact hx.elim
  | write row column text reversed =>
    refine ⟨p.write library row column text reversed, ?_, rfl, rfl, ?_⟩
    · rw [Pad.ofCommands?, hp]
      rfl
    · intro hplain r c hc
      have hfree : ¬ (r = row ∧ column ≤ c ∧ c < column + text.length) := of_decide_eq_false hc
      exact (if_pos ⟨hx, hplain⟩).trans (if_neg hfree)
  | _ => exact ⟨p, hp, rfl, rfl, fun _ _ _ _ ↦ rfl⟩

/-- Commands that keep the pad there is leave one of the same size.  If they write plainly, they
change only the cells that they write on. -/
theorem exists_pad_append (added : List Command) (hp : Pad.ofCommands? library commands = some p)
    (hadded : ∀ x ∈ added, x.Keeps p) :
    ∃ p', Pad.ofCommands? library (added ++ commands) = some p' ∧ p'.rows = p.rows ∧
      p'.columns = p.columns ∧
      ((∀ x ∈ added, x.IsPlain library) → ∀ r c, (∀ x ∈ added, x.covers r c = false) →
        p'.cell r c = p.cell r c) := by
  induction added with
  | nil => exact ⟨p, hp, rfl, rfl, fun _ _ _ _ ↦ rfl⟩
  | cons x added ih =>
    obtain ⟨hx, hadded⟩ := List.forall_mem_cons.mp hadded
    obtain ⟨p₁, hp₁, hrows₁, hcolumns₁, hcell₁⟩ := ih hadded
    obtain ⟨p₂, hp₂, hrows₂, hcolumns₂, hcell₂⟩ :=
      exists_pad_cons hp₁ (hx.congr hrows₁ hcolumns₁)
    refine ⟨p₂, hp₂, hrows₂.trans hrows₁, hcolumns₂.trans hcolumns₁, ?_⟩
    intro hplain r c hfree
    obtain ⟨hplain, hplains⟩ := List.forall_mem_cons.mp hplain
    obtain ⟨hfree, hfrees⟩ := List.forall_mem_cons.mp hfree
    exact (hcell₂ hplain r c hfree).trans (hcell₁ hplains r c hfrees)

/-- A write is seen in the cells of its text, unless something is written over it. -/
theorem exists_pad_write (added later : List Command) {row column r c : Int} {text : String}
    {reversed : Bool} (hp : Pad.ofCommands? library commands = some p)
    (hadded : ∀ x ∈ added, x.Keeps p)
    (hx : (Command.write row column text reversed).InOrder library p)
    (hlater : ∀ x ∈ later, x.InOrder library p)
    (hcovers : (Command.write row column text reversed).covers r c)
    (hfree : ∀ x ∈ later, x.covers r c = false) :
    ∃ p', Pad.ofCommands? library
        (later ++ .write row column text reversed :: (added ++ commands)) = some p' ∧
      p'.cell r c = some (text.toList.getD (c - column).toNat ' ', reversed) := by
  obtain ⟨p₁, hp₁, hrows₁, hcolumns₁, -⟩ := exists_pad_append added hp hadded
  have hx₁ := hx.congr hrows₁ hcolumns₁
  have hp₂ : Pad.ofCommands? library (.write row column text reversed :: (added ++ commands)) =
      some (p₁.write library row column text reversed) := by
    rw [Pad.ofCommands?, hp₁]
    rfl
  have hlater₂ : ∀ x ∈ later, x.InOrder library (p₁.write library row column text reversed) :=
    fun x hx ↦ (hlater x hx).congr hrows₁ hcolumns₁
  obtain ⟨p₃, hp₃, -, -, hcell⟩ :=
    exists_pad_append later hp₂ fun x hx ↦ (hlater₂ x hx).keeps.1
  refine ⟨p₃, hp₃, (hcell (fun x hx ↦ (hlater₂ x hx).keeps.2) r c hfree).trans ?_⟩
  exact (if_pos hx₁).trans (if_pos (of_decide_eq_true hcovers))

/-- Writes fit if those that were added do, on the pad that the others have left. -/
theorem AllFit.append (h : AllFit library commands) (hp : Pad.ofCommands? library commands = some p)
    (hadded : ∀ x ∈ added, x.Keeps p) : AllFit library (added ++ commands) := by
  induction added with
  | nil => exact h
  | cons x added ih =>
    obtain ⟨hx, hrest⟩ := List.forall_mem_cons.mp hadded
    intro row column text reversed earlier hsuffix
    rcases List.suffix_cons_iff.mp hsuffix with heq | hsuffix
    · cases heq
      obtain ⟨p', hp', hrows, hcolumns, -⟩ := exists_pad_append added hp hrest
      exact ⟨p', hp', hx.congr hrows hcolumns⟩
    · exact ih hrest row column text reversed earlier hsuffix

/-- Commands that write nothing do not matter. -/
theorem AllFit.cons (h : AllFit library commands)
    (hx : ∀ row column text reversed, x ≠ .write row column text reversed) :
    AllFit library (x :: commands) := by
  intro row column text reversed earlier hsuffix
  rcases List.suffix_cons_iff.mp hsuffix with heq | hsuffix
  · cases heq
    exact absurd rfl (hx _ _ _ _)
  · exact h row column text reversed earlier hsuffix

end Command

namespace Screen

open Command (AllFit)

variable {s s' : Screen} {p : Pad}

/-! ## Requests -/

/-- Commands that are given one after the other. -/
theorem command_command (s : Screen) (xs ys : List Command) :
    (s.command xs).command ys = s.command (xs ++ ys) := by
  rw [command, command, command, List.reverse_append, List.append_assoc]

/-- A command that is not refused is given, and the others are asked for after it. -/
theorem request_of_eq_none {x : Command} {xs : List Command}
    (h : s.library.refusal? s.commands x = none) :
    s.request (x :: xs) = (s.command [x]).request xs := by
  rw [request, h]

/-- A command that is refused is the last one that is asked for. -/
theorem request_of_eq_some {x : Command} {xs : List Command} {f : Fault}
    (h : s.library.refusal? s.commands x = some f) : s.request (x :: xs) = (s, some f) := by
  rw [request, h]

/-- Of what is asked for, only the first commands may be given, but all of them unless there is a
fault. -/
theorem exists_request_eq (s : Screen) (xs : List Command) :
    ∃ ys fault, s.request xs = (s.command ys, fault) ∧ ys <+: xs ∧ (fault = none → ys = xs) := by
  induction xs generalizing s with
  | nil => exact ⟨[], none, rfl, List.prefix_rfl, fun _ ↦ rfl⟩
  | cons x xs ih =>
    cases h : s.library.refusal? s.commands x with
    | none =>
      obtain ⟨ys, fault, hys, hfirst, hall⟩ := ih (s.command [x])
      rw [request_of_eq_none h, hys, command_command]
      exact ⟨x :: ys, fault, rfl, (List.prefix_cons_inj x).mpr hfirst,
        fun hnone ↦ congrArg (x :: ·) (hall hnone)⟩
    | some f =>
      refine ⟨[], some f, request_of_eq_some h, List.nil_prefix, fun hnone ↦ ?_⟩
      cases hnone

/-! ## Screens with a pad -/

/-- The pad of a screen is `p`, all writes fit, and the pad has the size for the frames: a row for
the title, and a row and a column to spare. -/
structure Framed (s : Screen) (p : Pad) : Prop where
  /-- There is a pad. -/
  hasPad : s.hasPad = true
  /-- It was made last. -/
  pad_eq : Pad.ofCommands? s.library s.commands = some p
  /-- All writes fit. -/
  allFit : AllFit s.library s.commands
  /-- It has two rows more than the frames. -/
  rows_eq : p.rows = s.base.height + 2
  /-- It has one column more than the frames, when they are stretched. -/
  columns_eq : p.columns = s.lineWidth + 1
  /-- Frames have columns. -/
  width_pos : 1 ≤ s.base.width
  /-- Frames have rows. -/
  height_pos : 1 ≤ s.base.height
  /-- Pixels have columns. -/
  scale_pos : 1 ≤ s.base.scale

/-- The top row of a pad shows the title in reverse, cut or filled up with blanks to the width of
the picture. -/
def ShowsTitle (s : Screen) (p : Pad) : Prop :=
  ∀ c, 0 ≤ c → c < s.lineWidth → p.cell 0 c = some (s.title.getD c.toNat ' ', true)

/-- The picture has columns. -/
theorem Framed.lineWidth_pos (h : s.Framed p) : 0 < s.lineWidth :=
  Int.mul_pos (by have := h.width_pos; omega) (by have := h.scale_pos; omega)

/-- Commands that keep the pad there is leave one of the same size.  If they write plainly, they
change only the cells that they write on. -/
theorem Framed.exists_command (h : s.Framed p) {xs : List Command} (hxs : ∀ x ∈ xs, x.Keeps p) :
    ∃ p', (s.command xs).Framed p' ∧
      ((∀ x ∈ xs, x.IsPlain s.library) →
        ∀ r c, (∀ x ∈ xs, x.covers r c = false) → p'.cell r c = p.cell r c) := by
  have hadded : ∀ x ∈ xs.reverse, x.Keeps p := fun x hx ↦ hxs x (List.mem_reverse.mp hx)
  obtain ⟨p', hp', hrows, hcolumns, hcell⟩ := Command.exists_pad_append xs.reverse h.pad_eq hadded
  refine ⟨p', ⟨h.hasPad, hp', h.allFit.append h.pad_eq hadded, hrows.trans h.rows_eq,
    hcolumns.trans h.columns_eq, h.width_pos, h.height_pos, h.scale_pos⟩, ?_⟩
  intro hplain r c hfree
  exact hcell (fun x hx ↦ hplain x (List.mem_reverse.mp hx)) r c
    fun x hx ↦ hfree x (List.mem_reverse.mp hx)

/-- What is in order for the pad there is, one command after the other, is not refused. -/
theorem Framed.request_eq (h : s.Framed p) (hlibrary : s.library.Obliging) {xs : List Command}
    (hxs : ∀ x ∈ xs, x.InOrder s.library p) : s.request xs = (s.command xs, none) := by
  induction xs generalizing s p with
  | nil => rfl
  | cons x xs ih =>
    obtain ⟨hx, hxs⟩ := List.forall_mem_cons.mp hxs
    obtain ⟨p₁, hp₁, -⟩ := h.exists_command (List.forall_mem_singleton.mpr hx.keeps.1)
    have hrest : ∀ y ∈ xs, y.InOrder s.library p₁ := fun y hy ↦
      (hxs y hy).congr (hp₁.rows_eq.trans h.rows_eq.symm) (hp₁.columns_eq.trans h.columns_eq.symm)
    rw [request_of_eq_none (hlibrary.refusal?_eq_none h.pad_eq hx), ih hp₁ hlibrary hrest,
      command_command]
    rfl

/-- Of commands that leave the pad alone, a part is given, and all of them if they are in order. -/
theorem Framed.exists_request (h : s.Framed p) (hlibrary : s.library.Obliging) {xs : List Command}
    (hxs : ∀ x ∈ xs, x.LeavesPad) :
    ∃ ys fault, s.request xs = (s.command ys, fault) ∧ (∀ y ∈ ys, y.LeavesPad) ∧
      ((∀ x ∈ xs, x.InOrder s.library p) → fault = none) := by
  obtain ⟨ys, fault, heq, hfirst, -⟩ := s.exists_request_eq xs
  refine ⟨ys, fault, heq, fun y hy ↦ hxs y (hfirst.subset hy), fun horder ↦ ?_⟩
  exact congrArg Prod.snd (heq.symm.trans (h.request_eq hlibrary horder))

/-- A write is seen in the cells of its text, unless something is written over it. -/
theorem Framed.cell_write (h : s.Framed p) (xs ys : List Command) {row column r c : Int}
    {text : String} {reversed : Bool} (hxs : ∀ x ∈ xs, x.Keeps p)
    (hx : (Command.write row column text reversed).InOrder s.library p)
    (hys : ∀ y ∈ ys, y.InOrder s.library p) {p' : Pad}
    (hp' : (s.command (xs ++ .write row column text reversed :: ys)).Framed p')
    (hcovers : (Command.write row column text reversed).covers r c)
    (hfree : ∀ y ∈ ys, y.covers r c = false) :
    p'.cell r c = some (text.toList.getD (c - column).toNat ' ', reversed) := by
  obtain ⟨q, hq, hcell⟩ := Command.exists_pad_write xs.reverse ys.reverse h.pad_eq
    (fun x hx ↦ hxs x (List.mem_reverse.mp hx)) hx
    (fun y hy ↦ hys y (List.mem_reverse.mp hy)) hcovers fun y hy ↦ hfree y (List.mem_reverse.mp hy)
  have hsame := hp'.pad_eq
  rw [command, List.reverse_append, List.reverse_cons, List.append_assoc,
    List.append_assoc] at hsame
  rw [← hcell, Option.some.inj (hsame.symm.trans hq)]

/-! ## The title -/

/-- There is room for the line of the title if it is not too long, and then it is as long as the
picture is wide, shows the title, and is blank besides. -/
theorem exists_titleLine (h0 : 0 ≤ s.lineWidth) (hroom : s.lineWidth < s.capacity.exhausted) :
    ∃ line, s.titleLine = .ok line ∧ (line.length : Int) = s.lineWidth ∧
      (∀ k : Nat, k < s.lineWidth → line.getD k ' ' = s.title.getD k ' ') ∧
      ∀ c ∈ line, c ∈ s.title ∨ c = ' ' := by
  obtain ⟨n, hn⟩ := Int.eq_ofNat_of_zero_le h0
  have hbound : bound s.title.length n = min n s.title.length := by
    rw [bound, if_neg (by omega), Int.toNat_natCast]
  rw [titleLine, hn, hbound, Capacity.text_natCast (hn ▸ hroom)]
  refine ⟨_, rfl, ?_, ?_, ?_⟩
  · rw [List.length_append, List.length_replicate, List.length_take]
    omega
  · intro k hk
    have hk : k < n := Int.ofNat_lt.mp hk
    rw [List.getD_eq_getElem?_getD, List.getD_eq_getElem?_getD]
    rcases Nat.lt_or_ge k s.title.length with hlt | hge
    · rw [List.getElem?_append_left (by rw [List.length_take]; omega), List.getElem?_take_of_lt
        (by omega)]
    · rw [List.getElem?_append_right (by rw [List.length_take]; omega), List.getElem?_replicate,
        List.getElem?_eq_none hge, List.length_take]
      split <;> rfl
  · intro c hc
    rcases List.mem_append.mp hc with hc | hc
    · exact .inl (List.mem_of_mem_take hc)
    · exact .inr (List.eq_of_mem_replicate hc)

/-- There is no room for a line that is too long. -/
theorem exists_titleLine_eq_error (hroom : s.capacity.exhausted ≤ s.lineWidth) :
    ∃ f, s.titleLine = .error f := by
  have hsufficient := s.capacity.sufficient
  have htext : ∃ f, Capacity.text s.lineWidth s.capacity = .error f := by
    rw [Capacity.text, Capacity.checkSize]
    split
    · have hnat : ¬ ((s.lineWidth.toNat : Nat) : Int) < s.capacity.exhausted := by omega
      rw [Capacity.room, if_neg hnat]
      exact ⟨_, rfl⟩
    · exact ⟨_, rfl⟩
  obtain ⟨f, hf⟩ := htext
  rw [titleLine, hf]
  exact ⟨f, rfl⟩

/-- Drawing the title writes in the top row only.  If each of its characters takes one cell, nothing
below changes, and the title is shown if there is room for its line. -/
theorem Framed.exists_drawTitle (h : s.Framed p) (hlibrary : s.library.Obliging) :
    ∃ fault xs p', s.drawTitle = (s.command xs, fault) ∧ (s.command xs).Framed p' ∧
      (∀ r c, 1 ≤ r → xs.countP (·.covers r c) = 0) ∧
      (fault = none → s.lineWidth < s.capacity.exhausted) ∧
      (s.library.Shows s.title → (∀ r c, 1 ≤ r → p'.cell r c = p.cell r c) ∧
        (s.lineWidth < s.capacity.exhausted → fault = none ∧ s.ShowsTitle p')) := by
  have hpos := h.lineWidth_pos
  rw [drawTitle, if_pos h.hasPad]
  rcases Int.lt_or_le s.lineWidth s.capacity.exhausted with hroom | hroom
  · obtain ⟨line, hline, hlength, hget, hchars⟩ := exists_titleLine (Int.le_of_lt hpos) hroom
    have htext : ((String.ofList line).length : Int) = s.lineWidth := by
      rw [String.length_ofList, hlength]
    have hfits : p.Fits 0 0 (String.ofList line) := by
      have hheight := h.height_pos
      refine ⟨⟨Int.le_refl 0, ?_⟩, Int.le_refl 0, ?_⟩
      · rw [h.rows_eq]
        omega
      · rw [h.columns_eq, htext]
        omega
    have horder : s.library.Shows s.title →
        (Command.write 0 0 (String.ofList line) true).InOrder s.library p := by
      intro hshows
      refine ⟨hfits, fun c hc ↦ ?_⟩
      rw [String.toList_ofList] at hc
      rcases hchars c hc with hc | rfl
      · exact hshows c hc
      · exact hlibrary.isPlain_blank
    rw [hline]
    dsimp only
    cases hrefusal : s.library.refusal? s.commands (.write 0 0 (String.ofList line) true) with
    | some f =>
      refine ⟨some f, [], p, request_of_eq_some hrefusal, h, fun _ _ _ ↦ rfl, fun _ ↦ hroom, ?_⟩
      intro hshows
      rw [hlibrary.refusal?_eq_none h.pad_eq (horder hshows)] at hrefusal
      cases hrefusal
    | none =>
      have hbelow : ∀ r c : Int, 1 ≤ r →
          (Command.write 0 0 (String.ofList line) true).covers r c = false := by
        intro r c hr
        exact decide_eq_false fun hc ↦ by omega
      have hkeeps : (Command.write 0 0 (String.ofList line) true).Keeps p := hfits
      obtain ⟨p', hp', hcell⟩ := h.exists_command (List.forall_mem_singleton.mpr hkeeps)
      refine ⟨none, [.write 0 0 (String.ofList line) true], p', request_of_eq_none hrefusal, hp',
        fun r c hr ↦ by simp [hbelow r c hr], fun _ ↦ hroom, fun hshows ↦ ⟨?_, fun _ ↦ ⟨rfl, ?_⟩⟩⟩
      · intro r c hr
        exact hcell (List.forall_mem_singleton.mpr (horder hshows).2) r c
          (List.forall_mem_singleton.mpr (hbelow r c hr))
      · intro c hc hc'
        have hcovers : (Command.write 0 0 (String.ofList line) true).covers 0 c :=
          decide_eq_true ⟨rfl, hc, by omega⟩
        rw [h.cell_write [] [] (by simp) (horder hshows) (by simp) hp' hcovers (by simp),
          String.toList_ofList, Int.sub_zero, hget c.toNat (by omega)]
  · obtain ⟨f, hf⟩ := exists_titleLine_eq_error hroom
    rw [hf]
    refine ⟨some f, [], p, rfl, h, fun _ _ _ ↦ rfl, fun hnone ↦ ?_,
      fun _ ↦ ⟨fun _ _ _ ↦ rfl, fun hlt ↦ absurd hlt (Int.not_lt.mpr hroom)⟩⟩
    cases hnone

/-! ## The writes of a frame -/

/-- The text of a pixel is as long as pixels are stretched. -/
theorem length_pixelText (h : 0 ≤ s.base.scale) : (s.pixelText.length : Int) = s.base.scale := by
  rw [pixelText, String.length_ofList, List.length_replicate]
  omega

/-- The text of a pixel is blank. -/
theorem getD_pixelText (s : Screen) (k : Nat) : s.pixelText.toList.getD k ' ' = ' ' := by
  rw [pixelText, String.toList_ofList, List.getD_eq_getElem?_getD, List.getElem?_replicate]
  split <;> rfl

/-- The write of a pixel, given its place in the picture. -/
def pixelWrite (s : Screen) (place : Nat) (pixel : UInt8) : Command :=
  .write ((place : Int).fdiv s.base.width + 1) ((place : Int).fmod s.base.width * s.base.scale)
    s.pixelText (pixel != 0)

/-- The writes of some pixels in a row, the first one at `place`. -/
def pixelWrites (s : Screen) (place : Nat) (pixels : List UInt8) : List Command :=
  (pixels.zipIdx place).map fun e ↦ s.pixelWrite e.2 e.1

/-- The writes of some pixels are those of the pixels at their places. -/
theorem exists_of_mem_pixelWrites {place : Nat} {pixels : List UInt8} {x : Command}
    (hx : x ∈ s.pixelWrites place pixels) :
    ∃ k pixel, place ≤ k ∧ k < place + pixels.length ∧ x = s.pixelWrite k pixel := by
  obtain ⟨e, he, rfl⟩ := List.mem_map.mp hx
  exact ⟨e.2, e.1, List.le_snd_of_mem_zipIdx he, List.snd_lt_add_of_mem_zipIdx he, rfl⟩

/-- The write of a pixel comes between those of the pixels before and those of the pixels after. -/
theorem pixelWrites_eq_append (s : Screen) {pixels : List UInt8} {k : Nat}
    (hk : k < pixels.length) :
    s.pixelWrites 0 pixels = s.pixelWrites 0 (pixels.take k) ++
      s.pixelWrite k pixels[k] :: s.pixelWrites (k + 1) (pixels.drop (k + 1)) := by
  have hsplit : pixels.take k ++ pixels[k] :: pixels.drop (k + 1) = pixels := by
    rw [← List.drop_eq_getElem_cons hk, List.take_append_drop]
  have hlength : 0 + (pixels.take k).length = k := by
    rw [List.length_take]
    omega
  have happend : s.pixelWrites 0 (pixels.take k ++ pixels[k] :: pixels.drop (k + 1)) =
      s.pixelWrites 0 (pixels.take k) ++
        s.pixelWrite k pixels[k] :: s.pixelWrites (k + 1) (pixels.drop (k + 1)) := by
    rw [pixelWrites, List.zipIdx_append, List.map_append, hlength]
    rfl
  rwa [hsplit] at happend

/-- The place of the pixel that a cell below the title belongs to. -/
def placeOf (s : Screen) (r c : Int) : Nat := ((r - 1) * s.base.width + c / s.base.scale).toNat

/-- The cells below the title belong to pixels of the picture. -/
theorem placeOf_lt (hwidth : 1 ≤ s.base.width) (hscale : 1 ≤ s.base.scale) {r c : Int}
    (hr : 1 ≤ r) (hr' : r ≤ s.base.height) (hc : 0 ≤ c) (hc' : c < s.lineWidth) :
    (s.placeOf r c : Int) < s.base.width * s.base.height := by
  have hcolumn : c / s.base.scale < s.base.width := (Int.ediv_lt_iff_lt_mul (by omega)).mpr hc'
  have hcolumn' : 0 ≤ c / s.base.scale := Int.ediv_nonneg hc (by omega)
  have hrow : 0 ≤ (r - 1) * s.base.width := Int.mul_nonneg (by omega) (by omega)
  -- The row of the pixel ends where the next one starts.
  have hend : (r - 1 + 1) * s.base.width ≤ s.base.height * s.base.width :=
    Int.mul_le_mul_of_nonneg_right (by omega) (by omega)
  rw [Int.add_mul, Int.one_mul, Int.mul_comm s.base.height] at hend
  rw [placeOf]
  omega

/-- The write of a pixel covers the cells that belong to it. -/
theorem covers_pixelWrite (hwidth : 1 ≤ s.base.width) (hscale : 1 ≤ s.base.scale) {k : Nat}
    {pixel : UInt8} {r c : Int} (hr : 1 ≤ r) (hc : 0 ≤ c) (hc' : c < s.lineWidth) :
    (s.pixelWrite k pixel).covers r c = true ↔ k = s.placeOf r c := by
  have hlength : (s.pixelText.length : Int) = s.base.scale := length_pixelText (by omega)
  have hcolumn : c / s.base.scale < s.base.width := (Int.ediv_lt_iff_lt_mul (by omega)).mpr hc'
  have hcolumn' : 0 ≤ c / s.base.scale := Int.ediv_nonneg hc (by omega)
  have hrow : 0 ≤ (r - 1) * s.base.width := Int.mul_nonneg (by omega) (by omega)
  rw [pixelWrite, Command.covers, decide_eq_true_iff, hlength,
    Int.fdiv_eq_ediv_of_nonneg _ (by omega), Int.fmod_eq_emod_of_nonneg _ (by omega),
    ← Int.ediv_eq_iff_of_pos (by omega)]
  constructor
  · rintro ⟨hr, hplace⟩
    have hk := Int.ediv_mul_add_emod (k : Int) s.base.width
    rw [placeOf, hplace, hr, Int.add_sub_cancel, hk, Int.toNat_natCast]
  · intro hk
    have hk : (k : Int) = (r - 1) * s.base.width + c / s.base.scale := by
      rw [hk, placeOf]
      omega
    have hunique : (k : Int) / s.base.width = r - 1 ∧ (k : Int) % s.base.width = c / s.base.scale :=
      (Int.ediv_emod_unique (by omega)).mpr
        ⟨by rw [hk, Int.mul_comm s.base.width, Int.add_comm], hcolumn', hcolumn⟩
    exact ⟨by omega, hunique.2.symm⟩

/-- The write of a pixel leaves the top row alone. -/
theorem covers_pixelWrite_top (hwidth : 1 ≤ s.base.width) {k : Nat} {pixel : UInt8} {c : Int} :
    (s.pixelWrite k pixel).covers 0 c = false := by
  have hrow : 0 ≤ (k : Int).fdiv s.base.width := by
    rw [Int.fdiv_eq_ediv_of_nonneg _ (by omega)]
    exact Int.ediv_nonneg (Int.natCast_nonneg k) (by omega)
  exact decide_eq_false fun hc ↦ by omega

/-- The write of a pixel whose place is in the picture is in order. -/
theorem Framed.inOrder_pixelWrite (h : s.Framed p) (hlibrary : s.library.Obliging) {k : Nat}
    {pixel : UInt8} (hk : (k : Int) < s.base.width * s.base.height) :
    (s.pixelWrite k pixel).InOrder s.library p := by
  have hw := h.width_pos
  have hs := h.scale_pos
  have hlength : (s.pixelText.length : Int) = s.base.scale := length_pixelText (by omega)
  have hrow : (k : Int) / s.base.width < s.base.height :=
    (Int.ediv_lt_iff_lt_mul (by omega)).mpr (by rw [Int.mul_comm]; exact hk)
  have hrow' : 0 ≤ (k : Int) / s.base.width := Int.ediv_nonneg (Int.natCast_nonneg k) (by omega)
  have hcolumn := Int.emod_lt_of_pos (k : Int) (show 0 < s.base.width by omega)
  have hcolumn' := Int.emod_nonneg (k : Int) (show s.base.width ≠ 0 by omega)
  rw [pixelWrite, Int.fdiv_eq_ediv_of_nonneg _ (by omega),
    Int.fmod_eq_emod_of_nonneg _ (by omega)]
  -- The columns of the pixel end where those of the next one start.
  have hend : ((k : Int) % s.base.width + 1) * s.base.scale ≤ s.base.width * s.base.scale :=
    Int.mul_le_mul_of_nonneg_right hcolumn (by omega)
  rw [Int.add_mul, Int.one_mul] at hend
  refine ⟨⟨⟨by omega, ?_⟩, Int.mul_nonneg hcolumn' (by omega), ?_⟩, ?_⟩
  · rw [h.rows_eq]
    omega
  · rw [h.columns_eq, hlength, lineWidth]
    omega
  · intro c hc
    rw [pixelText, String.toList_ofList] at hc
    rw [List.eq_of_mem_replicate hc]
    exact hlibrary.isPlain_blank

/-- The writes of pixels whose places are in the picture are in order. -/
theorem Framed.inOrder_pixelWrites (h : s.Framed p) (hlibrary : s.library.Obliging) {place : Nat}
    {pixels : List UInt8} (hplace : ((place + pixels.length : Nat) : Int) ≤
      s.base.width * s.base.height) :
    ∀ x ∈ s.pixelWrites place pixels, x.InOrder s.library p := by
  intro x hx
  obtain ⟨k, pixel, -, hk, rfl⟩ := exists_of_mem_pixelWrites hx
  exact h.inOrder_pixelWrite hlibrary (by omega)

/-- Pixels whose places are in the picture are written one after the other. -/
theorem Framed.writePixels_eq (h : s.Framed p) (hlibrary : s.library.Obliging)
    (pixels : List UInt8) (place : Nat) (hplace : ((place + pixels.length : Nat) : Int) ≤
      s.base.width * s.base.height) :
    writePixels s.pixelText pixels place s = (s.command (s.pixelWrites place pixels), none) := by
  induction pixels generalizing s p place with
  | nil => rfl
  | cons pixel pixels ih =>
    have hwidth : s.base.width ≠ 0 := by
      have := h.width_pos
      omega
    rw [List.length_cons] at hplace
    have horder : (s.pixelWrite place pixel).InOrder s.library p :=
      h.inOrder_pixelWrite hlibrary (by omega)
    have hfirst : s.writePixel s.pixelText place pixel =
        (s.command [s.pixelWrite place pixel], none) :=
      (if_neg hwidth).trans (h.request_eq hlibrary (List.forall_mem_singleton.mpr horder))
    obtain ⟨p₁, hp₁, -⟩ := h.exists_command (List.forall_mem_singleton.mpr horder.keeps.1)
    have hrest := ih hp₁ hlibrary (place + 1) (by
      have hbase : (s.command [s.pixelWrite place pixel]).base = s.base := rfl
      rw [hbase]
      omega)
    rw [writePixels, hfirst]
    exact hrest.trans (by rw [command_command]; rfl)

/-- Nothing is written on a cell that no command covers. -/
theorem countP_covers_eq_zero {xs : List Command} {r c : Int}
    (hxs : ∀ x ∈ xs, x.covers r c = false) : xs.countP (·.covers r c) = 0 := by
  rw [List.countP_eq_zero]
  intro x hx
  rw [hxs x hx]
  exact Bool.false_ne_true

/-- Among the writes of a frame, that of one pixel covers a given cell below the title, and the
others leave it alone. -/
theorem exists_pixelWrites_eq (hwidth : 1 ≤ s.base.width) (hscale : 1 ≤ s.base.scale)
    {pixels : Array UInt8} (hsize : (pixels.size : Int) = s.base.width * s.base.height) {r c : Int}
    (hr : 1 ≤ r) (hr' : r ≤ s.base.height) (hc : 0 ≤ c) (hc' : c < s.lineWidth) :
    ∃ before after, s.pixelWrites 0 pixels.toList = before ++
        s.pixelWrite (s.placeOf r c) (pixels.getD (s.placeOf r c) 0) :: after ∧
      (s.pixelWrite (s.placeOf r c) (pixels.getD (s.placeOf r c) 0)).covers r c ∧
      (∀ x ∈ before, x.covers r c = false) ∧ ∀ x ∈ after, x.covers r c = false := by
  have hlt : s.placeOf r c < pixels.toList.length := by
    have hplace := placeOf_lt hwidth hscale hr hr' hc hc'
    rw [Array.length_toList]
    omega
  have hpixel : pixels.getD (s.placeOf r c) 0 = pixels.toList[s.placeOf r c] := by
    rw [Array.getD_eq_getD_getElem?, ← Array.getElem?_toList, List.getElem?_eq_getElem hlt,
      Option.getD_some]
  have hcovers (k : Nat) (pixel : UInt8) :
      (s.pixelWrite k pixel).covers r c = true ↔ k = s.placeOf r c :=
    covers_pixelWrite hwidth hscale hr hc hc'
  rw [hpixel]
  refine ⟨_, _, s.pixelWrites_eq_append hlt, (hcovers _ _).mpr rfl, ?_, ?_⟩
  · intro x hx
    obtain ⟨k, pixel, -, hk, rfl⟩ := exists_of_mem_pixelWrites hx
    rw [List.length_take] at hk
    refine Bool.eq_false_iff.mpr fun hc ↦ ?_
    have hsame := (hcovers k pixel).mp hc
    omega
  · intro x hx
    obtain ⟨k, pixel, hk, -, rfl⟩ := exists_of_mem_pixelWrites hx
    refine Bool.eq_false_iff.mpr fun hc ↦ ?_
    have hsame := (hcovers k pixel).mp hc
    omega

/-! ## The picture -/

/-- Taking note of the size of the terminal leaves the pad alone, and meets no fault in a terminal
that has rows and columns. -/
theorem Framed.exists_noteSize (h : s.Framed p) (hlibrary : s.library.Obliging) :
    ∃ seen fault xs, s.noteSize = ({ s with seen }.command xs, fault) ∧
      (∀ x ∈ xs, x.LeavesPad) ∧ (s.surroundings.HasCells → fault = none) := by
  by_cases hseen : s.seen = s.surroundings.size
  · exact ⟨s.seen, none, [], if_pos hseen, by simp, fun _ ↦ rfl⟩
  · have hrenewal : ∀ x ∈ s.surroundings.renewal, x.LeavesPad ∧
        (s.surroundings.HasCells → x.InOrder s.library p) := by
      rw [Surroundings.renewal]
      split <;> simp +contextual [Command.LeavesPad, Command.InOrder, Surroundings.HasCells]
    obtain ⟨ys, fault, heq, hys, hfault⟩ :=
      h.exists_request hlibrary fun x hx ↦ (hrenewal x hx).1
    have hnone : s.surroundings.HasCells → fault = none := fun hcells ↦
      hfault fun x hx ↦ (hrenewal x hx).2 hcells
    rw [noteSize, if_neg hseen, heq]
    cases fault with
    | none => exact ⟨s.surroundings.size, none, ys, rfl, hys, hnone⟩
    | some f => exact ⟨s.seen, some f, ys, rfl, hys, hnone⟩

/-- Showing the pad leaves it alone, and meets no fault in a terminal that has rows and columns. -/
theorem Framed.exists_showPad (h : s.Framed p) (hlibrary : s.library.Obliging) :
    ∃ seen fault xs, s.showPad = ({ s with seen }.command xs, fault) ∧
      (∀ x ∈ xs, x.LeavesPad) ∧ (s.surroundings.HasCells → fault = none) := by
  obtain ⟨seen, fault, xs, heq, hxs, hfault⟩ := h.exists_noteSize hlibrary
  rw [showPad, heq]
  cases fault with
  | some f => exact ⟨seen, some f, xs, rfl, hxs, hfault⟩
  | none =>
    have hseen : ({ s with seen } : Screen).Framed p := { h with }
    obtain ⟨p₁, hp₁, -⟩ := hseen.exists_command fun x hx ↦ (hxs x hx).keeps
    have hleaves : ∀ x ∈ [Command.showPad (s.surroundings.rows - 1) (s.surroundings.columns - 1)],
        x.LeavesPad := by simp [Command.LeavesPad]
    obtain ⟨ys, fault, hshow, hys, hnone⟩ := hp₁.exists_request hlibrary hleaves
    refine ⟨seen, fault, xs ++ ys, hshow.trans (by rw [command_command]), ?_, ?_⟩
    · intro x hx
      exact (List.mem_append.mp hx).elim (hxs x) (hys x)
    · intro hcells
      have hrows := hcells.1
      have hcolumns := hcells.2
      refine hnone ?_
      simp only [List.mem_singleton, forall_eq, Command.InOrder]
      omega

/-- Painting a frame writes once on each cell below the title, and shows the frame there.  The top
row stays as it is. -/
theorem Framed.exists_paint (h : s.Framed p) (hlibrary : s.library.Obliging) {pixels : Array UInt8}
    (hsize : (pixels.size : Int) = s.base.width * s.base.height) :
    ∃ seen fault xs p', s.paint pixels = ({ s with seen }.command xs, fault) ∧
      ({ s with seen }.command xs).Framed p' ∧ (s.surroundings.HasCells → fault = none) ∧
      (∀ c, p'.cell 0 c = p.cell 0 c) ∧
      ∀ r c, 1 ≤ r → r ≤ s.base.height → 0 ≤ c → c < s.lineWidth →
        xs.countP (·.covers r c) = 1 ∧
        p'.cell r c = some (' ', pixels.getD (s.placeOf r c) 0 != 0) := by
  have hplaces : ((0 + pixels.toList.length : Nat) : Int) ≤ s.base.width * s.base.height := by
    rw [Array.length_toList]
    omega
  have horder := h.inOrder_pixelWrites hlibrary hplaces
  have hwrites := h.writePixels_eq hlibrary pixels.toList 0 hplaces
  obtain ⟨p₁, hp₁, hcell₁⟩ := h.exists_command fun x hx ↦ (horder x hx).keeps.1
  obtain ⟨seen, fault, zs, hshow, hzs, hfault⟩ := hp₁.exists_showPad hlibrary
  have hseen : ({ s with seen }.command (s.pixelWrites 0 pixels.toList)).Framed p₁ := { hp₁ with }
  obtain ⟨p', hp', hcell'⟩ := hseen.exists_command fun x hx ↦ (hzs x hx).keeps
  rw [command_command] at hp'
  have hsame : ∀ r c, p'.cell r c = p₁.cell r c := fun r c ↦
    hcell' (fun x hx ↦ (hzs x hx).isPlain) r c fun x hx ↦ (hzs x hx).covers_eq_false r c
  refine ⟨seen, fault, s.pixelWrites 0 pixels.toList ++ zs, p', ?_, hp', hfault, ?_, ?_⟩
  · rw [paint, if_pos h.hasPad, hwrites]
    exact hshow.trans (congrArg (·, fault) (command_command { s with seen } _ _))
  · intro c
    refine (hsame 0 c).trans (hcell₁ (fun x hx ↦ (horder x hx).keeps.2) 0 c ?_)
    intro x hx
    obtain ⟨k, pixel, -, -, rfl⟩ := exists_of_mem_pixelWrites hx
    exact covers_pixelWrite_top h.width_pos
  · intro r c hr hr' hc hc'
    obtain ⟨before, after, heq, hcovers, hbefore, hafter⟩ :=
      exists_pixelWrites_eq h.width_pos h.scale_pos hsize hr hr' hc hc'
    rw [heq] at horder hp₁ ⊢
    rw [List.forall_mem_append, List.forall_mem_cons] at horder
    obtain ⟨horder, hx, horder'⟩ := horder
    constructor
    · rw [List.countP_append, List.countP_append, List.countP_cons_of_pos hcovers,
        countP_covers_eq_zero hbefore, countP_covers_eq_zero hafter,
        countP_covers_eq_zero fun x hx ↦ (hzs x hx).covers_eq_false r c]
    · rw [hsame, h.cell_write before after (fun x hx ↦ (horder x hx).keeps.1) hx horder' hp₁
        hcovers hafter, getD_pixelText]

/-! ## Frames of another size -/

/-- Getting ready for frames of another size makes a new pad for them, if it is not refused.  It
shows the title if there is room for its line and each of its characters takes one cell. -/
theorem exists_resize (hlibrary : s.library.Obliging) (hfit : AllFit s.library s.commands)
    (hscale : 1 ≤ s.base.scale) {width height : Int} (hwidth : 1 ≤ width) (hheight : 1 ≤ height)
    (hgrants : s.library.Grants (.newPad (height + 2) (width * s.base.scale + 1))) :
    ∃ fault xs p', s.resize width height =
        ({ s with base := s.base.resize width height, hasPad := true }.command xs, fault) ∧
      ({ s with base := s.base.resize width height, hasPad := true }.command xs).Framed p' ∧
      (∀ r c, 1 ≤ r → xs.countP (·.covers r c) = 0) ∧
      (fault = none → width * s.base.scale < s.capacity.exhausted) ∧
      (s.library.Shows s.title → width * s.base.scale < s.capacity.exhausted → fault = none ∧
        ShowsTitle { s with base := s.base.resize width height, hasPad := true } p') := by
  have hframed : ({ s with base := s.base.resize width height, hasPad := true }.command
      [.newPad (height + 2) (width * s.base.scale + 1)]).Framed
        (.blank (height + 2) (width * s.base.scale + 1)) :=
    ⟨rfl, rfl, hfit.cons fun _ _ _ _ ↦ Command.noConfusion, rfl, rfl, hwidth, hheight, hscale⟩
  have hmade : ({ s with base := s.base.resize width height } : Screen).request
      [.newPad (height + 2) (width * s.base.scale + 1)] =
        ({ s with base := s.base.resize width height }.command
          [.newPad (height + 2) (width * s.base.scale + 1)], none) :=
    request_of_eq_none (hgrants s.commands)
  obtain ⟨fault, xs, p', heq, hp', hbelow, hroom, hshows⟩ := hframed.exists_drawTitle hlibrary
  rw [command_command] at heq hp'
  refine ⟨fault, _, p', ?_, hp', ?_, hroom, fun hplain ↦ (hshows hplain).2⟩
  · rw [← heq, resize, if_neg (by omega)]
    simp only [lineWidth, SuperChip.Screen.resize] at hmade ⊢
    rw [hmade]
    rfl
  · intro r c hr
    rw [List.countP_append, hbelow r c hr]
    rfl

end Screen

end SuperChip.Terminal
