import SuperChip.Keymap

/-!
# Typing at a terminal

A terminal sends the characters that are typed.  Some of them control the host, and those in the
keymap press keys.  What they ask for is put in a queue of numbers: keys are their own numbers, and
controls are negative.

The queue has limited room.  A key that finds it full is lost; a control waits for room.
-/

namespace SuperChip.Terminal

/-- What the user asks of the host. -/
inductive Control
  /-- To end the program. -/
  | quit
  /-- To reset the machine. -/
  | reset
  /-- To make the machine faster. -/
  | faster
  /-- To make the machine slower. -/
  | slower
  deriving DecidableEq, Repr

namespace Control

/-- The number of a control in the queue. -/
def code : Control → Int
  | .quit => -1
  | .reset => -2
  | .faster => -3
  | .slower => -4

/-- The control that a number in the queue stands for. -/
def ofCode? : Int → Option Control
  | -1 => some .quit
  | -2 => some .reset
  | -3 => some .faster
  | -4 => some .slower
  | _ => none

/-- The control that a character asks for: escape and control C end the program, the function key F5
resets the machine, and plus, equals and minus change its speed. -/
def ofChar? : Int → Option Control
  | 27 | 3 => some .quit
  | 269 => some .reset
  | 43 | 61 => some .faster
  | 45 => some .slower
  | _ => none

/-- A control is found again by its number. -/
@[simp] theorem ofCode?_code (c : Control) : ofCode? c.code = some c := by cases c <;> rfl

/-- No key has the number of a control. -/
@[simp] theorem ofCode?_natCast (n : Nat) : ofCode? n = none := by cases n <;> rfl

end Control

/-- What a character asks for. -/
inductive Request
  /-- Something of the host. -/
  | control (c : Control)
  /-- A key of the machine. -/
  | key (k : Key)
  deriving DecidableEq, Repr

/-- The number of a request in the queue. -/
def Request.code : Request → Int
  | .control c => c.code
  | .key k => k.val

/-- A character with capital letters of ASCII made small. -/
def smallLetter (char : Int) : Int :=
  if 65 ≤ char ∧ char ≤ 90 then char + 32 else char

/-- What a character asks for.  A negative number is no character, and controls come before keys. -/
def request? (keymap : Keymap) (char : Int) : Option Request :=
  if char < 0 then none
  else
    match Control.ofChar? (smallLetter char) with
    | some c => some (.control c)
    | none => (keymap.key? (smallLetter char)).map .key

/-! ## The translation of characters -/

/-- The number that a character puts in the queue. -/
def code? (keymap : Keymap) (char : Int) : Option Int := (request? keymap char).map Request.code

/-- The characters that ask for controls, each with the number that it puts in the queue. -/
def controlCodes : List (Int × Int) :=
  [(27, -1), (3, -1), (269, -2), (43, -3), (61, -3), (45, -4)]

/-- A character below `0x80` made small; the characters beyond are left as they are. -/
def lowered (char : Int) : Int :=
  if char < 0x80 then (Char.ofNat char.toNat).toLower.toNat else char

/-- A character that is read puts a number in the queue. -/
inductive Translates (keymap : Keymap) (char : Int) : Int → Prop
  /-- It asks for a control. -/
  | control {code : Int} (hchar : 0 ≤ char) (hcode : (lowered char, code) ∈ controlCodes) :
    Translates keymap char code
  /-- It asks for a key, and for no control. -/
  | key {k : Key} (hchar : 0 ≤ char) (hnone : ∀ code, (lowered char, code) ∉ controlCodes)
    (hkey : keymap.entries.lookup (lowered char) = some k) : Translates keymap char k.val

/-- Below `0x80`, all capital letters are made small, and nothing else is changed. -/
theorem smallLetter_eq_toLower {n : Nat} (hn : n < 0x80) :
    smallLetter n = ((Char.ofNat n).toLower.toNat : Int) := by
  revert n
  decide +kernel

/-- Beyond ASCII, nothing is changed. -/
theorem smallLetter_of_le {char : Int} (h : 0x80 ≤ char) : smallLetter char = char := by
  rw [smallLetter]
  exact if_neg (by omega)

/-- The small letter is that of ASCII. -/
theorem smallLetter_eq_lowered {char : Int} (h : 0 ≤ char) : smallLetter char = lowered char := by
  rw [lowered]
  split
  next hlt =>
    rw [← smallLetter_eq_toLower (by omega), Int.toNat_of_nonneg h]
  next hle => exact smallLetter_of_le (by omega)

/-- The controls are those of the table. -/
theorem ofChar?_code_iff {char code : Int} :
    (∃ c, Control.ofChar? char = some c ∧ c.code = code) ↔ (char, code) ∈ controlCodes := by
  unfold Control.ofChar?
  split <;> simp_all [controlCodes, Control.code, eq_comm]

/-- A number that is put in the queue for a character is a translation of it, and the only one. -/
theorem code?_eq_some_iff {keymap : Keymap} {char code : Int} :
    code? keymap char = some code ↔ Translates keymap char code := by
  rw [code?, request?]
  split
  next hneg =>
    refine iff_of_false (by simp) ?_
    rintro (⟨hchar, -⟩ | ⟨hchar, -, -⟩) <;> omega
  next hchar =>
    have hchar := Int.not_lt.mp hchar
    rw [smallLetter_eq_lowered hchar]
    cases hc : Control.ofChar? (lowered char) with
    | some c =>
      have hcode := ofChar?_code_iff.mp ⟨c, hc, rfl⟩
      constructor
      · intro h
        cases h
        exact .control hchar hcode
      · rintro (⟨-, hcode'⟩ | ⟨-, hnone, -⟩)
        · obtain ⟨c', hc', rfl⟩ := ofChar?_code_iff.mpr hcode'
          cases hc.symm.trans hc'
          rfl
        · exact absurd hcode (hnone _)
    | none =>
      have hnone : ∀ code, (lowered char, code) ∉ controlCodes := by
        intro code hcode
        obtain ⟨c, hc', -⟩ := ofChar?_code_iff.mpr hcode
        cases hc.symm.trans hc'
      constructor
      · intro h
        obtain ⟨r, hr, rfl⟩ := Option.map_eq_some_iff.mp h
        obtain ⟨k, hk, rfl⟩ := Option.map_eq_some_iff.mp hr
        exact .key hchar hnone hk
      · rintro (⟨-, hcode⟩ | ⟨-, -, hkey⟩)
        · exact absurd hcode (hnone _)
        · rw [Keymap.key?, hkey]
          rfl

/-! ## Reading -/

/-- Whether a queue with room for `capacity` numbers is full; one of no capacity has no limit. -/
def isFull (capacity : Int) (queue : List Int) : Bool :=
  0 < capacity && capacity ≤ queue.length

/-- Puts a number in a queue, unless it is full. -/
def put? (capacity : Int) (queue : List Int) (code : Int) : Option (List Int) :=
  if isFull capacity queue then none else some (queue ++ [code])

/-- What becomes of the typing when a character is read. -/
inductive Reading
  /-- Reading goes on. -/
  | goesOn (queue : List Int)
  /-- The program is to end, and no more characters are read. -/
  | ends (queue : List Int)
  /-- A control waits for room in the queue. -/
  | waits (c : Control)
  deriving DecidableEq, Repr

/-- Reads a character. -/
def read (keymap : Keymap) (capacity : Int) (queue : List Int) (char : Int) : Reading :=
  match request? keymap char with
  | none => .goesOn queue
  | some (.key k) => .goesOn ((put? capacity queue k.val).getD queue)
  | some (.control c) =>
    match put? capacity queue c.code with
    | none => .waits c
    | some queue => if c = .quit then .ends queue else .goesOn queue

end SuperChip.Terminal
