import SuperChip.Numeral.Reader
import SuperChip.Text.Fields
import SuperChip.Text.LowerCase
import SuperChip.Word
import SuperChip.Fault

/-!
# Keymaps

A keymap says which codes of the host's keyboard press which keys.  It is written as sixteen
integers with commas between them, the code of key zero first.  No code may occur twice.

A terminal sends characters rather than key codes.  Its keymap holds the lower-case forms of the
characters that are written, and repetitions are looked for among these.
-/

namespace SuperChip

/-- Codes with their keys. -/
structure Keymap where
  /-- Each code with its key, in the order of the keys. -/
  entries : List (Int × Key)
  deriving DecidableEq, Repr

namespace Keymap

/-- The text of the keymap for which no other is given: a square of keys at the left of a
keyboard. -/
def standard : String := "120,49,50,51,113,119,101,97,115,100,122,99,52,114,102,118"

/-- The key that a code presses. -/
def key? (keymap : Keymap) (code : Int) : Option Key := keymap.entries.lookup code

/-- The lower-case form of the character that a code stands for. -/
def foldCase (code : Int) : Except Fault Int :=
  if code < -0x80000000 ∨ 0x80000000 ≤ code then .error .numberTooLarge
  else if code < 0 ∨ 0x10FFFF < code then .error .notCodePoint
  else if code.toNat = Text.expandingLetter then .error .letterExpands
  else .ok (Text.lowerCase code.toNat)

/-- Adds a code for a key. -/
def insert (keymap : Keymap) (code : Int) (key : Key) : Except Fault Keymap :=
  match keymap.key? code with
  | some _ => .error .keyRepeated
  | none => .ok ⟨keymap.entries ++ [(code, key)]⟩

/-- Adds the code that a field gives for a key. -/
def insertField (characters : Bool) (keymap : Keymap) (field : List Char) (key : Key) :
    Except Fault Keymap :=
  match Numeral.readDecimal? field with
  | none => .error .keyNotInteger
  | some code => do
    let code ← if characters then foldCase code else .ok code
    keymap.insert code key

/-- Reads a keymap, of characters or of key codes. -/
def parse (characters : Bool) (text : String) : Except Fault Keymap :=
  let fields := Text.fields ',' text.toList
  if fields.length = 16 then
    (fields.zip (List.finRange 16)).foldlM
      (fun keymap (field, key) ↦ keymap.insertField characters field key) ⟨[]⟩
  else
    .error .keyCount

end Keymap

end SuperChip
