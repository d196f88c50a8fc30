import SuperChip.Numeral.Hex
import SuperChip.Word

/-!
# Faults

Everything that can go wrong, one constructor for each cause, and the text that reports it.
-/

namespace SuperChip

open Numeral (hex)

/-- The causes for which an operation is refused. -/
inductive Fault
  /-- A write past the last byte of a memory of `size` bytes. -/
  | memoryOverflow (location : Int) (size : Nat)
  /-- A call to `target` while the call stack is full. -/
  | stackOverflow (target : Int) (pc : Address)
  /-- A return while the call stack is empty. -/
  | stackUnderflow (pc : Address)
  /-- A scroll by less than nothing. -/
  | negativeScroll (distance : Int)
  /-- A key number that no key has. -/
  | noSuchKey (key : Int)
  /-- A program of `size` bytes, more than there is room for. -/
  | programTooLarge (size : Nat)
  /-- A keymap that does not name sixteen codes. -/
  | keyCount
  /-- A keymap with a part that is no integer. -/
  | keyNotInteger
  /-- A keymap that names one code twice. -/
  | keyRepeated
  /-- A palette of more than two colours. -/
  | colourCount
  /-- A colour that is not six characters long. -/
  | colourLength
  /-- A colour that is no hexadecimal number. -/
  | colourDigits
  /-- The window front end was asked for and is not there. -/
  | windowMissing
  /-- The terminal front end was asked for and is not there. -/
  | terminalMissing
  /-- No front end was asked for, and none is there. -/
  | frontEndMissing
  /-- A position outside a sequence. -/
  | indexOutOfRange
  /-- A number that is no byte. -/
  | byteOutOfRange
  /-- A block that does not have the size of the place it is put in. -/
  | lengthMismatch
  /-- A negative number of bytes. -/
  | negativeSize
  /-- A number that is no code point. -/
  | notCodePoint
  /-- A colour component that is no byte. -/
  | colourOutOfRange
  /-- A double that is not a number where an integer is needed. -/
  | notANumber
  /-- A number beyond the range of the type it is converted to. -/
  | numberTooLarge
  /-- More bytes or characters than memory has room for. -/
  | outOfMemory
  /-- A letter whose lower-case form is more than one character. -/
  | letterExpands
  /-- A division by zero. -/
  | divisionByZero
  /-- A file that does not exist. -/
  | fileMissing
  /-- A directory where a file is needed. -/
  | fileIsDirectory
  /-- A queue with no room left. -/
  | queueFull
  /-- A name or a title with a null character in it. -/
  | nullCharacter
  /-- A file name that is too long. -/
  | nameTooLong
  /-- A width that is beyond the range of sizes. -/
  | widthOutOfRange
  /-- A window that is narrower or lower than nothing. -/
  | negativeWindow
  /-- A window or a pad that is larger than it can be. -/
  | windowTooLarge
  /-- An option without a value where a number is needed. -/
  | numberBlank
  /-- An option without a value where a text is needed. -/
  | textBlank
  /-- An option without a value where a front end is needed. -/
  | frontEndBlank
  deriving DecidableEq, Repr

/-- The text that reports a fault. -/
def Fault.message : Fault → String
  | .memoryOverflow location size =>
    "Memory overflow at 0x" ++ hex 4 location ++ " (size 0x" ++ hex 4 size ++ ")"
  | .stackOverflow target pc =>
    "Stack overflow calling 0x" ++ hex 3 target ++ " from 0x" ++ hex 3 pc.toNat
  | .stackUnderflow pc => "Stack underflow returning from 0x" ++ hex 3 pc.toNat
  | .negativeScroll distance =>
    "Cannot scroll by a negative distance (" ++ toString distance ++ ")"
  | .noSuchKey key => "Key 0x" ++ hex 1 key ++ " is outside the keypad"
  | .programTooLarge size =>
    "Program is " ++ toString size ++ " bytes, but only 3584 bytes are available from 0x200"
  | .keyCount =>
    "Incorrect number of keys defined -- 16 required.  Use commas to split numbers"
  | .keyNotInteger => "Defined keys are not all integer values"
  | .keyRepeated => "Duplicate keys defined"
  | .colourCount =>
    "Too many palette colours defined.  Supply a background and a foreground colour."
  | .colourLength => "Palette colours must all be 6 hex digits long."
  | .colourDigits => "Invalid palette colour defined."
  | .windowMissing => "PyGame does not appear to be installed."
  | .terminalMissing => "Curses (or Windows-Curses) does not appear to be installed."
  | .frontEndMissing => "Neither PyGame nor Curses (or Windows-Curses) appear to be installed."
  | .indexOutOfRange => "index out of range"
  | .byteOutOfRange => "byte must be in 0..255"
  | .lengthMismatch => "block and destination differ in length"
  | .negativeSize => "size must not be negative"
  | .notCodePoint => "not a code point"
  | .colourOutOfRange => "colour component must be in 0..255"
  | .notANumber => "not a number"
  | .numberTooLarge => "number too large"
  | .outOfMemory => "out of memory"
  | .letterExpands => "lower-case form is more than one character"
  | .divisionByZero => "division by zero"
  | .fileMissing => "no such file"
  | .fileIsDirectory => "is a directory"
  | .queueFull => "queue is full"
  | .nullCharacter => "null character"
  | .nameTooLong => "file name too long"
  | .widthOutOfRange => "width is out of range"
  | .negativeWindow => "window size must not be negative"
  | .windowTooLarge => "window is too large"
  | .numberBlank => "a number is needed"
  | .textBlank => "a text is needed"
  | .frontEndBlank => "a front end is needed"

end SuperChip
