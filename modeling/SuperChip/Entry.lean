import SuperChip.Fault
import SuperChip.Text.Fields

/-!
# Entries of a folder

What stands under a name in a folder, and how it is read.

A name that begins with a slash is a path as it stands, and any other name is looked up in the
folder.  A path is followed part by part.  The parts between its slashes that are empty, a dot or
two dots stay in folders, which are there; any other part is looked up.
-/

namespace SuperChip

/-- What stands under the name of a file. -/
inductive Entry
  /-- A file. -/
  | file (content : List UInt8)
  /-- A directory. -/
  | directory
  /-- Nothing. -/
  | missing
  deriving DecidableEq, Repr

namespace Entry

/-- The content of a file. -/
def content : Entry → Except Fault (List UInt8)
  | .file content => .ok content
  | .directory => .error .fileIsDirectory
  | .missing => .error .fileMissing

/-! ## Names -/

/-- The most bytes in a path. -/
def maxPathLength : Nat := 4095

/-- The most bytes in a part of a path. -/
def maxPartLength : Nat := 255

/-- The path of a name in a folder. -/
def path (folder name : String) : String :=
  match name.toList with
  | '/' :: _ => name
  | _ => folder ++ "/" ++ name

/-- Whether a part of a path stays in folders. -/
def staysInFolders (part : List Char) : Bool := part = [] || part = ['.'] || part = ['.', '.']

/-- The first part of a name that is looked up. -/
def sought? (name : String) : Option (List Char) :=
  (Text.fields '/' name.toList).find? fun part ↦ !staysInFolders part

/-- The content of the file with a name, given what stands under that name in a folder.  Nothing
else stands there, so that the first part of the name that is looked up decides whether there is a
fault. -/
def read (folder name : String) (entry : Entry) : Except Fault (List UInt8) :=
  if '\x00' ∈ name.toList then .error .nullCharacter
  else if maxPathLength < (path folder name).utf8ByteSize then .error .nameTooLong
  else
    match sought? name with
    | none => .error .fileIsDirectory
    | some part =>
      if maxPartLength < (String.ofList part).utf8ByteSize then .error .nameTooLong
      else entry.content

end Entry

end SuperChip
