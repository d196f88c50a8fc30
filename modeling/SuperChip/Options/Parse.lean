import SuperChip.Options

/-!
# The command line

How the arguments of the command line are read.

All arguments are classified before anything is done with them.  An argument that begins with a
dash is a switch, and what follows an equals sign in it is attached to it; a switch with two dashes
may be cut short as long as it stays unique; a switch with one dash may have more attached without
an equals sign.  Negative numbers, and arguments with a space in them, are no switches, and after a
first argument of two dashes there are none.

What is attached is the value of a switch that takes one, and further switches with one dash for one
that takes none.  Two dashes are attached to say that an option has no value.

Then the switches are obeyed in their order.  The one argument that remains names the program.
-/

namespace SuperChip.Options

/-- Why there are no options. -/
inductive Refusal
  /-- The command line is wrong. -/
  | usage
  /-- The user asked for help. -/
  | help
  deriving DecidableEq, Repr

/-- An argument, classified. -/
inductive Token
  /-- An argument that is no switch. -/
  | plain (text : List Char)
  /-- The two dashes after which there are no switches. -/
  | separator
  /-- A switch, written with one dash or with two, and the text attached to it. -/
  | switch (s : Switch) (single : Bool) (attached : Option (List Char))
  /-- A switch that there is not. -/
  | unknown
  deriving DecidableEq, Repr

/-! ## Classification -/

/-- The switch that is written in a way. -/
def spelled? (spelling : List Char) : Option Switch :=
  (Switch.spellings.find? fun p ↦ p.1.toList = spelling).map (·.2)

/-- Cuts a text at its first equals sign. -/
def cutAtEquals (text : List Char) : Option (List Char × List Char) :=
  match text.dropWhile (· != '=') with
  | [] => none
  | _ :: value => some (text.takeWhile (· != '='), value)

/-- Whether a text is a nonempty row of digits. -/
def isNumber (text : List Char) : Bool :=
  !text.isEmpty && text.all fun c ↦ (Text.digitValue? c).isSome

/-- Whether what follows a dash makes a negative number of it: digits, or digits around a point, of
which those before it may be missing.  A line break at the end does not matter. -/
def isNegative (text : List Char) : Bool :=
  let body := if text.getLast? = some '\n' then text.dropLast else text
  let whole := body.takeWhile (· != '.')
  match body.drop whole.length with
  | [] => isNumber whole
  | _ :: fraction => (whole.isEmpty || isNumber whole) && isNumber fraction

/-- The switches with two dashes that an argument may be a shortened form of. -/
def abbreviated (arg : List Char) : List Token :=
  let (start, attached) : List Char × Option (List Char) := match cutAtEquals arg with
    | some (start, text) => (start, some text)
    | none => (arg, none)
  (Switch.spellings.filter fun p ↦ start.isPrefixOf p.1.toList).map fun p ↦
    .switch p.2 false attached

/-- What an argument that begins with a dash may be, if it is no switch as it stands. -/
def candidates (arg : List Char) : List Token :=
  match arg with
  | '-' :: '-' :: _ => abbreviated arg
  | '-' :: c :: text =>
    match spelled? ['-', c] with
    | some s => [.switch s true (some text)]
    | none => []
  | _ => []

/-- Whether a switch is written with one dash. -/
def isSingle (spelling : List Char) : Bool := spelling[1]? != some '-'

/-- The switch that an argument is as it stands, up to an equals sign. -/
def exactly? (arg : List Char) : Option Token :=
  match spelled? arg, cutAtEquals arg with
  | some s, _ => some (.switch s (isSingle arg) none)
  | none, some (start, text) =>
    (spelled? start).map fun s ↦ .switch s (isSingle start) (some text)
  | none, none => none

/-- Classifies an argument. -/
def classify (arg : List Char) : Except Refusal Token :=
  match arg with
  | '-' :: rest =>
    if rest.isEmpty then .ok (.plain arg)
    else
      match exactly? arg, candidates arg with
      | some token, _ => .ok token
      | none, [token] => .ok token
      | none, [] => .ok (if isNegative rest || rest.contains ' ' then .plain arg else .unknown)
      | none, _ => .error .usage
  | _ => .ok (.plain arg)

/-- Classifies all arguments. -/
def tokens : List (List Char) → Except Refusal (List Token)
  | [] => .ok []
  | arg :: rest =>
    if arg = ['-', '-'] then .ok (.separator :: rest.map .plain)
    else do
      let token ← classify arg
      let others ← tokens rest
      return token :: others

/-! ## Obeying switches -/

/-- What an argument uses. -/
inductive Use
  /-- A switch without a value. -/
  | flag (s : Switch)
  /-- A switch with its value. -/
  | value (s : Switch) (text : List Char)
  /-- A switch whose value is the next argument. -/
  | next (s : Switch)
  deriving DecidableEq, Repr

/-- The use of a switch without anything attached. -/
def bare (s : Switch) : Use := if s.takesValue then .next s else .flag s

/-- The uses of an argument that is a switch with a text attached.  A switch that takes no value
has to be written with one dash, and all that is attached has to be used. -/
def uses (s : Switch) (single : Bool) (text : List Char) : Except Refusal (List Use) :=
  if s.takesValue then .ok [.value s text]
  else
    match text with
    | [] => .error .usage
    | c :: rest =>
      if !single then .error .usage
      else
        match spelled? ['-', c], rest with
        | none, _ => .error .usage
        | some other, [] => .ok [.flag s, bare other]
        | some other, text => (uses other true text).map (.flag s :: ·)
termination_by text.length

/-- What is known of the options while the arguments are read. -/
structure Progress where
  /-- The options so far. -/
  options : Options := { file := "" }
  /-- Whether the program has been named. -/
  named : Bool := false
  /-- Whether there are arguments that are of no use. -/
  surplus : Bool := false

/-- Names the program, unless it has been named. -/
def Progress.name (p : Progress) (text : List Char) : Progress :=
  if p.named then { p with surplus := true }
  else { p with named := true, options := { p.options with file := String.ofList text } }

/-- Obeys a switch with a value, or with the two dashes that stand for none. -/
def Progress.set (p : Progress) (s : Switch) (text : List Char) : Except Refusal Progress :=
  if text = ['-', '-'] then .ok { p with options := s.setBlank p.options }
  else
    match s.set p.options (String.ofList text) with
    | some options => .ok { p with options }
    | none => .error .usage

/-- Obeys a use; `following` is the argument after it. -/
def Progress.obey (following : List Char) (p : Progress) : Use → Except Refusal Progress
  | .flag .help => .error .help
  | .flag _ => .ok { p with options := { p.options with debug := true } }
  | .value s text => p.set s text
  | .next s => p.set s following

/-- Whether the last use needs the next argument. -/
def needsNext (us : List Use) : Bool :=
  match us.getLast? with
  | some (.next _) => true
  | _ => false

/-- The uses of a switch as it is written. -/
def usesOf (s : Switch) (single : Bool) : Option (List Char) → Except Refusal (List Use)
  | none => .ok [bare s]
  | some text => uses s single text

/-- Reads the arguments one after the other. -/
def read : List Token → Progress → Except Refusal Progress
  | [], p => .ok p
  | .plain text :: .separator :: rest, p =>
    if p.named then read rest { p with surplus := true } else read rest (p.name text)
  | .plain text :: rest, p => read rest (p.name text)
  | .separator :: .plain text :: rest, p =>
    if p.named then read rest { p with surplus := true } else read rest (p.name text)
  | .separator :: rest, p => read rest { p with surplus := true }
  | .unknown :: rest, p => read rest { p with surplus := true }
  | .switch s single attached :: rest, p => do
    let us ← usesOf s single attached
    if needsNext us then
      match rest with
      | .plain text :: rest => read rest (← us.foldlM (Progress.obey text) p)
      | _ => .error .usage
    else read rest (← us.foldlM (Progress.obey []) p)

/-- Reads the command line. -/
def parse (args : List String) : Except Refusal Options := do
  let p ← read (← tokens (args.map String.toList)) {}
  if p.named && !p.surplus then return p.options else .error .usage

end SuperChip.Options
