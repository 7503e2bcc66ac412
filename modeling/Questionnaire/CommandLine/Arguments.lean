import Questionnaire.Files.Basic

/-!
# Command line arguments

The arguments name a command and its options.  An option takes a value, either as the next argument
or behind an equals sign; a switch takes none.  No option may come twice.  The next argument is no
value if it looks like an option; a path has at least one character.  The arguments are read from
the left, and reading stops at the first that asks for help or the version, or that is wrong.
-/

namespace Questionnaire

/-- The documents that have a schema. -/
inductive SchemaKind where
  | survey
  | expression
  | studyRules
  | studyBundle
  deriving DecidableEq, Repr

/-- The names of the kinds of schemas. -/
def SchemaKind.names : List (String × SchemaKind) :=
  [("survey", .survey), ("expression", .expression), ("study-rules", .studyRules),
    ("study-bundle", .studyBundle)]

/-- What the program is asked to do. -/
inductive Command where
  /-- Writes all files of a study. -/
  | exportStudy (bundle : Path) (out : Option Path) (pretty : Bool)
  /-- Looks for keys that come twice, among the items of the root or of every group. -/
  | check (survey : Path) (deep : Bool)
  /-- Renames an item. -/
  | rekey (survey : Path) (old new : String) (keepReferences : Bool) (out : Option Path)
    (pretty : Bool)
  /-- Prints a schema. -/
  | schema (kind : SchemaKind)
  deriving DecidableEq, Repr

/-- Why no command is run: help or the version is asked for, or the arguments are wrong. -/
inductive Stop where
  | shown
  | misused
  deriving DecidableEq, Repr

namespace Command

/-- What an option takes. -/
inductive Taking where
  | nothing
  | path
  | text
  | oneOf (names : List String)
  deriving DecidableEq, Repr

/-- An option of a command. -/
structure Switch where
  name : String
  taking : Taking
  required : Bool := false
  deriving DecidableEq, Repr

/-- The options that have been read, with their values. -/
abbrev Given := List (String × String)

/-- Whether an argument looks like an option. -/
def looksLikeOption (argument : String) : Bool :=
  match argument.toList with
  | '-' :: _ :: _ => true
  | _ => false

/-- Whether an option takes a value. -/
def Taking.accepts : Taking → String → Bool
  | .nothing, _ => true
  | .path, value => value != ""
  | .text, _ => true
  | .oneOf names, value => names.contains value

/-- Whether an option has been read. -/
def Given.has (given : Given) (name : String) : Bool := (given.lookup name).isSome

/-- The value of a required option. -/
def Given.value (given : Given) (name : String) : String := (given.lookup name).getD ""

/-- Adds an option to those that have been read, if it may come with the value. -/
def give (given : Given) (switch : Switch) (value : String) : Except Stop Given :=
  if switch.taking.accepts value && !given.has switch.name then
    .ok (given ++ [(switch.name, value)])
  else .error .misused

/-- Reads the letters behind a single dash. -/
def readLetters (given : Given) (withVersion : Bool) : List Char → Except Stop Given
  | [] => .ok given
  | 'v' :: rest => do readLetters (← give given ⟨"verbose", .nothing, false⟩ "") withVersion rest
  | 'h' :: _ => .error .shown
  | 'V' :: _ => .error (if withVersion then .shown else .misused)
  | _ :: _ => .error .misused

/-- The name and the value of an argument with two dashes, without the dashes. -/
def splitOption (body : List Char) : String × Option String :=
  let name := body.takeWhile (· ≠ '=')
  match body.drop name.length with
  | _ :: value => (String.ofList name, some (String.ofList value))
  | [] => (String.ofList name, none)

/-- The switch that all commands have. -/
def verbose : Switch := { name := "verbose", taking := .nothing }

/-- Reads the options of a command; `pending` is the option whose value comes next. -/
def readOptions (switches : List Switch) (given : Given) (pending : Option Switch) :
    List String → Except Stop Given
  | [] => if pending.isSome then .error .misused else .ok given
  | argument :: rest =>
    match pending, argument.toList with
    | some switch, _ =>
      if looksLikeOption argument then .error .misused
      else do readOptions switches (← give given switch argument) none rest
    | none, ['-', '-'] => if rest.isEmpty then .ok given else .error .misused
    | none, '-' :: '-' :: body =>
      let (name, attached) := splitOption body
      if name = "help" then .error (if attached.isSome then .misused else .shown)
      else
        match switches.find? (·.name == name) with
        | none => .error .misused
        | some switch =>
          match attached, switch.taking with
          | none, .nothing => do readOptions switches (← give given switch "") none rest
          | some _, .nothing => .error .misused
          | none, _ => readOptions switches given (some switch) rest
          | some value, _ => do readOptions switches (← give given switch value) none rest
    | none, '-' :: letter :: letters => do
      readOptions switches (← readLetters given false (letter :: letters)) none rest
    | none, _ => .error .misused

/-- The options of a command, all required ones among them. -/
def options (switches : List Switch) (arguments : List String) : Except Stop Given := do
  let given ← readOptions (verbose :: switches) [] none arguments
  let missing := switches.filter fun switch => switch.required && !given.has switch.name
  if missing.isEmpty then return given else .error .misused

/-- Reads the options of the command that exports a study. -/
def readExport (arguments : List String) : Except Stop Command := do
  let given ← options
    [⟨"study", .path, true⟩, ⟨"out", .path, false⟩, ⟨"pretty", .nothing, false⟩] arguments
  return .exportStudy (given.value "study") (given.lookup "out") (given.has "pretty")

/-- Reads the options of the command that looks for keys that come twice. -/
def readCheck (arguments : List String) : Except Stop Command := do
  let given ← options [⟨"survey", .path, true⟩, ⟨"deep", .nothing, false⟩] arguments
  return .check (given.value "survey") (given.has "deep")

/-- Reads the options of the command that renames an item. -/
def readRekey (arguments : List String) : Except Stop Command := do
  let given ← options
    [⟨"survey", .path, true⟩, ⟨"from", .text, true⟩, ⟨"to", .text, true⟩,
      ⟨"ignore-references", .nothing, false⟩, ⟨"out", .path, false⟩,
      ⟨"pretty", .nothing, false⟩] arguments
  return .rekey (given.value "survey") (given.value "from") (given.value "to")
    (given.has "ignore-references") (given.lookup "out") (given.has "pretty")

/-- Reads the options of the command that prints a schema. -/
def readSchema (arguments : List String) : Except Stop Command := do
  let given ← options [⟨"kind", .oneOf (SchemaKind.names.map (·.1)), true⟩] arguments
  match SchemaKind.names.lookup (given.value "kind") with
  | some kind => return .schema kind
  | none => .error .misused

/-- The commands by their names. -/
def readers : List (String × (List String → Except Stop Command)) :=
  [("export", readExport), ("check", readCheck), ("rekey", readRekey), ("schema", readSchema)]

/-- Shows help on a command. -/
def showHelp : List String → Stop
  | [] => .shown
  | [name] => if name = "help" ∨ (readers.lookup name).isSome then .shown else .misused
  | _ => .misused

/-- Reads the arguments from the command on, when some switches have come before it. -/
def readFrom (given : Given) : List String → Except Stop Command
  | [] => .error .misused
  | argument :: rest =>
    match argument.toList with
    | '-' :: '-' :: body =>
      let (name, attached) := splitOption body
      if attached.isSome then .error .misused
      else if name = "help" ∨ name = "version" then .error .shown
      else if name = "verbose" then do readFrom (← give given verbose "") rest
      else .error .misused
    | '-' :: letter :: letters => do
      readFrom (← readLetters given true (letter :: letters)) rest
    | _ =>
      if argument = "help" then .error (showHelp rest)
      else
        match readers.lookup argument with
        | some read => read rest
        | none => .error .misused

/-- The command that the arguments ask for. -/
def ofArguments (arguments : List String) : Except Stop Command := readFrom [] arguments

end Command

end Questionnaire
