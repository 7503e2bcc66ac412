import Questionnaire.Json.Outline.Text

/-!
# Readers

A reader takes a document off an outline and reports the first problem in the order of the text.
The problem is either a fault of the text or a value of the wrong shape.  A reader is told how many
containers it may still open; a text that nests deeper is at fault.

A document is read off a text by its outline, behind which nothing but blanks may follow.
-/

namespace Questionnaire

/-- How a value has the wrong shape. -/
inductive Misfit where
  | missingField (name : String)
  | duplicateField (name : String)
  /-- A name that is none of the expected ones. -/
  | unknownName (found : String) (expected : List String)
  | wrongKind
  | outOfRange
  | tooFewElements
  /-- A value that is neither a group item nor a single item. -/
  | noItem
  deriving DecidableEq, Repr

/-- Why a text does not read. -/
inductive ReadError where
  | broken (fault : Fault)
  | misfit (reason : Misfit)
  deriving DecidableEq, Repr

namespace Misfit

/-- The expected names in words. -/
def alternatives : List String → String
  | [] => "there are no variants"
  | [a] => "expected " ++ quoted a
  | [a, b] => "expected " ++ quoted a ++ " or " ++ quoted b
  | names => "expected one of " ++ String.intercalate ", " (names.map quoted)
where
  /-- A name between grave accents. -/
  quoted (name : String) : String := "`" ++ name ++ "`"

/-- The message of a misfit. -/
def message : Misfit → String
  | .missingField name => "missing field `" ++ name ++ "`"
  | .duplicateField name => "duplicate field `" ++ name ++ "`"
  | .unknownName found expected =>
    "unknown variant `" ++ found ++ "`, " ++ alternatives expected
  | .wrongKind => "invalid type"
  | .outOfRange => "invalid value"
  | .tooFewElements => "invalid length"
  | .noItem => "data did not match any variant of untagged enum SurveyItem"

end Misfit

/-- A reader of documents of type `α`; the number is that of the containers it may open. -/
abbrev Reader (α : Type) := Nat → Outline → Except ReadError α

/-- The number of containers that a text may nest. -/
def maxNesting : Nat := 127

/-- The result of a token for a reader that needs its value. -/
def Token.read {α : Type} (t : Token α) : Except ReadError α :=
  t.value.mapError .broken

namespace Outline

/-- What a reader reports that expects another kind of value.  A value without parts is read to
its end first. -/
def unexpected : Outline → ReadError
  | .missing => .broken .ended
  | .unreadable => .broken .misplaced
  | .null (some fault) => .broken fault
  | .bool _ (some fault) => .broken fault
  | .number { value := .error fault, .. } => .broken fault
  | .string { value := .error fault, .. } => .broken fault
  | _ => .misfit .wrongKind

/-- Passes over a value. -/
def skip (o : Outline) : Except ReadError Unit :=
  match o.stop? with
  | some fault => .error (.broken fault)
  | none => .ok ()

/-- The end of a container. -/
def close : Option (Bool × Fault) → Except ReadError Unit
  | none => .ok ()
  | some (_, fault) => .error (.broken fault)

/-- The end of a container that holds all it may hold: even a comma is out of place. -/
def closeFull : Option (Bool × Fault) → Except ReadError Unit
  | none => .ok ()
  | some (true, _) => .error (.broken .misplaced)
  | some (false, fault) => .error (.broken fault)

mutual

/-- The JSON value of an outline; of the members of one name the last counts, and the members are
in the order of their names. -/
def json : Reader Json
  | _, .missing => .error (.broken .ended)
  | _, .unreadable => .error (.broken .misplaced)
  | _, .null stop =>
    match stop with
    | none => .ok .null
    | some fault => .error (.broken fault)
  | _, .bool b stop =>
    match stop with
    | none => .ok (.bool b)
    | some fault => .error (.broken fault)
  | _, .number n => n.read.map .number
  | _, .string s => s.read.map .string
  | 0, .array _ _ => .error (.broken .misplaced)
  | depth + 1, .array elements fault => do
    let elements ← jsonElements depth elements
    close fault
    return .array elements
  | 0, .object _ _ _ => .error (.broken .misplaced)
  | depth + 1, .object members fault _ => do
    let members ← jsonMembers depth members
    close fault
    return .object (Dict.ofPairs members)

/-- The JSON values of some elements. -/
def jsonElements : Nat → List Outline → Except ReadError (List Json)
  | _, [] => .ok []
  | depth, o :: rest => do
    let value ← json depth o
    return value :: (← jsonElements depth rest)

/-- The names and JSON values of some members. -/
def jsonMembers : Nat → List (Token String × Outline) → Except ReadError (List (String × Json))
  | _, [] => .ok []
  | depth, (name, o) :: rest => do
    let name ← name.read
    let value ← json depth o
    return (name, value) :: (← jsonMembers depth rest)

end

end Outline

namespace Reader

variable {α β : Type}

/-- Applies a function to what is read. -/
def map (f : α → β) (r : Reader α) : Reader β :=
  fun depth o => (r depth o).map f

/-- A reader of values that contain values of their own kind.  Containers nest no deeper than the
reader is told, so that many unrollings suffice. -/
def unroll (f : Reader α → Reader α) : Nat → Reader α
  | 0, _, _ => .error (.broken .misplaced)
  | n + 1, depth, o => f (unroll f n) depth o

/-- The reader that uses itself for the values inside. -/
def fix (f : Reader α → Reader α) : Reader α :=
  fun depth o => unroll f (depth + 1) depth o

/-- Text. -/
def string : Reader String
  | _, .string s => s.read
  | _, o => .error o.unexpected

/-- A truth value. -/
def bool : Reader Bool
  | _, .bool b none => .ok b
  | _, o => .error o.unexpected

/-- An integer between two bounds. -/
def intWithin (low high : Int) : Reader Int
  | _, .number n => do
    match ← n.read with
    | .int i => if low ≤ i ∧ i ≤ high then .ok i else .error (.misfit .outOfRange)
    | .double _ => .error (.misfit .wrongKind)
  | _, o => .error o.unexpected

/-- A signed 64-bit integer. -/
def int64 : Reader Int := intWithin (-(Nat.pow 2 63)) (Nat.pow 2 63 - 1)

/-- An unsigned 32-bit integer. -/
def nat32 : Reader Nat := (intWithin 0 (Nat.pow 2 32 - 1)).map Int.toNat

/-- A double; an integer is rounded to the nearest one. -/
def double : Reader Double
  | _, .number n => do
    match ← n.read with
    | .int i => .ok (Double.ofInt i)
    | .double x => .ok x
  | _, o => .error o.unexpected

/-- A value or `null`. -/
def optional (r : Reader α) : Reader (Option α)
  | _, .null none => .ok none
  | _, .null (some fault) => .error (.broken fault)
  | depth, o => (r depth o).map some

/-- Reads the values of a list of outlines, one after the other. -/
def each (r : Outline → Except ReadError α) : List Outline → Except ReadError (List α)
  | [] => .ok []
  | o :: rest => do
    let a ← r o
    return a :: (← each r rest)

/-- A list of values. -/
def list (r : Reader α) : Reader (List α)
  | 0, .array _ _ => .error (.broken .misplaced)
  | depth + 1, .array elements fault => do
    let values ← each (r depth) elements
    Outline.close fault
    return values
  | _, o => .error o.unexpected

/-- Reads the names and values of the members of an object, one after the other. -/
def eachMember (r : Outline → Except ReadError α) :
    List (Token String × Outline) → Except ReadError (List (String × α))
  | [] => .ok []
  | (name, o) :: rest => do
    let name ← name.read
    let a ← r o
    return (name, a) :: (← eachMember r rest)

/-- A dictionary; of the members of one name the last counts. -/
def dict (r : Reader α) : Reader (Dict α)
  | 0, .object _ _ _ => .error (.broken .misplaced)
  | depth + 1, .object members fault _ => do
    let entries ← eachMember (r depth) members
    Outline.close fault
    return Dict.ofPairs entries
  | _, o => .error o.unexpected

/-- The value that a name stands for. -/
def named (choices : List (String × α)) (name : String) : Except ReadError α :=
  match choices.lookup name with
  | some a => .ok a
  | none => .error (.misfit (.unknownName name (choices.map (·.1))))

/-- `null`. -/
def unit : Reader Unit
  | _, .null none => .ok ()
  | _, o => .error o.unexpected

/-- A choice between names, written as the name or as an object whose only member has that name
and the value `null`. -/
def choice (choices : List (String × α)) : Reader α
  | _, .string s => s.read.bind (named choices)
  | _, .missing => .error (.broken .ended)
  | 0, .object _ _ _ => .error (.broken .misplaced)
  | _ + 1, .object [] none _ => .error (.broken .misplaced)
  | depth + 1, .object [] (some _) (some stray) => do
    let _ ← string depth stray
    .error (.broken .misplaced)
  | _ + 1, .object [] (some (_, fault)) none => .error (.broken fault)
  | depth + 1, .object ((name, o) :: rest) fault _ => do
    let a ← named choices (← name.read)
    unit depth o
    match rest with
    | [] =>
      Outline.closeFull fault
      return a
    | _ :: _ => .error (.broken .misplaced)
  | _, _ => .error (.broken .misplaced)

/-! ## Documents as text -/

/-- Reads a document off a text that nests at most `nesting` containers. -/
def ofTextWithin (nesting : Nat) (r : Reader α) (text : String) :
    Except ReadError α := do
  let (outline, trailing) := Outline.ofText text
  let a ← r nesting outline
  match trailing with
  | none => return a
  | some fault => .error (.broken fault)

/-- Reads a document off a text. -/
def ofText (r : Reader α) (text : String) : Except ReadError α :=
  r.ofTextWithin maxNesting text

end Reader

end Questionnaire
