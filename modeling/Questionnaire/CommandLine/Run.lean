import Questionnaire.CommandLine.Arguments
import Questionnaire.CommandLine.Schema
import Questionnaire.Export.Run

/-!
# Running a command

A command reads its documents from a file store and writes what it makes into the store or to the
output.  If it fails, the messages of the causes stand one behind the other, the widest first.
-/

namespace Questionnaire

/-- What a command has put out, and the messages of its failure. -/
structure Outcome where
  output : String := ""
  failure : List String := []
  deriving DecidableEq, Repr

namespace Outcome

/-- Whether the command has succeeded. -/
def succeeded (o : Outcome) : Bool := o.failure.isEmpty

/-- The message of the failure. -/
def message (o : Outcome) : String := ": ".intercalate o.failure

end Outcome

variable {m : Type → Type} [Monad m]

/-- Reads a document off a file. -/
def FileStore.load {α : Type} (store : FileStore m) (r : Reader α) (kind : DocumentKind)
    (path : Path) : m (Except BuildError α) := do
  match ← store.readFile path with
  | none => return .error (.unreadable path)
  | some text =>
    match r.ofText text with
    | .ok a => return .ok a
    | .error _ => return .error (.invalid path kind)

namespace Command

/-- The report of a search for keys that come twice. -/
def checkOutcome (s : Survey) (deep : Bool) : Outcome :=
  let duplicates := if deep then s.duplicates else s.rootDuplicates
  match duplicates with
  | [] => { output := s.key ++ ": no duplicate keys\n" }
  | _ =>
    { output := String.join (duplicates.map fun d => d.message ++ "\n")
      failure :=
        ["survey " ++ s.key ++ " contains " ++ duplicates.length.repr ++ " duplicate key(s)"] }

/-- The text of a survey after an item has been renamed. -/
def rekeyed (path : Path) (s : Survey) (old new : String) (keepReferences pretty : Bool) :
    Except (List String) String := do
  let editor ← (Editor.ofSurvey s).mapError fun e => ["rekey: cannot edit " ++ path, e.message]
  let references := if keepReferences then .keep else .follow
  match (Editor.rename old new references).run editor with
  | (.ok _, renamed) => return renamed.survey.toJson.toText (if pretty then .pretty else .compact)
  | (.error e, _) => .error [e.message]

/-- Runs a command. -/
def run (store : FileStore m) : Command → m Outcome
  | .exportStudy bundle out pretty => do
    match ← store.load Bundle.reader .bundle bundle with
    | .error e => return { failure := [e.message] }
    | .ok b =>
      match ← b.toStudy.write { root := out, pretty } store.toFileSink with
      | .error e => return { failure := [e.message] }
      | .ok _ => return {}
  | .check path deep => do
    match ← store.load Survey.reader .survey path with
    | .error e => return { failure := [e.message] }
    | .ok s => return checkOutcome s deep
  | .rekey path old new keepReferences out pretty => do
    match ← store.load Survey.reader .survey path with
    | .error e => return { failure := [e.message] }
    | .ok s =>
      match rekeyed path s old new keepReferences pretty, out with
      | .error failure, _ => return { failure }
      | .ok text, none => return { output := text ++ "\n" }
      | .ok text, some out => do
        if ← store.writeFile out text then
          return {}
        else
          return { failure := ["rekey: failed to write " ++ out] }
  | .schema kind => return { output := (Schema.ofKind kind).toJson.toText .pretty ++ "\n" }

end Command

end Questionnaire
