import Questionnaire.Edit.Error
import Questionnaire.Survey.Duplicates

/-!
# Why a study cannot be built
-/

namespace Questionnaire

/-- The documents that are read from files. -/
inductive DocumentKind where
  | survey
  | bundle
  deriving DecidableEq, Repr

/-- The name of a kind of document. -/
def DocumentKind.name : DocumentKind → String
  | .survey => "survey"
  | .bundle => "study bundle"

/-- Why a study cannot be built. -/
inductive BuildError where
  /-- An edit of a survey fails. -/
  | edit (e : EditError)
  /-- Keys come twice in a finished survey. -/
  | duplicateKeys (survey : Key) (duplicates : List Duplicate)
  /-- A file cannot be read. -/
  | unreadable (path : String)
  /-- A file does not hold the document that is expected in it. -/
  | invalid (path : String) (kind : DocumentKind)
  deriving DecidableEq, Repr

namespace BuildError

/-- Whether the error stops the whole build. -/
def isFatal : BuildError → Bool
  | .edit e => e.isFatal
  | .unreadable _ => false
  | .duplicateKeys _ _ => true
  | .invalid _ _ => true

/-- The message of an error. -/
def message : BuildError → String
  | .edit e => e.message
  | .duplicateKeys survey duplicates =>
    "survey `" ++ survey ++ "` contains duplicate item keys: "
      ++ "; ".intercalate (duplicates.map Duplicate.message)
  | .unreadable path => "failed to read " ++ path
  | .invalid path kind => path ++ " is not a valid " ++ kind.name

end BuildError

end Questionnaire
