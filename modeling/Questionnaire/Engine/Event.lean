/-!
# Study events

The kinds of events on which the study engine runs rules.
-/

namespace Questionnaire

/-- A kind of study event. -/
inductive EventKind where
  | enter
  | submit
  | timer
  | merge
  | leave
  | custom
  deriving DecidableEq, Repr

namespace EventKind

/-- All kinds, in the order in which their rules are written. -/
def all : List EventKind := [.enter, .submit, .timer, .merge, .leave, .custom]

/-- The name of a kind. -/
def name : EventKind → String
  | .enter => "ENTER"
  | .submit => "SUBMIT"
  | .timer => "TIMER"
  | .merge => "MERGE"
  | .leave => "LEAVE"
  | .custom => "CUSTOM"

/-- The kinds by their names. -/
def names : List (String × EventKind) := all.map fun kind => (kind.name, kind)

end EventKind

end Questionnaire
