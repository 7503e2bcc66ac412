import Questionnaire.Engine.Action
import Questionnaire.Engine.Condition
import Questionnaire.Expression.Format

/-!
# Study rules

A study has actions for some kinds of events.  The rules that the study engine runs are composed of
them: one for each kind that has actions, in a fixed order, which runs the actions if an event is of
that kind.
-/

namespace Questionnaire

namespace EventKind

/-- The name of the field that holds the actions for a kind. -/
def fieldName : EventKind → String
  | .enter => "enter"
  | .submit => "submit"
  | .timer => "timer"
  | .merge => "merge"
  | .leave => "leave"
  | .custom => "custom"

/-- The JSON form of a kind. -/
def toJson (kind : EventKind) : Json := .string kind.name

/-- The reader of kinds. -/
def reader : Reader EventKind := .choice names

end EventKind

/-- The actions of a study for each kind of event, if they are set. -/
structure StudyRules where
  enter : Option (List Expression) := none
  submit : Option (List Expression) := none
  timer : Option (List Expression) := none
  merge : Option (List Expression) := none
  leave : Option (List Expression) := none
  custom : Option (List Expression) := none

namespace StudyRules

/-- The rules of a study without actions. -/
def empty : StudyRules := {}

/-- The actions for a kind. -/
def actions (r : StudyRules) : EventKind → Option (List Expression)
  | .enter => r.enter
  | .submit => r.submit
  | .timer => r.timer
  | .merge => r.merge
  | .leave => r.leave
  | .custom => r.custom

/-- The rules with the actions for a kind set, or no longer set. -/
def assign (r : StudyRules) (kind : EventKind) (actions : Option (List Expression)) :
    StudyRules :=
  match kind with
  | .enter => { r with enter := actions }
  | .submit => { r with submit := actions }
  | .timer => { r with timer := actions }
  | .merge => { r with merge := actions }
  | .leave => { r with leave := actions }
  | .custom => { r with custom := actions }

/-- The rule for a kind of event; there is none without actions. -/
def ruleFor? (r : StudyRules) (kind : EventKind) : Option Expression :=
  match r.actions kind with
  | some (first :: rest) => some (Action.ifThen (Condition.checkEventType kind) (first :: rest))
  | _ => none

/-- The rules that the study engine runs. -/
def compose (r : StudyRules) : List Expression :=
  EventKind.all.filterMap r.ruleFor?

/-- The JSON form of study rules. -/
def toJson (r : StudyRules) : Json :=
  .record (EventKind.all.map fun kind =>
    .optional kind.fieldName (.list Expression.toJson) (r.actions kind))

/-- The field of the actions for a kind. -/
def actionField (kind : EventKind) : Fields (Option (List Expression)) :=
  .optional kind.fieldName (.list Expression.reader)

/-- The fields of study rules. -/
def fields : Fields StudyRules :=
  StudyRules.mk <$> actionField .enter <*> actionField .submit <*> actionField .timer
    <*> actionField .merge <*> actionField .leave <*> actionField .custom

end StudyRules

/-- Rules that are run by hand and not on events. -/
structure CustomRule where
  name : String
  rules : List Expression

namespace CustomRule

/-- The JSON form of custom rules. -/
def toJson (r : CustomRule) : Json :=
  .record [.required "name" (.string r.name), .required "rules" (.list Expression.toJson r.rules)]

/-- The fields of custom rules. -/
def fields : Fields CustomRule :=
  CustomRule.mk <$> .required "name" .string <*> .required "rules" (.list Expression.reader)

end CustomRule

end Questionnaire
