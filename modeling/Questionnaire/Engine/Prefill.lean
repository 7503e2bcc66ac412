import Questionnaire.Duration
import Questionnaire.Expression.Basic

/-!
# Prefill and context rules

Expressions that fill in responses before a survey is shown, and those that select the earlier
responses it may refer to.
-/

namespace Questionnaire

namespace Prefill

/-- Fills a response slot with a value. -/
def slotWithValue (item slot : String) (value : Argument) : Expression :=
  .apply "PREFILL_SLOT_WITH_VALUE" [.text item, .text slot, value]

/-- Copies the last response to an item, if it is not older than the given span. -/
def lastSurveyItem (survey item : String) (submittedLaterThan : Option Duration) : Expression :=
  .build "GET_LAST_SURVEY_ITEM" none
    [some (.text survey), some (.text item),
      submittedLaterThan.map fun span => .int span.toSeconds]

/-- The last responses to a survey. -/
def lastResponsesByKey (survey : String) (limit : Nat) : Expression :=
  .apply "LAST_RESPONSES_BY_KEY" [.text survey, .int limit]

/-- All responses since a time. -/
def allResponsesSince (time : Int) : Expression :=
  .apply "ALL_RESPONSES_SINCE" [.int time]

/-- The responses to a survey since a time. -/
def responsesSinceByKey (time : Int) (survey : String) : Expression :=
  .apply "RESPONSES_SINCE_BY_KEY" [.int time, .text survey]

end Prefill

end Questionnaire
