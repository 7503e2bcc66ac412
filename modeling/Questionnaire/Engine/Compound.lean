import Questionnaire.Engine.Participant
import Questionnaire.Key

/-!
# Compound conditions

Conditions that surveys ask for again and again, put together from those of the study engine:
what is selected in a choice question, and whether a survey is assigned at a point in time.
-/

namespace Questionnaire

namespace Condition

/-! ## Choice questions -/

/-- Some of the options is selected in a single choice question. -/
def singleChoiceAny (item : String) (options : List String) : Expression :=
  responseHasKeysAny item Key.singleChoiceSlot options

/-- Something else than the options is selected in a single choice question. -/
def singleChoiceNone (item : String) (options : List String) : Expression :=
  responseHasOnlyKeysOtherThan item Key.singleChoiceSlot options

/-- Some of the options is selected in a multiple choice question. -/
def multipleChoiceAny (item : String) (options : List String) : Expression :=
  responseHasKeysAny item Key.multipleChoiceSlot options

/-- Something is selected in a multiple choice question, but none of the options. -/
def multipleChoiceNone (item : String) (options : List String) : Expression :=
  responseHasOnlyKeysOtherThan item Key.multipleChoiceSlot options

/-- Each of the options is selected in a multiple choice question. -/
def multipleChoiceAll (item : String) (options : List String) : Expression :=
  and (options.map fun option => responseHasKeysAny item Key.multipleChoiceSlot [option])

/-- The consent is given. -/
def consentAccepted (item : String) : Expression :=
  hasResponseKey item Key.consentSlot

/-! ## Assigned surveys -/

/-- The survey is assigned, and the present lies within the validity of the assignment, a second
apart from its ends. -/
def surveyIsActive (survey : String) : Expression :=
  and [
    lte (.expression (ParticipantState.current.surveyKeyAssignedFrom survey))
      (.expression (timestampWithOffset { seconds := 1 } none)),
    gte (.expression (ParticipantState.current.surveyKeyAssignedUntil survey))
      (.expression (timestampWithOffset { seconds := -1 } none))]

/-- The validity of the assigned survey starts before the reference moved by `delta`. -/
def surveyValidFromOlderThan (survey : String) (delta : Duration) (reference : Option Argument) :
    Expression :=
  lt (.expression (ParticipantState.current.surveyKeyAssignedFrom survey))
    (.expression (timestampWithOffset delta reference))

/-- The validity of the assigned survey ends before the reference moved by `delta`. -/
def surveyValidUntilSoonerThan (survey : String) (delta : Duration)
    (reference : Option Argument) : Expression :=
  gt (.expression (timestampWithOffset delta reference))
    (.expression (ParticipantState.current.surveyKeyAssignedUntil survey))

end Condition

end Questionnaire
