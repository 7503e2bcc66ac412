import Questionnaire.Engine.Condition

/-!
# Queries on participant states

While two participants are merged, the study engine sees two states, the participant's own and
the incoming one.  Every query exists for both; the queries on the incoming state have a mark in
front of their names.
-/

namespace Questionnaire

/-- One of the two states of a merge. -/
inductive ParticipantState where
  | current
  | incoming
  deriving DecidableEq, Repr

namespace ParticipantState

/-- What stands in front of the names of the queries on a state. -/
def mark : ParticipantState → String
  | .current => ""
  | .incoming => "incomingState:"

/-- The query of a name with arguments, those left out that are not set. -/
def query (state : ParticipantState) (name : String) (arguments : List (Option Argument)) :
    Expression :=
  .build (state.mark ++ name) none arguments

/-- The query of a name with text arguments. -/
def queryOf (state : ParticipantState) (name : String) (texts : List String) : Expression :=
  .apply (state.mark ++ name) (texts.map .text)

/-- The time at which the participant entered the study. -/
def studyEntryTime (state : ParticipantState) : Expression :=
  state.queryOf "getStudyEntryTime" []

/-- The survey is assigned. -/
def hasSurveyKeyAssigned (state : ParticipantState) (survey : String) : Expression :=
  state.queryOf "hasSurveyKeyAssigned" [survey]

/-- The time from which the assignment of a survey is valid. -/
def surveyKeyAssignedFrom (state : ParticipantState) (survey : String) : Expression :=
  state.queryOf "getSurveyKeyAssignedFrom" [survey]

/-- The time until which the assignment of a survey is valid. -/
def surveyKeyAssignedUntil (state : ParticipantState) (survey : String) : Expression :=
  state.queryOf "getSurveyKeyAssignedUntil" [survey]

/-- The participant has the given study status. -/
def hasStudyStatus (state : ParticipantState) (status : String) : Expression :=
  state.queryOf "hasStudyStatus" [status]

/-- The participant has the flag with the given value. -/
def hasFlag (state : ParticipantState) (key value : String) : Expression :=
  state.queryOf "hasParticipantFlag" [key, value]

/-- The participant has the flag. -/
def hasFlagKey (state : ParticipantState) (key : String) : Expression :=
  state.queryOf "hasParticipantFlagKey" [key]

/-- The value of a flag. -/
def flagValue (state : ParticipantState) (key : String) : Expression :=
  state.queryOf "getParticipantFlagValue" [key]

/-- The value of a flag as a number. -/
def flagValueAsNumber (state : ParticipantState) (key : String) : Expression :=
  Condition.parseValueAsNumber (.expression (state.flagValue key))

/-- A message of the type is scheduled. -/
def hasMessageTypeAssigned (state : ParticipantState) (messageType : String) : Expression :=
  state.queryOf "hasMessageTypeAssigned" [messageType]

/-- The time for which a message of the type is scheduled, zero if there is none. -/
def messageNextTime (state : ParticipantState) (messageType : String) : Expression :=
  state.queryOf "getMessageNextTime" [messageType]

/-- The time of the last submission, of the survey or of any. -/
def lastSubmissionDate (state : ParticipantState) (survey : Option String) : Expression :=
  state.query "getLastSubmissionDate" [survey.map .text]

/-- The last submission, of the survey or of any, lies before the reference. -/
def lastSubmissionDateOlderThan (state : ParticipantState) (reference : Argument)
    (survey : Option String) : Expression :=
  state.query "lastSubmissionDateOlderThan" [some reference, survey.map .text]

end ParticipantState

end Questionnaire
