import Questionnaire.Expression.Basic

/-!
# Actions

Expressions that change the state of a participant or of a study, and those that decide which of
them run.
-/

namespace Questionnaire

namespace Action

/-- A name applied to texts. -/
def ofTexts (name : String) (texts : List String) : Expression :=
  .apply name (texts.map .text)

/-! ## Control -/

/-- Runs the second expression if the condition holds, and otherwise the third, if there is one. -/
def ifElse (condition consequence : Expression) (alternative : Option Expression) : Expression :=
  .build "IF" none
    [some (.expression condition), some (.expression consequence), alternative.map .expression]

/-- Runs the actions one after the other. -/
def doAll (actions : List Expression) : Expression :=
  .apply "DO" (actions.map .expression)

/-- Runs the actions if the condition holds. -/
def ifThen (condition : Expression) (actions : List Expression) : Expression :=
  .apply "IFTHEN" (.expression condition :: actions.map .expression)

/-! ## Study status and flags -/

/-- Sets the study status of the participant. -/
def updateStudyStatus (status : String) : Expression :=
  ofTexts "UPDATE_STUDY_STATUS" [status]

/-- Ends the participation before its time. -/
def stopParticipation : Expression := updateStudyStatus "inactive"

/-- Ends the participation in due form. -/
def finishParticipation : Expression := updateStudyStatus "finished"

/-- Starts a new study session. -/
def startNewStudySession : Expression := .named "START_NEW_STUDY_SESSION"

/-- Sets a flag of the participant. -/
def updateFlag (key : String) (value : Argument) : Expression :=
  .apply "UPDATE_FLAG" [.text key, value]

/-- Removes a flag of the participant. -/
def removeFlag (key : String) : Expression :=
  ofTexts "REMOVE_FLAG" [key]

/-! ## Assigned surveys -/

/-- Where an assigned survey stands in the list of the participant. -/
inductive SurveyCategory where
  | immediate
  | prio
  | normal
  | optional
  deriving DecidableEq, Repr

/-- The name of a category. -/
def SurveyCategory.name : SurveyCategory → String
  | .immediate => "immediate"
  | .prio => "prio"
  | .normal => "normal"
  | .optional => "optional"

/-- Which assignments of a survey are removed. -/
inductive RemoveSelector where
  | first
  | last
  | all
  deriving DecidableEq, Repr

/-- Assigns a survey; a bound of its validity that is not set is zero. -/
def addNewSurvey (survey : String) (category : SurveyCategory)
    (activeFrom activeUntil : Option Argument) : Expression :=
  .apply "ADD_NEW_SURVEY"
    [.text survey, activeFrom.getD (.int 0), activeUntil.getD (.int 0), .text category.name]

/-- Removes all assigned surveys. -/
def removeAllSurveys : Expression := .named "REMOVE_ALL_SURVEYS"

/-- Removes assignments of a survey. -/
def removeSurveyByKey (survey : String) : RemoveSelector → Expression
  | .all => ofTexts "REMOVE_SURVEYS_BY_KEY" [survey]
  | .first => ofTexts "REMOVE_SURVEY_BY_KEY" [survey, "first"]
  | .last => ofTexts "REMOVE_SURVEY_BY_KEY" [survey, "last"]

/-! ## Messages -/

/-- Schedules a message. -/
def addMessage (messageType : String) (scheduledFor : Argument) : Expression :=
  .apply "ADD_MESSAGE" [.text messageType, scheduledFor]

/-- Removes all scheduled messages. -/
def removeAllMessages : Expression := .named "REMOVE_ALL_MESSAGES"

/-- Removes the scheduled messages of a type. -/
def removeMessagesByType (messageType : String) : Expression :=
  ofTexts "REMOVE_MESSAGES_BY_TYPE" [messageType]

/-- Sends a message to the researchers. -/
def notifyResearcher (messageType : String) (payload : List Argument) : Expression :=
  .apply "NOTIFY_RESEARCHER" (.text messageType :: payload)

/-! ## Reports -/

/-- How an entry of a report is shown. -/
inductive ReportDataType where
  | date
  | float
  | int
  | string
  | rawMessage
  | keyList
  deriving DecidableEq, Repr

/-- The name of a report data type. -/
def ReportDataType.name : ReportDataType → String
  | .date => "date"
  | .float => "float"
  | .int => "int"
  | .string => "string"
  | .rawMessage => "rawMessage"
  | .keyList => "keyList"

/-- Starts a report. -/
def initReport (report : String) : Expression :=
  ofTexts "INIT_REPORT" [report]

/-- Drops a report. -/
def cancelReport (report : String) : Expression :=
  ofTexts "CANCEL_REPORT" [report]

/-- Sets an entry of a report. -/
def updateReportData (report entry : String) (value : Argument)
    (dataType : Option ReportDataType) : Expression :=
  .build "UPDATE_REPORT_DATA" none
    [some (.text report), some (.text entry), some value,
      dataType.map fun t => .text t.name]

/-- Removes an entry of a report. -/
def removeReportData (report entry : String) : Expression :=
  ofTexts "REMOVE_REPORT_DATA" [report, entry]

/-- Sets the icon of a report. -/
def setReportIcon (report icon : String) : Expression :=
  updateReportData report "icon" (.text icon) none

/-- The data type of a text of a report, which is plain text unless it is the key of a
text in several languages. -/
def reportTextType (asKey : Bool) : Option ReportDataType :=
  if asKey then none else some .rawMessage

/-- Sets the message of a report. -/
def setReportMessage (report content : String) (asKey : Bool) : Expression :=
  updateReportData report "message" (.text content) (reportTextType asKey)

/-- Sets the summary of a report. -/
def setReportSummary (report content : String) (asKey : Bool) : Expression :=
  updateReportData report "summary" (.text content) (reportTextType asKey)

/-! ## Codes and confidential responses -/

/-- Removes a code from a list of study codes. -/
def removeStudyCode (list code : Argument) : Expression :=
  .apply "REMOVE_STUDY_CODE" [list, code]

/-- Sets a linking code. -/
def setLinkingCode (key value : Argument) : Expression :=
  .apply "SET_LINKING_CODE" [key, value]

/-- Deletes a linking code, or all of them. -/
def deleteLinkingCode (key : Option Argument) : Expression :=
  .build "DELETE_LINKING_CODE" none [key]

/-- Draws a study code from a list and makes it a linking code. -/
def drawStudyCodeAsLinkingCode (list : Argument) (key : Option Argument) : Expression :=
  .build "DRAW_STUDY_CODE_AS_LINKING_CODE" none [some list, key]

/-- Removes a confidential response. -/
def removeConfidentialResponse (key : String) : Expression :=
  ofTexts "REMOVE_CONFIDENTIAL_RESPONSE_BY_KEY" [key]

/-- Removes all confidential responses. -/
def removeAllConfidentialResponses : Expression := .named "REMOVE_ALL_CONFIDENTIAL_RESPONSES"

/-! ## External services -/

/-- Lets an external service handle the event. -/
def externalEventHandler (service : String) (route : Option String) : Expression :=
  .build "EXTERNAL_EVENT_HANDLER" none [some (.text service), route.map .text]

end Action

end Questionnaire
