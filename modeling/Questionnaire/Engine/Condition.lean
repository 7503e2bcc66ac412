import Questionnaire.Duration
import Questionnaire.Engine.Event
import Questionnaire.Expression.Basic

/-!
# Conditions

Expressions that the study engine evaluates without changing anything: checks of events and
responses, comparisons, logic, arithmetic and points in time.  Each function here gives the
expression of one name of the engine.
-/

namespace Questionnaire

namespace Condition

/-- A name applied to keys. -/
def ofKeys (name : String) (returnType : Option ReturnType) (keys : List String) : Expression :=
  ⟨name, returnType, keys.map .text⟩

/-- A name applied to expressions. -/
def ofOperands (name : String) (operands : List Expression) : Expression :=
  .apply name (operands.map .expression)

/-! ## Events and responses -/

/-- The event has the given kind. -/
def checkEventType (kind : EventKind) : Expression :=
  ofKeys "checkEventType" none [kind.name]

/-- The custom event has the given key. -/
def checkEventKey (key : String) : Expression :=
  ofKeys "checkEventKey" none [key]

/-- The submitted response belongs to the given survey. -/
def checkSurveyResponseKey (survey : String) : Expression :=
  ofKeys "checkSurveyResponseKey" none [survey]

/-- Some of the options is selected in the response slot of the item. -/
def responseHasKeysAny (item slot : String) (options : List String) : Expression :=
  ofKeys "responseHasKeysAny" none (item :: slot :: options)

/-- Something is selected in the response slot of the item, but none of the options. -/
def responseHasOnlyKeysOtherThan (item slot : String) (options : List String) : Expression :=
  ofKeys "responseHasOnlyKeysOtherThan" none (item :: slot :: options)

/-- The response to the item has the given key. -/
def hasResponseKey (item response : String) : Expression :=
  ofKeys "hasResponseKey" none [item, response]

/-- The response to the item has the given key with the given value. -/
def hasResponseKeyWithValue (item response value : String) : Expression :=
  ofKeys "hasResponseKeyWithValue" none [item, response, value]

/-- The item has a response in the given slot. -/
def hasResponse (item response : String) : Expression :=
  ofKeys "hasResponse" none [item, response]

/-- The value of a response as a number. -/
def responseValueAsNumber (item response : String) : Expression :=
  ofKeys "getResponseValueAsNum" (some .float) [item, response]

/-- The value of a response as text. -/
def responseValueAsText (item response : String) : Expression :=
  ofKeys "getResponseValueAsStr" (some .string) [item, response]

/-- The keys that are selected in a response. -/
def selectedKeys (item response : String) : Expression :=
  ofKeys "getSelectedKeys" (some .string) [item, response]

/-- The number of items of a response. -/
def countResponseItems (item response : String) : Expression :=
  ofKeys "countResponseItems" none [item, response]

/-- The code is in the list of study codes. -/
def isStudyCodePresent (list code : Argument) : Expression :=
  .apply "isStudyCodePresent" [list, code]

/-! ## Earlier responses -/

/-- How many of the earlier responses must meet a condition. -/
inductive OldResponsesCheck where
  | all
  | any
  | atLeast (count : Nat)
  deriving DecidableEq, Repr

/-- The argument that stands for a check. -/
def OldResponsesCheck.toArgument : OldResponsesCheck → Argument
  | .all => .text "all"
  | .any => .text "any"
  | .atLeast count => .int count

/-- Which earlier responses are considered, and how many of them count. -/
structure OldResponsesQuery where
  check : Option OldResponsesCheck := none
  surveyKey : Option String := none
  since : Option Argument := none
  before : Option Argument := none

/-- The earlier responses of the participant meet the condition. -/
def forOldResponses (condition : Expression) (query : OldResponsesQuery) : Expression :=
  .build "checkConditionForOldResponses" none [
    some (.expression condition),
    query.check.map OldResponsesCheck.toArgument,
    query.surveyKey.map .text,
    query.since,
    query.before]

/-! ## Event payloads and linking codes -/

/-- The event has a payload. -/
def hasEventPayload : Expression := .named "hasEventPayload"

/-- The payload has the given key. -/
def hasEventPayloadKey (key : String) : Expression :=
  ofKeys "hasEventPayloadKey" none [key]

/-- The payload has the given key with the given value. -/
def hasEventPayloadKeyWithValue (key value : String) : Expression :=
  ofKeys "hasEventPayloadKeyWithValue" none [key, value]

/-- A value of the payload as text. -/
def eventPayloadValueAsText (key : String) : Expression :=
  ofKeys "getEventPayloadValueAsStr" (some .string) [key]

/-- A value of the payload as a number. -/
def eventPayloadValueAsNumber (key : String) : Expression :=
  ofKeys "getEventPayloadValueAsNum" (some .float) [key]

/-- The participant has a linking code. -/
def hasLinkingCode (key : Argument) : Expression :=
  .apply "hasLinkingCode" [key]

/-- The value of a linking code. -/
def linkingCode (key : Argument) : Expression :=
  .apply "getLinkingCodeValue" [key]

/-! ## Comparison, logic and arithmetic -/

/-- Two values are equal. -/
def eq (left right : Argument) : Expression := .apply "eq" [left, right]

/-- The first value is less than the second. -/
def lt (left right : Argument) : Expression := .apply "lt" [left, right]

/-- The first value is less than the second or equal to it. -/
def lte (left right : Argument) : Expression := .apply "lte" [left, right]

/-- The first value is greater than the second. -/
def gt (left right : Argument) : Expression := .apply "gt" [left, right]

/-- The first value is greater than the second or equal to it. -/
def gte (left right : Argument) : Expression := .apply "gte" [left, right]

/-- Some of the operands holds. -/
def or (operands : List Expression) : Expression := ofOperands "or" operands

/-- All of the operands hold. -/
def and (operands : List Expression) : Expression := ofOperands "and" operands

/-- The operand does not hold. -/
def not (operand : Expression) : Expression := ofOperands "not" [operand]

/-- The sum of some values. -/
def sum (values : List Argument) : Expression := ⟨"sum", some .float, values⟩

/-- The negative of a value. -/
def neg (value : Argument) : Expression := ⟨"neg", some .float, [value]⟩

/-- A text read as a number. -/
def parseValueAsNumber (value : Argument) : Expression :=
  ⟨"parseValueAsNum", some .float, [value]⟩

/-- A random whole number between two bounds. -/
def randomNumber (min max : Int) : Expression :=
  .apply "generateRandomNumber" [.int min, .int max]

/-! ## Points in time -/

/-- A month of the year. -/
inductive Month where
  | january
  | february
  | march
  | april
  | may
  | june
  | july
  | august
  | september
  | october
  | november
  | december
  deriving DecidableEq, Repr

namespace Month

/-- The months in the order of the year. -/
def all : List Month :=
  [.january, .february, .march, .april, .may, .june, .july, .august, .september, .october,
    .november, .december]

/-- The name of a month. -/
def name : Month → String
  | .january => "January"
  | .february => "February"
  | .march => "March"
  | .april => "April"
  | .may => "May"
  | .june => "June"
  | .july => "July"
  | .august => "August"
  | .september => "September"
  | .october => "October"
  | .november => "November"
  | .december => "December"

/-- The argument that stands for a month. -/
def toArgument (month : Month) : Argument := .text month.name

end Month

/-- The time that lies a duration after the reference, which is the present if it is not set. -/
def timestampWithOffset (delta : Duration) (reference : Option Argument) : Expression :=
  .build "timestampWithOffset" none [some (.int delta.toSeconds), reference]

/-- The week of the year in which a time lies. -/
def isoWeekOf (time : Argument) : Expression :=
  .apply "getISOWeekForTs" [time]

/-- The next time after the reference at which the month starts. -/
def nextStartOfMonth (month : Argument) (reference : Option Argument) : Expression :=
  .build "getTsForNextStartOfMonth" none [some month, reference]

/-- The next time after the reference at which the week of the year starts. -/
def nextIsoWeek (week : Argument) (reference : Option Argument) : Expression :=
  .build "getTsForNextISOWeek" none [some week, reference]

/-! ## External services -/

/-- The value that an external service computes for the event: a number if `expectFloat` is set,
and otherwise a text. -/
def externalEventEval (service : String) (route : Option String) (expectFloat : Bool) :
    Expression :=
  .build "externalEventEval" (if expectFloat then some .float else none)
    [some (.text service), route.map .text]

end Condition

end Questionnaire
