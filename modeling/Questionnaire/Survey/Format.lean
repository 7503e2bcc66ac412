import Questionnaire.Item.Format
import Questionnaire.Survey.Basic

/-!
# The JSON form of surveys

A survey is a record in which only its root is required; its texts and its version are always
written.
-/

namespace Questionnaire

namespace SurveyTexts

/-- The JSON form of the texts about a survey. -/
def toJson (t : SurveyTexts) : Json :=
  .record [
    .optional "name" (.list LocalizedText.toJson) t.name,
    .optional "description" (.list LocalizedText.toJson) t.description,
    .optional "typicalDuration" (.list LocalizedText.toJson) t.typicalDuration]

/-- The fields of the texts about a survey. -/
def fields : Fields SurveyTexts :=
  SurveyTexts.mk <$> .optional "name" (.list LocalizedText.reader)
    <*> .optional "description" (.list LocalizedText.reader)
    <*> .optional "typicalDuration" (.list LocalizedText.reader)

end SurveyTexts

namespace SurveyContext

/-- The JSON form of a context. -/
def toJson (c : SurveyContext) : Json :=
  .record [
    .optional "mode" Argument.toJson c.mode,
    .optional "previousResponses" (.list Expression.toJson) c.previousResponses,
    .optional "participantFlags" Expression.toJson c.participantFlags]

/-- The fields of a context. -/
def fields : Fields SurveyContext :=
  SurveyContext.mk <$> .optional "mode" Argument.reader
    <*> .optional "previousResponses" (.list Expression.reader)
    <*> .optional "participantFlags" Expression.reader

end SurveyContext

namespace PageLimits

/-- The JSON form of page limits. -/
def toJson (p : PageLimits) : Json :=
  .record [.required "large" (.int p.large), .required "small" (.int p.small)]

/-- The fields of page limits. -/
def fields : Fields PageLimits :=
  PageLimits.mk <$> .required "large" .nat32 <*> .required "small" .nat32

end PageLimits

namespace Audience

/-- The names of audiences. -/
def names : List (String × Audience) :=
  [("public", .everyone), ("temporary_participants", .temporaryParticipants),
    ("active_participants", .activeParticipants),
    ("participants_if_assigned", .assignedParticipants)]

/-- The name of an audience. -/
def name : Audience → String
  | .everyone => "public"
  | .temporaryParticipants => "temporary_participants"
  | .activeParticipants => "active_participants"
  | .assignedParticipants => "participants_if_assigned"

/-- The JSON form of an audience. -/
def toJson (a : Audience) : Json := .string a.name

/-- The reader of audiences. -/
def reader : Reader Audience := .choice names

end Audience

namespace Survey

/-- The JSON form of a survey. -/
def toJson (s : Survey) : Json :=
  .record [
    .required "props" s.texts.toJson,
    .required "surveyDefinition" s.root.toJson,
    .required "versionId" (.string s.versionId),
    .optional "contextRules" SurveyContext.toJson s.contextRules,
    .optional "prefillRules" (.list Expression.toJson) s.prefillRules,
    .optional "maxItemsPerPage" PageLimits.toJson s.pageLimits,
    .optional "availableFor" Audience.toJson s.availableFor,
    .optional "requireLoginBeforeSubmission" .bool s.requiresLogin,
    .optional "metadata" Json.texts s.metadata]

/-- The fields of a survey. -/
def fields : Fields Survey :=
  Survey.mk <$> .withDefault "props" SurveyTexts.fields.reader {}
    <*> .required "surveyDefinition" Group.fields.reader
    <*> .withDefault "versionId" .string ""
    <*> .optional "contextRules" SurveyContext.fields.reader
    <*> .optional "prefillRules" (.list Expression.reader)
    <*> .optional "maxItemsPerPage" PageLimits.fields.reader
    <*> .optional "availableFor" Audience.reader
    <*> .optional "requireLoginBeforeSubmission" .bool
    <*> .optional "metadata" (.dict .string)

/-- The reader of surveys. -/
def reader : Reader Survey := fields.reader

end Survey

end Questionnaire
