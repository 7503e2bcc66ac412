import Questionnaire.Study.Message
import Questionnaire.Study.Rules
import Questionnaire.Study.Scaffold
import Questionnaire.Survey.Format

/-!
# Studies

A study has surveys, rules and messages.  Anything that has a key and builds a survey can give it
one, such as a finished document or a scaffold; a study whose surveys are all documents is a bundle
and is kept in one file.
-/

namespace Questionnaire

/-- What gives a study one of its surveys: the key under which the survey is written, and the
survey, or why it cannot be built. -/
structure SurveyDefinition where
  key : Key
  survey : Except BuildError Survey

/-- A finished document as a survey of a study. -/
def Survey.definition (s : Survey) : SurveyDefinition := ⟨s.key, s.checked⟩

/-- A scaffold as a survey of a study. -/
def Scaffold.definition (s : Scaffold) : SurveyDefinition := ⟨s.key, s.finish⟩

/-- A study. -/
structure Study where
  key : String
  folderName : Option String := none
  surveys : List SurveyDefinition := []
  rules : Option StudyRules := none
  customRules : List CustomRule := []
  messages : List MessageConfig := []

/-- The name of the folder that a study is written to. -/
def Study.outputName (s : Study) : String := s.folderName.getD s.key

/-- A study whose surveys are documents. -/
structure Bundle where
  key : String
  folderName : Option String := none
  surveys : List Survey := []
  rules : Option StudyRules := none
  customRules : List CustomRule := []
  messages : List MessageConfig := []

namespace Bundle

/-- The study of a bundle. -/
def toStudy (b : Bundle) : Study :=
  { b with surveys := b.surveys.map Survey.definition }

/-- The JSON form of a bundle. -/
def toJson (b : Bundle) : Json :=
  .record [
    .required "studyKey" (.string b.key),
    .optional "outputFolderName" .string b.folderName,
    .required "surveys" (.list Survey.toJson b.surveys),
    .optional "studyRules" StudyRules.toJson b.rules,
    .required "customStudyRules" (.list CustomRule.toJson b.customRules),
    .required "messageConfigs" (.list MessageConfig.toJson b.messages)]

/-- The fields of a bundle. -/
def fields : Fields Bundle :=
  Bundle.mk <$> .required "studyKey" .string <*> .optional "outputFolderName" .string
    <*> .withDefault "surveys" (.list Survey.reader) []
    <*> .optional "studyRules" StudyRules.fields.reader
    <*> .withDefault "customStudyRules" (.list CustomRule.fields.reader) []
    <*> .withDefault "messageConfigs" (.list MessageConfig.fields.reader) []

/-- The reader of bundles. -/
def reader : Reader Bundle := fields.reader

end Bundle

end Questionnaire
