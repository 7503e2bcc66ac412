import Questionnaire.Files.Basic
import Questionnaire.Json.Printer
import Questionnaire.Study.Bundle

/-!
# Export plans

Before a study is written, all its documents are made.  A plan lists them as files, with the
directories that they need, under paths relative to the root of the output.  If a survey cannot be
built, there is no plan.
-/

namespace Questionnaire

/-- How a study is written. -/
structure ExportOptions where
  /-- The root of the output; by default it is named for the study. -/
  root : Option Path := none
  pretty : Bool := false

/-- A file of a plan. -/
structure PlannedFile where
  path : Path
  contents : String
  deriving DecidableEq, Repr

/-- What is written for a study. -/
structure ExportPlan where
  root : Path
  directories : List Path
  files : List PlannedFile
  deriving DecidableEq, Repr

/-- The directory that a study is written to by default. -/
def Study.defaultRoot (s : Study) : Path :=
  Path.join (Path.join "." "output") s.outputName

namespace ExportOptions

/-- The style of the documents. -/
def style (o : ExportOptions) : Json.Style := if o.pretty then .pretty else .compact

/-- The file of a document in a directory. -/
def file (o : ExportOptions) (directory : Path) (name : String) (document : Json) : PlannedFile :=
  ⟨Path.join directory name, document.toText o.style⟩

end ExportOptions

namespace Study

/-- The file of a survey that is written under a key. -/
def surveyFile (o : ExportOptions) (key : Key) (s : Survey) : PlannedFile :=
  o.file "surveys" (key ++ ".json") s.toJson

/-- The files of the surveys. -/
def surveyFiles (o : ExportOptions) : List SurveyDefinition → Except BuildError (List PlannedFile)
  | [] => .ok []
  | definition :: rest => do
    let file := surveyFile o definition.key (← definition.survey)
    return file :: (← surveyFiles o rest)

/-- The file of the rules, if there are any. -/
def ruleFiles (o : ExportOptions) (s : Study) : List PlannedFile :=
  s.rules.toList.map fun rules =>
    ⟨"studyRules.json", (Json.list Expression.toJson rules.compose).toText o.style⟩

/-- The files of the custom rules. -/
def customRuleFiles (o : ExportOptions) (s : Study) : List PlannedFile :=
  s.customRules.map fun rule =>
    o.file "customRules" (rule.name ++ ".json") (.list Expression.toJson rule.rules)

/-- The files of the messages. -/
def messageFiles (o : ExportOptions) (s : Study) : List PlannedFile :=
  s.messages.map fun message =>
    o.file "messageConfigs" (MessageConfig.fileName message.label) (message.template s.key).toJson

/-- The directories of the files; those that would stay empty are left out, but for that of the
surveys. -/
def directories (s : Study) : List Path :=
  "surveys" :: (if s.customRules.isEmpty then [] else ["customRules"])
    ++ (if s.messages.isEmpty then [] else ["messageConfigs"])

/-- The plan of a study. -/
def plan (s : Study) (o : ExportOptions) : Except BuildError ExportPlan := do
  let surveys ← surveyFiles o s.surveys
  return {
    root := o.root.getD s.defaultRoot
    directories := s.directories
    files := surveys ++ s.ruleFiles o ++ s.customRuleFiles o ++ s.messageFiles o }

end Study

end Questionnaire
