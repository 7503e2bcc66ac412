import Questionnaire.CommandLine.Arguments
import Questionnaire.Json.Printer
import Questionnaire.Study.Bundle

/-!
# Schemas

The schema of a document names the fields of its type and of the types inside it, and says which of
the fields must be present.  Types that are no records, choices between names or between shapes,
are named without fields.
-/

namespace Questionnaire

/-- The names of the fields of a type and of those that must be present, each in order. -/
structure Shape where
  properties : List String := []
  required : List String := []
  deriving DecidableEq, Repr

/-- The schema of a document: its type, and the other types in it by their names. -/
structure Schema where
  title : String
  root : Shape
  types : List (String × Shape)
  deriving DecidableEq, Repr

/-- Names in order. -/
def sortedNames (names : List String) : List String :=
  (Dict.ofPairs (names.map fun name => (name, ()))).map (·.1)

/-- The shape of a record. -/
def Fields.shape {α : Type} (f : Fields α) : Shape where
  properties := sortedNames (f.names.map (·.1))
  required := sortedNames ((f.names.filter (·.2)).map (·.1))

namespace Schema

/-- The types of expressions. -/
def expressionTypes : List (String × Shape) :=
  [("Expression", Expression.fields.shape),
    ("ExpressionArg", {}),
    ("ReturnType", {})]

/-- The types of surveys. -/
def surveyTypes : List (String × Shape) :=
  expressionTypes ++ [
    ("LocalizedString", LocalizedText.fields.shape),
    ("StyleEntry", StyleEntry.fields.shape),
    ("ItemComponent", Component.fields.shape),
    ("ValidationKind", {}),
    ("Validation", Validation.fields.shape),
    ("ConfidentialMode", {}),
    ("SurveyGroupItem", Group.fields.shape),
    ("SurveySingleItem", SingleItem.fields.shape),
    ("SurveyItem", {}),
    ("SurveyProps", SurveyTexts.fields.shape),
    ("SurveyContextDef", SurveyContext.fields.shape),
    ("MaxItemsPerPage", PageLimits.fields.shape),
    ("SurveyAvailableFor", {}),
    ("Survey", Survey.fields.shape)]

/-- The types of study rules. -/
def ruleTypes : List (String × Shape) :=
  expressionTypes ++ [("StudyRules", StudyRules.fields.shape)]

/-- The types of bundles. -/
def bundleTypes : List (String × Shape) :=
  surveyTypes ++ [
    ("StudyRules", StudyRules.fields.shape),
    ("CustomStudyRule", CustomRule.fields.shape),
    ("HeaderOverrides", HeaderOverrides.fields.shape),
    ("MessageTranslation", MessageText.fields.shape),
    ("MessageConfig", MessageConfig.fields.shape),
    ("StudyBundle", Bundle.fields.shape)]

/-- The schema of the type `title` among some types. -/
def ofTypes (title : String) (types : List (String × Shape)) : Schema where
  title := title
  root := (types.lookup title).getD {}
  types := types.filter (·.1 ≠ title)

/-- The schema of a kind of document. -/
def ofKind : SchemaKind → Schema
  | .survey => ofTypes "Survey" surveyTypes
  | .expression => ofTypes "Expression" expressionTypes
  | .studyRules => ofTypes "StudyRules" ruleTypes
  | .studyBundle => ofTypes "StudyBundle" bundleTypes

/-- A reference to a type. -/
def reference (name : String) : Json := .object [("$ref", .string ("#/$defs/" ++ name))]

/-- The shape of an argument with a tag: the value stands under the name of the tag. -/
def taggedShape (tag : String) (value : Json) (required : List String) : Json :=
  .object [
    ("type", .string "object"),
    ("properties", .object [("dtype", .object [("const", .string tag)]), (tag, value)]),
    ("required", .list .string required)]

/-- The shapes of arguments; the tag of a text may be left out. -/
def argumentShapes : List Json :=
  [taggedShape "str" (.object [("type", .string "string")]) ["str"],
    taggedShape "num" (.object [("type", .string "number")]) ["dtype", "num"],
    taggedShape "exp" (reference "Expression") ["dtype", "exp"]]

/-- The members of the JSON form of a shape. -/
def shapeMembers (s : Shape) : List Json.Member :=
  [.required "type" (.string "object"),
    .required "properties" (.object (s.properties.map fun name => (name, .object []))),
    .required "required" (.list .string s.required)]

/-- The JSON form of a schema. -/
def toJson (s : Schema) : Json :=
  let definitions := s.types.map fun p =>
    (p.1, if p.1 = "ExpressionArg" then .object [("oneOf", .array argumentShapes)]
      else .record (shapeMembers p.2))
  .record (.required "title" (.string s.title) :: shapeMembers s.root
    ++ [.required "$defs" (.object definitions)])

end Schema

end Questionnaire
