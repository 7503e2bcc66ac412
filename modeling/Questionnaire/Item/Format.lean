import Questionnaire.Component.Format
import Questionnaire.Item.Basic

/-!
# The JSON form of items

Groups and single items are records with different fields; a group is the one that has `items`.
What is read as an item must first be JSON as a whole.  It is then a group if it reads as one, and
otherwise a single item; if it reads as neither, nothing is said of the reason.
-/

namespace Questionnaire

/-- The JSON form of texts by name. -/
def Json.texts (d : Dict String) : Json := .dict .string d

namespace Severity

/-- The names of severities. -/
def names : List (String × Severity) := [("soft", .soft), ("hard", .hard)]

/-- The name of a severity. -/
def name : Severity → String
  | .soft => "soft"
  | .hard => "hard"

/-- The JSON form of a severity. -/
def toJson (s : Severity) : Json := .string s.name

/-- The reader of severities. -/
def reader : Reader Severity := .choice names

end Severity

namespace ConfidentialMode

/-- The names of the modes. -/
def names : List (String × ConfidentialMode) := [("add", .add), ("replace", .replace)]

/-- The name of a mode. -/
def name : ConfidentialMode → String
  | .add => "add"
  | .replace => "replace"

/-- The JSON form of a mode. -/
def toJson (m : ConfidentialMode) : Json := .string m.name

/-- The reader of modes. -/
def reader : Reader ConfidentialMode := .choice names

end ConfidentialMode

namespace Validation

/-- The JSON form of a validation. -/
def toJson (v : Validation) : Json :=
  .record [
    .required "key" (.string v.key),
    .required "type" v.severity.toJson,
    .required "rule" v.rule.toJson]

/-- The fields of a validation. -/
def fields : Fields Validation :=
  Validation.mk <$> .required "key" .string <*> .required "type" Severity.reader
    <*> .required "rule" Expression.reader

end Validation

namespace Item.Head

/-- The members of a head. -/
def members (h : Head) : List Json.Member :=
  [.required "key" (.string h.key),
    .optional "metadata" Json.texts h.metadata,
    .optional "follows" (.list .string) h.follows,
    .optional "condition" Expression.toJson h.condition,
    .optional "priority" Json.double h.priority]

/-- The fields of a head. -/
def fields : Fields Head :=
  Head.mk <$> .required "key" .string <*> .optional "metadata" (.dict .string)
    <*> .optional "follows" (.list .string)
    <*> .optional "condition" Expression.reader
    <*> .optional "priority" .double

end Item.Head

namespace SingleItem

/-- The JSON form of a single item. -/
def toJson (s : SingleItem) : Json :=
  .record (s.head.members ++ [
    .optional "type" .string s.itemType,
    .optional "components" Component.toJson s.components,
    .optional "validations" (.list Validation.toJson) s.validations,
    .optional "confidentialMode" ConfidentialMode.toJson s.confidentialMode])

/-- The fields of a single item. -/
def fields : Fields SingleItem :=
  SingleItem.mk <$> Item.Head.fields <*> .optional "type" .string
    <*> .optional "components" Component.reader
    <*> .optional "validations" (.list Validation.fields.reader)
    <*> .optional "confidentialMode" ConfidentialMode.reader

end SingleItem

mutual

/-- The JSON form of a group. -/
def Group.toJson : Group → Json
  | ⟨head, selectionMethod, items⟩ =>
    .record (head.members ++ [
      .optional "selectionMethod" Expression.toJson selectionMethod,
      .required "items" (.array (Item.toJsonAll items))])

/-- The JSON form of an item. -/
def Item.toJson : Item → Json
  | .group g => g.toJson
  | .single s => s.toJson

/-- The JSON forms of some items. -/
def Item.toJsonAll : List Item → List Json
  | [] => []
  | x :: rest => x.toJson :: Item.toJsonAll rest

end

/-- The fields of a group whose items are read by `inner`. -/
def Group.fieldsWith (inner : Reader Item) : Fields Group :=
  Group.mk <$> Item.Head.fields <*> .optional "selectionMethod" Expression.reader
    <*> .required "items" (.list inner)

/-- The reader of items that holds items read by `inner`. -/
def Item.readerWith (inner : Reader Item) : Reader Item := fun depth o => do
  let _ ← Outline.json depth o
  match (Group.fieldsWith inner).reader depth o with
  | .ok g => return .group g
  | .error _ =>
    match SingleItem.fields.reader depth o with
    | .ok s => return .single s
    | .error _ => .error (.misfit .noItem)

/-- The reader of items. -/
def Item.reader : Reader Item := .fix Item.readerWith

/-- The fields of a group. -/
def Group.fields : Fields Group := Group.fieldsWith Item.reader

end Questionnaire
