import Questionnaire.Component.Basic

/-!
# The JSON form of components

A component is a record in which only its role is required.  The values of its properties are
arbitrary JSON.
-/

namespace Questionnaire

namespace StyleEntry

/-- The JSON form of a style entry. -/
def toJson (s : StyleEntry) : Json :=
  .record [.required "key" (.string s.key), .required "value" (.string s.value)]

/-- The fields of a style entry. -/
def fields : Fields StyleEntry :=
  StyleEntry.mk <$> .required "key" .string <*> .required "value" .string

end StyleEntry

namespace Component

/-- The members of a component in front of its items. -/
def Head.membersBefore (h : Head) : List Json.Member :=
  [.required "role" (.string h.role),
    .optional "key" .string h.key,
    .optional "content" (.list LocalizedText.toJson) h.content,
    .optional "description" (.list LocalizedText.toJson) h.description,
    .optional "displayCondition" Expression.toJson h.displayCondition,
    .optional "disabled" Expression.toJson h.disabled,
    .optional "style" (.list StyleEntry.toJson) h.style,
    .optional "properties" (.dict id) h.properties,
    .optional "dtype" .string h.dataType]

/-- The member of a component behind its items. -/
def Head.membersBehind (h : Head) : List Json.Member :=
  [.optional "order" Expression.toJson h.order]

mutual

/-- The JSON form of a component. -/
def toJson : Component → Json
  | ⟨head, none⟩ => .record (head.membersBefore ++ head.membersBehind)
  | ⟨head, some items⟩ =>
    .record (head.membersBefore ++ .required "items" (.array (toJsonAll items))
      :: head.membersBehind)

/-- The JSON forms of some components. -/
def toJsonAll : List Component → List Json
  | [] => []
  | c :: rest => c.toJson :: toJsonAll rest

end

/-- The component of its fields in the order of their declaration. -/
def ofFields (role : String) (key : Option Key) (content description : Option (List LocalizedText))
    (displayCondition disabled : Option Expression) (style : Option (List StyleEntry))
    (properties : Option (Dict Json)) (dataType : Option String) (items : Option (List Component))
    (order : Option Expression) : Component :=
  ⟨⟨role, key, content, description, displayCondition, disabled, style, properties, dataType,
    order⟩, items⟩

/-- The fields of a component whose items are read by `inner`. -/
def fieldsWith (inner : Reader Component) : Fields Component :=
  ofFields <$> .required "role" .string <*> .optional "key" .string
    <*> .optional "content" (.list LocalizedText.reader)
    <*> .optional "description" (.list LocalizedText.reader)
    <*> .optional "displayCondition" Expression.reader
    <*> .optional "disabled" Expression.reader
    <*> .optional "style" (.list StyleEntry.fields.reader)
    <*> .optional "properties" (.dict Outline.json)
    <*> .optional "dtype" .string
    <*> .optional "items" (.list inner)
    <*> .optional "order" Expression.reader

/-- The reader of components. -/
def reader : Reader Component :=
  .fix fun inner => (fieldsWith inner).reader

/-- The fields of a component. -/
def fields : Fields Component := fieldsWith reader

end Component

end Questionnaire
