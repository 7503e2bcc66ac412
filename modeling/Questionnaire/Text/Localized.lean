import Questionnaire.Expression.Format

/-!
# Localized texts

A localized text is the text for one language.  It consists of parts, each of which is a plain
text or an expression whose value is shown.  A list of localized texts holds a text for each of
several languages.
-/

namespace Questionnaire

/-- The text for the language `code`. -/
structure LocalizedText where
  code : String
  parts : List Argument
  resolvedText : Option String := none

/-- Plain texts by their language codes. -/
abbrev PlainTexts := Dict String

namespace LocalizedText

/-- The plain text `text` for a language. -/
def plain (code text : String) : LocalizedText := { code, parts := [.text text] }

/-- The text for a language that shows the value of an expression. -/
def ofExpression (code : String) (e : Expression) : LocalizedText :=
  { code, parts := [.expression e] }

/-- A plain text for each of some languages. -/
def ofPairs (pairs : List (String × String)) : List LocalizedText :=
  pairs.map fun p => plain p.1 p.2

/-- The expressions among the parts of a text. -/
def expressions (t : LocalizedText) : List Expression :=
  t.parts.filterMap Argument.expression?

/-- The text with each of its expressions replaced. -/
def mapExpressions (f : Expression → Expression) (t : LocalizedText) : LocalizedText :=
  { t with parts := t.parts.map (Argument.mapExpression f) }

/-- The JSON form of a localized text. -/
def toJson (t : LocalizedText) : Json :=
  .record [
    .required "code" (.string t.code),
    .required "parts" (.list Argument.toJson t.parts),
    .optional "resolvedText" .string t.resolvedText]

/-- The fields of a localized text. -/
def fields : Fields LocalizedText :=
  LocalizedText.mk <$> .required "code" .string <*> .required "parts" (.list Argument.reader)
    <*> .optional "resolvedText" .string

/-- The reader of localized texts. -/
def reader : Reader LocalizedText := fields.reader

end LocalizedText

end Questionnaire
