import Questionnaire.Json.Record
import Questionnaire.Text.Base64
import Questionnaire.Text.Lowercase

/-!
# Messages

A message is written with a text for each of several languages.  The messaging service takes it as
a template document, which names the study and holds the bodies in Base64.
-/

namespace Questionnaire

/-- What a message says about its sender in place of what is usual. -/
structure HeaderOverrides where
  author : Option String := none
  sender : Option String := none
  replyTo : Option (List String) := none
  noReplyTo : Option Bool := none
  deriving DecidableEq, Repr

/-- The subject and the body of a message in one language. -/
structure MessageText where
  language : String
  subject : String
  body : String
  deriving DecidableEq, Repr

/-- A message as it is written. -/
structure MessageConfig where
  label : String
  messageType : String
  defaultLanguage : String
  headerOverrides : Option HeaderOverrides := none
  texts : List MessageText
  deriving DecidableEq, Repr

/-- A message as the messaging service reads it; the bodies of its texts are in Base64. -/
structure MessageTemplate where
  messageType : String
  studyKey : String
  defaultLanguage : String
  headerOverrides : Option HeaderOverrides := none
  texts : List MessageText
  deriving DecidableEq, Repr

namespace HeaderOverrides

/-- The JSON form of header overrides. -/
def toJson (h : HeaderOverrides) : Json :=
  .record [
    .optional "from" .string h.author,
    .optional "sender" .string h.sender,
    .optional "replyTo" (.list .string) h.replyTo,
    .optional "noReplyTo" .bool h.noReplyTo]

/-- The fields of header overrides. -/
def fields : Fields HeaderOverrides :=
  HeaderOverrides.mk <$> .optional "from" .string <*> .optional "sender" .string
    <*> .optional "replyTo" (.list .string)
    <*> .optional "noReplyTo" .bool

end HeaderOverrides

namespace MessageText

/-- The JSON form of a text, with its body under the name `bodyName`. -/
def toJsonAs (bodyName : String) (t : MessageText) : Json :=
  .record [
    .required "lang" (.string t.language),
    .required "subject" (.string t.subject),
    .required bodyName (.string t.body)]

/-- The fields of a text, with its body under the name `bodyName`. -/
def fieldsAs (bodyName : String) : Fields MessageText :=
  MessageText.mk <$> .required "lang" .string <*> .required "subject" .string
    <*> .required bodyName .string

/-- The fields of a text as it is written. -/
def fields : Fields MessageText := fieldsAs "template"

/-- The text with its body in Base64. -/
def encode (t : MessageText) : MessageText :=
  { t with body := Base64.encode t.body }

end MessageText

namespace MessageConfig

/-- The JSON form of a message. -/
def toJson (m : MessageConfig) : Json :=
  .record [
    .required "label" (.string m.label),
    .required "messageType" (.string m.messageType),
    .required "defaultLanguage" (.string m.defaultLanguage),
    .optional "headerOverrides" HeaderOverrides.toJson m.headerOverrides,
    .required "translations" (.list (MessageText.toJsonAs "template") m.texts)]

/-- The fields of a message. -/
def fields : Fields MessageConfig :=
  MessageConfig.mk <$> .required "label" .string <*> .required "messageType" .string
    <*> .required "defaultLanguage" .string
    <*> .optional "headerOverrides" HeaderOverrides.fields.reader
    <*> .required "translations" (.list MessageText.fields.reader)

/-- The template document of a message of a study. -/
def template (m : MessageConfig) (studyKey : String) : MessageTemplate where
  messageType := m.messageType
  studyKey := studyKey
  defaultLanguage := m.defaultLanguage
  headerOverrides := m.headerOverrides
  texts := m.texts.map MessageText.encode

/-- The name of the file of the message with a label: the label in lower case, with underscores for
spaces. -/
def fileName (label : String) : String :=
  let words := label.toList.map fun c => if c = ' ' then '_' else c
  Text.lowercase (String.ofList words) ++ ".json"

end MessageConfig

namespace MessageTemplate

/-- The JSON form of a template document. -/
def toJson (m : MessageTemplate) : Json :=
  .record [
    .required "messageType" (.string m.messageType),
    .required "studyKey" (.string m.studyKey),
    .required "defaultLanguage" (.string m.defaultLanguage),
    .optional "headerOverrides" HeaderOverrides.toJson m.headerOverrides,
    .required "translations" (.list (MessageText.toJsonAs "templateDef") m.texts)]

/-- The fields of a template document. -/
def fields : Fields MessageTemplate :=
  MessageTemplate.mk <$> .required "messageType" .string <*> .required "studyKey" .string
    <*> .required "defaultLanguage" .string
    <*> .optional "headerOverrides" HeaderOverrides.fields.reader
    <*> .required "translations" (.list (MessageText.fieldsAs "templateDef").reader)

end MessageTemplate

end Questionnaire
