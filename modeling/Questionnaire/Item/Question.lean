import Questionnaire.Component.Display
import Questionnaire.Engine.Condition
import Questionnaire.Item.Edit

/-!
# Single questions

The usual question: a single item with a title, texts, and one response group.
-/

namespace Questionnaire

namespace Question

/-- A question without a title and a response group. -/
def create (parent : Key) (name : String) (confidentialMode : Option ConfidentialMode)
    (metadata : Option (Dict String)) : Item :=
  ((Item.create { isGroup := false } (Key.child parent name)).setConfidentialMode
    confidentialMode).setMetadata metadata

/-- The validation that asks for a response. -/
def hasResponse (key : Key) : Validation where
  key := "r1"
  severity := .hard
  rule := Condition.hasResponse key Key.responseGroup

/-- The question, with a response asked for. -/
def requireResponse (x : Item) : Item :=
  x.addValidation (hasResponse x.key)

/-- Gives the question a title. -/
def setTitle (content : TitleContent) (description : Option PlainTexts)
    (className : Option String) : Item.Edit Unit :=
  Item.setTitle (.title content description className)

/-- Gives the question its response group, with `content` in it. -/
def setResponseGroup (content : Component) : Item.Edit Component := do
  let _ ← Item.addNewResponse "responseGroup" (some Key.responseGroup) true none none
  Item.addResponse content (some Key.responseGroup) none

/-! ## Requests -/

/-- A call of a question editor. -/
inductive Request where
  | key
  | item
  | setTitle (content : TitleContent) (description : Option PlainTexts) (className : Option String)
  | setCondition (condition : Option Expression)
  | addDisplay (c : Component) (position : Option Nat)
  | requireResponse
  | setResponseGroup (content : Component)

/-- The answer to a request. -/
def respond : Request → Item.Edit Item.Answer
  | .key => return .key (← get).key
  | .item => return .item (← get)
  | .setTitle content description className => do
    setTitle content description className
    return .done
  | .setCondition condition => Item.assign (Item.setCondition condition)
  | .addDisplay c position => .component <$> Item.addDisplay c position
  | .requireResponse => Item.assign requireResponse
  | .setResponseGroup content => .component <$> setResponseGroup content

/-- The answer to a request, and the question after it. -/
def serve (x : Item) (r : Request) : Except EditError Item.Answer × Item := (respond r).run x

end Question

end Questionnaire
