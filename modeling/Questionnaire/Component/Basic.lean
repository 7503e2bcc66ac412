import Questionnaire.Collection
import Questionnaire.Key
import Questionnaire.Text.Localized

/-!
# Components

An item of a survey shows components: titles, texts, response fields.  A component that holds
other components is a group, even if it holds none at the moment; its children are addressed by
their keys.
-/

namespace Questionnaire

/-- A hint on the style of a component. -/
structure StyleEntry where
  key : String
  value : String
  deriving DecidableEq, Repr

namespace StyleEntry

/-- The style that names a class. -/
def className (name : String) : StyleEntry := ⟨"className", name⟩

end StyleEntry

/-- What a component says of itself. -/
structure Component.Head where
  role : String
  key : Option Key := none
  content : Option (List LocalizedText) := none
  description : Option (List LocalizedText) := none
  displayCondition : Option Expression := none
  disabled : Option Expression := none
  style : Option (List StyleEntry) := none
  properties : Option (Dict Json) := none
  dataType : Option String := none
  order : Option Expression := none

/-- A component; it is a group if its items are set. -/
structure Component where
  head : Component.Head
  items : Option (List Component) := none

namespace Component

/-- A component that is no group. -/
def leaf (role : String) (key : Option Key) : Component := { head := { role, key } }

/-- A group without children. -/
def group (role : String) (key : Option Key) : Component :=
  { head := { role, key }, items := some [] }

/-- The role of a component. -/
def role (c : Component) : String := c.head.role

/-- The key of a component. -/
def key? (c : Component) : Option Key := c.head.key

/-- Whether a component is a group. -/
def isGroup (c : Component) : Bool := c.items.isSome

/-- The children of a component. -/
def children (c : Component) : List Component := c.items.getD []

/-- The name under which a component is reported: its key, or else its role. -/
def label (c : Component) : String := c.head.key.getD c.head.role

/-- The first child with the given key. -/
def child? (c : Component) (key : Key) : Option Component :=
  c.children.find? fun d => d.key? == some key

/-- The component with the first child of the given key replaced by its image. -/
def modifyChild (key : Key) (f : Component → Component) (c : Component) : Component :=
  { c with items := c.items.map (modifyFirst (fun d => d.key? == some key) f) }

namespace Head

/-- The expressions of a component, without those of its children: its conditions and its order
before those in its texts. -/
def expressions (h : Head) : List Expression :=
  h.displayCondition.toList ++ h.disabled.toList ++ h.order.toList
    ++ (h.content.getD []).flatMap LocalizedText.expressions
    ++ (h.description.getD []).flatMap LocalizedText.expressions

/-- The head with each of its expressions replaced. -/
def mapExpressions (f : Expression → Expression) (h : Head) : Head :=
  { h with
    displayCondition := h.displayCondition.map f
    disabled := h.disabled.map f
    order := h.order.map f
    content := h.content.map (·.map (LocalizedText.mapExpressions f))
    description := h.description.map (·.map (LocalizedText.mapExpressions f)) }

end Head

mutual

/-- The expressions of a component and of the components inside it. -/
def expressions : Component → List Expression
  | ⟨head, none⟩ => head.expressions
  | ⟨head, some items⟩ => head.expressions ++ expressionsOf items

/-- The expressions of some components. -/
def expressionsOf : List Component → List Expression
  | [] => []
  | c :: rest => c.expressions ++ expressionsOf rest

end

mutual

/-- The component with the expressions in it replaced. -/
def mapExpressions (f : Expression → Expression) : Component → Component
  | ⟨head, none⟩ => ⟨head.mapExpressions f, none⟩
  | ⟨head, some items⟩ => ⟨head.mapExpressions f, some (mapExpressionsOf f items)⟩

/-- The components with the expressions in them replaced. -/
def mapExpressionsOf (f : Expression → Expression) : List Component → List Component
  | [] => []
  | c :: rest => c.mapExpressions f :: mapExpressionsOf f rest

end

end Component

end Questionnaire
