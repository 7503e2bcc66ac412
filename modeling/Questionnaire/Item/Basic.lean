import Questionnaire.Component.Basic

/-!
# Survey items

A survey is a tree of items.  A group holds items in order; a single item is a question, a text
or a page break and holds components.  The key of an item names it within the whole survey.
-/

namespace Questionnaire

/-- What happens when a validation rule fails: a warning, or no submission. -/
inductive Severity where
  | soft
  | hard
  deriving DecidableEq, Repr

/-- A rule that the response to an item must meet. -/
structure Validation where
  key : String
  severity : Severity
  rule : Expression

/-- How confidential responses are kept: beside the regular response or in its place. -/
inductive ConfidentialMode where
  | add
  | replace
  deriving DecidableEq, Repr

/-- What groups and single items have in common. -/
@[ext] structure Item.Head where
  key : Key
  metadata : Option (Dict String) := none
  follows : Option (List Key) := none
  condition : Option Expression := none
  priority : Option Double := none

/-- A single item. -/
@[ext] structure SingleItem where
  head : Item.Head
  itemType : Option String := none
  components : Option Component := none
  validations : Option (List Validation) := none
  confidentialMode : Option ConfidentialMode := none

mutual

/-- A group of items. -/
@[ext] structure Group where
  head : Item.Head
  selectionMethod : Option Expression
  items : List Item

/-- An item of a survey. -/
inductive Item where
  | group (g : Group)
  | single (s : SingleItem)

end

namespace Item.Head

/-- The head with each of its expressions replaced. -/
def mapExpressions (f : Expression → Expression) (h : Head) : Head :=
  { h with condition := h.condition.map f }

/-- The head with each of the keys it follows replaced. -/
def mapFollows (f : Key → Key) (h : Head) : Head :=
  { h with follows := h.follows.map (·.map f) }

/-- The newer head, with what it leaves unset taken from the older one. -/
def merge (older newer : Head) : Head where
  key := newer.key
  metadata := newer.metadata.or older.metadata
  follows := newer.follows.or older.follows
  condition := newer.condition.or older.condition
  priority := newer.priority.or older.priority

end Item.Head

namespace SingleItem

/-- The expressions of a single item. -/
def expressions (s : SingleItem) : List Expression :=
  s.head.condition.toList ++ (s.validations.getD []).map (·.rule)
    ++ (s.components.map Component.expressions).getD []

/-- The item with each of its expressions replaced. -/
def mapExpressions (f : Expression → Expression) (s : SingleItem) : SingleItem :=
  { s with
    head := s.head.mapExpressions f
    components := s.components.map (Component.mapExpressions f)
    validations := s.validations.map (·.map fun v => { v with rule := f v.rule }) }

/-- The newer item, with what it leaves unset taken from the older one. -/
def merge (older newer : SingleItem) : SingleItem where
  head := older.head.merge newer.head
  itemType := newer.itemType.or older.itemType
  components := newer.components.or older.components
  validations := newer.validations.or older.validations
  confidentialMode := newer.confidentialMode.or older.confidentialMode

end SingleItem

namespace Group

/-- The key of a group. -/
def key (g : Group) : Key := g.head.key

/-- A group without items. -/
def empty (key : Key) : Group := { head := { key }, selectionMethod := none, items := [] }

/-- The expressions of a group, without those of its items. -/
def expressions (g : Group) : List Expression :=
  g.head.condition.toList ++ g.selectionMethod.toList

/-- The newer group, with what it leaves unset taken from the older one; its items are those of
the newer. -/
def merge (older newer : Group) : Group where
  head := older.head.merge newer.head
  selectionMethod := newer.selectionMethod.or older.selectionMethod
  items := newer.items

end Group

namespace Item

/-- The head of an item. -/
def head : Item → Head
  | .group g => g.head
  | .single s => s.head

/-- The key of an item. -/
def key (x : Item) : Key := x.head.key

/-- Whether an item is a group. -/
def isGroup : Item → Bool
  | .group _ => true
  | .single _ => false

/-- The items of a group; a single item has none. -/
def children : Item → List Item
  | .group g => g.items
  | .single _ => []

/-- The item with another head. -/
def mapHead (f : Head → Head) : Item → Item
  | .group g => .group { g with head := f g.head }
  | .single s => .single { s with head := f s.head }

/-- The item without the items in it. -/
def withoutChildren : Item → Item
  | .group g => .group { g with items := [] }
  | .single s => .single s

/-- The expressions of an item, without those of the items in it. -/
def expressions : Item → List Expression
  | .group g => g.expressions
  | .single s => s.expressions

/-- The newer item, with what it leaves unset taken from the older one if both are of one kind.
The items in a group are those of the newer. -/
def merge : Item → Item → Item
  | .group older, .group newer => .group (older.merge newer)
  | .single older, .single newer => .single (older.merge newer)
  | _, newer => newer

/-- The page break with the given local name. -/
def pageBreak (parent : Key) (name : String) : Item :=
  .single { head := { key := Key.child parent name }, itemType := some "pageBreak" }

instance : Inhabited Item := ⟨.single { head := { key := "" } }⟩

end Item

end Questionnaire
