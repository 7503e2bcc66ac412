import Questionnaire.Component.Edit
import Questionnaire.Item.Basic

/-!
# Editing an item

An item is edited without regard to other items.  What an edit has changed before it fails stays
changed: adding a component to a single item that has none gives it the root component first.
What only one kind of item has is left alone in the other.
-/

namespace Questionnaire

/-- What a new item is: a group, or a single item of some type. -/
structure Item.Kind where
  isGroup : Bool
  itemType : Option String := none

/-- The root component of a new single item, a group whose children come in order. -/
def Component.root : Component :=
  { head := { role := "root", order := some (.named "sequential") }, items := some [] }

namespace Item

/-- The new item of a key: a group whose items come in order, or a single item with its root
component. -/
def create (kind : Kind) (key : Key) : Item :=
  if kind.isGroup then
    .group { head := { key }, selectionMethod := some (.named "sequential"), items := [] }
  else .single { head := { key }, itemType := kind.itemType, components := some .root }

/-! ## Assignments -/

/-- The single item changed; a group stays as it is. -/
def mapSingle (f : SingleItem → SingleItem) : Item → Item
  | .single s => .single (f s)
  | .group g => .group g

/-- The group changed; a single item stays as it is. -/
def mapGroup (f : Group → Group) : Item → Item
  | .single s => .single s
  | .group g => .group (f g)

/-- The item with the given metadata. -/
def setMetadata (metadata : Option (Dict String)) : Item → Item :=
  mapHead fun h => { h with metadata }

/-- The item with the given condition. -/
def setCondition (condition : Option Expression) : Item → Item :=
  mapHead fun h => { h with condition }

/-- The item that follows the given ones. -/
def setFollows (follows : Option (List Key)) : Item → Item :=
  mapHead fun h => { h with follows }

/-- The item with the given priority. -/
def setPriority (priority : Option Double) : Item → Item :=
  mapHead fun h => { h with priority }

/-- The single item with the given confidential mode. -/
def setConfidentialMode (confidentialMode : Option ConfidentialMode) : Item → Item :=
  mapSingle fun s => { s with confidentialMode }

/-- The group with the given selection method. -/
def setSelectionMethod (selectionMethod : Option Expression) : Item → Item :=
  mapGroup fun g => { g with selectionMethod }

/-- The single item with one validation more. -/
def addValidation (v : Validation) : Item → Item :=
  mapSingle fun s => { s with validations := some (s.validations.getD [] ++ [v]) }

/-! ## Components -/

/-- An edit of an item. -/
abbrev Edit (α : Type) := ExceptT EditError (StateM Item) α

/-- The root component, which is made if a single item has none. -/
def rootComponent : Edit Component := do
  match ← get with
  | .group _ => throw (.componentNotFound "root")
  | .single s =>
    let root := s.components.getD .root
    set (Item.single { s with components := some root })
    return root

/-- Assigns the root component of a single item. -/
def setRootComponent (root : Component) : Edit Unit :=
  modify (mapSingle fun s => { s with components := some root })

/-- Replaces the title, or puts it in front of the other components. -/
def setTitle (title : Component) : Edit Unit := do
  setRootComponent ((← rootComponent).setTitle title)

/-- Adds a component to the root component. -/
def addDisplay (c : Component) (position : Option Nat) : Edit Component := do
  let root ← rootComponent
  setRootComponent (← root.insertChild c position)
  return c

/-- Adds a component to the component at a dotted path below the root component. -/
def addResponse (c : Component) (path : Option Key) (position : Option Nat) :
    Edit Component := do
  let root ← rootComponent
  setRootComponent (← root.insertAtPath c path position)
  return c

/-- Adds a new component to the component at a dotted path below the root component.  Without a
key a response group gets the key of response groups, and any other component the least free
number. -/
def addNewResponse (role : String) (key : Option Key) (isGroup : Bool) (path : Option Key)
    (position : Option Nat) : Edit Component := do
  let group ← (← rootComponent).groupAt path
  let key := key.getD (if role = "responseGroup" then Key.responseGroup else group.freeKey)
  addResponse (.create role (some key) isGroup) path position

/-! ## Requests -/

/-- A call of an item editor. -/
inductive Request where
  | key
  | item
  | setMetadata (metadata : Option (Dict String))
  | setCondition (condition : Option Expression)
  | setFollows (follows : Option (List Key))
  | setPriority (priority : Option Double)
  | setConfidentialMode (confidentialMode : Option ConfidentialMode)
  | setSelectionMethod (selectionMethod : Option Expression)
  | addValidation (v : Validation)
  | setTitle (title : Component)
  | addDisplay (c : Component) (position : Option Nat)
  | addNewResponse (role : String) (key : Option Key) (isGroup : Bool) (path : Option Key)
    (position : Option Nat)
  | addResponse (c : Component) (path : Option Key) (position : Option Nat)

/-- What an item editor answers. -/
inductive Answer where
  | done
  | key (key : Key)
  | item (x : Item)
  | component (c : Component)

/-- The item changed. -/
def assign (f : Item → Item) : Edit Answer := do
  modify f
  return .done

/-- The answer to a request. -/
def respond : Request → Edit Answer
  | .key => return .key (← get).key
  | .item => return .item (← get)
  | .setMetadata metadata => assign (setMetadata metadata)
  | .setCondition condition => assign (setCondition condition)
  | .setFollows follows => assign (setFollows follows)
  | .setPriority priority => assign (setPriority priority)
  | .setConfidentialMode mode => assign (setConfidentialMode mode)
  | .setSelectionMethod method => assign (setSelectionMethod method)
  | .addValidation v => assign (addValidation v)
  | .setTitle title => do
    setTitle title
    return .done
  | .addDisplay c position => .component <$> addDisplay c position
  | .addNewResponse role key isGroup path position =>
    .component <$> addNewResponse role key isGroup path position
  | .addResponse c path position => .component <$> addResponse c path position

/-- The answer to a request, and the item after it. -/
def serve (x : Item) (r : Request) : Except EditError Answer × Item := (respond r).run x

end Item

end Questionnaire
