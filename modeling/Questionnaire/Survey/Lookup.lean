import Questionnaire.Edit.Error
import Questionnaire.Survey.Basic

/-!
# Looking items up

An item is looked up from the root along the prefixes of its key: each is the key of an item in
the group before.  The lookup says where it fails: at a single item that the key goes through, or
because an item is missing.
-/

namespace Questionnaire

/-- The item that the keys lead to from an item; each is the key of an item of the group before.
`sought` is the key that is reported as missing. -/
def Item.along (sought : Key) : List Key → Item → Except EditError Item
  | [], x => .ok x
  | _ :: _, .single s => .error (.notAGroup s.head.key)
  | key :: keys, .group g =>
    match g.items.find? fun x => x.key == key with
    | some x => along sought keys x
    | none => .error (.itemNotFound sought)

namespace Survey

/-- The item with the given key, or the root. -/
def locate (s : Survey) (key : Key) : Except EditError Item :=
  if key = s.key then .ok (.group s.root)
  else if Key.isWithin key s.key then
    let below := (Key.prefixes key).filter fun p => s.key.length < p.length
    Item.along key below (.group s.root)
  else .error (.itemNotFound key)

/-- The item with the given key as a parent of others. -/
def locateParent (s : Survey) (key : Key) : Except EditError Item :=
  (s.locate key).mapError fun _ => .parentNotFound key

/-- The group to which items are added, by default the root. -/
def parentGroup (s : Survey) (key : Option Key) : Except EditError Group :=
  match key with
  | none => .ok s.root
  | some key => do
    match ← s.locateParent key with
    | .group g => return g
    | .single _ => .error (.notAGroup key)

end Survey

end Questionnaire
