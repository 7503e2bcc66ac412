import Questionnaire.Expression.Traversal
import Questionnaire.Item.Edit
import Questionnaire.Survey.Lookup
import Questionnaire.Survey.Placement

/-!
# Editing a survey

Items are added, updated, renamed, removed and moved.  Every edit of a well keyed survey gives a
well keyed survey or fails.  When keys change, the references to them, texts in expressions and
entries of `follows`, can be changed along.
-/

namespace Questionnaire

/-- What becomes of the references to an item that is renamed. -/
inductive References where
  | follow
  | keep
  deriving DecidableEq, Repr

/-! ## References

A reference to an item is a text in an expression, or an entry of `follows`, that is the key of the
item or of an item below it. -/

/-- The expression in which the references to `old` point to `new`. -/
def Expression.redirect (old new : Key) : Expression → Expression :=
  replaceTexts fun text => Key.rebase? text old new

/-- The item in whose subtree the references to `old` point to `new`. -/
def Item.redirect (old new : Key) : Item → Item :=
  mapEach (Item.Head.mapFollows (Key.rebase old new)) (Expression.redirect old new)

/-- The group in which the references to `old` point to `new`. -/
def Group.redirect (old new : Key) : Group → Group :=
  mapEach (Item.Head.mapFollows (Key.rebase old new)) (Expression.redirect old new)

namespace Survey

/-- The survey in which the references to `old` point to `new`, in its items and its rules. -/
def redirect (old new : Key) (s : Survey) : Survey :=
  (s.mapRoot (Group.redirect old new)).mapRules (Expression.redirect old new)

/-! ## Edits -/

/-- The survey with the item of the given key, or the root, replaced by its image. -/
def modifyItem (s : Survey) (key : Key) (f : Item → Item) : Survey :=
  if key = s.key then
    match f (.group s.root) with
    | .group root => { s with root }
    | .single _ => s
  else s.mapRoot (·.replace key f)

/-- The keys of the survey that are not among the given ones. -/
def keysWithout (s : Survey) (keys : List Key) : List Key :=
  s.keys.filter fun key => key ∉ keys

/-- Adds an item with its subtree to a group. -/
def insert (s : Survey) (x : Item) (parent : Key) (position : Option Nat) :
    Except EditError Survey := do
  x.checkPlace parent s.keys
  return s.mapRoot (·.mapItemsAt parent (insertAt position x))

/-- Adds an item to the group with the given key. -/
def addExisting (s : Survey) (x : Item) (parent : Key) (position : Option Nat) :
    Except EditError Survey := do
  let group ← s.parentGroup (some parent)
  s.insert x group.key position

/-- Adds a new item to the group with the given key, by default the root, and returns it; `name`
is the last segment of its key. -/
def add (s : Survey) (kind : Item.Kind) (name : String) (parent : Option Key)
    (position : Option Nat) : Except EditError (Item × Survey) := do
  let group ← s.parentGroup parent
  let x := Item.create kind (Key.child group.key name)
  return (x, ← s.insert x group.key position)

/-- The item that an update with `x` applies to: the root, which stays a group, or an item of the
group that the key of `x` names. -/
def updated (s : Survey) (x : Item) : Except EditError Item :=
  if x.key = s.key then
    if x.isGroup then .ok (.group s.root) else .error (.notAGroup x.key)
  else do
    let parent ← s.locateParent (Key.parent x.key)
    match parent.children.find? fun y => y.key == x.key with
    | some old => .ok old
    | none => .error (.itemNotFound x.key)

/-- Merges an item into the one of its key; the items in a group are replaced. -/
def update (s : Survey) (x : Item) : Except EditError Survey := do
  let old ← s.updated x
  let new := old.merge x
  checkNested (Item.placementsOf x.key new.children)
  checkFree (s.keysWithout ((Item.subtreeOf old.children).map Item.key))
    ((Item.subtreeOf new.children).map Item.key)
  return s.modifyItem x.key fun _ => new

/-- Fails unless the keys of the subtree of `x` can be changed so that `x` has the key `new`.  The
keys are checked level by level. -/
def checkRekey (s : Survey) (x : Item) (new : Key) : Except EditError Unit :=
  checkFree (s.keysWithout x.keys) ((x.rekey new).breadthFirst.map Item.key)

/-- Gives an item, or the root, another key in the same group; the keys below it keep their last
segments. -/
def rename (s : Survey) (old new : Key) (references : References) : Except EditError Survey := do
  let x ← s.locate old
  if old = new then
    return s
  if old ≠ s.key ∧ Key.parent? new ≠ some (Key.parent old) then
    throw (.keyOutsideParent new (Key.parent old))
  s.checkRekey x new
  let renamed := s.modifyItem old (·.rekey new)
  match references with
  | .follow => return renamed.redirect old new
  | .keep => return renamed

/-- Removes an item with its subtree, and returns it. -/
def remove (s : Survey) (key : Key) : Except EditError (Item × Survey) := do
  let x ← s.locate key
  if key = s.key then
    throw (.rootRemoval key)
  return (x, s.mapRoot (·.erase key))

/-- Moves an item with its subtree to the end of a group, and returns it under its new key; the
references to it follow. -/
def move (s : Survey) (key destination : Key) : Except EditError (Item × Survey) := do
  let x ← s.locate key
  let group ← s.locate destination
  if group.key ∈ x.keys then
    throw (.moveIntoSelf key destination)
  if !group.isGroup then
    throw (.notAGroup destination)
  let new := Key.child group.key (Key.leaf key)
  s.checkRekey x new
  let moved := s.mapRoot fun root =>
    (root.erase key).mapItemsAt group.key (insertAt none (x.rekey new))
  return ((x.rekey new).redirect key new, moved.redirect key new)

end Survey

end Questionnaire
