import Questionnaire.Editor.Arena
import Questionnaire.Json.Printer
import Questionnaire.Survey.Format

/-!
# Edits in the arena

An edit looks up the nodes that it is about, checks that it can be made, and then changes the
arena.  What it has changed before it fails stays changed.  A request is an edit or a question with
its arguments; `Editor.serve` gives its answer and the editor after it.
-/

namespace Questionnaire

namespace Editor

/-- An edit with a result. -/
abbrev Action (α : Type) := ExceptT EditError (StateM Editor) α

/-- The editor of a survey whose items are put aside: its root is the only node.  Also gives those
items. -/
def withDocument (s : Survey) : Editor × List Item :=
  let root : Item := .group { s.root with items := [] }
  ({ document := { s with root := .empty "" }
     nodes := #[⟨root, none, []⟩]
     index := .single root.key 0
     root := 0 }, s.root.items)

/-- Puts the items of a survey under the root, one after the other. -/
def open? (e : Editor) : List Item → Except EditError Editor
  | [] => .ok e
  | x :: rest => do
    checkNested (x.placements e.key)
    e.checkFree x.keys []
    open? (attach e.root none x e) rest

/-- The editor of a survey. -/
def ofSurvey (s : Survey) : Except EditError Editor :=
  let (e, items) := withDocument s
  e.open? items

/-- The editor of a survey without items. -/
def new : Editor := (withDocument (.empty Survey.defaultKey)).1

/-! ## Settings -/

/-- A change of what a survey says apart from its items. -/
inductive Setting where
  | name (texts : List LocalizedText)
  | description (texts : List LocalizedText)
  | typicalDuration (texts : List LocalizedText)
  | metadata (entries : Option (Dict String))
  | pageLimits (limits : PageLimits)
  | availableFor (audience : Option Audience)
  | requiresLogin (required : Option Bool)
  | contextRules (rules : SurveyContext)
  | prefillRules (rules : List Expression)
  | versionId (version : String)

/-- The survey with a setting. -/
def Setting.apply (s : Survey) : Setting → Survey
  | .name texts => { s with texts := { s.texts with name := some texts } }
  | .description texts => { s with texts := { s.texts with description := some texts } }
  | .typicalDuration texts => { s with texts := { s.texts with typicalDuration := some texts } }
  | .metadata entries => { s with metadata := entries }
  | .pageLimits limits => { s with pageLimits := some limits }
  | .availableFor audience => { s with availableFor := audience }
  | .requiresLogin required => { s with requiresLogin := required }
  | .contextRules rules => { s with contextRules := some rules }
  | .prefillRules rules => { s with prefillRules := some rules }
  | .versionId version => { s with versionId := version }

/-- Changes a setting. -/
def set (setting : Setting) : Action Unit :=
  modify fun e => { e with document := setting.apply e.document }

/-! ## Edits -/

/-- Attaches an item to a group if its keys are in place and free, and returns it as it stands. -/
def insert (x : Item) (parent : NodeId) (position : Option Nat) : Action Item := do
  let e ← get
  checkNested (x.placements (e.node parent).key)
  e.checkFree x.keys []
  let attached := attach parent position x e
  MonadState.set attached
  return attached.materialize e.nodes.size

/-- Adds a new item to the group with the given key, by default the root; `name` is the last
segment of its key. -/
def add (kind : Item.Kind) (name : String) (parent : Option Key) (position : Option Nat) :
    Action Item := do
  let e ← get
  let group ← e.parentNode parent
  insert (Item.create kind (Key.child (e.node group).key name)) group position

/-- Adds an item with its subtree to the group with the given key. -/
def addExisting (x : Item) (parent : Key) (position : Option Nat) : Action Item := do
  let e ← get
  let group ← e.parentNode (some parent)
  insert x group position

/-- The node that an update with `x` applies to. -/
def updated (e : Editor) (x : Item) : Except EditError NodeId :=
  if x.key = e.key then
    if x.isGroup then .ok e.root else .error (.notAGroup x.key)
  else e.childOfParent x.key

/-- Lets a node hold another item and list no nodes; those that were below it come off the index. -/
def clear (e : Editor) (id : NodeId) (below : List NodeId) (x : Item) : Editor :=
  (e.unindexAll below).modifyNode id fun n => { n with item := x.withoutChildren, children := [] }

/-- Merges an item into the one of its key; the items in a group are replaced. -/
def update (x : Item) : Action Unit := do
  let e ← get
  let target ← e.updated x
  let replaced := e.descendants target
  let merged := (e.node target).item.merge x
  checkNested (Item.placementsOf x.key merged.children)
  e.checkFree ((Item.subtreeOf merged.children).map Item.key) replaced
  MonadState.set (attachAll target merged.children (e.clear target replaced merged))

/-- Gives the items of a subtree the keys that follow from the key `new` of its top, if they are
free. -/
def rekeySubtree (top : NodeId) (new : Key) : Action Unit := do
  let e ← get
  let plan := e.rekeyPlan top new
  e.checkFree (plan.map (·.2)) (plan.map (·.1))
  MonadState.set (e.applyPlan plan)

/-- Gives an item, or the root, another key in the same group; the keys below it keep their last
segments. -/
def rename (old new : Key) (references : References) : Action Unit := do
  let e ← get
  let target ← e.locate old
  if old = new then
    return
  if let some parent := (e.node target).parent then
    let parentKey := (e.node parent).key
    if Key.parent? new ≠ some parentKey then
      throw (.keyOutsideParent new parentKey)
  rekeySubtree target new
  match references with
  | .follow => modify fun e => e.redirect old new
  | .keep => return

/-- Removes an item with its subtree, and returns it. -/
def remove (key : Key) : Action Item := do
  let e ← get
  let target ← e.locate key
  if target = e.root then
    throw (.rootRemoval key)
  let removed := e.materialize target
  let detached := e.detach target
  MonadState.set (detached.unindexAll (detached.subtree target))
  return removed

/-- Lets a node stand at the end of those that another node lists. -/
def append (e : Editor) (id parent : NodeId) : Editor :=
  let placed := e.modifyNode id fun n => { n with parent := some parent }
  placed.modifyNode parent fun n => { n with children := n.children ++ [id] }

/-- Moves an item with its subtree to the end of a group, and returns it under its new key; the
references to it follow. -/
def move (key destination : Key) : Action Item := do
  let e ← get
  let target ← e.locate key
  let group ← e.locate destination
  if group ∈ e.subtree target then
    throw (.moveIntoSelf key destination)
  if !(e.node group).item.isGroup then
    throw (.notAGroup destination)
  let new := Key.child (e.node group).key (Key.leaf key)
  let plan := e.rekeyPlan target new
  e.checkFree (plan.map (·.2)) (plan.map (·.1))
  MonadState.set ((((e.detach target).append target group).applyPlan plan).redirect key new)
  return (← get).materialize target

/-! ## Requests -/

/-- A call of an editor. -/
inductive Request where
  | key
  | contains (key : Key)
  | find (key : Key)
  | survey
  | text (style : Json.Style)
  | set (setting : Setting)
  | add (kind : Item.Kind) (name : String) (parent : Option Key) (position : Option Nat)
  | addExisting (x : Item) (parent : Key) (position : Option Nat)
  | update (x : Item)
  | rename (old new : Key) (references : References)
  | remove (key : Key)
  | move (key destination : Key)

/-- What an editor answers. -/
inductive Answer where
  | done
  | key (key : Key)
  | truth (b : Bool)
  | item (x : Item)
  | survey (s : Survey)
  | text (text : String)

/-- The answer to a request. -/
def respond : Request → Action Answer
  | .key => return .key (← get).key
  | .contains key => return .truth ((← get).contains key)
  | .find key => do
    let e ← get
    return .item (← e.findItem key)
  | .survey => return .survey (← get).survey
  | .text style => return .text ((← get).survey.toJson.toText style)
  | .set setting => do
    Editor.set setting
    return .done
  | .add kind name parent position => .item <$> Editor.add kind name parent position
  | .addExisting x parent position => .item <$> Editor.addExisting x parent position
  | .update x => do
    Editor.update x
    return .done
  | .rename old new references => do
    Editor.rename old new references
    return .done
  | .remove key => .item <$> Editor.remove key
  | .move key destination => .item <$> Editor.move key destination

/-- The answer to a request, and the editor after it. -/
def serve (e : Editor) (r : Request) : Except EditError Answer × Editor := (respond r).run e

end Editor

end Questionnaire
