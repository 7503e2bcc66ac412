import Questionnaire.Survey.Edit

/-!
# The arena of a survey

While a survey is edited, its items lie in an arena.  A node of the arena holds an item without
the items in it; they have nodes of their own, and the node lists their numbers and keeps the
number of the node that lists it.  An index leads from the key of an item to its node.  Nodes are
never used again: the node of a removed item stays in the arena, but neither the root nor the index
leads to it.

This file holds the arena, the walks over it, and the changes that edits are made of.
-/

namespace Questionnaire

/-- The number of a node. -/
abbrev NodeId := Nat

/-- A node of the arena. -/
structure Node where
  /-- The item of the node; the items of a group are not kept here. -/
  item : Item
  /-- The node that lists this one. -/
  parent : Option NodeId
  /-- The nodes of the items in a group. -/
  children : List NodeId

/-- The key of the item of a node. -/
def Node.key (n : Node) : Key := n.item.key

instance : Inhabited Node := ⟨⟨default, none, []⟩⟩

/-! ## The index -/

/-- Nodes by the keys of their items.  The entries come in some order, and no key comes twice. -/
structure Index where
  entries : List (Key × NodeId)
  distinct : (entries.map (·.1)).Nodup

namespace Index

/-- The index with one entry. -/
def single (key : Key) (id : NodeId) : Index := ⟨[(key, id)], by simp⟩

/-- The node of a key. -/
def get? (index : Index) (key : Key) : Option NodeId := index.entries.lookup key

/-- The nodes of all keys. -/
def nodes (index : Index) : List NodeId := index.entries.map (·.2)

/-- The index without a key. -/
def erase (index : Index) (key : Key) : Index where
  entries := index.entries.filter fun entry => entry.1 ≠ key
  distinct := index.distinct.sublist (List.filter_sublist.map _)

/-- The index in which a key leads to a node. -/
def insert (index : Index) (key : Key) (id : NodeId) : Index where
  entries := (key, id) :: (index.erase key).entries
  distinct := by
    rw [List.map_cons, List.nodup_cons]
    constructor
    · simp [erase]
    · exact (index.erase key).distinct

end Index

/-- A survey that is being edited. -/
structure Editor where
  /-- What the survey says apart from its items; its root is left empty. -/
  document : Survey
  nodes : Array Node
  index : Index
  root : NodeId

namespace Item

/-- The group with the given items; a single item stays as it is. -/
def withItems (items : List Item) : Item → Item
  | .group g => .group { g with items }
  | .single s => .single s

/-- The item with another key; the items in it keep theirs. -/
def setKey (key : Key) : Item → Item := mapHead fun h => { h with key }

/-- The item in which the references to `old` point to `new`, apart from the items in it. -/
def redirectOwn (old new : Key) : Item → Item
  | .group g =>
    .group { g with
      head := (g.head.mapExpressions (Expression.redirect old new)).mapFollows (Key.rebase old new)
      selectionMethod := g.selectionMethod.map (Expression.redirect old new) }
  | .single s =>
    let s := s.mapExpressions (Expression.redirect old new)
    .single { s with head := s.head.mapFollows (Key.rebase old new) }

end Item

namespace Editor

/-- The node with the given number. -/
def node (e : Editor) (id : NodeId) : Node := e.nodes[id]?.getD default

/-- The key of the root. -/
def key (e : Editor) : Key := (e.node e.root).key

/-- Whether an item, or the root, has the key. -/
def contains (e : Editor) (key : Key) : Bool := (e.index.get? key).isSome

/-! ## Walks -/

/-- The item of a node with the items below it on `depth` levels. -/
def materializeWithin (e : Editor) : Nat → NodeId → Item
  | 0, id => (e.node id).item
  | depth + 1, id =>
    (e.node id).item.withItems ((e.node id).children.map (e.materializeWithin depth))

/-- The item of a node with the items below it. -/
def materialize (e : Editor) (id : NodeId) : Item := e.materializeWithin e.nodes.size id

/-- The survey as it is now. -/
def survey (e : Editor) : Survey :=
  match e.materialize e.root with
  | .group root => { e.document with root }
  | .single _ => e.document

/-- The nodes that a walk visits: it takes the first node of a queue and puts the nodes that it
lists at the end.  The walk ends when the queue is empty, or after `steps` nodes. -/
def walk (e : Editor) : (steps : Nat) → (queue : List NodeId) → List NodeId
  | 0, _ => []
  | _ + 1, [] => []
  | steps + 1, id :: queue => id :: e.walk steps (queue ++ (e.node id).children)

/-- A node and the nodes below it, each after the one that lists it. -/
def subtree (e : Editor) (id : NodeId) : List NodeId := e.walk e.nodes.size [id]

/-- The nodes below a node. -/
def descendants (e : Editor) (id : NodeId) : List NodeId := (e.subtree id).drop 1

/-- The node that keys lead to from a node; each is the key of a node that the one before lists.
`sought` is the key that is reported as missing. -/
def along (e : Editor) (sought : Key) : List Key → NodeId → Except EditError NodeId
  | [], current => .ok current
  | key :: keys, current =>
    if !(e.node current).item.isGroup then .error (.notAGroup (e.node current).key)
    else
      match e.index.get? key with
      | some child =>
        if (e.node child).parent = some current then e.along sought keys child
        else .error (.itemNotFound sought)
      | none => .error (.itemNotFound sought)

/-- The node of a key. -/
def locate (e : Editor) (key : Key) : Except EditError NodeId :=
  if key = e.key then .ok e.root
  else if Key.isWithin key e.key then
    let below := (Key.prefixes key).filter fun p => e.key.utf8ByteSize < p.utf8ByteSize
    e.along key below e.root
  else .error (.itemNotFound key)

/-- The node of a key that is wanted as a parent. -/
def locateParent (e : Editor) (key : Key) : Except EditError NodeId :=
  (e.locate key).mapError fun _ => .parentNotFound key

/-- The node of the group that items are added to, by default the root. -/
def parentNode (e : Editor) : Option Key → Except EditError NodeId
  | none => .ok e.root
  | some key => do
    let parent ← e.locateParent key
    if (e.node parent).item.isGroup then return parent
    else .error (.notAGroup key)

/-- The node of a key among those that the node of its parent lists. -/
def childOfParent (e : Editor) (key : Key) : Except EditError NodeId := do
  let parent ← e.locateParent (Key.parent key)
  match (e.node parent).children.find? fun child => (e.node child).key == key with
  | some child => return child
  | none => .error (.itemNotFound key)

/-- The item with the given key, or the root. -/
def findItem (e : Editor) (key : Key) : Except EditError Item := do
  return e.materialize (← e.locate key)

/-! ## Keys in use -/

/-- Whether a key leads to a node that is not among those to be replaced. -/
def isTaken (e : Editor) (replaced : List NodeId) (key : Key) : Bool :=
  match e.index.get? key with
  | some id => !replaced.contains id
  | none => false

/-- The first key that is taken, or that comes a second time, when the keys `seen` have come. -/
def firstTaken? (e : Editor) (replaced : List NodeId) (seen : List Key) : List Key → Option Key
  | [] => none
  | key :: rest =>
    if e.isTaken replaced key || seen.contains key then some key
    else e.firstTaken? replaced (key :: seen) rest

/-- Fails with the first key that is taken or comes a second time. -/
def checkFree (e : Editor) (keys : List Key) (replaced : List NodeId) : Except EditError Unit :=
  match e.firstTaken? replaced [] keys with
  | some key => .error (.duplicateKey key)
  | none => .ok ()

/-! ## Changes -/

/-- The arena with a node changed. -/
def modifyNode (e : Editor) (id : NodeId) (f : Node → Node) : Editor :=
  { e with nodes := e.nodes.modify id f }

/-- Puts an item without items into a new node, listed by `parent`. -/
def place (e : Editor) (x : Item) (parent : NodeId) (position : Option Nat) : Editor :=
  let id := e.nodes.size
  let grown : Editor :=
    { e with nodes := e.nodes.push ⟨x, some parent, []⟩, index := e.index.insert x.key id }
  grown.modifyNode parent fun n => { n with children := insertAt position id n.children }

mutual

/-- Puts a group and the items below it into new nodes. -/
def attachGroup (parent : NodeId) (position : Option Nat) : Group → Editor → Editor
  | ⟨head, selectionMethod, items⟩, e =>
    attachAll e.nodes.size items (e.place (.group ⟨head, selectionMethod, []⟩) parent position)

/-- Puts an item and the items below it into new nodes; that of the item is listed by `parent` at
the given position.  The keys must be free. -/
def attach (parent : NodeId) (position : Option Nat) : Item → Editor → Editor
  | .group g, e => attachGroup parent position g e
  | .single s, e => e.place (.single s) parent position

/-- Puts items into new nodes, one after the other at the end of those that `parent` lists. -/
def attachAll (parent : NodeId) : List Item → Editor → Editor
  | [], e => e
  | x :: rest, e => attachAll parent rest (attach parent none x e)

end

/-- Takes a node off the list that it stands on. -/
def detach (e : Editor) (id : NodeId) : Editor :=
  match (e.node id).parent with
  | none => e
  | some parent =>
    let orphaned := e.modifyNode id fun n => { n with parent := none }
    orphaned.modifyNode parent fun n => { n with children := n.children.filter (· ≠ id) }

/-- Takes the key of a node off the index, if the index leads from the key to the node. -/
def unindex (e : Editor) (id : NodeId) : Editor :=
  let key := (e.node id).key
  if e.index.get? key = some id then { e with index := e.index.erase key } else e

/-- Takes the keys of some nodes off the index. -/
def unindexAll (e : Editor) (ids : List NodeId) : Editor := ids.foldl unindex e

/-- Adds the new key of a node to a plan that has that of its parent; `new` is the key of the
node `top`. -/
def planKey (e : Editor) (top : NodeId) (new : Key) (plan : List (NodeId × Key)) (id : NodeId) :
    List (NodeId × Key) :=
  let n := e.node id
  let key :=
    match n.parent.bind (List.lookup · plan) with
    | some parent => if id = top then new else Key.child parent (Key.leaf n.key)
    | none => new
  plan ++ [(id, key)]

/-- The keys of a node and the nodes below it when it has the key `new`. -/
def rekeyPlan (e : Editor) (top : NodeId) (new : Key) : List (NodeId × Key) :=
  (e.subtree top).foldl (e.planKey top new) []

/-- Gives a node another key. -/
def setKey (e : Editor) (id : NodeId) (key : Key) : Editor :=
  let indexed : Editor := { e with index := e.index.insert key id }
  indexed.modifyNode id fun n => { n with item := n.item.setKey key }

/-- Gives nodes the keys of a plan. -/
def applyPlan (e : Editor) (plan : List (NodeId × Key)) : Editor :=
  plan.foldl (fun e p => e.setKey p.1 p.2) (e.unindexAll (plan.map (·.1)))

/-- Makes the references to `old` point to `new`, in all items of the index and in the rules of the
survey. -/
def redirect (e : Editor) (old new : Key) : Editor :=
  let change := fun (n : Node) => { n with item := n.item.redirectOwn old new }
  let redirected := e.index.nodes.foldl (fun e id => e.modifyNode id change) e
  { redirected with document := redirected.document.mapRules (Expression.redirect old new) }

end Editor

end Questionnaire
