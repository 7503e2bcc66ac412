import Questionnaire.Item.Basic

/-!
# The item tree

An item is the top of a tree.  Its subtree lists the item itself and then the items below it,
depth first; the same items breadth first are its levels, one behind the other.  The functions on
trees are built from two: `mapEach` changes what every item says of itself, and `mapGroups` changes
every group after the groups inside it.  `rekey` gives the top another key and moves the keys below
along.
-/

namespace Questionnaire

mutual

/-- The items of a group and of the groups inside it, each before those below it. -/
def Group.descendants : Group → List Item
  | ⟨_, _, items⟩ => Item.subtreeOf items

/-- An item and the items below it. -/
def Item.subtree : Item → List Item
  | .group g => .group g :: g.descendants
  | .single s => [.single s]

/-- The subtrees of some items. -/
def Item.subtreeOf : List Item → List Item
  | [] => []
  | x :: rest => x.subtree ++ Item.subtreeOf rest

end

/-- The keys in the subtree of an item. -/
def Item.keys (x : Item) : List Key := x.subtree.map Item.key

/-- The keys below a group. -/
def Group.keysBelow (g : Group) : List Key := g.descendants.map Item.key

/-- The key of a group and the keys below it. -/
def Group.keys (g : Group) : List Key := g.key :: g.keysBelow

/-- The first item below a group that has the given key, depth first. -/
def Group.findBelow? (g : Group) (key : Key) : Option Item :=
  g.descendants.find? fun x => x.key == key

/-! ## Levels -/

/-- The items of the levels from some items on, `n` levels at most. -/
def Item.levels : Nat → List Item → List Item
  | 0, _ => []
  | _ + 1, [] => []
  | n + 1, items => items ++ Item.levels n (items.flatMap Item.children)

mutual

/-- The number of levels of a group and the groups inside it. -/
def Group.height : Group → Nat
  | ⟨_, _, items⟩ => Item.heightOf items + 1

/-- The number of levels of a tree. -/
def Item.height : Item → Nat
  | .group g => g.height
  | .single _ => 1

/-- The greatest number of levels of some trees. -/
def Item.heightOf : List Item → Nat
  | [] => 0
  | x :: rest => max x.height (Item.heightOf rest)

end

/-- An item and the items below it, level by level. -/
def Item.breadthFirst (x : Item) : List Item := Item.levels x.height [x]

/-! ## Changes -/

mutual

/-- The group with the heads of all items in it changed by `h` and their expressions by `e`. -/
def Group.mapEach (h : Item.Head → Item.Head) (e : Expression → Expression) : Group → Group
  | ⟨head, selectionMethod, items⟩ =>
    ⟨h (head.mapExpressions e), selectionMethod.map e, Item.mapEachOf h e items⟩

/-- The item with the heads of all items in its subtree changed by `h` and their expressions
by `e`. -/
def Item.mapEach (h : Item.Head → Item.Head) (e : Expression → Expression) : Item → Item
  | .group g => .group (g.mapEach h e)
  | .single s =>
    let s := s.mapExpressions e
    .single { s with head := h s.head }

/-- The items with the heads and expressions in their subtrees changed. -/
def Item.mapEachOf (h : Item.Head → Item.Head) (e : Expression → Expression) :
    List Item → List Item
  | [] => []
  | x :: rest => x.mapEach h e :: Item.mapEachOf h e rest

end

mutual

/-- The group with `f` applied to every group inside it and then to itself. -/
def Group.mapGroups (f : Group → Group) : Group → Group
  | ⟨head, selectionMethod, items⟩ => f ⟨head, selectionMethod, Item.mapGroupsOf f items⟩

/-- The item with `f` applied to every group in its subtree, from the bottom up. -/
def Item.mapGroups (f : Group → Group) : Item → Item
  | .group g => .group (g.mapGroups f)
  | .single s => .single s

/-- The items with `f` applied to every group in their subtrees. -/
def Item.mapGroupsOf (f : Group → Group) : List Item → List Item
  | [] => []
  | x :: rest => x.mapGroups f :: Item.mapGroupsOf f rest

end

mutual

/-- The group with another key; the keys below it keep their last segments. -/
def Group.rekey (key : Key) : Group → Group
  | ⟨head, selectionMethod, items⟩ =>
    ⟨{ head with key }, selectionMethod, Item.rekeyOf key items⟩

/-- The item with another key; the keys below it keep their last segments. -/
def Item.rekey (key : Key) : Item → Item
  | .group g => .group (g.rekey key)
  | .single s => .single { s with head := { s.head with key } }

/-- The items of a group with the given key, keeping their last segments. -/
def Item.rekeyOf (parent : Key) : List Item → List Item
  | [] => []
  | x :: rest => x.rekey (Key.child parent (Key.leaf x.key)) :: Item.rekeyOf parent rest

end

namespace Group

/-- The group with the items changed of the group with the given key. -/
def mapItemsAt (key : Key) (f : List Item → List Item) : Group → Group :=
  mapGroups fun g => if g.key = key then { g with items := f g.items } else g

/-- The group without the items of the given key. -/
def erase (key : Key) : Group → Group :=
  mapGroups fun g => { g with items := g.items.filter fun x => x.key ≠ key }

/-- The group with the items of the given key replaced by their images. -/
def replace (key : Key) (f : Item → Item) : Group → Group :=
  mapGroups fun g => { g with items := g.items.map fun x => if x.key = key then f x else x }

end Group

end Questionnaire
