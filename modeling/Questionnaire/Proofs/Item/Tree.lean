import Mathlib.Data.List.Basic
import Questionnaire.Editor.Arena

/-!
# Item trees, list by list

The functions on item trees recurse over an item and the list of the items in it.  Here they are
stated through the operations of lists, and `Item.induct` is the induction that goes with them: a
group has the property that its items have.
-/

namespace Questionnaire

/-- A property holds of every item if it holds of single items, and of a group if it holds of the
items in it. -/
@[elab_as_elim]
theorem Item.induct {P : Item → Prop} (single : ∀ s, P (.single s))
    (group : ∀ head selectionMethod items, (∀ x ∈ items, P x) →
      P (.group ⟨head, selectionMethod, items⟩)) (x : Item) :
  P x
  := by
  match x with
  | .single s => apply single
  | .group ⟨head, selectionMethod, items⟩ =>
    apply group
    intro y hy
    apply Item.induct single group y
termination_by sizeOf x
decreasing_by
  have h := List.sizeOf_lt_of_mem hy
  simp only [Item.group.sizeOf_spec, Group.mk.sizeOf_spec]
  omega

theorem Group.mk_eta (g : Group) :
  ⟨g.head, g.selectionMethod, g.items⟩ = g
  := by
  cases g
  rfl

namespace Item

/-! ### Subtrees -/

theorem subtreeOf_eq (xs : List Item) :
  subtreeOf xs = xs.flatMap subtree
  := by
  induction xs with
  | nil => rfl
  | cons x xs ih => rw [subtreeOf, ih, List.flatMap_cons]

@[simp]
theorem subtree_single (s : SingleItem) :
  (single s).subtree = [single s]
  := by
  rw [subtree]

@[simp]
theorem subtree_group (head : Head) (selectionMethod : Option Expression) (items : List Item) :
  (group ⟨head, selectionMethod, items⟩).subtree
    = group ⟨head, selectionMethod, items⟩ :: items.flatMap subtree
  := by
  rw [subtree, Group.descendants, subtreeOf_eq]

/-- The subtree of an item starts with the item, and goes on with the subtrees of its children. -/
theorem subtree_eq (x : Item) :
  x.subtree = x :: x.children.flatMap subtree
  := by
  cases x with
  | single s => simp [children]
  | group g =>
    obtain ⟨head, selectionMethod, items⟩ := g
    simp [children]

theorem keys_eq (x : Item) :
  x.keys = x.key :: x.children.flatMap keys
  := by
  rw [keys, subtree_eq, List.map_cons, List.map_flatMap]
  rfl

theorem keys_group (g : Group) :
  (group g).keys = g.keys
  := by
  rw [keys, subtree]
  rfl

theorem mem_subtree_self (x : Item) :
  x ∈ x.subtree
  := by
  rw [subtree_eq]
  apply List.mem_cons_self

/-- The subtree of an item in a subtree is part of it. -/
theorem subtree_sublist {x y : Item} (h : x ∈ y.subtree) :
  x.subtree.Sublist y.subtree
  := by
  induction y using induct with
  | single s =>
    rw [subtree_single, List.mem_singleton] at h
    rw [h]
  | group head selectionMethod items ih =>
    rw [subtree_group, List.mem_cons] at h
    rcases h with rfl | h
    · rfl
    · obtain ⟨z, hz, hx⟩ := List.mem_flatMap.mp h
      rw [subtree_group]
      apply List.Sublist.cons
      apply (ih z hz hx).trans
      exact List.sublist_flatten_of_mem (List.mem_map_of_mem hz)

theorem subtree_subset_of_mem_children {x y : Item} (h : y ∈ x.children) :
  y.subtree ⊆ x.subtree
  := by
  intro z hz
  rw [subtree_eq x]
  apply List.mem_cons_of_mem _ (List.mem_flatMap_of_mem h hz)

/-- An item in a subtree is its top, or stands in a group of it. -/
theorem eq_or_exists_group {x u : Item} (hx : x ∈ u.subtree) :
  x = u ∨ ∃ g, group g ∈ u.subtree ∧ x ∈ g.items
  := by
  induction u using induct with
  | single s =>
    rw [subtree_single, List.mem_singleton] at hx
    left
    apply hx
  | group head selectionMethod items ih =>
    rw [subtree_group, List.mem_cons] at hx
    apply hx.imp_right
    intro hx
    obtain ⟨z, hz, hx⟩ := List.mem_flatMap.mp hx
    rcases ih z hz hx with rfl | ⟨g, hg, hx⟩
    · use ⟨head, selectionMethod, items⟩, mem_subtree_self _
    · use g, subtree_subset_of_mem_children hz hg

/-- The children of an item stand in its subtree in the order that they have. -/
theorem children_sublist (x : Item) :
  x.children.Sublist x.subtree
  := by
  rw [subtree_eq]
  apply List.Sublist.cons
  generalize x.children = xs
  induction xs with
  | nil => apply List.Sublist.refl
  | cons y ys ih =>
    rw [List.flatMap_cons, subtree_eq]
    apply List.Sublist.cons_cons
    apply ih.trans (List.sublist_append_right _ _)

theorem key_mem_keys (x : Item) :
  x.key ∈ x.keys
  := List.mem_map_of_mem x.mem_subtree_self

theorem subtreeOf_keys (xs : List Item) :
  (subtreeOf xs).map key = xs.flatMap keys
  := by
  rw [subtreeOf_eq, List.map_flatMap]
  rfl

end Item

theorem Group.keys_eq (g : Group) :
  g.keys = g.key :: g.items.flatMap Item.keys
  := by
  obtain ⟨head, selectionMethod, items⟩ := g
  rw [← Item.subtreeOf_keys]
  rfl

namespace Item

/-! ### Placements -/

theorem placementsOf_eq (parent : Key) (xs : List Item) :
  placementsOf parent xs = xs.flatMap (placements parent)
  := by
  induction xs with
  | nil => rfl
  | cons x xs ih => rw [placementsOf, ih, List.flatMap_cons]

/-- The placements of an item start with its own, and go on with those of its children. -/
theorem placements_eq (parent : Key) (x : Item) :
  x.placements parent = (x.key, parent) :: placementsOf x.key x.children
  := by
  cases x with
  | single s => rfl
  | group g =>
    obtain ⟨head, selectionMethod, items⟩ := g
    rfl

end Item

theorem Group.placements_eq (g : Group) :
  g.placements = Item.placementsOf g.key g.items
  := by
  obtain ⟨head, selectionMethod, items⟩ := g
  rfl

namespace Item

/-! ### Changes -/

theorem mapGroupsOf_eq (f : Group → Group) (xs : List Item) :
  mapGroupsOf f xs = xs.map (mapGroups f)
  := by
  induction xs with
  | nil => rfl
  | cons x xs ih => rw [mapGroupsOf, ih, List.map_cons]

@[simp]
theorem mapGroups_single (f : Group → Group) (s : SingleItem) :
  (single s).mapGroups f = single s
  := by
  rw [mapGroups]

@[simp]
theorem mapGroups_group (f : Group → Group) (head : Head) (selectionMethod : Option Expression)
    (items : List Item) :
  (group ⟨head, selectionMethod, items⟩).mapGroups f
    = group (f ⟨head, selectionMethod, items.map (mapGroups f)⟩)
  := by
  rw [mapGroups, Group.mapGroups, mapGroupsOf_eq]

/-- The key of an item stays when the groups in it and itself are changed, but not their keys. -/
theorem key_mapGroups {f : Group → Group} (h : ∀ g, (f g).key = g.key) (x : Item) :
  (x.mapGroups f).key = x.key
  := by
  cases x with
  | single s => rw [mapGroups_single]
  | group g =>
    obtain ⟨head, selectionMethod, items⟩ := g
    rw [mapGroups_group]
    apply h

/-- Changing the groups of an item changes nothing if no group in its subtree changes. -/
theorem mapGroups_eq_self {f : Group → Group} {x : Item}
    (h : ∀ g, group g ∈ x.subtree → f g = g) :
  x.mapGroups f = x
  := by
  induction x using Item.induct with
  | single s => rw [mapGroups_single]
  | group head selectionMethod items ih =>
    have hitems : items.map (mapGroups f) = items := by
      apply Eq.trans _ (List.map_id' items)
      apply List.map_congr_left
      intro y hy
      apply ih y hy
      intro g hg
      apply h
      rw [subtree_group]
      apply List.mem_cons_of_mem _ (List.mem_flatMap_of_mem hy hg)
    rw [mapGroups_group, hitems, h _ (mem_subtree_self _)]

theorem mapEachOf_eq (h : Head → Head) (e : Expression → Expression) (xs : List Item) :
  mapEachOf h e xs = xs.map (mapEach h e)
  := by
  induction xs with
  | nil => rfl
  | cons x xs ih => rw [mapEachOf, ih, List.map_cons]

@[simp]
theorem mapEach_group (h : Head → Head) (e : Expression → Expression) (head : Head)
    (selectionMethod : Option Expression) (items : List Item) :
  (group ⟨head, selectionMethod, items⟩).mapEach h e
    = group ⟨h (head.mapExpressions e), selectionMethod.map e, items.map (mapEach h e)⟩
  := by
  rw [mapEach, Group.mapEach, mapEachOf_eq]

theorem rekeyOf_eq (parent : Key) (xs : List Item) :
  rekeyOf parent xs = xs.map fun x => x.rekey (Key.child parent (Key.leaf x.key))
  := by
  induction xs with
  | nil => rfl
  | cons x xs ih => rw [rekeyOf, ih, List.map_cons]

@[simp]
theorem rekey_group (key : Key) (head : Head) (selectionMethod : Option Expression)
    (items : List Item) :
  (group ⟨head, selectionMethod, items⟩).rekey key
    = group ⟨{ head with key }, selectionMethod,
        items.map fun x => x.rekey (Key.child key (Key.leaf x.key))⟩
  := by
  rw [rekey, Group.rekey, rekeyOf_eq]

@[simp]
theorem key_rekey (key : Key) (x : Item) :
  (x.rekey key).key = key
  := by
  cases x with
  | single s => rfl
  | group g =>
    obtain ⟨head, selectionMethod, items⟩ := g
    rfl

theorem children_rekey (key : Key) (x : Item) :
  (x.rekey key).children = x.children.map fun y => y.rekey (Key.child key (Key.leaf y.key))
  := by
  cases x with
  | single s => rfl
  | group g =>
    obtain ⟨head, selectionMethod, items⟩ := g
    rw [rekey_group]
    rfl

/-! ### Items with other items in them -/

/-- An item that is a group or has no items is the one that has the items it has. -/
theorem withItems_children (x : Item) :
  x.withItems x.children = x
  := by
  cases x with
  | single s => rfl
  | group g =>
    obtain ⟨head, selectionMethod, items⟩ := g
    rfl

@[simp]
theorem withoutChildren_withItems (x : Item) (xs : List Item) :
  x.withoutChildren.withItems xs = x.withItems xs
  := by
  cases x with
  | single s => rfl
  | group g => rfl

@[simp]
theorem key_withoutChildren (x : Item) :
  x.withoutChildren.key = x.key
  := by
  cases x with
  | single s => rfl
  | group g => rfl

@[simp]
theorem isGroup_withoutChildren (x : Item) :
  x.withoutChildren.isGroup = x.isGroup
  := by
  cases x with
  | single s => rfl
  | group g => rfl

@[simp]
theorem children_withoutChildren (x : Item) :
  x.withoutChildren.children = []
  := by
  cases x with
  | single s => rfl
  | group g => rfl

/-- Only groups have items in them. -/
theorem isGroup_or_children_eq_nil (x : Item) :
  x.isGroup = true ∨ x.children = []
  := by
  cases x with
  | single s =>
    right
    rfl
  | group g =>
    left
    rfl

@[simp]
theorem key_withItems (x : Item) (xs : List Item) :
  (x.withItems xs).key = x.key
  := by
  cases x with
  | single s => rfl
  | group g => rfl

@[simp]
theorem isGroup_withItems (x : Item) (xs : List Item) :
  (x.withItems xs).isGroup = x.isGroup
  := by
  cases x with
  | single s => rfl
  | group g => rfl

theorem children_withItems (x : Item) (xs : List Item) (h : x.isGroup ∨ xs = []) :
  (x.withItems xs).children = xs
  := by
  cases x with
  | single s =>
    rcases h with h | h
    · cases h
    · rw [h]
      rfl
  | group g => rfl

/-! ### Items with other keys and references -/

@[simp]
theorem key_setKey (key : Key) (x : Item) :
  (x.setKey key).key = key
  := by
  cases x with
  | single s => rfl
  | group g => rfl

@[simp]
theorem isGroup_setKey (key : Key) (x : Item) :
  (x.setKey key).isGroup = x.isGroup
  := by
  cases x with
  | single s => rfl
  | group g => rfl

@[simp]
theorem children_setKey (key : Key) (x : Item) :
  (x.setKey key).children = x.children
  := by
  cases x with
  | single s => rfl
  | group g => rfl

@[simp]
theorem key_redirectOwn (old new : Key) (x : Item) :
  (x.redirectOwn old new).key = x.key
  := by
  cases x with
  | single s => rfl
  | group g => rfl

@[simp]
theorem isGroup_redirectOwn (old new : Key) (x : Item) :
  (x.redirectOwn old new).isGroup = x.isGroup
  := by
  cases x with
  | single s => rfl
  | group g => rfl

@[simp]
theorem children_redirectOwn (old new : Key) (x : Item) :
  (x.redirectOwn old new).children = x.children
  := by
  cases x with
  | single s => rfl
  | group g => rfl

end Item

end Questionnaire
