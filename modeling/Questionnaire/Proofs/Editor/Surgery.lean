import Questionnaire.Proofs.Editor.NodeTree
import Questionnaire.Proofs.Position

/-!
# Changed trees and their items

What an edit does to the items of a survey, it does to the arena by changing the list of one node,
or the items of some nodes.  Here the tree of numbers is changed in that way, and its item is found
to be the changed item: `item_adjust` for lists of nodes, `item_replace` for a whole subtree,
`item_setKey` and `item_mapOwn` for the items of the nodes.
-/

namespace Questionnaire

/-- The group in which its own items of a key are replaced by their images. -/
def Group.exchange (key : Key) (f : Item → Item) (g : Group) : Group :=
  { g with items := g.items.map fun x => if x.key = key then f x else x }

/-- Replacing items of a key changes nothing where no item has the key. -/
theorem Item.mapGroups_replace_of_notMem {key : Key} {f : Item → Item} {x : Item}
    (h : key ∉ x.children.flatMap Item.keys) :
  x.mapGroups (Group.exchange key f) = x
  := by
  induction x using Item.induct with
  | single s => rw [mapGroups_single]
  | group head selectionMethod items ih =>
    have hitems : ∀ y ∈ items, key ∉ y.keys := by
      intro y hy hkey
      apply h (List.mem_flatMap_of_mem hy hkey)
    rw [mapGroups_group, Group.exchange]
    congr 2
    rw [List.map_map]
    apply Eq.trans _ (List.map_id' items)
    apply List.map_congr_left
    intro y hy
    have hy' : key ∉ y.children.flatMap Item.keys := by
      intro hkey
      apply hitems y hy
      rw [Item.keys_eq]
      apply List.mem_cons_of_mem _ hkey
    have hne : y.key ≠ key := by
      rintro rfl
      apply hitems y hy y.key_mem_keys
    rw [Function.comp_apply, ih y hy hy', if_neg hne]

/-- The item with its head and expressions changed, without those of the items in it. -/
def Item.mapOwn (h : Head → Head) (e : Expression → Expression) : Item → Item
  | .group g =>
    .group { g with
      head := h (g.head.mapExpressions e)
      selectionMethod := g.selectionMethod.map e }
  | .single s => (single s).mapEach h e

namespace NodeTree

variable {own own' : NodeId → Item} {place : NodeId} {t : NodeTree}

/-- The item of a tree with an adjusted list is the item in which every group is changed by
`change`, if `change` makes of the items of a node those of the adjusted list. -/
theorem item_adjust {f : List NodeTree → List NodeTree} {change : Group → Group}
    (h : ∀ id ts head selectionMethod items, Within (node id ts) t →
      own id = .group ⟨head, selectionMethod, items⟩ →
      change ⟨head, selectionMethod, (ts.map (adjust place f)).map (item own)⟩
        = ⟨head, selectionMethod,
            (if id = place then f (ts.map (adjust place f)) else ts.map (adjust place f)).map
              (item own)⟩) :
  (t.adjust place f).item own = (t.item own).mapGroups change
  := by
  induction t using induct with
  | node id ts ih =>
    rw [adjust_node, item_node, item_node]
    cases hown : own id with
    | single s => rw [Item.withItems, Item.withItems, Item.mapGroups_single]
    | group g =>
      obtain ⟨head, selectionMethod, items⟩ := g
      have hts : (ts.map (item own)).map (Item.mapGroups change)
          = (ts.map (adjust place f)).map (item own) := by
        rw [List.map_map, List.map_map]
        apply List.map_congr_left
        intro t ht
        symm
        apply ih t ht
        intro i us head selectionMethod items hus
        apply h i us head selectionMethod items (Within.deeper ht hus)
      rw [Item.withItems, Item.withItems, Item.mapGroups_group, hts,
        h id ts head selectionMethod items (Within.self _) hown]

/-- The item of a tree in which a tree is put among those below a node is the item in which the item
of the tree is put among those of a group. -/
theorem item_insertAt {v : NodeTree} {position : Option Nat} {key : Key}
    (hkey : ∀ id ∈ t.ids, (own id).key = key ↔ id = place) :
  (t.adjust place (insertAt position v)).item own
    = (t.item own).mapGroups fun g =>
        if g.key = key then { g with items := insertAt position (v.item own) g.items } else g
  := by
  apply item_adjust
  intro id ts head selectionMethod items hts hown
  have hid : head.key = key ↔ id = place := by
    rw [← hkey id hts.top_mem, hown]
    rfl
  simp only [Group.key, hid]
  by_cases hplace : id = place
  · rw [if_pos hplace, if_pos hplace, map_insertAt]
  · rw [if_neg hplace, if_neg hplace]

/-- The item of a tree without one of its subtrees is the item without the item of the subtree. -/
theorem item_prune {target : NodeId} {key : Key}
    (hkey : ∀ id ∈ t.ids, (own id).key = key ↔ id = target)
    (hplace : ∀ id ts, Within (node id ts) t → ∀ u ∈ ts, u.top = target → id = place) :
  (t.prune place target).item own
    = (t.item own).mapGroups fun g => { g with items := g.items.filter fun x => x.key ≠ key }
  := by
  apply item_adjust
  intro id ts head selectionMethod items hts _
  have hfilter : ((ts.map (adjust place (List.filter fun u => u.top ≠ target))).map
        (item own)).filter (fun x => x.key ≠ key)
      = ((ts.map (adjust place (List.filter fun u => u.top ≠ target))).filter
        fun u => u.top ≠ target).map (item own) := by
    rw [List.filter_map]
    congr 1
    apply List.filter_congr
    intro u hu
    obtain ⟨v, hv, rfl⟩ := List.mem_map.mp hu
    have hmem : v.top ∈ t.ids := (hts.of_mem_children hv).top_mem
    simp only [Function.comp_apply, key_item, top_adjust, ne_eq, hkey _ hmem]
  rw [hfilter]
  by_cases hid : id = place
  · rw [if_pos hid]
  · rw [if_neg hid, List.filter_eq_self.mpr]
    intro u hu
    obtain ⟨v, hv, rfl⟩ := List.mem_map.mp hu
    rw [decide_eq_true_eq, top_adjust]
    intro htop
    apply hid (hplace id ts hts v hv htop)

theorem mapGroups_replace_item {key : Key} {change : Item → Item} (hfits : t.Fits own)
    (h : ∀ id ∈ t.children.flatMap ids, (own id).key ≠ key) :
  (t.item own).mapGroups (Group.exchange key change) = t.item own
  := by
  apply Item.mapGroups_replace_of_notMem
  rw [hfits.children_item, List.flatMap_map]
  intro hmem
  obtain ⟨u, hu, hkey⟩ := List.mem_flatMap.mp hmem
  rw [(hfits.within ((Within.self t).of_mem_children hu)).keys_item] at hkey
  obtain ⟨id, hid, rfl⟩ := List.mem_map.mp hkey
  apply h id (List.mem_flatMap_of_mem hu hid) rfl

/-- The item of the adjusted node is replaced, and nothing inside it is. -/
theorem item_adjust_top {f : List NodeTree → List NodeTree} {us : List NodeTree} {key : Key}
    {change : Item → Item} (hfits : (node place us).Fits own) (hnodup : (node place us).ids.Nodup)
    (hkey : ∀ id ∈ (node place us).ids, (own id).key = key ↔ id = place)
    (hchange : (node place (f us)).item own' = change ((node place us).item own)) :
  ((node place us).adjust place f).item own'
      = change (((node place us).item own).mapGroups (Group.exchange key change))
    ∧ ((node place us).item own).key = key
  := by
  rw [ids_node, List.nodup_cons] at hnodup
  obtain ⟨hnotMem, -⟩ := hnodup
  rw [mapGroups_replace_item hfits]
  · rw [adjust_node, if_pos rfl, map_adjust_of_notMem hnotMem, hchange, key_item]
    exact ⟨rfl, (hkey place (top_mem_ids (node place us))).mpr rfl⟩
  · intro id hid hkeyid
    have hmem : id ∈ (node place us).ids := by
      rw [ids_node]
      apply List.mem_cons_of_mem _ hid
    apply hnotMem
    rwa [← (hkey id hmem).mp hkeyid]

/-- Only the whole of a tree without repeated numbers has the top of the tree. -/
theorem Within.eq_of_top_eq {u : NodeTree} (h : Within u t) (hnodup : t.ids.Nodup)
    (htop : u.top = t.top) :
  u = t
  := by
  cases h with
  | self => rfl
  | deeper ht h =>
    exfalso
    apply top_notMem_children hnodup ht
    rw [← htop]
    exact h.top_mem

/-- A tree that lies within another, or apart from it, does so for each tree below the top of the
other, unless the two have the same top. -/
theorem within_or_disjoint_of_mem {u v : NodeTree} (h : Within v t ∨ t.ids.Disjoint v.ids)
    (hnodup : t.ids.Nodup) (htop : t.top ≠ v.top) (hu : u ∈ t.children) :
  Within v u ∨ u.ids.Disjoint v.ids
  := by
  obtain ⟨id, ts⟩ := t
  rw [ids_node, List.nodup_cons] at hnodup
  rcases h with hv | hdisjoint
  · cases hv with
    | self =>
      exfalso
      apply htop rfl
    | @deeper w _ _ hw hv =>
      by_cases huw : u = w
      · left
        rw [huw]
        exact hv
      · right
        intro i hi hi'
        apply disjoint_of_ne hnodup.2 hu hw huw hi (hv.ids_subset hi')
  · right
    intro i hi hi'
    apply hdisjoint (mem_ids_of_mem id hu hi) hi'

/-- When a subtree is exchanged, its item is replaced in the item of every tree that it lies in, and
in that of every tree apart from it, where there is none to replace. -/
theorem item_exchange {f : List NodeTree → List NodeTree} {us : List NodeTree} {key : Key}
    {change : Item → Item} (hplace : Within (node place us) t ∨ t.ids.Disjoint (node place us).ids)
    (hnodup : t.ids.Nodup) (hkey : ∀ id ∈ t.ids, (own id).key = key ↔ id = place)
    (hfits : t.Fits own) (hsame : ∀ id ∈ t.ids, id ∉ (node place us).ids → own' id = own id)
    (hchange : (node place (f us)).item own' = change ((node place us).item own)) :
  (t.adjust place f).item own'
    = if (t.item own).key = key then change ((t.item own).mapGroups (Group.exchange key change))
      else (t.item own).mapGroups (Group.exchange key change)
  := by
  induction t using induct with
  | node id ts ih =>
    have hid : id ∈ (node id ts).ids := (node id ts).top_mem_ids
    by_cases hne : id = place
    · subst hne
      have heq : node id us = node id ts := by
        rcases hplace with hplace | hdisjoint
        · exact hplace.eq_of_top_eq hnodup rfl
        · exfalso
          apply hdisjoint hid (node id us).top_mem_ids
      cases heq
      obtain ⟨hitem, hkeyid⟩ := item_adjust_top hfits hnodup hkey hchange
      rw [if_pos hkeyid, hitem]
    · have hown : own' id = own id := by
        apply hsame id hid
        intro hid'
        rcases hplace with hplace | hdisjoint
        · cases hplace with
          | self => apply hne rfl
          | deeper ht hplace => apply top_notMem_children hnodup ht (hplace.ids_subset hid')
        · apply hdisjoint hid hid'
      have hitems : ∀ u ∈ ts, (u.adjust place f).item own' = if (u.item own).key = key
          then change ((u.item own).mapGroups (Group.exchange key change))
          else (u.item own).mapGroups (Group.exchange key change) := by
        intro u hu
        have hu' : Within u (node id ts) := Within.deeper hu (Within.self u)
        apply ih u hu (within_or_disjoint_of_mem hplace hnodup hne hu) (hu'.nodup hnodup)
        · intro i hi
          apply hkey i (hu'.ids_subset hi)
        · apply hfits.within hu'
        · intro i hi
          apply hsame i (hu'.ids_subset hi)
      have hkeyid : ¬ ((node id ts).item own).key = key := by
        rw [key_item]
        exact (hkey id hid).not.mpr hne
      rw [if_neg hkeyid, adjust_node, if_neg hne, item_node, item_node, hown]
      cases own id with
      | single s => rw [Item.withItems, Item.withItems, Item.mapGroups_single]
      | group g =>
        obtain ⟨head, selectionMethod, items⟩ := g
        rw [Item.withItems, Item.withItems, Item.mapGroups_group, Group.exchange]
        congr 2
        rw [List.map_map, List.map_map, List.map_map]
        apply List.map_congr_left
        intro u hu
        rw [Function.comp_apply, Function.comp_apply, Function.comp_apply, hitems u hu,
          Item.key_mapGroups (f := Group.exchange key change) fun _ => rfl]

/-- The item of a tree in which one subtree is exchanged is the item in which the item of the
subtree is replaced. -/
theorem item_replace {f : List NodeTree → List NodeTree} {us : List NodeTree} {key : Key}
    {change : Item → Item} (hplace : Within (node place us) t) (htop : t.top ≠ place)
    (hnodup : t.ids.Nodup) (hfits : t.Fits own)
    (hkey : ∀ id ∈ t.ids, (own id).key = key ↔ id = place)
    (hsame : ∀ id ∈ t.ids, id ∉ (node place us).ids → own' id = own id)
    (hchange : (node place (f us)).item own' = change ((node place us).item own)) :
  (t.adjust place f).item own' = (t.item own).mapGroups (Group.exchange key change)
  := by
  rw [item_exchange (Or.inl hplace) hnodup hkey hfits hsame hchange, if_neg]
  rw [key_item]
  exact (hkey _ t.top_mem_ids).not.mpr htop

/-- The item of a tree whose nodes have the keys that follow from the key of the top is the item
with that key. -/
theorem item_setKey {keys : NodeId → Key}
    (h : ∀ id us, Within (node id us) t → ∀ u ∈ us,
      keys u.top = Key.child (keys id) (Key.leaf (own u.top).key)) :
  t.item (fun id => (own id).setKey (keys id)) = (t.item own).rekey (keys t.top)
  := by
  induction t using induct with
  | node id ts ih =>
    rw [item_node, item_node, top]
    cases hown : own id with
    | single s => rfl
    | group g =>
      obtain ⟨head, selectionMethod, items⟩ := g
      rw [Item.withItems, Item.rekey_group, List.map_map]
      have hts : ts.map (item fun id => (own id).setKey (keys id))
          = ts.map ((fun x => x.rekey (Key.child (keys id) (Key.leaf x.key))) ∘ item own) := by
        apply List.map_congr_left
        intro t ht
        rw [ih t ht, Function.comp_apply, key_item, h id ts (Within.self _) t ht]
        intro i us hus
        apply h i us (Within.deeper ht hus)
      rw [hts]
      rfl

/-- The item of a tree whose nodes have their heads and expressions changed is the item with the
heads and expressions in it changed. -/
theorem item_mapOwn (h : Item.Head → Item.Head) (e : Expression → Expression) :
  t.item (fun id => (own id).mapOwn h e) = (t.item own).mapEach h e
  := by
  induction t using induct with
  | node id ts ih =>
    rw [item_node, item_node]
    cases hown : own id with
    | single s => rfl
    | group g =>
      obtain ⟨head, selectionMethod, items⟩ := g
      have hts : ts.map (item fun id => (own id).mapOwn h e)
          = (ts.map (item own)).map (Item.mapEach h e) := by
        rw [List.map_map]
        apply List.map_congr_left
        intro t ht
        apply ih t ht
      rw [Item.withItems, Item.mapEach_group, hts]
      rfl

/-- The item of a tree whose nodes have their references changed is the item with its references
changed. -/
theorem item_redirectOwn (old new : Key) :
  t.item (fun id => (own id).redirectOwn old new) = (t.item own).redirect old new
  := by
  rw [Item.redirect, ← item_mapOwn]
  apply item_congr
  intro id _
  cases own id with
  | _ => rfl

end NodeTree

end Questionnaire
