import Questionnaire.Proofs.Editor.Remove

/-!
# Items replaced in a laid out arena

An update clears the list of a node, takes the nodes below it off the index, and attaches the new
items to it.  The node is not exchanged, and so the item of its tree is replaced where it stands.
-/

namespace Questionnaire

open NodeTree

namespace Item

theorem key_merge (older newer : Item) :
  (older.merge newer).key = newer.key
  := by
  cases older with
  | single older =>
    cases newer with
    | single newer => rfl
    | group newer => rfl
  | group older =>
    cases newer with
    | single newer => rfl
    | group newer => rfl

theorem isGroup_merge (older newer : Item) :
  (older.merge newer).isGroup = newer.isGroup
  := by
  cases older with
  | single older =>
    cases newer with
    | single newer => rfl
    | group newer => rfl
  | group older =>
    cases newer with
    | single newer => rfl
    | group newer => rfl

/-- What is merged does not depend on the items in the older group. -/
theorem merge_withItems (older newer : Item) (xs : List Item) :
  (older.withItems xs).merge newer = older.merge newer
  := by
  cases older with
  | single older => rfl
  | group older =>
    cases newer with
    | single newer => rfl
    | group newer => rfl

end Item

namespace NodeTree

/-- Adjusting a list that has been cleared is putting another list in its place. -/
theorem adjust_clear (place : NodeId) (f : List NodeTree → List NodeTree) (t : NodeTree) :
  (t.adjust place fun _ => []).adjust place f = t.adjust place fun _ => f []
  := by
  induction t using induct with
  | node id ts ih =>
    rw [adjust_node, adjust_node, adjust_node]
    by_cases hid : id = place
    · rw [if_pos hid, if_pos hid, if_pos hid, List.map_nil]
    · rw [if_neg hid, if_neg hid, if_neg hid, List.map_map]
      congr 1
      apply List.map_congr_left
      exact ih

/-- Clearing the list of a node takes the numbers below it out. -/
theorem ids_clear {place : NodeId} {us : List NodeTree} {t : NodeTree}
    (h : Within (node place us) t) (ht : t.ids.Nodup) :
  (t.adjust place fun _ => []).ids.Nodup
    ∧ ∀ id, id ∈ (t.adjust place fun _ => []).ids ↔ id ∈ t.ids ∧ id ∉ us.flatMap ids
  := by
  obtain ⟨rest, hrest, hadjust⟩ := ids_adjust_perm h ht
  have hclear := hadjust fun _ => []
  rw [List.flatMap_nil, List.append_nil] at hclear
  rw [hrest.nodup_iff, List.nodup_append] at ht
  constructor
  · rw [hclear.nodup_iff]
    exact ht.1
  · intro id
    rw [hclear.mem_iff, hrest.mem_iff, List.mem_append]
    constructor
    · intro hid
      use Or.inl hid
      intro hid'
      apply ht.2.2 _ hid _ hid' rfl
    · rintro ⟨hid | hid, hnot⟩
      · exact hid
      · exfalso
        apply hnot hid

end NodeTree

namespace Editor

variable {e e' : Editor} {t t' u : NodeTree}

/-- What clearing a node makes of the nodes. -/
theorem node_clear (e : Editor) {place : NodeId} (hplace : place < e.nodes.size)
    (below : List NodeId) (x : Item) :
  (e.clear place below x).node place = ⟨x.withoutChildren, (e.node place).parent, []⟩
    ∧ ∀ id ≠ place, (e.clear place below x).node id = e.node id
  := by
  obtain ⟨index, hunindex, -⟩ := unindexAll_eq e below
  rw [clear, hunindex]
  constructor
  · exact node_modifyNode_self _ hplace
  · intro id hid
    exact node_modifyNode_ne _ hid

theorem clear_eq (e : Editor) (place : NodeId) (below : List NodeId) (x : Item) :
  (e.clear place below x).nodes.size = e.nodes.size ∧ (e.clear place below x).root = e.root
    ∧ (e.clear place below x).document = e.document
    ∧ ∀ key id, (e.clear place below x).index.get? key = some id
      ↔ e.index.get? key = some id ∧ ¬ (id ∈ below ∧ (e.node id).key = key)
  := by
  obtain ⟨index, hunindex, hget⟩ := unindexAll_eq e below
  rw [clear, hunindex]
  refine ⟨?_, rfl, rfl, hget⟩
  rw [size_modifyNode]

theorem parent_clear (e : Editor) {place : NodeId} (hplace : place < e.nodes.size)
    (below : List NodeId) (x : Item) (id : NodeId) :
  ((e.clear place below x).node id).parent = (e.node id).parent
  := by
  obtain ⟨hself, hother⟩ := node_clear e hplace below x
  by_cases hid : id = place
  · rw [hid, hself]
  · rw [hother id hid]

/-- A cleared node keeps its key if the new item has it. -/
theorem key_clear (e : Editor) {place : NodeId} (hplace : place < e.nodes.size)
    (below : List NodeId) {x : Item} (hkey : x.key = (e.node place).key) (id : NodeId) :
  ((e.clear place below x).node id).key = (e.node id).key
  := by
  obtain ⟨hself, hother⟩ := node_clear e hplace below x
  by_cases hid : id = place
  · rw [hid, hself, ← hkey]
    exact x.key_withoutChildren
  · rw [hother id hid]

namespace Laid

/-- The survey of an arena in which a subtree of a layout is exchanged is the survey with the item
of the subtree replaced. -/
theorem survey_eq_modifyItem (h : e.Laid t) {place : NodeId} {us : List NodeTree}
    {f : List NodeTree → List NodeTree} {change : Item → Item}
    (h' : e'.Laid (t.adjust place f)) (hdocument : e'.document = e.document)
    (hplace : Within (.node place us) t)
    (hsame : ∀ id ∈ t.ids, id ∉ (NodeTree.node place us).ids → e'.own id = e.own id)
    (hchange : (NodeTree.node place (f us)).item e'.own
      = change ((NodeTree.node place us).item e.own)) :
  e'.survey = e.survey.modifyItem (e.node place).key change
  := by
  have hkey : ∀ id ∈ t.ids, (e.own id).key = (e.node place).key ↔ id = place := by
    intro id hid
    apply h.key_eq_iff hid hplace.top_mem
  have hroot : (e.node place).key = e.survey.key ↔ t.top = place := by
    rw [h.survey_key, ← hkey _ t.top_mem_ids, eq_comm, h.top_eq]
    rfl
  rw [Survey.modifyItem]
  by_cases htop : t.top = place
  · rw [if_pos (hroot.mpr htop), h.group_root]
    obtain rfl : t = .node place us := h.eq_of_top_eq (Within.self t) hplace htop
    have hnotMem := (List.nodup_cons.mp ((ids_node place us) ▸ h.nodup)).1
    rw [adjust_node, if_pos rfl, map_adjust_of_notMem hnotMem] at h'
    rw [← hchange, ← h'.group_root, h'.survey_eq_of_item h'.group_root.symm, hdocument,
      h.survey_eq_of_item h.group_root.symm]
  · rw [if_neg (hroot.not.mpr htop)]
    apply h.survey_eq_mapRoot h' hdocument
    rw [item_replace hplace htop h.nodup h.fits hkey hsame hchange, ← h.group_root]
    rfl

/-- The survey of an arena in which the items of the nodes of a subtree are changed. -/
theorem survey_eq_modifyItem_of_same (h : e.Laid t) {change : Item → Item} (h' : e'.Laid t)
    (hdocument : e'.document = e.document) (hu : Within u t)
    (hsame : ∀ id, id ∉ u.ids → e'.own id = e.own id)
    (hchange : u.item e'.own = change (u.item e.own)) :
  e'.survey = e.survey.modifyItem (e.node u.top).key change
  := by
  obtain ⟨place, us⟩ := u
  rw [← adjust_id place t] at h'
  apply h.survey_eq_modifyItem h' hdocument hu
  · intro id _ hid
    apply hsame id hid
  · exact hchange

/-- The node that an update applies to has the key of the update. -/
theorem key_of_updated (h : e.Laid t) {x : Item} {id : NodeId} (hfound : e.updated x = .ok id) :
  (e.node id).key = x.key
  := by
  rw [updated] at hfound
  split at hfound
  · next hkey =>
    split at hfound
    · cases hfound
      exact hkey.symm
    · cases hfound
  · rw [childOfParent] at hfound
    obtain ⟨err, hloc, -⟩ | ⟨u, hu, hloc, -⟩ := (h.finds_locateParent (Key.parent x.key)).cases
    · rw [hloc] at hfound
      cases hfound
    · rw [hloc] at hfound
      simp only [bind, Except.bind] at hfound
      split at hfound
      · next child hchild =>
        cases hfound
        have hkey := List.find?_some hchild
        exact eq_of_beq hkey
      · cases hfound

theorem isGroup_of_updated_root (h : e.Laid t) {x : Item} (hfound : e.updated x = .ok e.root) :
  x.isGroup = true
  := by
  have hkey : x.key = e.key := (h.key_of_updated hfound).symm
  rw [updated, if_pos hkey] at hfound
  split at hfound
  · next hgroup => exact hgroup
  · cases hfound

/-- The arena is laid out again when a node is cleared and the nodes below it come off the index,
if the new item has the key of the node. -/
theorem clear (h : e.Laid t) {place : NodeId} {us : List NodeTree}
    (hplace : Within (.node place us) t) {below : List NodeId}
    (hbelow : ∀ id, id ∈ below ↔ id ∈ us.flatMap ids) {x : Item}
    (hkey : x.key = (e.node place).key) (hroot : place = e.root → x.isGroup = true) :
  (e.clear place below x).Laid (t.adjust place fun _ => [])
  := by
  have hlt : place < e.nodes.size := h.holds.lt_size hplace.top_mem
  have hkeys := e.key_clear hlt below hkey
  have hparent := e.parent_clear hlt below x
  obtain ⟨hself, hother⟩ := node_clear e hlt below x
  obtain ⟨hsize', hroot', -, hget⟩ := clear_eq e place below x
  generalize e.clear place below x = cleared at *
  obtain ⟨hnodup, hmem⟩ := ids_clear hplace h.nodup
  refine {
    top_eq := ?top_eq
    holds := ?holds
    nodup := ?nodup
    stored := ?stored
    root_group := ?root_group
    index_iff := ?index_iff
    nested := ?nested }
  case top_eq => rw [top_adjust, h.top_eq, hroot']
  case holds =>
    apply h.holds.adjust h.nodup (Nat.le_of_eq hsize'.symm)
    · intro id _ _
      apply hparent
    · intro id _ _ hid
      rw [hother id hid]
    · intro vs _
      rw [hself]
      exact ⟨rfl, by simp⟩
  case nodup => exact hnodup
  case stored =>
    intro id
    by_cases hid : id = place
    · rw [hid, hself]
      exact ⟨x.children_withoutChildren, fun _ => rfl⟩
    · rw [hother id hid]
      apply h.stored
  case root_group =>
    rw [hroot', own]
    by_cases hid : e.root = place
    · rw [hid, hself, Item.isGroup_withoutChildren]
      exact hroot hid.symm
    · rw [hother _ hid]
      exact h.root_group
  case index_iff =>
    intro key id
    rw [hget, h.index_iff, hmem, hkeys, hbelow]
    constructor
    · rintro ⟨⟨hid, rfl⟩, hnot⟩
      exact ⟨⟨hid, fun hid' => hnot ⟨hid', rfl⟩⟩, rfl⟩
    · rintro ⟨⟨hid, hnot⟩, rfl⟩
      exact ⟨⟨hid, rfl⟩, fun hid' => hnot hid'.1⟩
  case nested =>
    intro id hid parent hp
    rw [hparent] at hp
    rw [hkeys, hkeys]
    apply h.nested id ((hmem id).mp hid).1 parent hp

/-- The keys below a node, in the arena and in its item. -/
theorem children_keys (h : e.Laid t) {place : NodeId} {us : List NodeTree}
    (hplace : Within (.node place us) t) :
  (Item.subtreeOf ((NodeTree.node place us).item e.own).children).map Item.key
    = (us.flatMap ids).map fun id => (e.node id).key
  := by
  have hfits := h.fits.within hplace
  rw [Item.subtreeOf_keys, hfits.children_item, children, List.flatMap_map, List.map_flatMap]
  apply List.flatMap_congr
  intro v hv
  rw [(hfits.within (Within.deeper hv (Within.self v))).keys_item]
  rfl

/-- A key is one of those below a node exactly when its node is one of those. -/
theorem key_mem_children_keys (h : e.Laid t) {place : NodeId} {us : List NodeTree}
    (hplace : Within (.node place us) t) {id : NodeId} (hid : id ∈ t.ids) :
  (e.node id).key ∈ (Item.subtreeOf ((NodeTree.node place us).item e.own).children).map Item.key
    ↔ id ∈ us.flatMap ids
  := by
  rw [h.children_keys hplace, List.mem_map]
  constructor
  · rintro ⟨id', hid', hsame⟩
    have hmem : id' ∈ t.ids := by
      apply hplace.ids_subset
      rw [ids_node]
      apply List.mem_cons_of_mem _ hid'
    rwa [← h.eq_of_key_eq hmem hid hsame]
  · intro hid'
    use id

/-- The keys of a cleared arena are those that are left when the items below the node are taken
out. -/
theorem keys_of_clear (h : e.Laid t) {place : NodeId} {us : List NodeTree}
    (hplace : Within (.node place us) t) {below : List NodeId} {x : Item}
    (hkey : x.key = (e.node place).key)
    (hcleared : (e.clear place below x).Laid (t.adjust place fun _ => [])) :
  ∀ key ∈ (e.clear place below x).survey.keys, key ∈ e.survey.keysWithout
    ((Item.subtreeOf ((NodeTree.node place us).item e.own).children).map Item.key)
  := by
  intro key hold
  rw [hcleared.survey_keys] at hold
  obtain ⟨id, hid, rfl⟩ := List.mem_map.mp hold
  obtain ⟨hid, hnot⟩ := ((ids_clear hplace h.nodup).2 id).mp hid
  have hlt : place < e.nodes.size := h.holds.lt_size hplace.top_mem
  rw [e.key_clear hlt below hkey, Survey.keysWithout, List.mem_filter, decide_eq_true_eq,
    h.key_mem_children_keys hplace hid, h.survey_keys]
  exact ⟨List.mem_map_of_mem hid, hnot⟩

/-- The arena is laid out again when the nodes below a node are replaced by nodes for the items in
an item of the same key, and its survey is the survey with that item in place of the old one. -/
theorem refill (h : e.Laid t) {place : NodeId} {us : List NodeTree}
    (hplace : Within (.node place us) t) {below : List NodeId}
    (hbelow : ∀ id, id ∈ below ↔ id ∈ us.flatMap ids) {x : Item}
    (hkey : x.key = (e.node place).key) (hroot : place = e.root → x.isGroup = true)
    (hnested : ∀ p ∈ Item.placementsOf (e.node place).key x.children, Nested p)
    (hnodup : (x.children.flatMap Item.keys).Nodup)
    (hfree : ∀ key ∈ x.children.flatMap Item.keys, key ∉ e.survey.keysWithout
      ((Item.subtreeOf ((NodeTree.node place us).item e.own).children).map Item.key)) :
  ∃ t', (attachAll place x.children (e.clear place below x)).Laid t'
    ∧ (attachAll place x.children (e.clear place below x)).survey
      = e.survey.modifyItem (e.node place).key fun _ => x
  := by
  have hcleared := h.clear hplace hbelow hkey hroot
  have hlt : place < e.nodes.size := h.holds.lt_size hplace.top_mem
  obtain ⟨hself, hother⟩ := node_clear e hlt below x
  obtain ⟨hsize, -, hdocument, -⟩ := clear_eq e place below x
  have hkey' := e.key_clear hlt below hkey place
  have hold := h.keys_of_clear hplace hkey hcleared
  generalize e.clear place below x = cleared at *
  have hbare : Within (.node place []) (t.adjust place fun _ => []) :=
    hplace.adjust h.nodup fun _ => []
  obtain ⟨vs, hatt⟩ := attachedAll x.children (hsize.symm ▸ hlt : place < cleared.nodes.size)
  rw [hself, List.nil_append] at hatt
  have hgroup : (cleared.own place).isGroup = true ∨ x.children = [] := by
    rw [own, hself, Item.isGroup_withoutChildren]
    exact x.isGroup_or_children_eq_nil
  have hlaid : (attachAll place x.children cleared).Laid (t.adjust place fun _ => vs) := by
    rw [← List.append_nil vs] at hatt
    have hlaid := hcleared.of_attached (f := fun ts => vs ++ ts) hbare hatt hgroup
      (by simp [children]) (hkey'.symm ▸ hnested) hnodup
    rw [top, adjust_clear, List.append_nil] at hlaid
    apply hlaid
    intro key hnew hkey
    apply hfree key hnew (hold key hkey)
  use t.adjust place fun _ => vs, hlaid
  apply h.survey_eq_modifyItem hlaid (hatt.document_eq.trans hdocument) hplace
  · intro id hid hnot
    have hne : id ≠ place := by
      rintro rfl
      apply hnot (top_mem_ids _)
    rw [own, own, hatt.node_eq id (hsize.symm ▸ h.holds.lt_size hid) hne, hother id hne]
  · rw [item_node, own, hatt.parent_eq, hself, hatt.items_eq, Item.withoutChildren_withItems,
      Item.withItems_children]

/-- Updating an item agrees with updating it in the survey. -/
theorem update (h : e.Laid t) (x : Item) :
  Agrees e ((Editor.update x).run e) (((), ·) <$> e.survey.update x)
  := by
  rw [Survey.update, Editor.update, map_bind]
  apply Agrees.get
  apply Agrees.find (h.finds_updated x)
  intro u hu hfound
  obtain ⟨place, us⟩ := u
  have hkey : (e.node place).key = x.key := h.key_of_updated hfound
  have hmerged : (e.node place).item.merge x = ((NodeTree.node place us).item e.own).merge x := by
    rw [item_node, Item.merge_withItems]
    rfl
  rw [map_bind, top, hmerged]
  generalize hnew : ((NodeTree.node place us).item e.own).merge x = new
  have hnewKey : new.key = x.key := by rw [← hnew, Item.key_merge]
  have hnewGroup : new.isGroup = x.isGroup := by rw [← hnew, Item.isGroup_merge]
  apply Agrees.lift
  intro _ hnested
  have hreplaced : ∀ id, id ∈ e.descendants place ↔ id ∈ us.flatMap ids := by
    intro id
    have hsubtree := (h.holds.within hu).subtree (hu.nodup h.nodup)
    rw [top, breadthFirst] at hsubtree
    rw [descendants, hsubtree, List.drop_one, List.tail_cons, List.nil_append,
      (breadthFirst_perm us).mem_iff]
  have hreplacedKeys : ∀ id ∈ t.ids, (e.node id).key
      ∈ (Item.subtreeOf ((NodeTree.node place us).item e.own).children).map Item.key
        ↔ id ∈ e.descendants place := by
    intro id hid
    rw [hreplaced, h.key_mem_children_keys hu hid]
  rw [map_bind, ← h.checkFree_eq hreplacedKeys]
  apply Agrees.lift
  intro _ hfree
  rw [h.checkFree_eq hreplacedKeys, checkFree_eq_ok_iff, Item.subtreeOf_keys] at hfree
  have hroot : place = e.root → new.isGroup = true := by
    rintro rfl
    rw [hnewGroup]
    apply h.isGroup_of_updated_root hfound
  obtain ⟨t', h', hsurvey⟩ := h.refill hu hreplaced (hnewKey.trans hkey.symm) hroot
    (hkey ▸ checkNested_eq_ok_iff.mp hnested) hfree.1 hfree.2
  rw [map_pure, ← hkey, ← hsurvey]
  exact Agrees.set h' ()

end Laid

end Editor

end Questionnaire
