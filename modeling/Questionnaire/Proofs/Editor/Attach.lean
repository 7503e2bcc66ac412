import Questionnaire.Proofs.Editor.Layout
import Questionnaire.Proofs.Editor.Surgery

/-!
# Items put into the arena

Attaching items gives them nodes at the end of the arena.  The new nodes are trees with the items
attached, the node that lists their tops is given them, all other nodes stay as they are, and the
index learns the keys of the new nodes.
-/

namespace Questionnaire

open NodeTree

namespace Editor

/-- In the later editor, `parent` lists `children`, among them the tops of new trees, which stand
for the items `xs`; the nodes of the earlier editor are otherwise as they were. -/
structure Attached (e e' : Editor) (parent : NodeId) (children : List NodeId) (us : List NodeTree)
    (xs : List Item) : Prop where
  size_le : e.nodes.size ≤ e'.nodes.size
  document_eq : e'.document = e.document
  root_eq : e'.root = e.root
  node_eq : ∀ id < e.nodes.size, id ≠ parent → e'.node id = e.node id
  parent_eq : e'.node parent = { e.node parent with children }
  size_le_of_mem : ∀ id ∈ us.flatMap ids, e.nodes.size ≤ id
  nodup : (us.flatMap ids).Nodup
  holds : ∀ u ∈ us, e'.Holds (some parent) u
  items_eq : us.map (item e'.own) = xs
  stored : (∀ id, Stored (e.node id)) → (e.own parent).isGroup = true ∨ xs = [] →
    ∀ id, Stored (e'.node id)
  index_old : ∀ key, key ∉ xs.flatMap Item.keys → e'.index.get? key = e.index.get? key
  index_new : (∀ id, Stored (e.node id)) → (e.own parent).isGroup = true ∨ xs = [] →
    (xs.flatMap Item.keys).Nodup →
    ∀ id ∈ us.flatMap ids, e'.index.get? (e'.node id).key = some id

namespace Attached

variable {e e' e'' : Editor} {parent : NodeId} {children children' : List NodeId}
  {us vs : List NodeTree} {xs ys : List Item}

/-- Nothing is attached. -/
theorem refl (e : Editor) (parent : NodeId) :
  Attached e e parent (e.node parent).children [] []
  where
  size_le := Nat.le_refl _
  document_eq := rfl
  root_eq := rfl
  node_eq _ _ _ := rfl
  parent_eq := rfl
  size_le_of_mem := by simp
  nodup := by simp
  holds := by simp
  items_eq := rfl
  stored h _ := h
  index_old _ _ := rfl
  index_new := by simp

theorem own_parent (h : Attached e e' parent children us xs) :
  e'.own parent = e.own parent
  := by
  rw [own, own, h.parent_eq]

theorem lt_size (h : Attached e e' parent children us xs) {id : NodeId}
    (hid : id ∈ us.flatMap ids) :
  id < e'.nodes.size
  := by
  obtain ⟨u, hu, hid⟩ := List.mem_flatMap.mp hid
  apply (h.holds u hu).lt_size hid

theorem fits (h : Attached e e' parent children us xs) (hstored : ∀ id, Stored (e.node id))
    (hgroup : (e.own parent).isGroup = true ∨ xs = []) :
  ∀ u ∈ us, u.Fits e'.own
  := fun u hu => (h.holds u hu).fits (h.stored hstored hgroup)

/-- The keys of the new nodes are those of the items. -/
theorem keys_eq (h : Attached e e' parent children us xs) (hstored : ∀ id, Stored (e.node id))
    (hgroup : (e.own parent).isGroup = true ∨ xs = []) :
  (us.flatMap ids).map (fun id => (e'.node id).key) = xs.flatMap Item.keys
  := by
  rw [← h.items_eq, List.flatMap_map, List.map_flatMap]
  apply List.flatMap_congr
  intro u hu
  rw [(h.fits hstored hgroup u hu).keys_item]
  rfl

/-- Further items that are attached leave the new nodes as they are. -/
theorem node_eq_of_mem (h : Attached e e' parent children us xs)
    (h' : Attached e' e'' parent children' vs ys) (hparent : parent < e.nodes.size) {id : NodeId}
    (hid : id ∈ us.flatMap ids) :
  e''.node id = e'.node id
  := by
  have hlt : parent < id := Nat.lt_of_lt_of_le hparent (h.size_le_of_mem id hid)
  apply h'.node_eq id (h.lt_size hid) (Nat.ne_of_gt hlt)

/-- Items are attached one after the other. -/
theorem append (h : Attached e e' parent children us xs)
    (h' : Attached e' e'' parent children' vs ys) (hparent : parent < e.nodes.size) :
  Attached e e'' parent children' (us ++ vs) (xs ++ ys)
  := by
  have hnode {id : NodeId} (hid : id ∈ us.flatMap ids) : e''.node id = e'.node id :=
    h.node_eq_of_mem h' hparent hid
  constructor
  case size_le => exact Nat.le_trans h.size_le h'.size_le
  case document_eq => rw [h'.document_eq, h.document_eq]
  case root_eq => rw [h'.root_eq, h.root_eq]
  case node_eq =>
    intro id hid hne
    rw [h'.node_eq id (Nat.lt_of_lt_of_le hid h.size_le) hne, h.node_eq id hid hne]
  case parent_eq => rw [h'.parent_eq, h.parent_eq]
  case size_le_of_mem =>
    intro id hid
    rw [List.flatMap_append, List.mem_append] at hid
    rcases hid with hid | hid
    · apply h.size_le_of_mem id hid
    · apply Nat.le_trans h.size_le (h'.size_le_of_mem id hid)
  case nodup =>
    rw [List.flatMap_append, List.nodup_append]
    refine ⟨h.nodup, h'.nodup, ?_⟩
    intro id hid id' hid'
    apply Nat.ne_of_lt (Nat.lt_of_lt_of_le (h.lt_size hid) (h'.size_le_of_mem id' hid'))
  case holds =>
    intro u hu
    rcases List.mem_append.mp hu with hu | hu
    · apply (h.holds u hu).congr h'.size_le
      · intro id hid
        rw [hnode (List.mem_flatMap_of_mem hu hid)]
      · intro id hid
        rw [hnode (List.mem_flatMap_of_mem hu hid)]
    · apply h'.holds u hu
  case items_eq =>
    rw [List.map_append, h'.items_eq, ← h.items_eq]
    congr 1
    apply List.map_congr_left
    intro u hu
    apply item_congr
    intro id hid
    rw [own, own, hnode (List.mem_flatMap_of_mem hu hid)]
  case stored =>
    intro hstored hgroup
    rw [List.append_eq_nil_iff, or_and_left] at hgroup
    apply h'.stored (h.stored hstored hgroup.1)
    rw [h.own_parent]
    exact hgroup.2
  case index_old =>
    intro key hkey
    rw [List.flatMap_append, List.mem_append, not_or] at hkey
    rw [h'.index_old key hkey.2, h.index_old key hkey.1]
  case index_new =>
    intro hstored hgroup hkeys id hid
    rw [List.append_eq_nil_iff, or_and_left] at hgroup
    rw [List.flatMap_append, List.nodup_append] at hkeys
    rw [List.flatMap_append, List.mem_append] at hid
    rcases hid with hid | hid
    · have hkey : (e'.node id).key ∈ xs.flatMap Item.keys := by
        rw [← h.keys_eq hstored hgroup.1]
        apply List.mem_map_of_mem hid
      have hkey' : (e'.node id).key ∉ ys.flatMap Item.keys := by
        intro hmem
        apply hkeys.2.2 _ hkey _ hmem rfl
      rw [hnode hid, h'.index_old _ hkey', h.index_new hstored hgroup.1 hkeys.1 id hid]
    · apply h'.index_new (h.stored hstored hgroup.1) _ hkeys.2.1 id hid
      rw [h.own_parent]
      exact hgroup.2

end Attached

/-! ### A new node -/

theorem size_place (e : Editor) (x : Item) (parent : NodeId) (position : Option Nat) :
  (e.place x parent position).nodes.size = e.nodes.size + 1
  := by
  simp [place]

theorem index_place (e : Editor) (x : Item) (parent : NodeId) (position : Option Nat) :
  (e.place x parent position).index = e.index.insert x.key e.nodes.size
  := rfl

theorem node_place_new {e : Editor} {x : Item} {parent : NodeId} {position : Option Nat}
    (hparent : parent < e.nodes.size) :
  (e.place x parent position).node e.nodes.size = ⟨x, some parent, []⟩
  := by
  rw [place, node_modifyNode_ne _ (Nat.ne_of_gt hparent)]
  simp [node]

theorem node_place_parent {e : Editor} {x : Item} {parent : NodeId} {position : Option Nat}
    (hparent : parent < e.nodes.size) :
  (e.place x parent position).node parent
    = { e.node parent with children := insertAt position e.nodes.size (e.node parent).children }
  := by
  have hlt : parent < (e.nodes.push ⟨x, some parent, []⟩).size := by
    rw [Array.size_push]
    apply Nat.lt_succ_of_lt hparent
  rw [place, node_modifyNode_self _ hlt]
  simp [node, Array.getElem?_push_lt hparent, hparent]

theorem node_place_ne {e : Editor} {x : Item} {parent : NodeId} {position : Option Nat}
    {id : NodeId} (hid : id < e.nodes.size) (hne : id ≠ parent) :
  (e.place x parent position).node id = e.node id
  := by
  rw [place, node_modifyNode_ne _ hne]
  simp [node, Array.getElem?_push_lt hid, hid]

/-- A new node holds an item without the items in it. -/
theorem stored_place {e : Editor} {x : Item} {parent : NodeId} {position : Option Nat}
    (hparent : parent < e.nodes.size) (hstored : ∀ id, Stored (e.node id))
    (hgroup : (e.own parent).isGroup = true) (id : NodeId) :
  Stored ((e.place x.withoutChildren parent position).node id)
  := by
  rcases Nat.lt_trichotomy id e.nodes.size with hlt | rfl | hgt
  · by_cases hid : id = parent
    · subst hid
      rw [node_place_parent hparent]
      constructor
      · exact (hstored id).1
      · intro hsingle
        exfalso
        rw [own] at hgroup
        rw [hgroup] at hsingle
        cases hsingle
    · rw [node_place_ne hlt hid]
      apply hstored id
  · rw [node_place_new hparent]
    exact ⟨x.children_withoutChildren, fun _ => rfl⟩
  · rw [node_of_size_le (by rw [size_place]; exact hgt)]
    exact ⟨rfl, fun _ => rfl⟩

/-! ### An item in a new node -/

section

variable {e e' : Editor} {x : Item} {parent : NodeId} {position : Option Nat} {us : List NodeTree}
  (hparent : parent < e.nodes.size)
  (h : Attached (e.place x.withoutChildren parent position) e' e.nodes.size (us.map top) us
    x.children)

include hparent in
theorem isGroup_place_or :
  ((e.place x.withoutChildren parent position).own e.nodes.size).isGroup = true ∨ x.children = []
  := by
  rw [own, node_place_new hparent, Item.isGroup_withoutChildren]
  exact x.isGroup_or_children_eq_nil

include h in
/-- The trees in a new node have numbers behind that of the node. -/
theorem Attached.lt_of_mem {id : NodeId} (hid : id ∈ us.flatMap ids) :
  e.nodes.size < id
  := by
  have hle := h.size_le_of_mem id hid
  rw [size_place] at hle
  exact hle

include h in
/-- The nodes that there were have what the new node alone gives them. -/
theorem Attached.node_nest_of_lt {id : NodeId} (hid : id < e.nodes.size) :
  e'.node id = (e.place x.withoutChildren parent position).node id
  := by
  apply h.node_eq id _ (Nat.ne_of_lt hid)
  rw [size_place]
  apply Nat.lt_succ_of_lt hid

include hparent h

theorem Attached.node_nest :
  e'.node e.nodes.size = ⟨x.withoutChildren, some parent, us.map top⟩
  := by
  rw [h.parent_eq, node_place_new hparent]

theorem Attached.key_nest :
  (e'.node e.nodes.size).key = x.key
  := by
  rw [h.node_nest hparent]
  exact x.key_withoutChildren

/-- The keys of the new nodes lead to them. -/
theorem Attached.index_nest (hstored : ∀ id, Stored (e.node id))
    (hgroup : (e.own parent).isGroup = true) (hnodup : x.keys.Nodup) {id : NodeId}
    (hid : id ∈ (NodeTree.node e.nodes.size us).ids) :
  e'.index.get? (e'.node id).key = some id
  := by
  rw [Item.keys_eq, List.nodup_cons] at hnodup
  rw [ids_node, List.mem_cons] at hid
  rcases hid with rfl | hid
  · rw [h.key_nest hparent, h.index_old _ hnodup.1, index_place, Index.get?_insert, if_pos]
    exact x.key_withoutChildren.symm
  · apply h.index_new _ (isGroup_place_or hparent) hnodup.2 id hid
    apply stored_place hparent hstored hgroup

/-- An item is attached when it has a new node, and the items in it are attached to that node. -/
theorem Attached.nest :
  Attached e e' parent (insertAt position e.nodes.size (e.node parent).children)
    [.node e.nodes.size us] [x]
  := by
  have hnode := h.node_nest hparent
  have hgroup : ((e.own parent).isGroup = true ∨ [x] = []) → (e.own parent).isGroup = true := by
    rintro (hgroup | ⟨⟨⟩⟩)
    exact hgroup
  have hlt : e.nodes.size < e'.nodes.size := by
    have hle := h.size_le
    rw [size_place] at hle
    exact hle
  constructor
  case size_le => exact Nat.le_of_lt hlt
  case document_eq =>
    rw [h.document_eq]
    rfl
  case root_eq =>
    rw [h.root_eq]
    rfl
  case node_eq =>
    intro id hid hne
    rw [h.node_nest_of_lt hid, node_place_ne hid hne]
  case parent_eq => rw [h.node_nest_of_lt hparent, node_place_parent hparent]
  case size_le_of_mem =>
    intro id hid
    rw [List.flatMap_singleton, ids_node, List.mem_cons] at hid
    rcases hid with rfl | hid
    · exact Nat.le_refl _
    · exact Nat.le_of_lt (h.lt_of_mem hid)
  case nodup =>
    rw [List.flatMap_singleton, ids_node, List.nodup_cons]
    use fun hmem => Nat.lt_irrefl _ (h.lt_of_mem hmem)
    exact h.nodup
  case holds =>
    intro u hu
    rw [List.mem_singleton] at hu
    rw [hu]
    apply Holds.node hlt
    · rw [hnode]
    · rw [hnode]
    · exact h.holds
  case items_eq =>
    rw [List.map_singleton, item_node, own, hnode, h.items_eq, Item.withoutChildren_withItems,
      Item.withItems_children]
  case stored =>
    intro hstored hparent'
    apply h.stored _ (isGroup_place_or hparent)
    apply stored_place hparent hstored (hgroup hparent')
  case index_old =>
    intro key hkey
    rw [List.flatMap_singleton, Item.keys_eq, List.mem_cons, not_or] at hkey
    rw [h.index_old key hkey.2, index_place, Index.get?_insert, if_neg]
    rw [Item.key_withoutChildren]
    exact hkey.1
  case index_new =>
    intro hstored hparent' hkeys id hid
    rw [List.flatMap_singleton] at hkeys hid
    apply h.index_nest hparent hstored (hgroup hparent') hkeys hid

end

/-! ### Attached items -/

theorem attach_eq (parent : NodeId) (position : Option Nat) (x : Item) (e : Editor) :
  attach parent position x e
    = attachAll e.nodes.size x.children (e.place x.withoutChildren parent position)
  := by
  cases x with
  | single s => rfl
  | group g =>
    obtain ⟨head, selectionMethod, items⟩ := g
    rfl

/-- Attaching an item anywhere gives it a tree of new nodes. -/
def Attaches (x : Item) : Prop :=
  ∀ (e : Editor) (parent : NodeId) (position : Option Nat), parent < e.nodes.size →
    ∃ us, Attached e (attach parent position x e) parent
      (insertAt position e.nodes.size (e.node parent).children) [.node e.nodes.size us] [x]

theorem attachedAll_of {xs : List Item} (h : ∀ x ∈ xs, Attaches x) {e : Editor}
    {parent : NodeId} (hparent : parent < e.nodes.size) :
  ∃ us, Attached e (attachAll parent xs e) parent ((e.node parent).children ++ us.map top) us xs
  := by
  induction xs generalizing e with
  | nil =>
    use []
    rw [List.map_nil, List.append_nil]
    apply Attached.refl
  | cons x xs ih =>
    obtain ⟨us, hx⟩ := h x List.mem_cons_self e parent none hparent
    obtain ⟨vs, hxs⟩ := ih (fun y hy => h y (List.mem_cons_of_mem _ hy))
      (Nat.lt_of_lt_of_le hparent hx.size_le)
    use .node e.nodes.size us :: vs
    have happend := hx.append hxs hparent
    rw [hx.parent_eq, insertAt_none, List.append_assoc] at happend
    exact happend

theorem attaches_of {x : Item} (h : ∀ y ∈ x.children, Attaches y) :
  Attaches x
  := by
  intro e parent position hparent
  have hlt : e.nodes.size < (e.place x.withoutChildren parent position).nodes.size := by
    rw [size_place]
    apply Nat.lt_succ_self
  obtain ⟨us, hus⟩ := attachedAll_of h hlt
  rw [node_place_new hparent, List.nil_append] at hus
  use us
  rw [attach_eq]
  apply hus.nest hparent

theorem attached (x : Item) :
  Attaches x
  := by
  induction x using Item.induct with
  | single s =>
    apply attaches_of
    intro y hy
    cases hy
  | group head selectionMethod items ih =>
    apply attaches_of
    exact ih

/-- Attaching items gives them trees of new nodes, at the end of those that the parent lists. -/
theorem attachedAll (xs : List Item) {e : Editor} {parent : NodeId}
    (hparent : parent < e.nodes.size) :
  ∃ us, Attached e (attachAll parent xs e) parent ((e.node parent).children ++ us.map top) us xs
  := attachedAll_of (fun x _ => attached x) hparent

end Editor

end Questionnaire
