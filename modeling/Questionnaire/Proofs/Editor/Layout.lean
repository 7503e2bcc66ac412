import Mathlib.Data.List.Perm.Subperm
import Questionnaire.Editor.Edit
import Questionnaire.Proofs.Editor.NodeTree

/-!
# The layout of an arena

An arena holds a tree of node numbers if every node of the tree lists the nodes below it and has
the node above it as its parent.  The layout of an editor, `Editor.Laid`, is the tree that its root
leads to, without repeated numbers, together with an index that leads from the key of each of its
nodes to the node, and from no other key; the key of every node is one segment longer than that of
its parent.

The walks of `Questionnaire.Editor.Arena` are walks over that tree: `materialize` gives the item
that it stands for, and `subtree` gives its numbers, breadth first.
-/

namespace Questionnaire

open NodeTree

/-! ### The index -/

namespace Index

theorem mem_entries_iff {index : Index} {key : Key} {id : NodeId} :
  (key, id) ∈ index.entries ↔ index.get? key = some id
  := by
  obtain ⟨entries, distinct⟩ := index
  rw [get?]
  induction entries with
  | nil => simp
  | cons entry entries ih =>
    obtain ⟨k, i⟩ := entry
    rw [List.map_cons, List.nodup_cons] at distinct
    rw [List.mem_cons, List.lookup_cons, ih distinct.2]
    by_cases h : key = k
    · subst h
      simp only [Prod.mk.injEq, true_and, beq_self_eq_true, Option.some.injEq]
      constructor
      · rintro (rfl | hi)
        · rfl
        · have hkey : (key, id) ∈ entries := (ih distinct.2).mpr hi
          exfalso
          apply distinct.1
          apply List.mem_map.mpr
          use (key, id)
      · rintro rfl
        left
        rfl
    · have hk : (key == k) = false := by simpa using h
      simp [h, hk]

theorem get?_erase (index : Index) (key other : Key) :
  (index.erase key).get? other = if other = key then none else index.get? other
  := by
  ext id
  rw [← mem_entries_iff, erase, List.mem_filter, mem_entries_iff]
  by_cases h : other = key
  · simp [h]
  · simp [h]

theorem get?_insert (index : Index) (key other : Key) (id : NodeId) :
  (index.insert key id).get? other = if other = key then some id else index.get? other
  := by
  ext i
  rw [← mem_entries_iff, insert, List.mem_cons, mem_entries_iff, get?_erase]
  by_cases h : other = key
  · simp [h, eq_comm]
  · simp [h]

theorem get?_single (key other : Key) (id : NodeId) :
  (single key id).get? other = if other = key then some id else none
  := by
  ext i
  rw [← mem_entries_iff, single]
  by_cases h : other = key
  · simp [h, eq_comm]
  · simp [h]

theorem mem_nodes_iff {index : Index} {id : NodeId} :
  id ∈ index.nodes ↔ ∃ key, index.get? key = some id
  := by
  rw [nodes, List.mem_map]
  constructor
  · rintro ⟨⟨key, i⟩, h, rfl⟩
    use key
    apply mem_entries_iff.mp h
  · rintro ⟨key, h⟩
    use (key, id), mem_entries_iff.mpr h

end Index

namespace Editor

/-! ### Single nodes -/

/-- The item of a node. -/
def own (e : Editor) (id : NodeId) : Item := (e.node id).item

@[simp]
theorem size_modifyNode (e : Editor) (id : NodeId) (f : Node → Node) :
  (e.modifyNode id f).nodes.size = e.nodes.size
  := by
  simp [modifyNode]

theorem node_modifyNode_self {e : Editor} {id : NodeId} (f : Node → Node)
    (h : id < e.nodes.size) :
  (e.modifyNode id f).node id = f (e.node id)
  := by
  simp [modifyNode, node, h, Array.getElem_modify_self]

theorem node_modifyNode_ne {e : Editor} {id other : NodeId} (f : Node → Node) (h : other ≠ id) :
  (e.modifyNode id f).node other = e.node other
  := by
  simp [modifyNode, node, Array.getElem?_modify, h.symm]

theorem node_of_size_le {e : Editor} {id : NodeId} (h : e.nodes.size ≤ id) :
  e.node id = default
  := by
  simp [node, h]

/-- The group items in an arena hold no items, and the nodes of single items list none. -/
def Stored (n : Node) : Prop :=
  n.item.children = [] ∧ (n.item.isGroup = false → n.children = [])

/-! ### Trees in the arena -/

/-- The arena holds a tree whose top has a given parent. -/
inductive Holds (e : Editor) : Option NodeId → NodeTree → Prop where
  | node {parent : Option NodeId} {id : NodeId} {ts : List NodeTree}
    (lt : id < e.nodes.size)
    (parent_eq : (e.node id).parent = parent)
    (children_eq : (e.node id).children = ts.map top)
    (below : ∀ t ∈ ts, Holds e (some id) t) :
    Holds e parent (.node id ts)

namespace Holds

variable {e e' : Editor} {parent parent' : Option NodeId} {t u : NodeTree}

theorem parent_top (h : e.Holds parent t) :
  (e.node t.top).parent = parent
  := by
  cases h with
  | node _ hparent => exact hparent

theorem children_top (h : e.Holds parent t) :
  (e.node t.top).children = t.children.map top
  := by
  cases h with
  | node _ _ hchildren => exact hchildren

theorem of_mem_children (h : e.Holds parent t) (hu : u ∈ t.children) :
  e.Holds (some t.top) u
  := by
  cases h with
  | node _ _ _ hbelow => apply hbelow u hu

/-- The trees in a tree that the arena holds are held too. -/
theorem within (h : e.Holds parent t) (hu : Within u t) :
  e.Holds (e.node u.top).parent u
  := by
  induction hu generalizing parent with
  | self =>
    rw [h.parent_top]
    exact h
  | deeper ht _ ih =>
    apply ih
    apply h.of_mem_children ht

theorem lt_size (h : e.Holds parent t) {id : NodeId} (hid : id ∈ t.ids) :
  id < e.nodes.size
  := by
  obtain ⟨ts, hts⟩ := exists_within hid
  have h' := h.within hts
  cases h' with
  | node hlt => exact hlt

/-- A node of a tree that the arena holds lists the tops of the trees below it. -/
theorem exists_children (h : e.Holds parent t) {id : NodeId} (hid : id ∈ t.ids) :
  ∃ us, Within (.node id us) t ∧ (e.node id).children = us.map top
  := by
  obtain ⟨us, hus⟩ := exists_within hid
  exact ⟨us, hus, (h.within hus).children_top⟩

/-- A tree that the arena holds is determined by its top. -/
theorem unique (h : e.Holds parent t) (h' : e.Holds parent' u) (htop : t.top = u.top) :
  t = u
  := by
  induction t using induct generalizing parent parent' u with
  | node id ts ih =>
    obtain ⟨id', us⟩ := u
    obtain rfl : id = id' := htop
    have htops : ts.map top = us.map top := h.children_top.symm.trans h'.children_top
    congr 1
    apply List.ext_getElem
    · simpa using congrArg List.length htops
    · intro n hn hn'
      apply ih _ (List.getElem_mem hn) (h.of_mem_children (List.getElem_mem hn))
        (h'.of_mem_children (List.getElem_mem hn'))
      have hget := congrArg (·[n]?) htops
      simpa [hn, hn'] using hget

/-- Whether a tree is held depends on the parents and lists of its own nodes alone. -/
theorem congr (h : e.Holds parent t) (hsize : e.nodes.size ≤ e'.nodes.size)
    (hparent : ∀ id ∈ t.ids, (e'.node id).parent = (e.node id).parent)
    (hchildren : ∀ id ∈ t.ids, (e'.node id).children = (e.node id).children) :
  e'.Holds parent t
  := by
  induction h with
  | node hlt hp hc _ ih =>
    apply Holds.node (Nat.lt_of_lt_of_le hlt hsize)
    · rw [hparent _ (by simp), hp]
    · rw [hchildren _ (by simp), hc]
    · intro t ht
      apply ih t ht
      · intro id hid
        apply hparent id (mem_ids_of_mem _ ht hid)
      · intro id hid
        apply hchildren id (mem_ids_of_mem _ ht hid)

/-- A tree stays held when its top is given another parent. -/
theorem reparent (h : e.Holds parent t) (hnodup : t.ids.Nodup)
    (hsize : e.nodes.size ≤ e'.nodes.size) (htop : (e'.node t.top).parent = parent')
    (hparent : ∀ id ∈ t.ids, id ≠ t.top → (e'.node id).parent = (e.node id).parent)
    (hchildren : ∀ id ∈ t.ids, (e'.node id).children = (e.node id).children) :
  e'.Holds parent' t
  := by
  cases h with
  | @node _ id ts hlt _ hc hbelow =>
    apply Holds.node (Nat.lt_of_lt_of_le hlt hsize) htop
    · rw [hchildren _ (by simp), hc]
    · intro u hu
      apply (hbelow u hu).congr hsize
      · intro i hi
        apply hparent i (mem_ids_of_mem _ hu hi)
        rintro rfl
        apply top_notMem_children hnodup hu hi
      · intro i hi
        apply hchildren i (mem_ids_of_mem _ hu hi)

/-- A tree stays held, with the trees below one node changed, if that node lists the new trees and
they are held, and the other nodes stay as they are. -/
theorem adjust {place : NodeId} {f : List NodeTree → List NodeTree} (h : e.Holds parent t)
    (hnodup : t.ids.Nodup) (hsize : e.nodes.size ≤ e'.nodes.size)
    (hparent : ∀ id ∈ t.ids, id ∈ (t.adjust place f).ids →
      (e'.node id).parent = (e.node id).parent)
    (hchildren : ∀ id ∈ t.ids, id ∈ (t.adjust place f).ids → id ≠ place →
      (e'.node id).children = (e.node id).children)
    (hplace : ∀ us, Within (.node place us) t →
      (e'.node place).children = (f us).map top ∧ ∀ u ∈ f us, e'.Holds (some place) u) :
  e'.Holds parent (t.adjust place f)
  := by
  induction h with
  | @node parent id ts hlt hp hc hbelow ih =>
    have hid' : id ∈ ((NodeTree.node id ts).adjust place f).ids := by
      have htop := top_mem_ids ((NodeTree.node id ts).adjust place f)
      rwa [top_adjust] at htop
    rw [ids_node, List.nodup_cons] at hnodup
    rw [adjust_node] at hparent hchildren hid' ⊢
    by_cases hid : id = place
    · subst hid
      rw [if_pos rfl, map_adjust_of_notMem hnodup.1] at hid' hparent ⊢
      obtain ⟨hc', hbelow'⟩ := hplace ts (Within.self _)
      apply Holds.node (Nat.lt_of_lt_of_le hlt hsize) _ hc' hbelow'
      rw [hparent _ (by simp) hid', hp]
    · rw [if_neg hid] at hparent hchildren hid' ⊢
      apply Holds.node (Nat.lt_of_lt_of_le hlt hsize)
      · rw [hparent _ (by simp) hid', hp]
      · rw [hchildren _ (by simp) hid' hid, hc, List.map_map]
        apply List.map_congr_left
        intro t _
        exact (top_adjust place f t).symm
      · intro u hu
        obtain ⟨t, ht, rfl⟩ := List.mem_map.mp hu
        apply ih t ht (List.nodup_flatMap.mp hnodup.2 |>.1 t ht)
        · intro i hi hi'
          apply hparent i (mem_ids_of_mem _ ht hi) (mem_ids_of_mem _ hu hi')
        · intro i hi hi'
          apply hchildren i (mem_ids_of_mem _ ht hi) (mem_ids_of_mem _ hu hi')
        · intro us hus
          apply hplace us (Within.deeper ht hus)

/-! ### Walks -/

theorem length_ids_le (h : e.Holds parent t) (hnodup : t.ids.Nodup) :
  t.ids.length ≤ e.nodes.size
  := by
  have hsub : t.ids ⊆ List.range e.nodes.size := by
    intro id hid
    rw [List.mem_range]
    apply h.lt_size hid
  simpa using (List.subperm_of_subset hnodup hsub).length_le

/-- Materializing the top of a tree gives the item of the tree. -/
theorem materializeWithin (h : e.Holds parent t) {depth : Nat} (hdepth : t.ids.length ≤ depth) :
  e.materializeWithin depth t.top = t.item e.own
  := by
  induction h generalizing depth with
  | @node parent id ts hlt hp hc hbelow ih =>
    rw [ids_node, List.length_cons] at hdepth
    obtain ⟨depth, rfl⟩ : ∃ n, depth = n + 1 := by
      use depth - 1
      omega
    rw [item_node, top, Editor.materializeWithin, hc, List.map_map, own]
    congr 1
    apply List.map_congr_left
    intro t ht
    apply ih t ht
    have hle : t.ids.length ≤ (ts.flatMap ids).length :=
      (List.sublist_flatten_of_mem (List.mem_map_of_mem ht)).length_le
    omega

theorem materialize (h : e.Holds parent t) (hnodup : t.ids.Nodup) :
  e.materialize t.top = t.item e.own
  := h.materializeWithin (h.length_ids_le hnodup)

end Holds

end Editor

namespace NodeTree

/-- The numbers of some trees, breadth first: those of the trees behind come before those below the
first. -/
def breadthFirst : List NodeTree → List NodeId
  | [] => []
  | node id us :: ts => id :: breadthFirst (ts ++ us)
termination_by ts => (ts.flatMap ids).length
decreasing_by simp; omega

theorem breadthFirst_perm (ts : List NodeTree) :
  (breadthFirst ts).Perm (ts.flatMap ids)
  := by
  induction ts using breadthFirst.induct with
  | case1 => simp [breadthFirst]
  | case2 id us ts ih =>
    rw [breadthFirst, List.flatMap_cons, ids_node, List.cons_append]
    apply List.Perm.cons
    apply ih.trans
    rw [List.flatMap_append]
    apply List.perm_append_comm

end NodeTree

namespace Editor

variable {e : Editor}

/-- A walk from the tops of some trees visits the numbers of the trees, breadth first. -/
theorem walk_tops {ts : List NodeTree} (h : ∀ t ∈ ts, ∃ parent, e.Holds parent t) {steps : Nat}
    (hsteps : (ts.flatMap ids).length ≤ steps) :
  e.walk steps (ts.map top) = breadthFirst ts
  := by
  induction ts using breadthFirst.induct generalizing steps with
  | case1 =>
    rw [breadthFirst]
    cases steps with
    | zero => rfl
    | succ steps => rfl
  | case2 id us ts ih =>
    obtain ⟨steps, rfl⟩ : ∃ n, steps = n + 1 := by
      use steps - 1
      simp at hsteps
      omega
    obtain ⟨parent, hnode⟩ := h (.node id us) (by simp)
    have hchildren : (e.node id).children = us.map top := hnode.children_top
    rw [breadthFirst, List.map_cons, top, walk, hchildren, ← List.map_append]
    congr 1
    apply ih
    · intro t ht
      rcases List.mem_append.mp ht with ht | ht
      · apply h t (List.mem_cons_of_mem _ ht)
      · use some id
        apply hnode.of_mem_children ht
    · simp at hsteps ⊢
      omega

theorem Holds.subtree {parent : Option NodeId} {t : NodeTree} (h : e.Holds parent t)
    (hnodup : t.ids.Nodup) :
  e.subtree t.top = breadthFirst [t]
  := by
  have ht : ∀ u ∈ [t], ∃ parent, e.Holds parent u := by
    intro u hu
    rw [List.mem_singleton] at hu
    use parent
    rw [hu]
    exact h
  have hsteps : ([t].flatMap ids).length ≤ e.nodes.size := by
    simpa using h.length_ids_le hnodup
  exact walk_tops ht hsteps

/-- The subtree of a node lists the numbers of the tree below it, each once. -/
theorem Holds.subtree_perm {parent : Option NodeId} {t : NodeTree} (h : e.Holds parent t)
    (hnodup : t.ids.Nodup) :
  (e.subtree t.top).Perm t.ids
  := by
  rw [h.subtree hnodup]
  simpa using breadthFirst_perm [t]

/-! ### Layouts -/

/-- The tree that the root of an editor leads to, with an index of its nodes. -/
structure Rooted (e : Editor) (t : NodeTree) : Prop where
  top_eq : t.top = e.root
  holds : e.Holds none t
  nodup : t.ids.Nodup
  stored : ∀ id, Stored (e.node id)
  root_group : (e.own e.root).isGroup = true
  index_iff : ∀ key id, e.index.get? key = some id ↔ id ∈ t.ids ∧ (e.node id).key = key

/-- The layout of an editor: every key of the tree is one segment longer than that of the parent. -/
structure Laid (e : Editor) (t : NodeTree) : Prop extends Rooted e t where
  nested : ∀ id ∈ t.ids, ∀ parent, (e.node id).parent = some parent →
    Key.parent (e.node id).key = (e.node parent).key

/-- In an arena that stores items without the items in them, only groups have nodes below them. -/
theorem Holds.fits {parent : Option NodeId} {t : NodeTree} (h : e.Holds parent t)
    (hstored : ∀ id, Stored (e.node id)) :
  t.Fits e.own
  := by
  intro id ts hts
  cases hgroup : (e.own id).isGroup with
  | true =>
    left
    rfl
  | false =>
    right
    have hchildren := (h.within hts).children_top
    rw [top, (hstored id).2 hgroup] at hchildren
    exact List.map_eq_nil_iff.mp hchildren.symm

namespace Rooted

variable {t u : NodeTree}

theorem fits (h : e.Rooted t) :
  t.Fits e.own
  := h.holds.fits h.stored

/-- No two nodes of a layout have the same key. -/
theorem eq_of_key_eq (h : e.Rooted t) {id id' : NodeId} (hid : id ∈ t.ids) (hid' : id' ∈ t.ids)
    (hkey : (e.node id).key = (e.node id').key) :
  id = id'
  := by
  have h₁ := (h.index_iff _ id).mpr ⟨hid, hkey⟩
  have h₂ := (h.index_iff _ id').mpr ⟨hid', rfl⟩
  rw [h₁] at h₂
  exact Option.some.inj h₂

theorem key_eq_iff (h : e.Rooted t) {id id' : NodeId} (hid : id ∈ t.ids) (hid' : id' ∈ t.ids) :
  (e.node id).key = (e.node id').key ↔ id = id'
  := by
  constructor
  · apply h.eq_of_key_eq hid hid'
  · rintro rfl
    rfl

/-- The trees in a layout are determined by their tops. -/
theorem eq_of_top_eq (h : e.Rooted t) {u v : NodeTree} (hu : Within u t) (hv : Within v t)
    (htop : u.top = v.top) :
  u = v
  := (h.holds.within hu).unique (h.holds.within hv) htop

theorem root_mem (h : e.Rooted t) :
  e.root ∈ t.ids
  := by
  rw [← h.top_eq]
  apply top_mem_ids

/-- The parent of a node of a layout is a node of the layout, which lists it. -/
theorem exists_parent (h : e.Rooted t) {id parent : NodeId} (hid : id ∈ t.ids)
    (hparent : (e.node id).parent = some parent) :
  ∃ u, Within u t ∧ u.top = parent ∧ ∃ v ∈ u.children, v.top = id
  := by
  have htop : id ≠ t.top := by
    rintro rfl
    rw [h.holds.parent_top] at hparent
    cases hparent
  obtain ⟨u, hu, v, hv, rfl⟩ := exists_mem_children hid htop
  have hv' := ((h.holds.within hu).of_mem_children hv).parent_top
  rw [hparent] at hv'
  use u, hu, (Option.some.inj hv').symm, v

theorem parent_mem (h : e.Rooted t) {id parent : NodeId} (hid : id ∈ t.ids)
    (hparent : (e.node id).parent = some parent) :
  parent ∈ t.ids
  := by
  obtain ⟨u, hu, rfl, _⟩ := h.exists_parent hid hparent
  exact hu.top_mem

/-- The item of a node is that of the tree below the node. -/
theorem materialize (h : e.Rooted t) (hu : Within u t) :
  e.materialize u.top = u.item e.own
  := (h.holds.within hu).materialize (hu.nodup h.nodup)

/-- The bound on the depth is never met: the item of a node has the items of the nodes that the
node lists. -/
theorem materialize_eq (h : e.Rooted t) {id : NodeId} (hid : id ∈ t.ids) :
  e.materialize id = (e.node id).item.withItems ((e.node id).children.map e.materialize)
  := by
  obtain ⟨us, hus, hchildren⟩ := h.holds.exists_children hid
  have hitem := h.materialize hus
  rw [top, item_node] at hitem
  rw [hitem, hchildren, List.map_map, own]
  congr 1
  apply List.map_congr_left
  intro u hu
  exact (h.materialize (hus.of_mem hu)).symm

/-- The root of the survey is the item of the layout. -/
theorem survey_eq (h : e.Rooted t) :
  ∃ g, t.item e.own = .group g ∧ e.survey = { e.document with root := g }
  := by
  have hroot := h.materialize (Within.self t)
  rw [h.top_eq] at hroot
  have hgroup : (t.item e.own).isGroup = true := by
    rw [isGroup_item, h.top_eq]
    exact h.root_group
  cases hitem : t.item e.own with
  | single s =>
    rw [hitem] at hgroup
    cases hgroup
  | group g =>
    use g, rfl
    rw [survey, hroot, hitem]

theorem group_root (h : e.Rooted t) :
  .group e.survey.root = t.item e.own
  := by
  obtain ⟨g, hg, hs⟩ := h.survey_eq
  rw [hs, hg]

theorem survey_keys (h : e.Rooted t) :
  e.survey.keys = t.ids.map fun id => (e.node id).key
  := by
  have hkeys : e.survey.keys = (Item.group e.survey.root).keys := (Item.keys_group _).symm
  rw [hkeys, h.group_root, h.fits.keys_item]
  rfl

theorem survey_key (h : e.Rooted t) :
  e.survey.key = e.key
  := by
  have hkey : e.survey.key = (Item.group e.survey.root).key := rfl
  rw [hkey, h.group_root, key_item, h.top_eq]
  rfl

/-- The root is the node with the key of the survey. -/
theorem key_eq_survey_key_iff (h : e.Rooted t) {id : NodeId} (hid : id ∈ t.ids) :
  (e.node id).key = e.survey.key ↔ id = e.root
  := by
  rw [h.survey_key]
  apply h.key_eq_iff hid h.root_mem

/-- The root is the node without a parent. -/
theorem parent_eq_none_iff (h : e.Rooted t) {id : NodeId} (hid : id ∈ t.ids) :
  (e.node id).parent = none ↔ id = e.root
  := by
  rw [← h.top_eq]
  constructor
  · intro hnone
    by_contra hne
    obtain ⟨u, hu, v, hv, rfl⟩ := exists_mem_children hid hne
    have hparent := ((h.holds.within hu).of_mem_children hv).parent_top
    rw [hnone] at hparent
    cases hparent
  · rintro rfl
    exact h.holds.parent_top

end Rooted

end Editor

end Questionnaire
