import Questionnaire.Proofs.Editor.Agreement

/-!
# Items taken out of a laid out arena

A node that is detached is no longer listed; it keeps the tree below it.  Removing an item detaches
its node and takes the nodes of its tree off the index, and so the rest of the tree is laid out.

Detaching a node and listing it elsewhere both change the parent of one node and the list of another
(`Relinked`), and leave the trees in which neither of the two stands as they are.
-/

namespace Questionnaire

open NodeTree

namespace Editor

variable {e e' : Editor} {t u : NodeTree}

/-! ### The index without some nodes -/

/-- Taking the key of a node off the index changes nothing else. -/
theorem unindex_eq (e : Editor) (id : NodeId) :
  ∃ index, e.unindex id = { e with index }
    ∧ ∀ key i, index.get? key = some i
      ↔ e.index.get? key = some i ∧ ¬ (i = id ∧ (e.node i).key = key)
  := by
  rw [unindex]
  by_cases hget : e.index.get? (e.node id).key = some id
  · use e.index.erase (e.node id).key
    simp only [hget, if_true, true_and]
    intro key i
    rw [Index.get?_erase]
    by_cases hkey : key = (e.node id).key
    · rw [if_pos hkey, hkey, hget]
      constructor
      · rintro ⟨⟩
      · rintro ⟨hi, hne⟩
        cases hi
        exfalso
        apply hne ⟨rfl, rfl⟩
    · rw [if_neg hkey]
      apply Iff.symm
      apply and_iff_left
      rintro ⟨rfl, rfl⟩
      apply hkey rfl
  · use e.index
    simp only [hget, if_false, true_and]
    intro key i
    apply Iff.symm
    apply and_iff_left_of_imp
    rintro hi ⟨rfl, rfl⟩
    apply hget hi

theorem unindexAll_eq (e : Editor) (ids : List NodeId) :
  ∃ index, e.unindexAll ids = { e with index }
    ∧ ∀ key i, index.get? key = some i
      ↔ e.index.get? key = some i ∧ ¬ (i ∈ ids ∧ (e.node i).key = key)
  := by
  induction ids generalizing e with
  | nil =>
    use e.index
    simp [unindexAll]
  | cons id ids ih =>
    obtain ⟨index, hunindex, hget⟩ := unindex_eq e id
    obtain ⟨index', hunindexAll, hget'⟩ := ih (e.unindex id)
    use index'
    constructor
    · rw [unindexAll, List.foldl_cons]
      apply hunindexAll.trans
      rw [hunindex]
    · intro key i
      have hnode : (e.unindex id).node i = e.node i := by
        rw [hunindex]
        rfl
      have hindex : (e.unindex id).index = index := by rw [hunindex]
      rw [hget', hindex, hget, hnode, List.mem_cons, and_assoc, ← not_or, or_and_right]

/-! ### Nodes with another parent -/

/-- An arena in which the node `id` has the parent `parent`, the list of the node `place` is changed
by `list`, and everything else is as it was. -/
structure Relinked (id : NodeId) (parent : Option NodeId) (place : NodeId)
    (list : List NodeId → List NodeId) (e e' : Editor) : Prop where
  size_eq : e'.nodes.size = e.nodes.size
  document_eq : e'.document = e.document
  root_eq : e'.root = e.root
  index_eq : e'.index = e.index
  own_eq : e'.own = e.own
  parent_self : (e'.node id).parent = parent
  parent_ne : ∀ i ≠ id, (e'.node i).parent = (e.node i).parent
  children_self : (e'.node place).children = list (e.node place).children
  children_ne : ∀ i ≠ place, (e'.node i).children = (e.node i).children

namespace Relinked

variable {id place : NodeId} {parent : Option NodeId} {list : List NodeId → List NodeId}

/-- Changing the parent of one node and the list of another links the nodes anew. -/
theorem of_modifyNode (hid : id < e.nodes.size) (hplace : place < e.nodes.size)
    (parent : Option NodeId) (list : List NodeId → List NodeId) :
  Relinked id parent place list e
    ((e.modifyNode id fun n => { n with parent }).modifyNode place
      fun n => { n with children := list n.children })
  := by
  have hplace' : place < (e.modifyNode id fun n => { n with parent }).nodes.size := by
    rw [size_modifyNode]
    exact hplace
  have hfirst (i : NodeId) : (e.modifyNode id fun n => { n with parent }).node i
      = { e.node i with parent := if i = id then parent else (e.node i).parent } := by
    by_cases hi : i = id
    · rw [if_pos hi, hi, node_modifyNode_self _ hid]
    · rw [if_neg hi, node_modifyNode_ne _ hi]
  generalize hparents : (e.modifyNode id fun n => { n with parent }) = parents at *
  have hnode (i : NodeId) : (parents.modifyNode place
      fun n => { n with children := list n.children }).node i
      = { item := (e.node i).item
          parent := if i = id then parent else (e.node i).parent
          children := if i = place then list (e.node i).children else (e.node i).children } := by
    by_cases hi : i = place
    · rw [if_pos hi, hi, node_modifyNode_self _ hplace', hfirst]
    · rw [if_neg hi, node_modifyNode_ne _ hi, hfirst]
  constructor
  case size_eq => rw [size_modifyNode, ← hparents, size_modifyNode]
  case document_eq =>
    rw [← hparents]
    rfl
  case root_eq =>
    rw [← hparents]
    rfl
  case index_eq =>
    rw [← hparents]
    rfl
  case own_eq =>
    funext i
    rw [own, hnode, own]
  case parent_self => rw [hnode, if_pos rfl]
  case parent_ne =>
    intro i hi
    rw [hnode, if_neg hi]
  case children_self => rw [hnode, if_pos rfl]
  case children_ne =>
    intro i hi
    rw [hnode, if_neg hi]

theorem key_eq (h : Relinked id parent place list e e') (i : NodeId) :
  (e'.node i).key = (e.node i).key
  := congrArg Item.key (congrFun h.own_eq i)

/-- A tree with neither of the two nodes stays held. -/
theorem holds (h : Relinked id parent place list e e') {above : Option NodeId}
    (ht : e.Holds above t) (hid : id ∉ t.ids) (hplace : place ∉ t.ids) :
  e'.Holds above t
  := by
  apply ht.congr (Nat.le_of_eq h.size_eq.symm)
  · intro i hi
    apply h.parent_ne i
    rintro rfl
    apply hid hi
  · intro i hi
    apply h.children_ne i
    rintro rfl
    apply hplace hi

/-- The tree below the node that has another parent stays held, under that parent. -/
theorem holds_top (h : Relinked u.top parent place list e e') {above : Option NodeId}
    (hu : e.Holds above u) (hnodup : u.ids.Nodup) (hplace : place ∉ u.ids) :
  e'.Holds parent u
  := by
  apply hu.reparent hnodup (Nat.le_of_eq h.size_eq.symm) h.parent_self
  · intro i _ hi
    apply h.parent_ne i hi
  · intro i hi
    apply h.children_ne i
    rintro rfl
    apply hplace hi

/-- A tree stays held, with other trees below the node whose list is changed, if they are held and
the list is that of their tops. -/
theorem holds_adjust (h : Relinked id parent place list e e') {above : Option NodeId}
    {f : List NodeTree → List NodeTree} {us : List NodeTree} (ht : e.Holds above t)
    (hnodup : t.ids.Nodup) (hid : id ∈ t.ids → id ∉ (t.adjust place f).ids)
    (hplace : Within (.node place us) t) (hlist : list (us.map top) = (f us).map top)
    (hbelow : ∀ u ∈ f us, e'.Holds (some place) u) :
  e'.Holds above (t.adjust place f)
  := by
  apply ht.adjust hnodup (Nat.le_of_eq h.size_eq.symm)
  · intro i hi hi'
    apply h.parent_ne i
    rintro rfl
    apply hid hi hi'
  · intro i _ _ hi
    apply h.children_ne i hi
  · intro vs hvs
    have hsame := (ht.within hvs).unique (ht.within hplace) rfl
    cases hsame
    have hlisted : (e.node place).children = us.map top := (ht.within hplace).children_top
    rw [h.children_self, hlisted]
    exact ⟨hlist, hbelow⟩

theorem stored (h : Relinked id parent place list e e') (hstored : ∀ i, Stored (e.node i))
    (hlist : (e.own place).isGroup = false → list [] = []) (i : NodeId) :
  Stored (e'.node i)
  := by
  have hitem : (e'.node i).item = (e.node i).item := congrFun h.own_eq i
  rw [Stored, hitem]
  use (hstored i).1
  intro hsingle
  have hnone := (hstored i).2 hsingle
  by_cases hi : i = place
  · subst hi
    rw [h.children_self, hnone]
    apply hlist hsingle
  · rw [h.children_ne i hi, hnone]

end Relinked

/-! ### Detached nodes -/

namespace Rooted

/-- A node but the root stands in the list of another node. -/
theorem exists_place (h : e.Rooted t) (hu : Within u t) (hroot : u.top ≠ e.root) :
  ∃ place us, Within (.node place us) t ∧ u ∈ us ∧ (e.node u.top).parent = some place
  := by
  rw [← h.top_eq] at hroot
  obtain ⟨w, hw, v, hv, htop⟩ := exists_mem_children hu.top_mem hroot
  obtain rfl : v = u := h.eq_of_top_eq (hw.of_mem_children hv) hu htop
  obtain ⟨place, us⟩ := w
  use place, us, hw, hv
  exact ((h.holds.within hw).of_mem_children hv).parent_top

/-- A node stands in the list of one node only. -/
theorem place_unique (h : e.Rooted t) {place id : NodeId} {us ts : List NodeTree} {v : NodeTree}
    (hplace : Within (.node place us) t) (hu : u ∈ us) (hts : Within (.node id ts) t) (hv : v ∈ ts)
    (htop : v.top = u.top) :
  id = place
  := by
  have hparent := ((h.holds.within hplace).of_mem_children hu).parent_top
  have hparent' := ((h.holds.within hts).of_mem_children hv).parent_top
  rw [htop, hparent] at hparent'
  exact (Option.some.inj hparent').symm

/-- The place of a node is not in the tree below the node. -/
theorem place_notMem (h : e.Rooted t) {place : NodeId} {us : List NodeTree}
    (hplace : Within (.node place us) t) (hu : u ∈ us) :
  place ∉ u.ids
  := top_notMem_children (hplace.nodup h.nodup) hu

theorem relinked_detach (h : e.Rooted t) {place : NodeId} {us : List NodeTree}
    (hplace : Within (.node place us) t) (hu : u ∈ us) :
  Relinked u.top none place (List.filter (· ≠ u.top)) e (e.detach u.top)
  := by
  have hparent := ((h.holds.within hplace).of_mem_children hu).parent_top
  have hlt := h.holds.lt_size (hplace.of_mem hu).top_mem
  rw [detach, hparent]
  apply Relinked.of_modifyNode hlt (h.holds.lt_size hplace.top_mem)

/-- The tree of the root stays held without a node that is detached. -/
theorem holds_detach (h : e.Rooted t) {place : NodeId} {us : List NodeTree}
    (hplace : Within (.node place us) t) (hu : u ∈ us) :
  (e.detach u.top).Holds none (t.prune place u.top)
  := by
  have hlinked := h.relinked_detach hplace hu
  have hheld := h.holds.within hplace
  have hnodup := hplace.nodup h.nodup
  rw [ids_node, List.nodup_cons] at hnodup
  apply hlinked.holds_adjust h.holds h.nodup _ hplace
  · rw [List.filter_map]
    rfl
  · intro v hv
    rw [List.mem_filter, decide_eq_true_eq] at hv
    apply hlinked.holds (hheld.of_mem_children hv.1)
    · intro hid
      have hne : v ≠ u := fun heq => hv.2 (congrArg top heq)
      apply disjoint_of_ne hnodup.2 hv.1 hu hne hid u.top_mem_ids
    · apply h.place_notMem hplace hv.1
  · intro _ hid
    apply (((ids_prune hplace h.nodup hu).2 _).mp hid).2 u.top_mem_ids

/-- A detached node keeps the tree below it. -/
theorem holds_detached (h : e.Rooted t) {place : NodeId} {us : List NodeTree}
    (hplace : Within (.node place us) t) (hu : u ∈ us) :
  (e.detach u.top).Holds none u
  := by
  apply (h.relinked_detach hplace hu).holds_top ((h.holds.within hplace).of_mem_children hu)
  · apply (hplace.of_mem hu).nodup h.nodup
  · apply h.place_notMem hplace hu

end Rooted

/-! ### Removal -/

namespace Laid

/-- The arena is laid out again when a node is detached and its tree is taken off the index. -/
theorem laid_prune (h : e.Laid t) {place : NodeId} {us : List NodeTree}
    (hplace : Within (.node place us) t) (hu : u ∈ us) {removed : List NodeId}
    (hremoved : ∀ id, id ∈ removed ↔ id ∈ u.ids) :
  ((e.detach u.top).unindexAll removed).Laid (t.prune place u.top)
  := by
  obtain ⟨hnodup, hids⟩ := ids_prune hplace h.nodup hu
  have hlinked := h.relinked_detach hplace hu
  obtain ⟨index, hunindex, hget⟩ := unindexAll_eq (e.detach u.top) removed
  rw [hunindex]
  refine {
    top_eq := ?top_eq
    holds := ?holds
    nodup := ?nodup
    stored := ?stored
    root_group := ?root_group
    index_iff := ?index_iff
    nested := ?nested }
  case top_eq =>
    rw [top_prune, h.top_eq]
    exact hlinked.root_eq.symm
  case holds =>
    apply (h.holds_detach hplace hu).congr
    · apply Nat.le_refl
    · intro id _
      rfl
    · intro id _
      rfl
  case nodup => exact hnodup
  case stored =>
    apply hlinked.stored h.stored
    intro _
    rfl
  case root_group =>
    have hgroup := h.root_group
    rw [← hlinked.own_eq, ← hlinked.root_eq] at hgroup
    exact hgroup
  case index_iff =>
    intro key id
    have hkey : ((e.detach u.top).node id).key = (e.node id).key := hlinked.key_eq id
    apply (hget key id).trans
    rw [hlinked.index_eq, h.index_iff, hids, hremoved, hkey, and_assoc, and_assoc]
    apply and_congr_right
    intro _
    constructor
    · rintro ⟨hsame, hnot⟩
      exact ⟨fun hid => hnot ⟨hid, hsame⟩, hkey.trans hsame⟩
    · rintro ⟨hnot, hsame⟩
      exact ⟨hkey.symm.trans hsame, fun hid => hnot hid.1⟩
  case nested =>
    intro id hid parent hparent
    obtain ⟨hid, hnot⟩ := (hids id).mp hid
    have hne : id ≠ u.top := by
      rintro rfl
      apply hnot u.top_mem_ids
    have hparent' := (hlinked.parent_ne id hne).symm.trans hparent
    apply (congrArg Key.parent (hlinked.key_eq id)).trans
    apply (h.nested id hid parent hparent').trans
    exact (hlinked.key_eq parent).symm

/-- When a node is detached and its tree is taken off the index, the survey of the arena is the
survey without the item of the node. -/
theorem survey_prune (h : e.Laid t) {place : NodeId} {us : List NodeTree}
    (hplace : Within (.node place us) t) (hu : u ∈ us) {removed : List NodeId}
    (hremoved : ∀ id, id ∈ removed ↔ id ∈ u.ids) :
  ((e.detach u.top).unindexAll removed).survey = e.survey.mapRoot (·.erase (e.node u.top).key)
  := by
  obtain ⟨index, hunindex, -⟩ := unindexAll_eq (e.detach u.top) removed
  apply h.survey_eq_mapRoot (h.laid_prune hplace hu hremoved)
  · rw [hunindex]
    exact (h.relinked_detach hplace hu).document_eq
  · have hown : ((e.detach u.top).unindexAll removed).own = e.own := by
      rw [hunindex]
      exact (h.relinked_detach hplace hu).own_eq
    have hkeys : ∀ id ∈ t.ids, (e.own id).key = (e.node u.top).key ↔ id = u.top := by
      intro id hid
      apply h.key_eq_iff hid (hplace.of_mem hu).top_mem
    rw [hown, item_prune hkeys, ← h.group_root]
    · rfl
    · intro id ts hts v hv htop
      apply h.place_unique hplace hu hts hv htop

/-- Removing an item agrees with removing it from the survey. -/
theorem remove (h : e.Laid t) (key : Key) :
  Agrees e ((Editor.remove key).run e) (e.survey.remove key)
  := by
  rw [Survey.remove, Editor.remove]
  apply Agrees.get
  apply Agrees.find (h.finds_locate key)
  intro u hu hfound
  have hkey : (e.node u.top).key = key := h.key_of_locate hfound
  have hroot : u.top = e.root ↔ key = e.survey.key := by
    rw [← hkey, h.key_eq_survey_key_iff hu.top_mem]
  simp only [hroot]
  by_cases hkeyroot : key = e.survey.key
  · rw [if_pos hkeyroot, if_pos hkeyroot]
    apply Agrees.error
  · rw [if_neg hkeyroot, if_neg hkeyroot]
    rw [← hroot] at hkeyroot
    obtain ⟨place, us, hplace, hmem, -⟩ := h.exists_place hu hkeyroot
    have hheld := h.holds_detached hplace hmem
    have hsubtree : ∀ id, id ∈ (e.detach u.top).subtree u.top ↔ id ∈ u.ids :=
      fun _ => (hheld.subtree_perm (hu.nodup h.nodup)).mem_iff
    have hsurvey := h.survey_prune hplace hmem hsubtree
    rw [hkey] at hsurvey
    simp only [h.materialize hu, ← hsurvey]
    exact Agrees.set (h.laid_prune hplace hmem hsubtree) _

end Laid

end Editor

end Questionnaire
