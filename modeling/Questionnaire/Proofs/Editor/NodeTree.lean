import Mathlib.Data.List.Nodup
import Mathlib.Data.List.Pairwise
import Questionnaire.Proofs.Item.Tree

/-!
# Trees of node numbers

The nodes of an arena that the root leads to form a tree.  A `NodeTree` is such a tree of numbers,
and `NodeTree.item` is the item that it stands for, given the items of the single nodes.  The nodes
of a tree are adjusted by changing the list of trees below one of them.
-/

namespace Questionnaire

/-- A tree of node numbers. -/
inductive NodeTree where
  | node (id : NodeId) (children : List NodeTree)

namespace NodeTree

/-- The number at the top. -/
def top : NodeTree → NodeId
  | node id _ => id

/-- The trees below the top. -/
def children : NodeTree → List NodeTree
  | node _ ts => ts

/-- A property holds of every tree if it holds of a tree when it holds of the trees below its
top. -/
@[elab_as_elim]
theorem induct {P : NodeTree → Prop}
    (node : ∀ id ts, (∀ t ∈ ts, P t) → P (node id ts)) (t : NodeTree) :
  P t
  := by
  match t with
  | .node id ts =>
    apply node
    intro u hu
    apply induct node u
termination_by sizeOf t
decreasing_by
  have h := List.sizeOf_lt_of_mem hu
  simp only [NodeTree.node.sizeOf_spec]
  omega

mutual

/-- Puts a tree together from the top of every tree in it and what comes of the trees below. -/
def fold {α : Type} (f : NodeId → List α → α) : NodeTree → α
  | node id ts => f id (foldAll f ts)

/-- What comes of some trees. -/
def foldAll {α : Type} (f : NodeId → List α → α) : List NodeTree → List α
  | [] => []
  | t :: ts => t.fold f :: foldAll f ts

end

theorem foldAll_eq {α : Type} (f : NodeId → List α → α) (ts : List NodeTree) :
  foldAll f ts = ts.map (fold f)
  := by
  induction ts with
  | nil => rfl
  | cons t ts ih => rw [foldAll, ih, List.map_cons]

theorem fold_node {α : Type} (f : NodeId → List α → α) (id : NodeId) (ts : List NodeTree) :
  (node id ts).fold f = f id (ts.map (fold f))
  := by
  rw [fold, foldAll_eq]

/-- The numbers of a tree, each before those below it. -/
def ids : NodeTree → List NodeId := fold fun id below => id :: below.flatten

/-- The item of a tree, from the items of its nodes. -/
def item (own : NodeId → Item) : NodeTree → Item := fold fun id items => (own id).withItems items

/-- The tree in which the list of trees below the node `at` is changed. -/
def adjust (place : NodeId) (f : List NodeTree → List NodeTree) : NodeTree → NodeTree :=
  fold fun id ts => node id (if id = place then f ts else ts)

@[simp]
theorem ids_node (id : NodeId) (ts : List NodeTree) :
  (node id ts).ids = id :: ts.flatMap ids
  := by
  rw [ids, fold_node]
  rfl

@[simp]
theorem item_node (own : NodeId → Item) (id : NodeId) (ts : List NodeTree) :
  (node id ts).item own = (own id).withItems (ts.map (item own))
  := fold_node _ id ts

@[simp]
theorem adjust_node (place : NodeId) (f : List NodeTree → List NodeTree) (id : NodeId)
    (ts : List NodeTree) :
  (node id ts).adjust place f
    = node id (if id = place then f (ts.map (adjust place f)) else ts.map (adjust place f))
  := fold_node _ id ts

theorem top_mem_ids (t : NodeTree) :
  t.top ∈ t.ids
  := by
  cases t with
  | node id ts => simp [top]

theorem mem_ids_of_mem {t : NodeTree} {ts : List NodeTree} {i : NodeId} (id : NodeId)
    (ht : t ∈ ts) (hi : i ∈ t.ids) :
  i ∈ (node id ts).ids
  := by
  rw [ids_node]
  apply List.mem_cons_of_mem _ (List.mem_flatMap_of_mem ht hi)

@[simp]
theorem top_adjust (place : NodeId) (f : List NodeTree → List NodeTree) (t : NodeTree) :
  (t.adjust place f).top = t.top
  := by
  cases t with
  | node id ts => simp [top]

@[simp]
theorem key_item (own : NodeId → Item) (t : NodeTree) :
  (t.item own).key = (own t.top).key
  := by
  cases t with
  | node id ts => simp [top]

@[simp]
theorem isGroup_item (own : NodeId → Item) (t : NodeTree) :
  (t.item own).isGroup = (own t.top).isGroup
  := by
  cases t with
  | node id ts => simp [top]

/-- The item of a tree depends on the items of its own nodes alone. -/
theorem item_congr {own own' : NodeId → Item} {t : NodeTree}
    (h : ∀ id ∈ t.ids, own' id = own id) :
  t.item own' = t.item own
  := by
  induction t using induct with
  | node id ts ih =>
    rw [item_node, item_node, h id (by simp)]
    congr 1
    apply List.map_congr_left
    intro t ht
    apply ih t ht
    intro i hi
    apply h i (mem_ids_of_mem id ht hi)

/-! ### Subtrees -/

/-- The trees in a tree: it and those below its top, at any depth. -/
inductive Within : NodeTree → NodeTree → Prop where
  | self (t : NodeTree) : Within t t
  | deeper {u t : NodeTree} {id : NodeId} {ts : List NodeTree} (ht : t ∈ ts) (h : Within u t) :
    Within u (node id ts)

theorem Within.trans {u t v : NodeTree} (h : Within u t) (h' : Within t v) :
  Within u v
  := by
  induction h' with
  | self => exact h
  | deeper ht _ ih => apply Within.deeper ht ih

theorem Within.ids_subset {u t : NodeTree} (h : Within u t) :
  u.ids ⊆ t.ids
  := by
  induction h with
  | self => apply List.Subset.refl
  | deeper ht _ ih =>
    intro i hi
    apply mem_ids_of_mem _ ht (ih hi)

/-- Every number of a tree is the top of a tree in it. -/
theorem exists_within {t : NodeTree} {id : NodeId} (h : id ∈ t.ids) :
  ∃ ts, Within (node id ts) t
  := by
  induction t using induct with
  | node i ts ih =>
    rw [ids_node, List.mem_cons] at h
    rcases h with rfl | h
    · use ts
      apply Within.self
    · obtain ⟨t, ht, hid⟩ := List.mem_flatMap.mp h
      obtain ⟨us, hus⟩ := ih t ht hid
      use us
      apply Within.deeper ht hus

theorem Within.of_mem_children {u v t : NodeTree} (hv : v ∈ u.children) (h : Within u t) :
  Within v t
  := by
  obtain ⟨id, ts⟩ := u
  apply Within.trans (Within.deeper hv (Within.self v)) h

theorem Within.of_mem {u t : NodeTree} {id : NodeId} {us : List NodeTree}
    (h : Within (node id us) t) (hu : u ∈ us) :
  Within u t
  := by
  apply Within.of_mem_children _ h
  exact hu

theorem Within.top_mem {u t : NodeTree} (h : Within u t) :
  u.top ∈ t.ids
  := h.ids_subset u.top_mem_ids

/-- Every number of a tree but that of its top stands on top of a tree below another number. -/
theorem exists_mem_children {t : NodeTree} {id : NodeId} (h : id ∈ t.ids) (htop : id ≠ t.top) :
  ∃ u, Within u t ∧ ∃ v ∈ u.children, v.top = id
  := by
  induction t using induct with
  | node i ts ih =>
    rw [ids_node, List.mem_cons] at h
    rcases h with h | h
    · exfalso
      apply htop h
    · obtain ⟨t, ht, hid⟩ := List.mem_flatMap.mp h
      by_cases heq : id = t.top
      · use node i ts, Within.self _, t, ht
        rw [heq]
      · obtain ⟨u, hu, v, hv, hvid⟩ := ih t ht hid heq
        use u, Within.deeper ht hu, v, hv

theorem Within.nodup {u t : NodeTree} (h : Within u t) (ht : t.ids.Nodup) :
  u.ids.Nodup
  := by
  induction h with
  | self => exact ht
  | deeper hmem _ ih =>
    rw [ids_node, List.nodup_cons, List.nodup_flatMap] at ht
    apply ih (ht.2.1 _ hmem)

/-- The number of the top does not come again below. -/
theorem top_notMem_children {t u : NodeTree} (ht : t.ids.Nodup) (hu : u ∈ t.children) :
  t.top ∉ u.ids
  := by
  obtain ⟨id, ts⟩ := t
  rw [ids_node, List.nodup_cons] at ht
  intro h
  apply ht.1 (List.mem_flatMap_of_mem hu h)

/-- Of trees without repeated numbers, no two share a number. -/
theorem disjoint_of_ne {ts : List NodeTree} (hnodup : (ts.flatMap ids).Nodup) {t u : NodeTree}
    (ht : t ∈ ts) (hu : u ∈ ts) (hne : t ≠ u) :
  t.ids.Disjoint u.ids
  := by
  have hsymm : Std.Symm (Function.onFun List.Disjoint ids) := ⟨fun _ _ h _ hu ht => h ht hu⟩
  exact (List.nodup_flatMap.mp hnodup).2.forall ht hu hne

/-- Only the nodes of groups have nodes below them. -/
def Fits (own : NodeId → Item) (t : NodeTree) : Prop :=
  ∀ id ts, Within (node id ts) t → (own id).isGroup = true ∨ ts = []

theorem Fits.within {own : NodeId → Item} {u t : NodeTree} (h : t.Fits own) (hu : Within u t) :
  u.Fits own
  := by
  intro id ts hts
  apply h id ts (hts.trans hu)

theorem Fits.children_item {own : NodeId → Item} {t : NodeTree} (h : t.Fits own) :
  (t.item own).children = t.children.map (item own)
  := by
  obtain ⟨id, ts⟩ := t
  rw [item_node]
  apply Item.children_withItems
  rcases h id ts (Within.self _) with hgroup | rfl
  · left
    exact hgroup
  · right
    rfl

/-- The keys of the item of a tree are those of its nodes. -/
theorem Fits.keys_item {own : NodeId → Item} {t : NodeTree} (h : t.Fits own) :
  (t.item own).keys = t.ids.map fun id => (own id).key
  := by
  induction t using induct with
  | node id ts ih =>
    rw [Item.keys_eq, h.children_item, key_item, top, children, ids_node, List.map_cons,
      List.map_flatMap, List.flatMap_map]
    congr 1
    apply List.flatMap_congr
    intro t ht
    apply ih t ht (h.within (Within.deeper ht (Within.self t)))

/-- The items in the subtree of the item of a tree are those of the trees in it. -/
theorem mem_subtree_item_iff {own : NodeId → Item} {t : NodeTree} (hfits : t.Fits own) {x : Item} :
  x ∈ (t.item own).subtree ↔ ∃ u, Within u t ∧ u.item own = x
  := by
  induction t using induct with
  | node id ts ih =>
    have hchild {v : NodeTree} (hv : v ∈ ts) :
        x ∈ (v.item own).subtree ↔ ∃ u, Within u v ∧ u.item own = x :=
      ih v hv (hfits.within (Within.deeper hv (Within.self v)))
    rw [Item.subtree_eq, hfits.children_item, List.mem_cons, List.flatMap_map, List.mem_flatMap]
    constructor
    · rintro (rfl | ⟨v, hv, hx⟩)
      · use node id ts, Within.self _
      · obtain ⟨u, hu, rfl⟩ := (hchild hv).mp hx
        use u, Within.deeper hv hu
    · rintro ⟨u, hu, rfl⟩
      cases hu with
      | self =>
        left
        rfl
      | deeper hv hu =>
        right
        refine ⟨_, hv, (hchild hv).mpr ?_⟩
        use u

/-! ### Adjusting one node -/

theorem adjust_of_notMem {place : NodeId} {f : List NodeTree → List NodeTree} {t : NodeTree}
    (h : place ∉ t.ids) :
  t.adjust place f = t
  := by
  induction t using induct with
  | node id ts ih =>
    rw [ids_node, List.mem_cons, not_or] at h
    have hts : ts.map (adjust place f) = ts := by
      apply Eq.trans _ (List.map_id' ts)
      apply List.map_congr_left
      intro t ht
      apply ih t ht
      intro hp
      apply h.2 (List.mem_flatMap_of_mem ht hp)
    rw [adjust_node, hts, if_neg (Ne.symm h.1)]

theorem adjust_id (place : NodeId) (t : NodeTree) :
  t.adjust place id = t
  := by
  induction t using induct with
  | node i ts ih =>
    rw [adjust_node, id, ite_self]
    congr 1
    apply Eq.trans _ (List.map_id' ts)
    apply List.map_congr_left
    exact ih

theorem map_adjust_of_notMem {place : NodeId} {f : List NodeTree → List NodeTree}
    {ts : List NodeTree} (h : place ∉ ts.flatMap ids) :
  ts.map (adjust place f) = ts
  := by
  apply Eq.trans _ (List.map_id' ts)
  apply List.map_congr_left
  intro t ht
  apply adjust_of_notMem
  intro hp
  apply h (List.mem_flatMap_of_mem ht hp)

/-- An adjusted node stands in the adjusted tree. -/
theorem Within.adjust {place : NodeId} {us : List NodeTree} {t : NodeTree}
    (h : Within (node place us) t) (ht : t.ids.Nodup) (f : List NodeTree → List NodeTree) :
  Within (node place (f us)) (t.adjust place f)
  := by
  induction h with
  | self =>
    rw [ids_node, List.nodup_cons] at ht
    rw [adjust_node, if_pos rfl, map_adjust_of_notMem ht.1]
    apply Within.self
  | @deeper t id ts hmem h ih =>
    rw [ids_node, List.nodup_cons] at ht
    have hne : id ≠ place := by
      rintro rfl
      apply ht.1 (List.mem_flatMap_of_mem hmem h.top_mem)
    rw [adjust_node, if_neg hne]
    apply Within.deeper (List.mem_map_of_mem hmem)
    apply ih ((List.nodup_flatMap.mp ht.2).1 t hmem)

/-- In a tree without repeated numbers, adjusting a node exchanges the numbers of the trees below
it and leaves the other numbers. -/
theorem ids_adjust_perm {place : NodeId} {us : List NodeTree} {t : NodeTree}
    (h : Within (node place us) t) (ht : t.ids.Nodup) :
  ∃ rest, t.ids.Perm (rest ++ us.flatMap ids)
    ∧ ∀ f, (t.adjust place f).ids.Perm (rest ++ (f us).flatMap ids)
  := by
  induction h with
  | self =>
    rw [ids_node, List.nodup_cons] at ht
    use [place]
    constructor
    · rw [ids_node, List.singleton_append]
    · intro f
      rw [adjust_node, if_pos rfl, map_adjust_of_notMem ht.1, ids_node, List.singleton_append]
  | @deeper t id ts hmem h ih =>
    have hplace : place ∈ t.ids := h.ids_subset (top_mem_ids _)
    obtain ⟨before, after, rfl⟩ := List.append_of_mem hmem
    simp only [ids_node, List.flatMap_append, List.flatMap_cons, List.nodup_cons,
      List.nodup_append, List.mem_append, not_or] at ht
    obtain ⟨⟨-, hid, -⟩, -, ⟨hnodup, -, hafter⟩, hbefore⟩ := ht
    obtain ⟨rest, hrest, hadjust⟩ := ih hnodup
    use id :: (before.flatMap ids ++ after.flatMap ids ++ rest)
    have key (l l' : List NodeId) (hl : l.Perm (rest ++ l')) :
        (id :: (before.flatMap ids ++ (l ++ after.flatMap ids))).Perm
          (id :: (before.flatMap ids ++ after.flatMap ids ++ rest) ++ l') := by
      simp only [List.cons_append, List.append_assoc]
      apply List.Perm.cons
      apply List.Perm.append_left
      apply List.perm_append_comm.trans
      apply hl.append_left
    constructor
    · rw [ids_node, List.flatMap_append, List.flatMap_cons]
      apply key _ _ hrest
    · intro f
      have hne : id ≠ place := by
        rintro rfl
        apply hid hplace
      have hb : place ∉ before.flatMap ids := by
        intro hp
        apply hbefore _ hp _ (Or.inl hplace) rfl
      have ha : place ∉ after.flatMap ids := by
        intro hp
        apply hafter _ hplace _ hp rfl
      rw [adjust_node, if_neg hne, List.map_append, List.map_cons, map_adjust_of_notMem hb,
        map_adjust_of_notMem ha, ids_node, List.flatMap_append, List.flatMap_cons]
      apply key _ _ (hadjust f)

theorem map_top_sublist (ts : List NodeTree) :
  (ts.map top).Sublist (ts.flatMap ids)
  := by
  induction ts with
  | nil => apply List.Sublist.refl
  | cons t ts ih =>
    obtain ⟨id, us⟩ := t
    rw [List.map_cons, List.flatMap_cons, ids_node, List.cons_append]
    apply List.Sublist.cons_cons
    apply ih.trans (List.sublist_append_right _ _)

/-! ### Taking a subtree out -/

/-- The tree without the trees below the node `place` that have the node `target` on top. -/
def prune (place target : NodeId) : NodeTree → NodeTree :=
  adjust place (List.filter fun u => u.top ≠ target)

theorem top_prune (place target : NodeId) (t : NodeTree) :
  (t.prune place target).top = t.top
  := top_adjust place _ t

/-- Of trees without repeated numbers, only one has a given number on top. -/
theorem perm_cons_filter {us : List NodeTree} {u : NodeTree} (hnodup : (us.flatMap ids).Nodup)
    (hu : u ∈ us) :
  us.Perm (u :: us.filter fun v => v.top ≠ u.top)
  := by
  obtain ⟨before, after, rfl⟩ := List.append_of_mem hu
  rw [List.flatMap_append, List.flatMap_cons, List.nodup_append, List.nodup_append] at hnodup
  obtain ⟨-, ⟨-, -, hafter⟩, hbefore⟩ := hnodup
  have hb : ∀ v ∈ before, v.top ≠ u.top := by
    intro v hv
    apply hbefore _ (List.mem_flatMap_of_mem hv v.top_mem_ids) _
      (List.mem_append_left _ u.top_mem_ids)
  have ha : ∀ v ∈ after, v.top ≠ u.top := by
    intro v hv
    apply Ne.symm
    apply hafter _ u.top_mem_ids _ (List.mem_flatMap_of_mem hv v.top_mem_ids)
  have hfilter : (before ++ u :: after).filter (fun v => v.top ≠ u.top) = before ++ after := by
    rw [List.filter_append, List.filter_cons_of_neg (by simp),
      List.filter_eq_self.mpr (by simpa using hb), List.filter_eq_self.mpr (by simpa using ha)]
  rw [hfilter]
  apply List.perm_middle

/-- Taking a tree out of the list below a node takes its numbers out. -/
theorem ids_prune_perm {place : NodeId} {us : List NodeTree} {t u : NodeTree}
    (h : Within (node place us) t) (ht : t.ids.Nodup) (hu : u ∈ us) :
  t.ids.Perm ((t.prune place u.top).ids ++ u.ids)
  := by
  have hnodup : (us.flatMap ids).Nodup := by
    have hnode := h.nodup ht
    rw [ids_node, List.nodup_cons] at hnode
    exact hnode.2
  obtain ⟨rest, hrest, hadjust⟩ := ids_adjust_perm h ht
  apply hrest.trans
  apply (((perm_cons_filter hnodup hu).flatMap_right ids).append_left rest).trans
  rw [List.flatMap_cons]
  apply (List.perm_append_comm.append_left rest).trans
  rw [← List.append_assoc]
  apply (hadjust _).symm.append_right

/-- The numbers that are left when a tree is taken out are those that are not in it, each once. -/
theorem ids_prune {place : NodeId} {us : List NodeTree} {t u : NodeTree}
    (h : Within (node place us) t) (ht : t.ids.Nodup) (hu : u ∈ us) :
  (t.prune place u.top).ids.Nodup
    ∧ ∀ id, id ∈ (t.prune place u.top).ids ↔ id ∈ t.ids ∧ id ∉ u.ids
  := by
  have hids := ids_prune_perm h ht hu
  have hnodup := ht
  rw [hids.nodup_iff, List.nodup_append] at hnodup
  use hnodup.1
  intro id
  rw [hids.mem_iff, List.mem_append]
  constructor
  · intro hid
    use Or.inl hid
    intro hid'
    apply hnodup.2.2 _ hid _ hid' rfl
  · rintro ⟨hid | hid, hnot⟩
    · exact hid
    · exfalso
      apply hnot hid

/-- A list of trees that is added to those below a node adds its numbers to those of the tree. -/
theorem ids_adjust_perm_append {t u : NodeTree} {f : List NodeTree → List NodeTree}
    {vs : List NodeTree} (hu : Within u t) (ht : t.ids.Nodup)
    (hperm : (f u.children).Perm (vs ++ u.children)) :
  (t.adjust u.top f).ids.Perm (vs.flatMap ids ++ t.ids)
  := by
  obtain ⟨id, us⟩ := u
  obtain ⟨rest, hrest, hadjust⟩ := ids_adjust_perm hu ht
  apply (hadjust f).trans
  apply ((hperm.flatMap_right ids).append_left rest).trans
  rw [List.flatMap_append, ← List.append_assoc]
  apply (List.perm_append_comm.append_right _).trans
  rw [List.append_assoc]
  apply hrest.symm.append_left

end NodeTree

end Questionnaire
