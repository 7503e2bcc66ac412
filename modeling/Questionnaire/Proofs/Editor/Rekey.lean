import Questionnaire.Proofs.Editor.Update
import Questionnaire.Proofs.Item.Levels

/-!
# Items that are given other keys

A plan says which keys the nodes of a subtree get.  It is made breadth first, and gives every node
but the first the key that follows from that of its parent, so that the item of the subtree is the
item with its new key.  Carrying out a plan whose keys are free keeps the arena laid out, if the new
key of the first node is one segment longer than that of its parent.

Carrying out a plan and redirecting the references both exchange the items of some nodes
(`Rewritten`), and leave the tree of the nodes as it is.
-/

namespace Questionnaire

open NodeTree

namespace NodeTree

variable {own : NodeId → Item}

/-- Trees below a node of the given key, each with the key that its top gets. -/
def childKeys (own : NodeId → Item) (key : Key) (us : List NodeTree) : List (Key × NodeTree) :=
  us.map fun u => (Key.child key (Key.leaf (own u.top).key), u)

theorem map_childKeys (key : Key) (us : List NodeTree) :
  (childKeys own key us).map (·.2) = us
  := by
  rw [childKeys, List.map_map]
  apply List.map_id'

/-- The numbers that are left when the first of some trees is visited. -/
theorem flatMap_ids_cons_perm (own : NodeId → Item) (key : Key) (id : NodeId) (us : List NodeTree)
    (rest : List (Key × NodeTree)) :
  ((((key, node id us) :: rest).map (·.2)).flatMap ids).Perm
    (id :: ((rest ++ childKeys own key us).map (·.2)).flatMap ids)
  := by
  rw [List.map_append, map_childKeys, List.map_cons, List.flatMap_cons, ids_node,
    List.flatMap_append]
  apply List.Perm.cons
  apply List.perm_append_comm

/-- The keys of some trees whose tops have the given keys, breadth first. -/
def assign (own : NodeId → Item) : List (Key × NodeTree) → List (NodeId × Key)
  | [] => []
  | (key, node id us) :: rest => (id, key) :: assign own (rest ++ childKeys own key us)
termination_by ts => ((ts.map (·.2)).flatMap ids).length
decreasing_by
  rw [List.map_append, map_childKeys]
  simp
  omega

/-- The keys in a plan are those of the items with their new keys. -/
theorem assign_keys {ts : List (Key × NodeTree)} (h : ∀ p ∈ ts, p.2.Fits own) :
  (assign own ts).map (·.2)
    = (Item.queue (ts.map fun p => (p.2.item own).rekey p.1)).map Item.key
  := by
  induction ts using assign.induct own with
  | case1 => rw [assign, List.map_nil, List.map_nil, Item.queue, List.map_nil]
  | case2 key id us rest ih =>
    have hfits := h (key, node id us) List.mem_cons_self
    have hrest : ∀ p ∈ rest ++ childKeys own key us, p.2.Fits own := by
      intro p hp
      rcases List.mem_append.mp hp with hp | hp
      · apply h p (List.mem_cons_of_mem _ hp)
      · obtain ⟨u, hu, rfl⟩ := List.mem_map.mp hp
        apply hfits.within (Within.deeper hu (Within.self u))
    have hchildren : (((node id us).item own).rekey key).children
        = (childKeys own key us).map fun p => (p.2.item own).rekey p.1 := by
      rw [Item.children_rekey, hfits.children_item, childKeys, List.map_map, List.map_map]
      apply List.map_congr_left
      intro u _
      rw [Function.comp_apply, Function.comp_apply, key_item]
    rw [assign, List.map_cons, ih hrest, List.map_cons, Item.queue, List.map_cons, Item.key_rekey,
      hchildren, List.map_append]

/-- A plan gives the tops of the trees their keys, and the nodes below a node the keys that follow
from that of the node. -/
theorem exists_keys (own : NodeId → Item) {ts : List (Key × NodeTree)}
    (h : ((ts.map (·.2)).flatMap ids).Nodup) :
  ∃ keys : NodeId → Key,
    assign own ts = (breadthFirst (ts.map (·.2))).map (fun id => (id, keys id))
      ∧ (∀ p ∈ ts, keys p.2.top = p.1)
      ∧ ∀ p ∈ ts, ∀ id us, Within (node id us) p.2 → ∀ v ∈ us,
        keys v.top = Key.child (keys id) (Key.leaf (own v.top).key)
  := by
  induction ts using assign.induct own with
  | case1 =>
    use fun _ => ""
    rw [assign, List.map_nil, breadthFirst]
    simp
  | case2 key id us rest ih =>
    rw [(flatMap_ids_cons_perm own key id us rest).nodup_iff, List.nodup_cons] at h
    obtain ⟨keys, hassign, htops, hbelow⟩ := ih h.2
    have hne {i : NodeId} {p : Key × NodeTree} (hp : p ∈ rest ++ childKeys own key us)
        (hi : i ∈ p.2.ids) : i ≠ id := by
      rintro rfl
      apply h.1 (List.mem_flatMap_of_mem (List.mem_map_of_mem hp) hi)
    obtain ⟨keys', hself, hother⟩ : ∃ keys' : NodeId → Key,
        keys' id = key ∧ ∀ i ≠ id, keys' i = keys i :=
      ⟨Function.update keys id key, Function.update_self .., fun _ h => Function.update_of_ne h ..⟩
    have hedge : ∀ p ∈ rest ++ childKeys own key us, ∀ i vs, Within (node i vs) p.2 → ∀ v ∈ vs,
        keys' v.top = Key.child (keys' i) (Key.leaf (own v.top).key) := by
      intro p hp i vs hvs v hv
      have hi : i ∈ p.2.ids := hvs.top_mem
      rw [hother i (hne hp hi), hother v.top (hne hp (hvs.of_mem hv).top_mem)]
      apply hbelow p hp i vs hvs v hv
    use keys'
    refine ⟨?_, ?_, ?_⟩
    · rw [assign, List.map_cons, breadthFirst, List.map_cons, hself, hassign, List.map_append,
        map_childKeys]
      congr 1
      apply List.map_congr_left
      intro i hi
      rw [← map_childKeys key us, ← List.map_append, (breadthFirst_perm _).mem_iff] at hi
      obtain ⟨t, ht, hi⟩ := List.mem_flatMap.mp hi
      obtain ⟨p, hp, rfl⟩ := List.mem_map.mp ht
      rw [hother i (hne hp hi)]
    · intro p hp
      rcases List.mem_cons.mp hp with rfl | hp
      · exact hself
      · have hp' := List.mem_append_left (childKeys own key us) hp
        rw [hother _ (hne hp' p.2.top_mem_ids), htops p hp']
    · intro p hp i vs hvs v hv
      rcases List.mem_cons.mp hp with rfl | hp
      · cases hvs with
        | self =>
          have hv' : (Key.child key (Key.leaf (own v.top).key), v) ∈ rest ++ childKeys own key us :=
            List.mem_append_right _ (List.mem_map_of_mem hv)
          rw [hself, hother _ (hne hv' v.top_mem_ids), htops _ hv']
        | deeper hw hvs =>
          apply hedge _ (List.mem_append_right _ (List.mem_map_of_mem hw)) i vs hvs v hv
      · apply hedge p (List.mem_append_left _ hp) i vs hvs v hv

end NodeTree

namespace Index

/-- The index after nodes are put into it, no two of them under one key. -/
theorem get?_foldl_insert {keys : NodeId → Key} {ids : List NodeId} (hkeys : (ids.map keys).Nodup)
    {index : Index} {key : Key} {i : NodeId} :
  (ids.foldl (fun index id => index.insert (keys id) id) index).get? key = some i
    ↔ (i ∈ ids ∧ keys i = key) ∨ (key ∉ ids.map keys ∧ index.get? key = some i)
  := by
  induction ids generalizing index with
  | nil => simp
  | cons id ids ih =>
    rw [List.map_cons, List.nodup_cons] at hkeys
    rw [List.foldl_cons, ih hkeys.2, get?_insert, List.mem_cons, List.map_cons, List.mem_cons,
      not_or]
    by_cases hkey : key = keys id
    · subst hkey
      simp only [if_true, Option.some.injEq, not_true, false_and, or_false]
      constructor
      · rintro (⟨hi, hsame⟩ | ⟨-, rfl⟩)
        · exact ⟨Or.inr hi, hsame⟩
        · exact ⟨Or.inl rfl, rfl⟩
      · rintro ⟨rfl | hi, hsame⟩
        · exact Or.inr ⟨hkeys.1, rfl⟩
        · exact Or.inl ⟨hi, hsame⟩
    · simp only [hkey, if_false, not_false_eq_true, true_and]
      apply or_congr_left
      constructor
      · rintro ⟨hi, hsame⟩
        exact ⟨Or.inr hi, hsame⟩
      · rintro ⟨rfl | hi, hsame⟩
        · exfalso
          apply hkey hsame.symm
        · exact ⟨hi, hsame⟩

end Index

namespace Editor

variable {e e' : Editor} {t u : NodeTree}

/-! ### Making a plan -/

/-- A plan that holds the keys of the parents is continued with the keys that follow from them. -/
theorem foldl_planKey {top' : NodeId} {new : Key} {plan : List (NodeId × Key)}
    {ts : List (Key × NodeTree)} (htop : top' ∈ plan.map (·.1))
    (hnodup : (plan.map (·.1) ++ (ts.map (·.2)).flatMap ids).Nodup)
    (hkeys : ∀ p ∈ ts, ∃ parent key, e.Holds (some parent) p.2 ∧ plan.lookup parent = some key
      ∧ p.1 = Key.child key (Key.leaf (e.own p.2.top).key)) :
  (breadthFirst (ts.map (·.2))).foldl (e.planKey top' new) plan = plan ++ assign e.own ts
  := by
  induction ts using assign.induct e.own generalizing plan with
  | case1 => rw [assign, List.map_nil, breadthFirst, List.foldl_nil, List.append_nil]
  | case2 key id us rest ih =>
    obtain ⟨parent, k, hheld, hlookup, hkey⟩ := hkeys (key, .node id us) List.mem_cons_self
    have hparent : (e.node id).parent = some parent := hheld.parent_top
    have hperm := (flatMap_ids_cons_perm e.own key id us rest).append_left (plan.map (·.1))
    have hnodup' : ((plan ++ [(id, key)]).map (·.1)
        ++ ((rest ++ childKeys e.own key us).map (·.2)).flatMap ids).Nodup := by
      rw [List.map_append, List.append_assoc]
      apply hperm.nodup_iff.mp hnodup
    have hid : id ∉ plan.map (·.1) := by
      intro hid
      rw [List.nodup_append] at hnodup
      apply hnodup.2.2 _ hid id _ rfl
      simp
    have hplan : e.planKey top' new plan id = plan ++ [(id, key)] := by
      have hne : id ≠ top' := by
        rintro rfl
        apply hid htop
      have hkey : key = Key.child k (Key.leaf (e.node id).key) := hkey
      rw [planKey, hparent, Option.bind_some, hlookup, hkey]
      simp only [if_neg hne]
    have hqueue : rest.map (·.2) ++ us = (rest ++ childKeys e.own key us).map (·.2) := by
      rw [List.map_append, map_childKeys]
    rw [List.map_cons, breadthFirst, List.foldl_cons, hplan, assign, hqueue,
      List.append_cons plan (id, key) (assign _ _)]
    apply ih
    · rw [List.map_append]
      apply List.mem_append_left _ htop
    · exact hnodup'
    · intro p hp
      rcases List.mem_append.mp hp with hp | hp
      · obtain ⟨q, k', hheld', hlookup', hkey'⟩ := hkeys p (List.mem_cons_of_mem _ hp)
        use q, k', hheld'
        rw [List.lookup_append, hlookup']
        exact ⟨rfl, hkey'⟩
      · obtain ⟨v, hv, rfl⟩ := List.mem_map.mp hp
        use id, key, hheld.of_mem_children hv
        have hnone : plan.lookup id = none := by
          rw [List.lookup_eq_none_iff]
          intro q hq
          rw [bne_iff_ne]
          rintro rfl
          apply hid (List.mem_map_of_mem hq)
        rw [List.lookup_append, hnone, Option.none_or, List.lookup_cons, beq_self_eq_true]
        exact ⟨rfl, rfl⟩

/-- The plan for a subtree gives its top the new key, and the other nodes the keys that follow. -/
theorem Holds.rekeyPlan {parent : Option NodeId} (h : e.Holds parent u) (hnodup : u.ids.Nodup)
    (new : Key) :
  e.rekeyPlan u.top new = assign e.own [(new, u)]
  := by
  obtain ⟨id, us⟩ := u
  have hfirst : e.planKey id new [] id = [(id, new)] := by
    rw [planKey]
    cases (e.node id).parent with
    | none => rfl
    | some q => rfl
  have hqueue : us = (childKeys e.own new us).map (·.2) := (map_childKeys new us).symm
  rw [Editor.rekeyPlan, h.subtree hnodup, breadthFirst, List.nil_append, List.foldl_cons, top,
    hfirst, assign, List.nil_append]
  rw [ids_node] at hnodup
  nth_rewrite 1 [hqueue]
  rw [foldl_planKey, List.singleton_append]
  · apply List.mem_cons_self
  · rw [map_childKeys]
    exact hnodup
  · intro p hp
    obtain ⟨v, hv, rfl⟩ := List.mem_map.mp hp
    use id, new, h.of_mem_children hv
    rw [List.lookup_cons, beq_self_eq_true]
    exact ⟨rfl, rfl⟩

/-! ### Nodes with other items -/

/-- An arena in which some nodes have another item, which `f` makes of the one that they had, and
apart from that all nodes are as they were. -/
structure Rewritten (f : NodeId → Item → Item) (ids : List NodeId) (e e' : Editor) : Prop where
  size_eq : e'.nodes.size = e.nodes.size
  root_eq : e'.root = e.root
  node_of_mem : ∀ id ∈ ids, e'.node id = { e.node id with item := f id (e.own id) }
  node_of_notMem : ∀ id, id ∉ ids → e'.node id = e.node id

namespace Rewritten

variable {f : NodeId → Item → Item} {ids ids' : List NodeId} {e'' : Editor}

/-- The nodes do not depend on the index. -/
theorem reindex (f : NodeId → Item → Item) (e : Editor) (index : Index) :
  Rewritten f [] e { e with index }
  := by
  refine ⟨rfl, rfl, ?_, fun _ _ => rfl⟩
  intro id hid
  cases hid

theorem modifyNode (f : NodeId → Item → Item) {id : NodeId} (hid : id < e.nodes.size) :
  Rewritten f [id] e (e.modifyNode id fun n => { n with item := f id n.item })
  := by
  refine ⟨size_modifyNode _ _ _, rfl, ?_, ?_⟩
  · intro i hi
    obtain rfl := List.mem_singleton.mp hi
    exact node_modifyNode_self _ hid
  · intro i hi
    exact node_modifyNode_ne _ (List.mem_singleton.not.mp hi)

theorem trans (h : Rewritten f ids e e') (h' : Rewritten f ids' e' e'')
    (hdisjoint : ids.Disjoint ids') :
  Rewritten f (ids ++ ids') e e''
  := by
  refine ⟨h'.size_eq.trans h.size_eq, h'.root_eq.trans h.root_eq, ?_, ?_⟩
  · intro id hid
    rcases List.mem_append.mp hid with hid | hid
    · rw [h'.node_of_notMem id (hdisjoint hid), h.node_of_mem id hid]
    · have hnode := h.node_of_notMem id fun hid' => hdisjoint hid' hid
      rw [h'.node_of_mem id hid, own, hnode]
      rfl
  · intro id hid
    rw [List.mem_append, not_or] at hid
    rw [h'.node_of_notMem id hid.2, h.node_of_notMem id hid.1]

/-- Steps that rewrite one node each rewrite all of them, if no node comes twice. -/
theorem foldl {step : Editor → NodeId → Editor}
    (hstep : ∀ e id, id < e.nodes.size → Rewritten f [id] e (step e id)) (hids : ids.Nodup)
    (hlt : ∀ id ∈ ids, id < e.nodes.size) :
  Rewritten f ids e (ids.foldl step e)
  := by
  induction ids generalizing e with
  | nil => apply reindex
  | cons id ids ih =>
    rw [List.nodup_cons] at hids
    have hfirst := hstep e id (hlt id List.mem_cons_self)
    apply hfirst.trans
    · apply ih hids.2
      intro i hi
      rw [hfirst.size_eq]
      apply hlt i (List.mem_cons_of_mem _ hi)
    · rw [List.singleton_disjoint]
      exact hids.1

theorem own_of_mem (h : Rewritten f ids e e') {id : NodeId} (hid : id ∈ ids) :
  e'.own id = f id (e.own id)
  := by
  rw [own, h.node_of_mem id hid]

theorem own_of_notMem (h : Rewritten f ids e e') {id : NodeId} (hid : id ∉ ids) :
  e'.own id = e.own id
  := by
  rw [own, h.node_of_notMem id hid, own]

theorem parent_eq (h : Rewritten f ids e e') (id : NodeId) :
  (e'.node id).parent = (e.node id).parent
  := by
  by_cases hid : id ∈ ids
  · rw [h.node_of_mem id hid]
  · rw [h.node_of_notMem id hid]

theorem children_eq (h : Rewritten f ids e e') (id : NodeId) :
  (e'.node id).children = (e.node id).children
  := by
  by_cases hid : id ∈ ids
  · rw [h.node_of_mem id hid]
  · rw [h.node_of_notMem id hid]

/-- What `f` leaves as it is stays in all nodes. -/
theorem own_eq {α : Type} {p : Item → α} (h : Rewritten f ids e e')
    (hp : ∀ id x, p (f id x) = p x) (id : NodeId) :
  p (e'.own id) = p (e.own id)
  := by
  by_cases hid : id ∈ ids
  · rw [h.own_of_mem hid, hp]
  · rw [h.own_of_notMem hid]

/-- The tree of the root stays when items are exchanged for items of the same kind, as long as the
index follows. -/
theorem rooted (h : Rewritten f ids e e') (ht : e.Rooted t)
    (hgroup : ∀ id x, (f id x).isGroup = x.isGroup)
    (hchildren : ∀ id x, (f id x).children = x.children)
    (hindex : ∀ key id, e'.index.get? key = some id ↔ id ∈ t.ids ∧ (e'.node id).key = key) :
  e'.Rooted t
  := by
  refine {
    top_eq := ?top_eq
    holds := ?holds
    nodup := ht.nodup
    stored := ?stored
    root_group := ?root_group
    index_iff := hindex }
  case top_eq => rw [h.root_eq, ht.top_eq]
  case holds =>
    apply ht.holds.congr (Nat.le_of_eq h.size_eq.symm)
    · intro id _
      apply h.parent_eq id
    · intro id _
      apply h.children_eq id
  case stored =>
    intro id
    have hstored := ht.stored id
    rw [Stored, ← own, h.own_eq hgroup, h.own_eq hchildren, h.children_eq]
    exact hstored
  case root_group =>
    rw [h.root_eq, h.own_eq hgroup]
    exact ht.root_group

end Rewritten

/-! ### Carrying out a plan -/

/-- Carrying out a plan gives its nodes their keys. -/
theorem rewritten_applyPlan (keys : NodeId → Key) {ids : List NodeId} (hids : ids.Nodup)
    (hlt : ∀ id ∈ ids, id < e.nodes.size) :
  Rewritten (fun id => Item.setKey (keys id)) ids e
    (e.applyPlan (ids.map fun id => (id, keys id)))
  := by
  obtain ⟨index, hunindex, -⟩ := unindexAll_eq e ((ids.map fun id => (id, keys id)).map (·.1))
  rw [Editor.applyPlan, hunindex, List.foldl_map]
  apply (Rewritten.reindex _ e index).trans _ (List.disjoint_nil_left ids)
  apply Rewritten.foldl (e := { e with index }) _ hids hlt
  intro e id hid
  have hindexed := Rewritten.reindex (fun id => Item.setKey (keys id)) e
    (e.index.insert (keys id) id)
  exact hindexed.trans (Rewritten.modifyNode _ hid) (List.disjoint_nil_left _)

theorem document_applyPlan (e : Editor) (plan : List (NodeId × Key)) :
  (e.applyPlan plan).document = e.document
  := by
  obtain ⟨index, hunindex, -⟩ := unindexAll_eq e (plan.map (·.1))
  rw [Editor.applyPlan, hunindex]
  generalize hstart : ({ e with index } : Editor) = start
  have hdocument : start.document = e.document := by rw [← hstart]
  rw [← hdocument]
  clear hstart hdocument hunindex
  induction plan generalizing start with
  | nil => rfl
  | cons p plan ih => exact ih (start.setKey p.1 p.2)

/-- After a plan is carried out, the index leads from its keys to its nodes, and from no key that
its nodes had before unless the plan has that key too. -/
theorem get?_applyPlan (e : Editor) (keys : NodeId → Key) {ids : List NodeId}
    (hkeys : (ids.map keys).Nodup) (key : Key) (id : NodeId) :
  (e.applyPlan (ids.map fun id => (id, keys id))).index.get? key = some id
    ↔ (id ∈ ids ∧ keys id = key)
      ∨ (key ∉ ids.map keys
        ∧ e.index.get? key = some id ∧ ¬ (id ∈ ids ∧ (e.node id).key = key))
  := by
  have hfst : (ids.map fun id => (id, keys id)).map (·.1) = ids := by
    rw [List.map_map]
    apply List.map_id'
  obtain ⟨index, hunindex, hget⟩ := unindexAll_eq e ids
  have hfold : (ids.foldl (fun (e : Editor) id => e.setKey id (keys id)) { e with index }).index
      = ids.foldl (fun index id => index.insert (keys id) id) index :=
    (List.foldl_hom Editor.index fun _ _ => rfl).symm
  rw [Editor.applyPlan, hfst, hunindex, List.foldl_map, hfold, Index.get?_foldl_insert hkeys, hget]

/-- A plan with keys that are free keeps the tree of the root. -/
theorem Rooted.applyPlan (h : e.Rooted t) {keys : NodeId → Key} {ids : List NodeId}
    (hids : ids.Nodup) (hsub : ∀ id ∈ ids, id ∈ t.ids) (hkeys : (ids.map keys).Nodup)
    (hfree : ∀ id ∈ t.ids, id ∉ ids → (e.node id).key ∉ ids.map keys) :
  (e.applyPlan (ids.map fun id => (id, keys id))).Rooted t
  := by
  have hlt : ∀ id ∈ ids, id < e.nodes.size := fun id hid => h.holds.lt_size (hsub id hid)
  have hrewritten := rewritten_applyPlan keys hids hlt
  apply hrewritten.rooted h
  · intro id x
    apply Item.isGroup_setKey
  · intro id x
    apply Item.children_setKey
  intro key id
  rw [get?_applyPlan e keys hkeys, h.index_iff]
  by_cases hid : id ∈ ids
  · have hkey : ((e.applyPlan (ids.map fun id => (id, keys id))).node id).key = keys id := by
      rw [hrewritten.node_of_mem id hid]
      apply Item.key_setKey
    rw [hkey]
    constructor
    · rintro (⟨-, hsame⟩ | ⟨-, ⟨-, hsame⟩, hne⟩)
      · exact ⟨hsub id hid, hsame⟩
      · exfalso
        apply hne ⟨hid, hsame⟩
    · rintro ⟨-, hsame⟩
      exact Or.inl ⟨hid, hsame⟩
  · rw [hrewritten.node_of_notMem id hid]
    constructor
    · rintro (⟨hid', -⟩ | ⟨-, hmem, -⟩)
      · exfalso
        apply hid hid'
      · exact hmem
    · rintro ⟨hmem, rfl⟩
      exact Or.inr ⟨hfree id hmem hid, ⟨hmem, rfl⟩, fun hid' => hid hid'.1⟩

/-- The plan for a subtree lists its nodes; its keys are those of the item of the subtree with its
new key, breadth first. -/
theorem Laid.exists_plan (h : e.Laid t) (hu : Within u t) (new : Key) :
  ∃ keys : NodeId → Key,
    e.rekeyPlan u.top new = (breadthFirst [u]).map (fun id => (id, keys id))
      ∧ (breadthFirst [u]).map keys = ((u.item e.own).rekey new).breadthFirst.map Item.key
      ∧ keys u.top = new
      ∧ ∀ id us, Within (.node id us) u → ∀ v ∈ us,
        keys v.top = Key.child (keys id) (Key.leaf (e.node v.top).key)
  := by
  have hnodup := hu.nodup h.nodup
  have hforest : ((([(new, u)] : List (Key × NodeTree)).map (·.2)).flatMap ids).Nodup := by
    simpa using hnodup
  have hfits : ∀ p ∈ ([(new, u)] : List (Key × NodeTree)), p.2.Fits e.own := by
    intro p hp
    rw [List.mem_singleton] at hp
    rw [hp]
    apply h.fits.within hu
  obtain ⟨keys, hassign, htop, hbelow⟩ := exists_keys e.own hforest
  have hkeys := assign_keys hfits
  rw [hassign, List.map_map, List.map_singleton, List.map_singleton] at hkeys
  use keys
  refine ⟨((h.holds.within hu).rekeyPlan hnodup new).trans hassign, ?_, ?_, ?_⟩
  · rw [Item.breadthFirst_eq, ← hkeys]
    rfl
  · exact htop _ List.mem_cons_self
  · exact hbelow _ List.mem_cons_self

/-- The keys of a tree are nested if those of a subtree follow from a new key of its top, which
is nested itself, and the others stay and are nested apart from that of the top. -/
theorem Rooted.nested_of_keys (h : e.Rooted t) (hu : Within u t) {keys : NodeId → Key}
    (hparent : ∀ id, (e'.node id).parent = (e.node id).parent)
    (hnew : ∀ id ∈ u.ids, (e'.node id).key = keys id)
    (hold : ∀ id, id ∉ u.ids → (e'.node id).key = (e.node id).key)
    (hbelow : ∀ id us, Within (.node id us) u → ∀ v ∈ us,
      keys v.top = Key.child (keys id) (Key.leaf (e.node v.top).key))
    (hnested : ∀ id ∈ t.ids, id ≠ u.top → ∀ parent, (e.node id).parent = some parent →
      Key.parent (e.node id).key = (e.node parent).key)
    (htop : ∀ parent, (e.node u.top).parent = some parent →
      Key.parent (keys u.top) = (e.node parent).key) :
  ∀ id ∈ t.ids, ∀ parent, (e'.node id).parent = some parent →
    Key.parent (e'.node id).key = (e'.node parent).key
  := by
  intro id hid parent hp
  rw [hparent] at hp
  obtain ⟨⟨q, ws⟩, hw, rfl, v, hv, rfl⟩ := h.exists_parent hid hp
  have hv : v ∈ ws := hv
  rw [top] at hp ⊢
  by_cases hq : q ∈ u.ids
  · obtain ⟨ts, hts⟩ := exists_within hq
    obtain rfl : ts = ws := by
      have hsame := h.eq_of_top_eq (hts.trans hu) hw rfl
      cases hsame
      rfl
    rw [hnew _ (hts.of_mem hv).top_mem, hnew q hq, hbelow q ts hts v hv, Key.parent_child_leaf]
  · rw [hold q hq]
    by_cases hvtop : v.top = u.top
    · rw [hvtop, hnew _ u.top_mem_ids]
      rw [hvtop] at hp
      apply htop q hp
    · have hvmem : v.top ∉ u.ids := by
        intro hvmem
        obtain ⟨⟨q', ws'⟩, hw', v', hv', hsame⟩ := exists_mem_children hvmem hvtop
        apply hq
        rw [← h.place_unique hw hv (hw'.trans hu) hv' hsame]
        exact hw'.top_mem
      rw [hold _ hvmem]
      apply hnested _ hid hvtop q hp

/-- The items of a subtree have the keys that follow from a new key of its top, and are otherwise as
they were, as are the items outside. -/
structure Rekeyed (e e' : Editor) (u : NodeTree) (new : Key) : Prop where
  inside : ∃ keys : NodeId → Key, keys u.top = new
    ∧ (∀ id us, Within (.node id us) u → ∀ v ∈ us,
      keys v.top = Key.child (keys id) (Key.leaf (e.node v.top).key))
    ∧ ∀ id ∈ u.ids, e'.own id = (e.own id).setKey (keys id)
  outside : ∀ id, id ∉ u.ids → e'.own id = e.own id

/-- Giving the nodes of a subtree the keys that follow from a new key of its top makes a layout of a
tree that, apart from the top, was nested before, and gives the item of the subtree its new key. -/
theorem Rooted.rekey (h : e.Rooted t) (hu : Within u t) {keys : NodeId → Key}
    (hkeys : ((breadthFirst [u]).map keys).Nodup)
    (hfree : ∀ id ∈ t.ids, id ∉ u.ids → (e.node id).key ∉ (breadthFirst [u]).map keys)
    (hbelow : ∀ id us, Within (.node id us) u → ∀ v ∈ us,
      keys v.top = Key.child (keys id) (Key.leaf (e.node v.top).key))
    (hnested : ∀ id ∈ t.ids, id ≠ u.top → ∀ parent, (e.node id).parent = some parent →
      Key.parent (e.node id).key = (e.node parent).key)
    (htop : ∀ parent, (e.node u.top).parent = some parent →
      Key.parent (keys u.top) = (e.node parent).key) :
  (e.applyPlan ((breadthFirst [u]).map fun id => (id, keys id))).Laid t
    ∧ (e.applyPlan ((breadthFirst [u]).map fun id => (id, keys id))).document = e.document
    ∧ u.item (e.applyPlan ((breadthFirst [u]).map fun id => (id, keys id))).own
      = (u.item e.own).rekey (keys u.top)
    ∧ Rekeyed e (e.applyPlan ((breadthFirst [u]).map fun id => (id, keys id))) u (keys u.top)
  := by
  have hperm : (breadthFirst [u]).Perm u.ids := by
    simpa using breadthFirst_perm [u]
  have hids : (breadthFirst [u]).Nodup := hperm.nodup_iff.mpr (hu.nodup h.nodup)
  have hmem {id : NodeId} : id ∈ breadthFirst [u] ↔ id ∈ u.ids := hperm.mem_iff
  have hsub : ∀ id ∈ breadthFirst [u], id ∈ t.ids := by
    intro id hid
    apply hu.ids_subset (hmem.mp hid)
  have hfree' : ∀ id ∈ t.ids, id ∉ breadthFirst [u] →
      (e.node id).key ∉ (breadthFirst [u]).map keys := by
    intro id hid hnot
    apply hfree id hid (hmem.not.mp hnot)
  have hrooted := h.applyPlan hids hsub hkeys hfree'
  have hdocument := document_applyPlan e ((breadthFirst [u]).map fun id => (id, keys id))
  have hrewritten := rewritten_applyPlan keys hids fun id hid => h.holds.lt_size (hsub id hid)
  generalize e.applyPlan ((breadthFirst [u]).map fun id => (id, keys id)) = planned at *
  have hown : ∀ id ∈ u.ids, planned.own id = (e.own id).setKey (keys id) := by
    intro id hid
    apply hrewritten.own_of_mem (hmem.mpr hid)
  have hkeep : ∀ id, id ∉ u.ids → planned.own id = e.own id := by
    intro id hid
    apply hrewritten.own_of_notMem (hmem.not.mpr hid)
  refine ⟨⟨hrooted, ?_⟩, hdocument, ?_, ⟨keys, rfl, hbelow, hown⟩, hkeep⟩
  · apply h.nested_of_keys hu hrewritten.parent_eq _ _ hbelow hnested htop
    · intro id hid
      apply (congrArg Item.key (hown id hid)).trans
      apply Item.key_setKey
    · intro id hid
      exact congrArg Item.key (hkeep id hid)
  · rw [← item_setKey]
    · apply item_congr hown
    · exact hbelow

/-! ### References -/

/-- The nodes of the index are those of the tree, each once. -/
theorem Rooted.index_nodes (h : e.Rooted t) :
  e.index.nodes.Nodup ∧ ∀ id, id ∈ e.index.nodes ↔ id ∈ t.ids
  := by
  constructor
  · apply (List.Nodup.of_map _ e.index.distinct).map_on
    rintro ⟨key, id⟩ hentry ⟨key', id'⟩ hentry' rfl
    obtain ⟨-, rfl⟩ := (h.index_iff key id).mp (Index.mem_entries_iff.mp hentry)
    obtain ⟨-, rfl⟩ := (h.index_iff key' id).mp (Index.mem_entries_iff.mp hentry')
    rfl
  · intro id
    rw [Index.mem_nodes_iff]
    constructor
    · rintro ⟨key, hkey⟩
      exact ((h.index_iff key id).mp hkey).1
    · intro hid
      use (e.node id).key, (h.index_iff _ id).mpr ⟨hid, rfl⟩

/-- Redirecting the references visits the nodes of the tree. -/
theorem Rooted.rewritten_redirect (h : e.Rooted t) (old new : Key) :
  Rewritten (fun _ => Item.redirectOwn old new) e.index.nodes e (e.redirect old new)
  := by
  obtain ⟨hnodup, hnodes⟩ := h.index_nodes
  have hfold : Rewritten (fun _ => Item.redirectOwn old new) e.index.nodes e
      (e.index.nodes.foldl (fun e id => e.modifyNode id
        fun n => { n with item := n.item.redirectOwn old new }) e) := by
    apply Rewritten.foldl _ hnodup
    · intro id hid
      apply h.holds.lt_size ((hnodes id).mp hid)
    · intro e id hid
      apply Rewritten.modifyNode _ hid
  exact ⟨hfold.size_eq, hfold.root_eq, hfold.node_of_mem, hfold.node_of_notMem⟩

theorem index_redirect (e : Editor) (old new : Key) :
  (e.redirect old new).index = e.index
  := by
  rw [Editor.redirect]
  generalize e.index.nodes = ids
  induction ids generalizing e with
  | nil => rfl
  | cons id ids ih => exact ih (e.modifyNode id _)

theorem document_redirect (e : Editor) (old new : Key) :
  (e.redirect old new).document = e.document.mapRules (Expression.redirect old new)
  := by
  rw [Editor.redirect]
  generalize e.index.nodes = ids
  induction ids generalizing e with
  | nil => rfl
  | cons id ids ih => exact ih (e.modifyNode id _)

/-- Redirecting the references keeps the arena laid out, and redirects them in its survey. -/
theorem Laid.redirect (h : e.Laid t) (old new : Key) :
  (e.redirect old new).Laid t ∧ (e.redirect old new).survey = e.survey.redirect old new
    ∧ (∀ u, Within u t → u.item (e.redirect old new).own = (u.item e.own).redirect old new)
    ∧ ∀ id ∈ t.ids, (e.redirect old new).own id = (e.own id).redirectOwn old new
  := by
  have hrewritten := h.rewritten_redirect old new
  have hkey (id : NodeId) : ((e.redirect old new).node id).key = (e.node id).key :=
    hrewritten.own_eq (fun _ => Item.key_redirectOwn old new) id
  have hown : ∀ id ∈ t.ids, (e.redirect old new).own id = (e.own id).redirectOwn old new := by
    intro id hid
    apply hrewritten.own_of_mem ((h.index_nodes.2 id).mpr hid)
  have hitem : ∀ u, Within u t →
      u.item (e.redirect old new).own = (u.item e.own).redirect old new := by
    intro u hu
    rw [← item_redirectOwn]
    apply item_congr
    intro id hid
    apply hown id (hu.ids_subset hid)
  have hlaid : (e.redirect old new).Laid t := by
    refine ⟨hrewritten.rooted h.toRooted ?_ ?_ ?_, ?_⟩
    · intro _ x
      apply Item.isGroup_redirectOwn
    · intro _ x
      apply Item.children_redirectOwn
    · intro key id
      rw [index_redirect, hkey, h.index_iff]
    · intro id hid parent hp
      rw [hrewritten.parent_eq] at hp
      rw [hkey, hkey]
      apply h.nested id hid parent hp
  refine ⟨hlaid, ?_, hitem, hown⟩
  have hroot : t.item (e.redirect old new).own = .group (e.survey.root.redirect old new) := by
    rw [hitem t (Within.self t), ← h.group_root]
    rfl
  rw [hlaid.survey_eq_of_item hroot, document_redirect, Survey.redirect,
    h.survey_eq_of_item h.group_root.symm]
  rfl

end Editor

end Questionnaire
