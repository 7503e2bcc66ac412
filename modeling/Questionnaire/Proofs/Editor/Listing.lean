import Questionnaire.Proofs.Editor.References

/-!
# Subtrees that are listed, and plans made along the lists

The nodes below a node are listed by a loop that reads the list while it grows: what the node that
is read lists comes to the end (`Editor.listFrom`).  In an arbitrary arena the loop may have no end,
since a node may lead back to itself (`listFrom_eq_none_of_cycle`).  Where the arena holds a tree,
it ends with the numbers of the tree, breadth first, and so with every node behind its parent.

The keys of a subtree are planned along this list.  When the turn of a node comes, the plan has the
key of its parent already, so that none but the top gets the new key itself.
-/

namespace Questionnaire

open NodeTree

/-- Breadth first, a number comes behind that of the node above it, unless it is at the top. -/
theorem NodeTree.exists_parent_before {ts : List NodeTree} {before after : List NodeId}
    {id : NodeId} (h : breadthFirst ts = before ++ id :: after) (htop : ∀ t ∈ ts, t.top ≠ id) :
  ∃ t ∈ ts, ∃ u, Within u t ∧ u.top ∈ before ∧ ∃ v ∈ u.children, v.top = id
  := by
  induction ts using breadthFirst.induct generalizing before with
  | case1 =>
    rw [breadthFirst] at h
    cases List.append_ne_nil_of_right_ne_nil before (List.cons_ne_nil id after) h.symm
  | case2 i us ts ih =>
    rw [breadthFirst] at h
    cases before with
    | nil =>
      exfalso
      apply htop (node i us) List.mem_cons_self
      exact (List.cons.inj h).1
    | cons j before =>
      rw [List.cons_append, List.cons.injEq] at h
      obtain ⟨rfl, h⟩ := h
      by_cases hus : ∃ u ∈ us, u.top = id
      · exact ⟨node i us, List.mem_cons_self, node i us, Within.self _, List.mem_cons_self, hus⟩
      · have htop' : ∀ t ∈ ts ++ us, t.top ≠ id := by
          intro t ht hid
          rcases List.mem_append.mp ht with ht | ht
          · apply htop t (List.mem_cons_of_mem _ ht) hid
          · apply hus ⟨t, ht, hid⟩
        obtain ⟨t, ht, u, hu, hbefore, hv⟩ := ih h htop'
        have hbefore' := List.mem_cons_of_mem i hbefore
        rcases List.mem_append.mp ht with ht | ht
        · exact ⟨t, List.mem_cons_of_mem _ ht, u, hu, hbefore', hv⟩
        · exact ⟨node i us, List.mem_cons_self, u, Within.deeper ht hu, hbefore', hv⟩

namespace Editor

variable {e : Editor} {t u : NodeTree}

/-! ### The loop -/

/-- Reads a list of nodes from position `next` on, and puts what each of them lists at the end;
gives the list when all of it has been read.  There is no result if that never happens. -/
def listFrom (e : Editor) (ordered : List NodeId) (next : Nat) : Option (List NodeId) :=
  if h : next < ordered.length then
    e |>.listFrom (ordered ++ (e.node ordered[next]).children) (next + 1)
  else some ordered
partial_fixpoint

/-- The loop has no end if, of some nodes each of which lists another, one is still to be read. -/
theorem listFrom_eq_none {s : Set NodeId} (hs : ∀ id ∈ s, ∃ child ∈ (e.node id).children, child ∈ s)
    {ordered : List NodeId} {next : Nat} (hnext : ∃ id ∈ ordered.drop next, id ∈ s) :
  e.listFrom ordered next = none
  := by
  rw [Option.eq_none_iff_forall_ne_some]
  intro ids hids
  -- By induction on a run that ends: after every round such a node is still to be read.
  refine listFrom.partial_correctness e
    (fun ordered next _ => ¬ ∃ id ∈ ordered.drop next, id ∈ s) ?_ ordered next ids hids hnext
  rintro listFrom ih ordered next ids hids ⟨id, hid, hmem⟩
  have hlt : next < ordered.length := by
    by_contra hle
    rw [List.drop_eq_nil_of_le (Nat.le_of_not_lt hle)] at hid
    cases hid
  rw [dif_pos hlt] at hids
  apply ih _ _ _ hids
  rw [List.drop_append_of_le_length hlt]
  rw [List.drop_eq_getElem_cons hlt, List.mem_cons] at hid
  rcases hid with rfl | hid
  · obtain ⟨child, hchild, hmem⟩ := hs _ hmem
    exact ⟨child, List.mem_append_right _ hchild, hmem⟩
  · exact ⟨id, List.mem_append_left _ hid, hmem⟩

/-- The nodes below a node that leads back to itself are listed without end. -/
theorem listFrom_eq_none_of_cycle {id : NodeId}
    (h : Relation.TransGen (fun i child => child ∈ (e.node i).children) id id) :
  e.listFrom [id] 0 = none
  := by
  apply listFrom_eq_none (s := {i | e.Reaches i id})
  · intro i hi
    rcases hi.cases_head with rfl | ⟨child, hchild, hreaches⟩
    · obtain ⟨child, hchild, hreaches⟩ := Relation.TransGen.head'_iff.mp h
      exact ⟨child, hchild, hreaches⟩
    · exact ⟨child, hchild, hreaches⟩
  · exact ⟨id, List.mem_cons_self, Relation.ReflTransGen.refl⟩

/-- A round of the loop. -/
theorem listFrom_append_cons (e : Editor) (read : List NodeId) (id : NodeId) (rest : List NodeId) :
  e.listFrom (read ++ id :: rest) read.length
    = e.listFrom (read ++ [id] ++ (rest ++ (e.node id).children)) (read ++ [id]).length
  := by
  have hlt : read.length < (read ++ id :: rest).length := by simp
  have hnext : (read ++ id :: rest)[read.length] = id := by simp
  have hgrown : read ++ id :: rest ++ (e.node id).children
      = read ++ [id] ++ (rest ++ (e.node id).children) := by simp
  rw [listFrom, dif_pos hlt, hnext, hgrown, List.length_append, List.length_singleton]

/-- From the tops of some trees on, the loop lists the numbers of the trees, breadth first. -/
theorem listFrom_tops {ts : List NodeTree} (h : ∀ t ∈ ts, ∃ parent, e.Holds parent t)
    (read : List NodeId) :
  e.listFrom (read ++ ts.map top) read.length = some (read ++ breadthFirst ts)
  := by
  induction ts using breadthFirst.induct generalizing read with
  | case1 =>
    rw [listFrom, breadthFirst]
    simp
  | case2 id us ts ih =>
    obtain ⟨parent, hnode⟩ := h (.node id us) List.mem_cons_self
    have hchildren : (e.node id).children = us.map top := hnode.children_top
    have hqueue : ∀ t ∈ ts ++ us, ∃ parent, e.Holds parent t := by
      intro t ht
      rcases List.mem_append.mp ht with ht | ht
      · exact h t (List.mem_cons_of_mem _ ht)
      · exact ⟨some id, hnode.of_mem_children ht⟩
    rw [List.map_cons, top, listFrom_append_cons, hchildren, ← List.map_append, ih hqueue,
      breadthFirst, List.append_assoc, List.singleton_append]

/-- The loop ends in a tree that the arena holds. -/
theorem Holds.listFrom {parent : Option NodeId} (h : e.Holds parent u) (hnodup : u.ids.Nodup) :
  e.listFrom [u.top] 0 = some (e.subtree u.top)
  := by
  rw [h.subtree hnodup]
  exact listFrom_tops (List.forall_mem_singleton.mpr ⟨parent, h⟩) []

/-! ### The list -/

/-- A node and the nodes below it are listed, all of them and in order. -/
structure Listed (e : Editor) (id : NodeId) : Prop where
  /-- The loop that makes the list ends. -/
  ends : e.listFrom [id] 0 = some (e.subtree id)
  /-- The node itself comes first. -/
  first : e.subtree id = id :: e.descendants id
  /-- The list has the nodes that the node leads to, each once, and no others. -/
  nodup : (e.subtree id).Nodup
  mem_iff : ∀ below, below ∈ e.subtree id ↔ e.Reaches id below
  /-- All other nodes come behind their parents. -/
  parent_before : ∀ before below after, e.subtree id = before ++ below :: after → below ≠ id →
    ∃ parent ∈ before, (e.node below).parent = some parent
      ∧ below ∈ (e.node parent).children

/-- The nodes of a subtree are listed, each behind its parent. -/
theorem Holds.listed {parent : Option NodeId} (h : e.Holds parent u) (hnodup : u.ids.Nodup) :
  e.Listed u.top
  := by
  have hsubtree := h.subtree hnodup
  refine ⟨h.listFrom hnodup, ?_, ?_, ?_, ?_⟩
  · obtain ⟨id, us⟩ := u
    rw [descendants, hsubtree, breadthFirst]
    rfl
  · exact (h.subtree_perm hnodup).nodup_iff.mpr hnodup
  · intro id
    rw [(h.subtree_perm hnodup).mem_iff]
    exact h.mem_ids_iff
  · intro before id after hid hne
    rw [hsubtree] at hid
    have htop : ∀ v ∈ [u], v.top ≠ id := List.forall_mem_singleton.mpr hne.symm
    obtain ⟨v, hv, w, hw, hbefore, x, hx, rfl⟩ := exists_parent_before hid htop
    obtain rfl := List.mem_singleton.mp hv
    have hheld := h.within hw
    refine ⟨w.top, hbefore, (hheld.of_mem_children hx).parent_top, ?_⟩
    rw [hheld.children_top]
    exact List.mem_map_of_mem hx

/-! ### The plan -/

/-- Planning the keys of some nodes adds an entry for each of them to the plan. -/
theorem exists_foldl_planKey_eq (e : Editor) (id : NodeId) (new : Key) (ids : List NodeId)
    (plan : List (NodeId × Key)) :
  ∃ added, ids.foldl (e.planKey id new) plan = plan ++ added ∧ added.map (·.1) = ids
  := by
  induction ids generalizing plan with
  | nil =>
    use []
    simp
  | cons i ids ih =>
    obtain ⟨key, hkey⟩ : ∃ key, e.planKey id new plan i = plan ++ [(i, key)] := ⟨_, rfl⟩
    obtain ⟨added, hadded, rfl⟩ := ih (plan ++ [(i, key)])
    use (i, key) :: added
    rw [List.foldl_cons, hkey, hadded, List.append_assoc, List.singleton_append, List.map_cons]
    exact ⟨rfl, rfl⟩

/-- The plan that the nodes in front of another one have made is the front of the whole plan. -/
theorem foldl_planKey_of_rekeyPlan {keys : NodeId → Key} {id : NodeId} {new : Key}
    (hplan : e.rekeyPlan id new = (e.subtree id).map fun i => (i, keys i))
    {before after : List NodeId} (hsplit : e.subtree id = before ++ after) :
  before.foldl (e.planKey id new) [] = before.map fun i => (i, keys i)
  := by
  obtain ⟨front, hfront, hbefore⟩ := e.exists_foldl_planKey_eq id new before []
  obtain ⟨back, hback, -⟩ := e.exists_foldl_planKey_eq id new after front
  rw [List.nil_append] at hfront
  rw [rekeyPlan, hsplit, List.foldl_append, hfront, hback, List.map_append] at hplan
  rw [hfront]
  have hlength := congrArg List.length hbefore
  apply (List.append_inj hplan _).1
  rwa [List.length_map] at hlength ⊢

/-- The plan for a new key of a node gives the nodes of the subtree the keys `keys`, each made from
the one that the plan has for the parent. -/
structure Planned (e : Editor) (id : NodeId) (new : Key) (keys : NodeId → Key) : Prop where
  plan_eq : e.rekeyPlan id new = (e.subtree id).map fun i => (i, keys i)
  first : keys id = new
  /-- When the turn of a node below comes, the plan has the key of its parent, and the key of the
  node is made from it. -/
  child : ∀ before below after, e.subtree id = before ++ below :: after → below ≠ id →
    ∃ parent, (e.node below).parent = some parent
      ∧ (before.foldl (e.planKey id new) []).lookup parent = some (keys parent)
      ∧ keys below = Key.child (keys parent) (Key.leaf (e.node below).key)
  /-- If neither the old key of the node is empty nor the new one, no two nodes get the same. -/
  distinct : (e.node id).key ≠ "" → new ≠ "" → ((e.rekeyPlan id new).map (·.2)).Nodup

/-- The keys of a subtree are planned, each from that of the parent. -/
theorem Laid.exists_planned (h : e.Laid t) (hu : Within u t) (new : Key) :
  ∃ keys, e.Planned u.top new keys
  := by
  have hheld := h.holds.within hu
  have hnodup := hu.nodup h.nodup
  have hlisted := hheld.listed hnodup
  obtain ⟨keys, hplan, -, htop, hbelow⟩ := h.exists_plan hu new
  rw [← hheld.subtree hnodup] at hplan
  use keys
  refine ⟨hplan, htop, ?_, ?_⟩
  · intro before id after hid hne
    obtain ⟨parent, hbefore, hparent, hchild⟩ := hlisted.parent_before before id after hid hne
    refine ⟨parent, hparent, ?_, ?_⟩
    · rw [foldl_planKey_of_rekeyPlan hplan hid]
      exact List.lookup_graph keys hbefore
    · have hmem : parent ∈ u.ids := by
        rw [← (hheld.subtree_perm hnodup).mem_iff, hid]
        exact List.mem_append_left _ hbefore
      obtain ⟨us, hus, hchildren⟩ := hheld.exists_children hmem
      rw [hchildren] at hchild
      obtain ⟨v, hv, rfl⟩ := List.mem_map.mp hchild
      exact hbelow parent us hus v hv
  · intro hne hnew
    rw [hplan, List.map_map]
    apply hlisted.nodup.map_on
    intro i hi j hj hkey
    rw [(hheld.subtree_perm hnodup).mem_iff] at hi hj
    rw [Function.comp_apply, Function.comp_apply, h.keys_eq_rebase hu hne hnew htop hbelow hi,
      h.keys_eq_rebase hu hne hnew htop hbelow hj] at hkey
    apply h.eq_of_key_eq (hu.ids_subset hi) (hu.ids_subset hj)
    exact Key.eq_of_rebase_eq (h.isWithin_of_mem_of_ne hu hne hi).2
      (h.isWithin_of_mem_of_ne hu hne hj).2 hkey

/-- In a reachable editor the nodes below a node are listed by a loop that ends, each once and
behind its parent; and the plan for a new key of the node makes the key of every node below from
that of its parent. -/
theorem Reachable.listed_and_planned (h : Reachable e) {id : NodeId} (hid : e.Reaches e.root id) :
  e.Listed id ∧ ∀ new, ∃ keys, e.Planned id new keys
  := by
  obtain ⟨t, ht⟩ := h.laid
  rw [← ht.top_eq, ← ht.holds.mem_ids_iff] at hid
  obtain ⟨us, hu⟩ := exists_within hid
  exact ⟨(ht.holds.within hu).listed (hu.nodup ht.nodup), ht.exists_planned hu⟩

/-- A group that has been moved into a group added later stands behind that group, though its number
is lower. -/
theorem listed_and_planned_moved :
  let e := ((((Editor.new.serve (.add { isGroup := true } "g" none none)).2.serve
    (.add { isGroup := false } "q" (some "survey.g") none)).2.serve
    (.add { isGroup := true } "h" none none)).2.serve (.move "survey.g" "survey.h")).2
  e.Reaches e.root 3
    ∧ e.listFrom [3] 0 = some [3, 1, 2]
    ∧ e.Listed 3
    ∧ e.rekeyPlan 3 "survey.k" = [(3, "survey.k"), (1, "survey.k.g"), (2, "survey.k.g.q")]
    ∧ (∃ keys, e.Planned 3 "survey.k" keys)
    ∧ ((e.rekeyPlan 3 "survey.k").map (·.2)).Nodup
  := by
  intro e
  have hreachable : Reachable e :=
    (((Reachable.new.served _).served _).served _).served _
  have hid : e.Reaches e.root 3 := Relation.ReflTransGen.single (by decide)
  obtain ⟨hlisted, hplanned⟩ := Reachable.listed_and_planned hreachable hid
  obtain ⟨keys, hkeys⟩ := hplanned "survey.k"
  refine ⟨hid, ?_, hlisted, ?_, ⟨keys, hkeys⟩, hkeys.distinct ?_ ?_⟩
  · rw [hlisted.ends]
    rfl
  · decide
  · decide
  · decide

end Editor

end Questionnaire
