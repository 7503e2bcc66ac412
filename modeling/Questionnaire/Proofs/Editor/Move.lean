import Questionnaire.Proofs.Editor.Rename

/-!
# Moved items

Moving an item detaches its node, lists it at the end of another group, and then carries out a plan
for its subtree.  Between the first step and the last the tree of the root stands, and only the key
of the moved node does not follow from that of its parent.
-/

namespace Questionnaire

open NodeTree

namespace NodeTree

/-- The tree in which `u` no longer stands below the node `place`, but at the end of the trees below
the node `group`. -/
def transfer (place group : NodeId) (t u : NodeTree) : NodeTree :=
  (t.prune place u.top).adjust group (insertAt none u)

variable {place group : NodeId} {us : List NodeTree} {t u : NodeTree}

theorem mem_ids_prune_of_notMem (hplace : Within (node place us) t) (hnodup : t.ids.Nodup)
    (hu : u ∈ us) (hgroup : group ∈ t.ids) (houtside : group ∉ u.ids) :
  group ∈ (t.prune place u.top).ids
  := ((ids_prune hplace hnodup hu).2 group).mpr ⟨hgroup, houtside⟩

/-- A tree has the same numbers when a tree in it stands elsewhere. -/
theorem ids_transfer_perm (hplace : Within (node place us) t) (hnodup : t.ids.Nodup) (hu : u ∈ us)
    (hgroup : group ∈ t.ids) (houtside : group ∉ u.ids) :
  (t.transfer place group u).ids.Perm t.ids
  := by
  obtain ⟨ws, hws⟩ := exists_within (mem_ids_prune_of_notMem hplace hnodup hu hgroup houtside)
  have hperm : (insertAt none u ws).Perm ([u] ++ ws) := insertAt_perm none u ws
  apply (ids_adjust_perm_append hws (ids_prune hplace hnodup hu).1 hperm).trans
  rw [List.flatMap_singleton]
  apply List.perm_append_comm.trans (ids_prune_perm hplace hnodup hu).symm

/-- The tree that is taken elsewhere stands last where it is now. -/
theorem exists_within_transfer (hplace : Within (node place us) t) (hnodup : t.ids.Nodup)
    (hu : u ∈ us) (hgroup : group ∈ t.ids) (houtside : group ∉ u.ids) :
  ∃ vs, Within (node group (vs ++ [u])) (t.transfer place group u)
  := by
  obtain ⟨ws, hws⟩ := exists_within (mem_ids_prune_of_notMem hplace hnodup hu hgroup houtside)
  have hlists := hws.adjust (ids_prune hplace hnodup hu).1 (insertAt none u)
  rw [insertAt_none] at hlists
  exact ⟨ws, hlists⟩

end NodeTree

namespace Editor

variable {e : Editor} {t u : NodeTree} {place group : NodeId} {us : List NodeTree}

/-! ### Listing a detached node -/

theorem relinked_append {id : NodeId} (hid : id < e.nodes.size) (hgroup : group < e.nodes.size) :
  Relinked id (some group) group (· ++ [id]) e (e.append id group)
  := Relinked.of_modifyNode hid hgroup (some group) (· ++ [id])

/-- Two trees that an arena holds become one when the top of the second is listed in the first. -/
theorem Holds.append (h : e.Holds none t) (hu : e.Holds none u)
    (hnodup : (t.ids ++ u.ids).Nodup) (hgroup : group ∈ t.ids) :
  (e.append u.top group).Holds none (t.adjust group (insertAt none u))
  := by
  rw [List.nodup_append] at hnodup
  obtain ⟨hnodup, hnodup', hdisjoint⟩ := hnodup
  have hapart : ∀ id ∈ t.ids, id ∉ u.ids := fun id hid hid' => hdisjoint id hid id hid' rfl
  have hlinked := relinked_append (hu.lt_size u.top_mem_ids) (h.lt_size hgroup)
  obtain ⟨ws, hws⟩ := exists_within hgroup
  apply hlinked.holds_adjust h hnodup _ hws
  · rw [map_insertAt, insertAt_none]
  · intro v hv
    rcases mem_insertAt.mp hv with rfl | hv
    · apply hlinked.holds_top hu hnodup' (hapart group hgroup)
    · apply hlinked.holds ((h.within hws).of_mem_children hv)
      · intro hid
        apply hapart _ ((hws.of_mem hv).ids_subset hid) u.top_mem_ids
      · apply top_notMem_children (hws.nodup hnodup) hv
  · intro hid
    exfalso
    apply hapart _ hid u.top_mem_ids

namespace Rooted

variable (h : e.Rooted t) (hplace : Within (.node place us) t) (hu : u ∈ us)
  (hgroup : group ∈ t.ids)

include h hplace hu hgroup

/-- A node that is detached and listed by another one has another parent, and the items and the
other parents are as they were. -/
theorem relocate_eq :
  ((e.detach u.top).append u.top group).own = e.own
    ∧ ((e.detach u.top).append u.top group).document = e.document
    ∧ (((e.detach u.top).append u.top group).node u.top).parent = some group
    ∧ ∀ id ≠ u.top,
      (((e.detach u.top).append u.top group).node id).parent = (e.node id).parent
  := by
  have hdetached := h.relinked_detach hplace hu
  have hlt : ∀ id ∈ t.ids, id < (e.detach u.top).nodes.size := by
    intro id hid
    rw [hdetached.size_eq]
    apply h.holds.lt_size hid
  have hlisted := relinked_append (hlt _ (hplace.of_mem hu).top_mem) (hlt _ hgroup)
  refine ⟨?_, ?_, hlisted.parent_self, ?_⟩
  · rw [hlisted.own_eq, hdetached.own_eq]
  · rw [hlisted.document_eq, hdetached.document_eq]
  · intro id hid
    rw [hlisted.parent_ne id hid, hdetached.parent_ne id hid]

/-- A node of the tree of the root that is detached and listed by a group outside its own tree stays
a node of the tree. -/
theorem relocate (houtside : group ∉ u.ids) (hisGroup : (e.own group).isGroup = true) :
  ((e.detach u.top).append u.top group).Rooted (t.transfer place group u)
  := by
  have hdetached := h.relinked_detach hplace hu
  have hgroup' := mem_ids_prune_of_notMem hplace h.nodup hu hgroup houtside
  have hrest := h.holds_detach hplace hu
  have hheld := h.holds_detached hplace hu
  have hlisted := relinked_append (hheld.lt_size u.top_mem_ids) (hrest.lt_size hgroup')
  have hids := ids_prune_perm hplace h.nodup hu
  have hids' := ids_transfer_perm hplace h.nodup hu hgroup houtside
  constructor
  case top_eq =>
    rw [transfer, top_adjust, top_prune, h.top_eq, hlisted.root_eq, hdetached.root_eq]
  case holds => apply hrest.append hheld (hids.nodup_iff.mp h.nodup) hgroup'
  case nodup => apply hids'.nodup_iff.mpr h.nodup
  case stored =>
    apply hlisted.stored
    · apply hdetached.stored h.stored
      intro _
      rfl
    · intro hsingle
      rw [hdetached.own_eq, hisGroup] at hsingle
      cases hsingle
  case root_group =>
    rw [hlisted.own_eq, hlisted.root_eq, hdetached.own_eq, hdetached.root_eq]
    exact h.root_group
  case index_iff =>
    intro key id
    rw [hlisted.index_eq, hdetached.index_eq, h.index_iff, hids'.mem_iff, hlisted.key_eq,
      hdetached.key_eq]

/-- The item of the tree of the root in which a subtree stands elsewhere is that of the survey in
which the item of the subtree is erased and put at the end of the other group, also if the items of
the nodes of the subtree are changed. -/
theorem item_transfer {own' : NodeId → Item} (hsame : ∀ id, id ∉ u.ids → own' id = e.own id) :
  (t.transfer place group u).item own'
    = .group ((e.survey.root.erase (e.node u.top).key).mapItemsAt (e.node group).key
        (insertAt none (u.item own')))
  := by
  obtain ⟨-, hids⟩ := ids_prune hplace h.nodup hu
  have hkeys : ∀ id ∈ t.ids, (e.own id).key = (e.node u.top).key ↔ id = u.top := by
    intro id hid
    apply h.key_eq_iff hid (hplace.of_mem hu).top_mem
  have herased : (t.prune place u.top).item own'
      = .group (e.survey.root.erase (e.node u.top).key) := by
    rw [item_congr fun id hid => hsame id ((hids id).mp hid).2, item_prune hkeys, ← h.group_root]
    · rfl
    · intro id ts hts v hv htop
      apply h.place_unique hplace hu hts hv htop
  rw [transfer, item_insertAt, herased]
  · rfl
  · intro id hid
    obtain ⟨hid, hnot⟩ := (hids id).mp hid
    rw [hsame id hnot]
    apply h.key_eq_iff hid hgroup

end Rooted

namespace Laid

/-- A group outside the subtree of a node shows that the node is not the root. -/
theorem top_ne_root (h : e.Laid t) (hu : Within u t) (hgroup : group ∈ t.ids)
    (houtside : group ∉ u.ids) :
  u.top ≠ e.root
  := by
  intro hroot
  rw [← h.top_eq] at hroot
  rw [h.eq_of_top_eq hu (Within.self t) hroot] at houtside
  apply houtside hgroup

/-- The arena is laid out again, with the same nodes, when a subtree is listed by another group
under a new key, and its survey has the item of the subtree at the end of that group.  With the
items as they were before, the new tree has the item in which that of the subtree is only taken to
its place.
-/
theorem relocated (h : e.Laid t) (hu : Within u t) {group : NodeId} (hgroup : group ∈ t.ids)
    (houtside : group ∉ u.ids) (hisGroup : (e.own group).isGroup = true) {new : Key}
    (hnew : Key.parent new = (e.node group).key)
    (hcheck : e.survey.checkRekey (u.item e.own) new = .ok ()) :
  ∃ t', (((e.detach u.top).append u.top group).applyPlan (e.rekeyPlan u.top new)).Laid t'
    ∧ t'.ids.Perm t.ids
    ∧ Rekeyed e (((e.detach u.top).append u.top group).applyPlan (e.rekeyPlan u.top new)) u new
    ∧ (∃ vs, Within (.node group (vs ++ [u])) t')
    ∧ u.item (((e.detach u.top).append u.top group).applyPlan (e.rekeyPlan u.top new)).own
      = (u.item e.own).rekey new
    ∧ (((e.detach u.top).append u.top group).applyPlan (e.rekeyPlan u.top new)).survey
      = (e.survey.mapRoot fun root => (root.erase (e.node u.top).key).mapItemsAt (e.node group).key
          (insertAt none ((u.item e.own).rekey new)))
    ∧ t'.item e.own = .group ((e.survey.root.erase (e.node u.top).key).mapItemsAt (e.node group).key
        (insertAt none (u.item e.own)))
  := by
  obtain ⟨place, us, hplace, hmem, -⟩ := h.exists_place hu (h.top_ne_root hu hgroup houtside)
  have hrooted := h.relocate hplace hmem hgroup houtside hisGroup
  have hperm := ids_transfer_perm hplace h.nodup hmem hgroup houtside
  have hlisted := exists_within_transfer hplace h.nodup hmem hgroup houtside
  obtain ⟨hown, hdocument, hparentTop, hparent⟩ := h.relocate_eq hplace hmem hgroup
  obtain ⟨keys, hplan, hkeys, hfree, rfl, hbelow⟩ := h.exists_free_plan hu hcheck
  rw [hplan]
  generalize (e.detach u.top).append u.top group = listed at *
  have hkey (id : NodeId) : (listed.node id).key = (e.node id).key :=
    congrArg Item.key (congrFun hown id)
  have hwithin : Within u (t.transfer place group u) := by
    obtain ⟨vs, hlists⟩ := hlisted
    apply hlists.of_mem (List.mem_append_right _ List.mem_cons_self)
  obtain ⟨hlaid, hdocument', hitem, hrekeyed⟩ := hrooted.rekey hwithin hkeys
    (by
      intro id hid hnot
      rw [hkey]
      apply hfree id (hperm.subset hid) hnot)
    (by
      intro id us hus v hv
      rw [hkey]
      apply hbelow id us hus v hv)
    (by
      intro id hid hne q hq
      rw [hparent id hne] at hq
      rw [hkey, hkey]
      apply h.nested id (hperm.subset hid) q hq)
    (by
      intro q hq
      rw [hparentTop] at hq
      cases hq
      rw [hkey, hnew])
  rw [hown] at hitem
  have hrekeyed' : Rekeyed e (listed.applyPlan ((breadthFirst [u]).map fun id => (id, keys id))) u
      (keys u.top) := by
    obtain ⟨⟨keys', htop', hbelow', hinside⟩, houtside⟩ := hrekeyed
    simp only [hown, hkey] at hbelow' hinside houtside
    exact ⟨⟨keys', htop', hbelow', hinside⟩, houtside⟩
  refine ⟨_, hlaid, hperm, hrekeyed', hlisted, hitem, ?_, ?_⟩
  · apply h.survey_eq_mapRoot hlaid (hdocument'.trans hdocument)
    rw [h.item_transfer hplace hmem hgroup hrekeyed'.outside, hitem]
  · apply h.item_transfer hplace hmem hgroup fun _ _ => rfl

/-- Moving an item agrees with moving it in the survey. -/
theorem move (h : e.Laid t) (key destination : Key) :
  Agrees e ((Editor.move key destination).run e) (e.survey.move key destination)
  := by
  unfold Editor.move
  rw [Survey.move]
  apply Agrees.get
  apply Agrees.find (h.finds_locate key)
  intro u hu hfound
  apply Agrees.find (h.finds_locate destination)
  intro w hw hfound'
  have hkey : (e.node u.top).key = key := h.key_of_locate hfound
  have hwKey : (w.item e.own).key = (e.node w.top).key := key_item e.own w
  have hwGroup : (w.item e.own).isGroup = (e.node w.top).item.isGroup := isGroup_item e.own w
  have hinside : w.top ∈ e.subtree u.top ↔ (w.item e.own).key ∈ (u.item e.own).keys := by
    rw [hwKey, h.mem_keys_item_iff hu hw.top_mem]
    apply ((h.holds.within hu).subtree_perm (hu.nodup h.nodup)).mem_iff
  simp only [hinside]
  by_cases hself : (w.item e.own).key ∈ (u.item e.own).keys
  · rw [if_pos hself, if_pos hself]
    apply Agrees.error
  · rw [if_neg hself, if_neg hself, hwGroup]
    cases hgroup : (e.node w.top).item.isGroup with
    | false => apply Agrees.error
    | true =>
      simp only [Bool.not_true, Bool.false_eq_true, if_false]
      have hnew := Key.parent_child_leaf (e.node w.top).key key
      rw [hwKey]
      generalize Key.child (e.node w.top).key (Key.leaf key) = new at hnew ⊢
      rw [h.checkRekey_eq hu]
      apply Agrees.lift
      intro _ hcheck
      have hwOutside : w.top ∉ u.ids := by
        rwa [← h.mem_keys_item_iff hu hw.top_mem, ← hwKey]
      obtain ⟨t', h', -, -, ⟨_, hlists⟩, hitem, hsurvey, -⟩ :=
        h.relocated hu hw.top_mem hwOutside hgroup hnew hcheck
      have hu' := hlists.of_mem (List.mem_append_right _ List.mem_cons_self)
      obtain ⟨hredirected, hsurvey', hitem', -⟩ := h'.redirect key new
      have hmoved := hredirected.materialize hu'
      rw [hitem' u hu', hitem] at hmoved
      have hok := Agrees.ok (e := e) (((u.item e.own).rekey new).redirect key new) hredirected
      rw [hsurvey', hsurvey, hkey] at hok
      change Agrees e (.ok (Editor.materialize _ u.top), _) _
      rw [hmoved]
      exact hok

end Laid

end Editor

end Questionnaire
