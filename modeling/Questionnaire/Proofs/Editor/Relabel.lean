import Questionnaire.Proofs.Editor.Addressing
import Questionnaire.Proofs.Survey.Relabel

/-!
# Renaming as relabelling

An editor renames an item by carrying out a plan for the nodes of its subtree, and by visiting all
nodes of the index.  In the survey this is a relabelling: the item gets the new key, the items below
it get the keys that follow, no other key changes, and every reference is rebased once, or none.

A subtree can get a key one segment longer than that of a group outside it exactly when no other
item has that key: the keys of other items lie within the new key only below an item that has it.
-/

namespace Questionnaire

open NodeTree

/-- An item with another key is the item relabelled, without those in it. -/
theorem Item.mapOwn_relabel_id (k : Key → Key) (x : Item) :
  x.mapOwn (Head.relabel k id) (Expression.mapTexts id) = x.setKey (k x.key)
  := by
  rw [Expression.mapTexts_id]
  cases x with
  | single s =>
    change single { s.mapExpressions id with head := (s.head.mapExpressions id).relabel k id } = _
    rw [SingleItem.mapExpressions_id, Head.relabel_id]
    rfl
  | group g =>
    rw [mapOwn, Head.relabel_id, Option.map_id]
    rfl

/-- A node that lists others has the item of a group, with the items of the nodes that it lists. -/
theorem NodeTree.exists_item_eq_group {own : NodeId → Item} {t u : NodeTree} (hfits : t.Fits own)
    (hu : u ∈ t.children) :
  ∃ g, t.item own = .group g ∧ g.key = (own t.top).key ∧ g.items = t.children.map (item own)
  := by
  have hkey := key_item own t
  have hitems := hfits.children_item
  cases hitem : t.item own with
  | single s =>
    have hmem := List.mem_map_of_mem (f := item own) hu
    rw [← hitems, hitem] at hmem
    cases hmem
  | group g =>
    rw [hitem] at hkey hitems
    exact ⟨g, rfl, hkey, hitems⟩

/-- The items of a group are those of the nodes that its node lists. -/
theorem NodeTree.exists_of_mem_items {own : NodeId → Item} {t : NodeTree} (hfits : t.Fits own)
    {g : Group} (hitem : t.item own = .group g) {x : Item} (hx : x ∈ g.items) :
  ∃ u ∈ t.children, g.key = (own t.top).key ∧ u.item own = x
  := by
  have hchildren : g.items = t.children.map (item own) := by
    rw [← hfits.children_item, hitem]
    rfl
  rw [hchildren] at hx
  obtain ⟨u, hu, hx⟩ := List.mem_map.mp hx
  refine ⟨u, hu, ?_, hx⟩
  rw [← key_item own t, hitem]
  rfl

/-- The references in the item of a node are those that the node stores. -/
theorem NodeTree.references_item (own : NodeId → Item) (t : NodeTree) :
  (t.item own).references = (own t.top).references
  := by
  obtain ⟨id, ts⟩ := t
  rw [item_node, top]
  cases own id with
  | _ => rfl

/-- The references in a subtree are those that its nodes store. -/
theorem NodeTree.references_subtree_item {own : NodeId → Item} {t : NodeTree} (hfits : t.Fits own) :
  (t.item own).subtree.flatMap Item.references = t.ids.flatMap fun id => (own id).references
  := by
  induction t using induct with
  | node id ts ih =>
    rw [Item.subtree_eq, hfits.children_item, children, List.flatMap_cons, references_item, top,
      ids_node, List.flatMap_cons, List.flatMap_map, List.flatMap_assoc, List.flatMap_assoc]
    congr 1
    apply List.flatMap_congr
    intro t ht
    exact ih t ht (hfits.within (Within.deeper ht (Within.self t)))

namespace Editor

variable {e e' : Editor} {t u w : NodeTree} {new : Key}

/-- The nodes have the references that they had before a subtree got another key. -/
theorem Rekeyed.references_own (h : Rekeyed e e' u new) (id : NodeId) :
  (e'.own id).references = (e.own id).references
  := by
  obtain ⟨⟨keys, -, -, hinside⟩, houtside⟩ := h
  by_cases hid : id ∈ u.ids
  · rw [hinside id hid, Item.references_setKey]
  · rw [houtside id hid]

/-- When a subtree gets another key, the items of all trees with the nodes of the layout are
relabelled alike. -/
theorem Rekeyed.exists_relabel (hrekeyed : Rekeyed e e' u new) (h : e.Laid t) (hu : Within u t) :
  ∃ k, (u.item e.own).Rekeys new k
    ∧ ∀ v : NodeTree, (∀ i ∈ v.ids, i ∈ t.ids) → v.item e'.own = (v.item e.own).relabel k id
  := by
  obtain ⟨⟨keys, htop, hbelow, hinside⟩, houtside⟩ := hrekeyed
  have hfits := h.fits.within hu
  obtain ⟨k, hk, hother⟩ : ∃ k : Key → Key, (∀ i ∈ u.ids, k (e.node i).key = keys i)
      ∧ ∀ key, key ∉ (u.item e.own).keys → k key = key := by
    classical
    refine ⟨fun key => if hkey : ∃ i ∈ u.ids, (e.node i).key = key then keys hkey.choose else key,
      ?_, ?_⟩
    · intro i hi
      have hkey : ∃ j ∈ u.ids, (e.node j).key = (e.node i).key := ⟨i, hi, rfl⟩
      obtain ⟨hmem, hsame⟩ := hkey.choose_spec
      apply (dif_pos hkey).trans
      rw [h.eq_of_key_eq (hu.ids_subset hmem) (hu.ids_subset hi) hsame]
    · intro key hkey
      apply dif_neg
      rintro ⟨i, hi, rfl⟩
      apply hkey
      rw [hfits.keys_item]
      exact List.mem_map_of_mem hi
  have hown : ∀ i ∈ t.ids, e'.own i
      = (e.own i).mapOwn (Item.Head.relabel k id) (Expression.mapTexts id) := by
    intro i hi
    rw [Item.mapOwn_relabel_id]
    by_cases hmem : i ∈ u.ids
    · rw [hinside i hmem, ← hk i hmem]
      rfl
    · have hkey : k (e.own i).key = (e.own i).key := by
        apply hother
        exact (h.mem_keys_item_iff hu hi).not.mpr hmem
      rw [houtside i hmem, hkey, Item.setKey_key]
  refine ⟨k, ⟨?_, ?_, hother⟩, ?_⟩
  · rw [key_item, ← htop]
    exact hk u.top u.top_mem_ids
  · intro g hg y hy
    obtain ⟨⟨i, vs⟩, hv, hitem⟩ := (mem_subtree_item_iff hfits).mp hg
    obtain ⟨v, hmem, hgkey, rfl⟩ := exists_of_mem_items (hfits.within hv) hitem hy
    have hgkey : g.key = (e.node i).key := hgkey
    rw [key_item, hgkey, hk i hv.top_mem]
    exact (hk v.top (hv.of_mem hmem).top_mem).trans (hbelow i vs hv v hmem)
  · intro v hv
    rw [Item.relabel, ← item_mapOwn]
    exact item_congr fun i hi => hown i (hv i hi)

namespace Laid

/-- Giving an item another key in its place relabels the survey. -/
theorem exists_relabel_of_modifyItem (h : e.Laid t) (hu : Within u t)
    (htop : ∀ parent, (e.node u.top).parent = some parent → Key.parent new = (e.node parent).key)
    (hcheck : e.survey.checkRekey (u.item e.own) new = .ok ()) :
  ∃ k, (u.item e.own).Rekeys new k
    ∧ e.survey.modifyItem (e.node u.top).key (·.rekey new) = e.survey.relabel k id
  := by
  obtain ⟨hlaid, hsurvey, hrekeyed⟩ := h.rekeyed hu htop hcheck
  obtain ⟨k, hk, hitem⟩ := hrekeyed.exists_relabel h hu
  refine ⟨k, hk, ?_⟩
  have hroot := hitem t fun _ hi => hi
  obtain ⟨root, hmodified⟩ := e.survey.exists_modifyItem_eq (e.node u.top).key (·.rekey new)
  rw [← h.group_root, ← hlaid.group_root, hsurvey, hmodified, Item.group_relabel] at hroot
  have hroot : root = e.survey.root.relabel k id := Item.group.inj hroot
  rw [hmodified, hroot, Survey.relabel, Expression.mapTexts_id, Survey.mapRules_id]
  rfl

/-! ### Keys that are free -/

/-- If outside a subtree no item has a key that is one segment longer than another, no key outside
lies within it. -/
theorem isFreeFor_of_parent (h : e.Laid t) (hu : Within u t) (hw : Within w t)
    (hnew : Key.parent new = (e.node w.top).key)
    (hother : ∀ i ∈ t.ids, i ∉ u.ids → (e.node i).key ≠ new) :
  e.survey.IsFreeFor (u.item e.own) new
  := by
  intro key hkey hnot hwithin
  have hparent : Key.parent new ∈ e.survey.keys := by
    rw [hnew, h.survey_keys]
    apply List.mem_map_of_mem hw.top_mem
  rw [Survey.keys, ← Item.keys_group] at hkey hparent
  obtain ⟨y, hy, hykey, hkey⟩ := h.wellKeyed.root.exists_of_parent_mem hkey hwithin hparent
  rw [h.group_root, mem_subtree_item_iff h.fits] at hy
  obtain ⟨v, hv, rfl⟩ := hy
  rw [key_item] at hykey
  by_cases hmem : v.top ∈ u.ids
  · apply hnot
    obtain ⟨vs, hvs⟩ := exists_within hmem
    rw [← h.eq_of_top_eq hv (hvs.trans hu) rfl] at hvs
    rw [(h.fits.within hv).keys_item] at hkey
    rw [(h.fits.within hu).keys_item]
    apply List.map_subset _ hvs.ids_subset hkey
  · apply hother v.top hv.top_mem hmem hykey

/-- The key that a subtree is to get is reported if an item outside the subtree has it. -/
theorem checkRekey_of_taken (h : e.Laid t) (hu : Within u t) {i : NodeId} (hi : i ∈ t.ids)
    (hnot : i ∉ u.ids) :
  e.survey.checkRekey (u.item e.own) (e.node i).key = .error (.duplicateKey (e.node i).key)
  := by
  have htaken : (e.node i).key ∈ e.survey.keysWithout (u.item e.own).keys := by
    rw [Survey.keysWithout, List.mem_filter, decide_eq_true_eq, h.mem_keys_item_iff hu hi,
      h.survey_keys]
    exact ⟨List.mem_map_of_mem hi, hnot⟩
  obtain ⟨keys, -, hkeys, htop, -⟩ := h.exists_plan hu (e.node i).key
  obtain ⟨j, us⟩ := u
  have htop : keys j = (e.node i).key := htop
  rw [Survey.checkRekey, ← hkeys, breadthFirst, List.map_cons, htop, Questionnaire.checkFree,
    Questionnaire.firstTaken?, if_pos htaken]

/-- In a subtree no key but that of the top is one segment longer than that of a node outside. -/
theorem top_eq_of_parent (h : e.Laid t) (hu : Within u t) (hw : Within w t)
    (houtside : w.top ∉ u.ids) {i : NodeId} (hi : i ∈ u.ids)
    (hparent : Key.parent (e.node i).key = (e.node w.top).key) :
  i = u.top
  := by
  by_contra hne
  obtain ⟨v, hv, z, hz, rfl⟩ := exists_mem_children hi hne
  have hnested := h.nested z.top (hu.ids_subset hi) v.top
    ((h.holds.within (hv.trans hu)).of_mem_children hz).parent_top
  rw [hparent] at hnested
  apply houtside
  rw [h.eq_of_key_eq hw.top_mem (hu.ids_subset hv.top_mem) hnested]
  exact hv.top_mem

/-- A subtree can get a key one segment longer than that of a group outside it exactly when no other
item has that key; otherwise this key is reported. -/
theorem checkRekey_of_parent (h : e.Laid t) (hu : Within u t) (hne : (e.node u.top).key ≠ "")
    (hw : Within w t) (houtside : w.top ∉ u.ids) (hnew : Key.parent new = (e.node w.top).key) :
  e.survey.checkRekey (u.item e.own) new
    = if e.survey.contains new = true ∧ new ≠ (e.node u.top).key then .error (.duplicateKey new)
      else .ok ()
  := by
  by_cases hother : ∀ i ∈ t.ids, i ∉ u.ids → (e.node i).key ≠ new
  · have hnewne : new ≠ "" := by
      rintro rfl
      exact hother w.top hw.top_mem houtside hnew.symm
    rw [if_neg]
    · exact h.checkRekey_eq_ok hu hne hnewne (h.isFreeFor_of_parent hu hw hnew hother)
    · rintro ⟨hcontains, hne⟩
      obtain ⟨v, hv, rfl⟩ := h.contains_iff.mp hcontains
      by_cases hmem : v.top ∈ u.ids
      · apply hne
        rw [h.top_eq_of_parent hu hw houtside hmem hnew]
      · exact hother v.top hv.top_mem hmem rfl
  · push Not at hother
    obtain ⟨i, hi, hnot, rfl⟩ := hother
    rw [h.checkRekey_of_taken hu hi hnot, if_pos]
    constructor
    · rw [Survey.contains, List.contains_iff_mem, h.survey_keys]
      exact List.mem_map_of_mem hi
    · intro hsame
      rw [h.eq_of_key_eq hi hu.top_mem hsame] at hnot
      exact hnot u.top_mem_ids

/-! ### Renaming -/

/-- Under the keys that they have, items have the keys that follow from that of the first, unless
that is empty. -/
theorem rekeys_self (h : e.Laid t) (hu : Within u t) (hne : (e.node u.top).key ≠ "") :
  (u.item e.own).Rekeys (e.node u.top).key id
  := by
  have hfits := h.fits.within hu
  refine ⟨key_item e.own u, ?_, fun _ _ => rfl⟩
  intro g hg y hy
  obtain ⟨v, hv, hitem⟩ := (mem_subtree_item_iff hfits).mp hg
  obtain ⟨z, hz, hgkey, rfl⟩ := exists_of_mem_items (hfits.within hv) hitem hy
  have hvne := (h.isWithin_of_mem_of_ne hu hne hv.top_mem).1
  rw [key_item, hgkey]
  exact (Key.child_leaf (h.parent?_key_of_ne (hv.trans hu) hz hvne) hvne).symm

/-- The groups of the survey are those of the nodes. -/
theorem hasGroup_of_item (h : e.Laid t) (hu : Within u t) {g : Group}
    (hitem : u.item e.own = .group g) :
  e.survey.HasGroup g
  := by
  rw [Survey.HasGroup, h.group_root, mem_subtree_item_iff h.fits]
  exact ⟨u, hu, hitem⟩

/-- A node below the root stands in a group of the survey. -/
theorem exists_group (h : e.Laid t) (hu : Within u t) (htop : u.top ≠ t.top) :
  ∃ w g, Within w t ∧ w.top ∉ u.ids ∧ (e.node u.top).parent = some w.top
    ∧ e.survey.HasGroup g ∧ u.item e.own ∈ g.items ∧ g.key = (e.node w.top).key
  := by
  rw [h.top_eq] at htop
  obtain ⟨place, us, hplace, hmem, hparent⟩ := h.exists_place hu htop
  have houtside : place ∉ u.ids := top_notMem_children (hplace.nodup h.nodup) hmem
  obtain ⟨g, hitem, hkey, hitems⟩ := exists_item_eq_group (h.fits.within hplace) hmem
  refine ⟨.node place us, g, hplace, houtside, hparent, ?_, ?_, hkey⟩
  · exact h.hasGroup_of_item hplace hitem
  · rw [hitems]
    exact List.mem_map_of_mem hmem

/-- An item that is found is that of a node with the key. -/
theorem exists_of_locate (h : e.Laid t) {key : Key} {x : Item} (hx : e.survey.locate key = .ok x) :
  ∃ u, Within u t ∧ e.locate key = .ok u.top ∧ (e.node u.top).key = key ∧ u.item e.own = x
  := by
  have hfinds := h.finds_locate key
  rw [hx] at hfinds
  obtain ⟨err, -, ⟨⟩⟩ | ⟨u, hu, hfound, ⟨⟩⟩ := hfinds.cases
  exact ⟨u, hu, hfound, h.key_of_locate hfound, rfl⟩

/-- An item is found under its key, if that lies within the key of the root, and under no other. -/
theorem locate_eq_ok_iff (h : e.Laid t) {key : Key} {x : Item} :
  e.survey.locate key = .ok x
    ↔ x ∈ (Item.group e.survey.root).subtree ∧ x.key = key ∧ Key.isWithin key e.key = true
  := by
  rw [h.group_root, mem_subtree_item_iff h.fits]
  constructor
  · intro hx
    obtain ⟨u, hu, hfound, hkey, rfl⟩ := h.exists_of_locate hx
    rw [key_item]
    use ⟨u, hu, rfl⟩, hkey, isWithin_of_locate hfound
  · rintro ⟨⟨u, hu, rfl⟩, rfl, hwithin⟩
    rw [key_item] at hwithin ⊢
    apply h.survey_locate hu hwithin

/-- An item that is found, other than the root, has a key that is not empty. -/
theorem key_ne_empty_of_locate (h : e.Laid t) (hu : Within u t) (htop : u.top ≠ t.top)
    (hfound : e.locate (e.node u.top).key = .ok u.top) :
  (e.node u.top).key ≠ ""
  := by
  obtain ⟨-, p, hp⟩ := h.exists_parent?_key hu htop (isWithin_of_locate hfound)
  intro hempty
  rw [hempty] at hp
  cases hp

/-- What a renaming that succeeds makes of the survey. -/
theorem survey_of_rename (h : e.Laid t) {old : Key} {references : References} {s' : Survey}
    (hok : e.survey.rename old new references = .ok s') :
  (old = new → s' = e.survey)
    ∧ (¬(old = new ∧ old = "") → ∃ x k, e.survey.locate old = .ok x ∧ x.Rekeys new k
      ∧ s' = e.survey.relabel k (references.carry old new))
    ∧ s'.references = e.survey.references.map (references.carry old new)
  := by
  obtain ⟨x, hlocate, -⟩ := exists_of_bind_eq_ok hok
  obtain ⟨u, hu, -, rfl, rfl⟩ := h.exists_of_locate hlocate
  by_cases hsame : (e.node u.top).key = new
  · subst hsame
    rw [Survey.rename_self hlocate] at hok
    cases hok
    rw [references.carry_same]
    refine ⟨fun _ => rfl, ?_, (List.map_id _).symm⟩
    intro hne
    refine ⟨_, id, hlocate, h.rekeys_self hu fun hempty => hne ⟨rfl, hempty⟩, ?_⟩
    exact (Survey.relabel_id _).symm
  · obtain ⟨_, hlocate', hparent, hcheck, rfl⟩ := Survey.exists_relabel_of_rename hok hsame
    rw [hlocate] at hlocate'
    cases hlocate'
    have htop : ∀ parent, (e.node u.top).parent = some parent →
        Key.parent new = (e.node parent).key := by
      intro parent hp
      have hroot : (e.node u.top).key ≠ e.survey.key := by
        rw [Ne, h.key_eq_survey_key_iff hu.top_mem, ← h.parent_eq_none_iff hu.top_mem, hp]
        nofun
      rw [Key.parent, hparent hroot, Option.getD_some]
      exact h.nested u.top hu.top_mem parent hp
    obtain ⟨k, hk, hmodified⟩ := h.exists_relabel_of_modifyItem hu htop hcheck
    rw [hmodified, Survey.relabel_relabel]
    refine ⟨fun heq => absurd heq hsame, ?_, Survey.references_relabel _ _ _⟩
    intro _
    exact ⟨_, k, hlocate, hk, rfl⟩

/-- An item other than the root stands in a group, and it can get a key one segment longer than that
of the group exactly when no other item has that key. -/
theorem exists_group_of_locate (h : e.Laid t) {old : Key} (hroot : old ≠ e.survey.key) {x : Item}
    (hlocate : e.survey.locate old = .ok x) :
  ∃ g, e.survey.HasGroup g ∧ x ∈ g.items ∧ Key.parent old = g.key
    ∧ ∀ new, Key.parent? new = some g.key → old ≠ new →
      e.survey.checkRekey x new
        = if e.survey.contains new = true then .error (.duplicateKey new) else .ok ()
  := by
  obtain ⟨u, hu, hfound, rfl, rfl⟩ := h.exists_of_locate hlocate
  have htop : u.top ≠ t.top := by
    rw [Ne, h.key_eq_survey_key_iff hu.top_mem, ← h.top_eq] at hroot
    exact hroot
  obtain ⟨w, g, hw, houtside, hparent, hg, hx, hgkey⟩ := h.exists_group hu htop
  have hne := h.key_ne_empty_of_locate hu htop hfound
  refine ⟨g, hg, hx, hgkey ▸ h.nested u.top hu.top_mem w.top hparent, ?_⟩
  intro new hnew hsame
  have hnew : Key.parent new = (e.node w.top).key := by
    rw [Key.parent, hnew, ← hgkey]
    rfl
  rw [h.checkRekey_of_parent hu hne hw houtside hnew]
  simp only [ne_eq, Ne.symm hsame, not_false_eq_true, and_true]

/-- An item other than the root is renamed to another key exactly when that is one segment longer
than the key of its group, and no item has it. -/
theorem rename_isOk_iff (h : e.Laid t) {old : Key} (hroot : old ≠ e.survey.key)
    (references : References) :
  (∃ s', e.survey.rename old new references = .ok s')
    ↔ ∃ x, e.survey.locate old = .ok x ∧ (old = new
      ∨ (∃ g, e.survey.HasGroup g ∧ x ∈ g.items ∧ Key.parent? new = some g.key)
        ∧ e.survey.contains new = false)
  := by
  constructor
  · rintro ⟨s', hok⟩
    by_cases hsame : old = new
    · obtain ⟨x, hlocate, -⟩ := exists_of_bind_eq_ok hok
      exact ⟨x, hlocate, Or.inl hsame⟩
    · obtain ⟨x, hlocate, hparent, hcheck, -⟩ := Survey.exists_relabel_of_rename hok hsame
      obtain ⟨g, hg, hx, hgkey, hfree⟩ := h.exists_group_of_locate hroot hlocate
      have hnew : Key.parent? new = some g.key := hgkey ▸ hparent hroot
      refine ⟨x, hlocate, Or.inr ⟨⟨g, hg, hx, hnew⟩, ?_⟩⟩
      rw [hfree new hnew hsame] at hcheck
      cases hcontains : e.survey.contains new with
      | false => rfl
      | true =>
        rw [hcontains, if_pos rfl] at hcheck
        cases hcheck
  · rintro ⟨x, hlocate, hsame | ⟨⟨g, hg, hx, hnew⟩, hcontains⟩⟩
    · exact ⟨e.survey, hsame ▸ Survey.rename_self hlocate references⟩
    · obtain ⟨g', hg', hx', hgkey, hfree⟩ := h.exists_group_of_locate hroot hlocate
      have hsame : g.key = g'.key := by
        have hkeyed := (Survey.wellKeyed_iff.mp h.wellKeyed).1
        rw [← hkeyed g hg x hx, ← hkeyed g' hg' x hx']
      rw [hsame] at hnew
      by_cases hne : old = new
      · exact ⟨e.survey, hne ▸ Survey.rename_self hlocate references⟩
      · have hcheck := hfree new hnew hne
        rw [hcontains, if_neg Bool.false_ne_true] at hcheck
        exact ⟨_, Survey.rename_eq_ok hlocate hne (fun _ => hgkey ▸ hnew) hcheck references⟩

end Laid

/-- A renaming that succeeds relabels the survey: the item gets the new key, the keys below it
follow, and the references are rebased, or stay, as the policy says.  Only a root with the empty key
that is to keep it is left alone with all that is below it, also where the keys below would not
follow from it.  An item other than the root is renamed exactly when it is found and either keeps
its key or gets one that no item has, one segment longer than that of its group. -/
theorem Reachable.relabels_of_rename {e : Editor} (h : Reachable e) (old new : Key)
    (references : References) :
  (∀ a e', e.serve (.rename old new references) = (.ok a, e') →
      (old = new → e'.survey = e.survey)
        ∧ (¬(old = new ∧ old = "") → ∃ x k, e.findItem old = .ok x ∧ x.Rekeys new k
          ∧ e'.survey = e.survey.relabel k (references.carry old new))
        ∧ e'.survey.references = e.survey.references.map (references.carry old new))
    ∧ (old ≠ e.key → ((∃ a, (e.serve (.rename old new references)).1 = .ok a)
      ↔ ∃ x, e.findItem old = .ok x ∧ (old = new
        ∨ (∃ g, e.survey.HasGroup g ∧ x ∈ g.items ∧ Key.parent? new = some g.key)
          ∧ e.contains new = false)))
  := by
  obtain ⟨t, ht⟩ := h.laid
  have hagrees := ht.serve (.rename old new references)
  rw [ht.find, ht.contains_eq, ← ht.survey_key]
  constructor
  · intro a e' hserve
    obtain ⟨s', hrename, heq⟩ := hagrees.exists_of_eq_ok hserve
    cases heq
    exact ht.survey_of_rename hrename
  · intro hroot
    rw [← ht.rename_isOk_iff hroot references]
    exact hagrees.exists_eq_ok_iff

/-- A group is renamed, the question in it gets the key that follows, and so does the reference to
the question. -/
theorem relabels_of_rename_group :
  ∃ x k, sample.findItem "survey.g" = .ok x ∧ x.Rekeys "survey.h" k
    ∧ (sample.serve (.rename "survey.g" "survey.h" .follow)).2.survey
      = sample.survey.relabel k (Key.rebase "survey.g" "survey.h")
  := by
  have hreachable : Reachable sample := ((Reachable.new.served _).served _).served _
  have hdone : (sample.serve (.rename "survey.g" "survey.h" .follow)).1 = .ok .done := rfl
  have hrelabels := (hreachable.relabels_of_rename "survey.g" "survey.h" .follow).1
  exact (hrelabels _ _ (Prod.ext hdone rfl)).2.1 (by decide)

/-- A survey with the empty key, and an item in it whose key starts with a dot. -/
def dotted : Survey :=
  { root := { Group.empty "" with items := [.single { head := { key := ".x" } }] } }

/-- A root with the empty key keeps it, and the item below it keeps a key that does not follow. -/
theorem stays_of_empty_key :
  ∃ e, Reachable e ∧ (e.serve (.rename "" "" .follow)).1 = .ok .done
    ∧ ¬∃ x k, e.findItem "" = .ok x ∧ x.Rekeys "" k
      ∧ (e.serve (.rename "" "" .follow)).2.survey = e.survey.relabel k (Key.rebase "" "")
  := by
  obtain ⟨e, he⟩ : ∃ e, ofSurvey dotted = .ok e := ⟨_, rfl⟩
  obtain ⟨hdone, hfind, hkeys, hkeys'⟩ : (e.serve (.rename "" "" .follow)).1 = .ok .done
      ∧ e.findItem "" = .ok (.group dotted.root) ∧ e.survey.keys = ["", ".x"]
      ∧ (e.serve (.rename "" "" .follow)).2.survey.keys = ["", ".x"] := by
    cases he
    exact ⟨rfl, rfl, rfl, rfl⟩
  refine ⟨e, .opened he, hdone, ?_⟩
  rintro ⟨x, k, hx, hk, hsurvey⟩
  rw [hfind] at hx
  cases hx
  have htop : k "" = "" := hk.top
  have hbelow : k ".x" = Key.child (k "") (Key.leaf ".x") :=
    hk.below dotted.root (Item.mem_subtree_self _) _ List.mem_cons_self
  rw [hsurvey, Survey.keys_relabel, hkeys, List.map_cons, List.map_singleton, htop, hbelow, htop]
    at hkeys'
  revert hkeys'
  decide

end Editor

end Questionnaire
