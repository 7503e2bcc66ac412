import Questionnaire.Proofs.Editor.Relabel

/-!
# Moving as relabelling

An editor moves an item by detaching its node, listing it in another group, and renaming the nodes
of its subtree.  In the survey the item is taken to the end of the group just as it is
(`Survey.relocate`), and the survey is then relabelled as by a renaming: the item gets the key that
follows from that of the group, the keys below it follow, no other key changes, and every reference
is rebased once.

The check of the new keys can fail at the key of the item only, since the keys below it lie within
that key, and no other item has such a key unless one has that key.
-/

namespace Questionnaire

open NodeTree

/-! ### Lookups that fail -/

/-- A lookup does not fail in a way after which nothing may be built. -/
theorem Item.isFatal_of_along_eq_error {sought : Key} {keys : List Key} {x : Item} {err : EditError}
    (h : along sought keys x = .error err) :
  err.isFatal = false
  := by
  induction keys generalizing x with
  | nil => cases h
  | cons key keys ih =>
    cases x with
    | single s =>
      cases h
      rfl
    | group g =>
      rw [along] at h
      cases hfind : g.items.find? fun y => y.key == key with
      | none =>
        rw [hfind] at h
        cases h
        rfl
      | some y =>
        rw [hfind] at h
        exact ih h

theorem Survey.isFatal_of_locate_eq_error {s : Survey} {key : Key} {err : EditError}
    (h : s.locate key = .error err) :
  err.isFatal = false
  := by
  rw [locate] at h
  split at h
  · cases h
  · split at h
    · exact Item.isFatal_of_along_eq_error h
    · cases h
      rfl

/-! ### Items that are taken to another place -/

/-- The survey without the items of the key `key`, and with `x` at the end of the group of the key
`destination`. -/
def Survey.relocate (key destination : Key) (x : Item) (s : Survey) : Survey :=
  s.mapRoot fun root => (root.erase key).mapItemsAt destination (insertAt none x)

namespace Editor

variable {e e' : Editor} {t u w : NodeTree} {key destination new : Key} {x y : Item}

namespace Laid

section

variable (h : e.Laid t) (hu : Within u t) (hw : Within w t) (houtside : w.top ∉ u.ids)
  (hisGroup : (e.own w.top).isGroup = true) (hnew : Key.parent new = (e.node w.top).key)
  (hcheck : e.survey.checkRekey (u.item e.own) new = .ok ())

include h hu hw houtside hisGroup hnew hcheck

/-- Taking an item to another group under a new key is relabelling the survey in which it has been
taken there as it is. -/
theorem exists_relabel_of_relocate :
  ∃ k, (u.item e.own).Rekeys new k
    ∧ (u.item e.own).rekey new = (u.item e.own).relabel k id
    ∧ e.survey.relocate (e.node u.top).key (e.node w.top).key ((u.item e.own).rekey new)
      = (e.survey.relocate (e.node u.top).key (e.node w.top).key (u.item e.own)).relabel k id
  := by
  obtain ⟨t', h', hids, hrekeyed, -, hitem, hsurvey, hrelocated⟩ :=
    h.relocated hu hw.top_mem houtside hisGroup hnew hcheck
  obtain ⟨k, hk, hrelabel⟩ := hrekeyed.exists_relabel h hu
  refine ⟨k, hk, ?_, ?_⟩
  · rw [← hitem, hrelabel u fun _ hi => hu.ids_subset hi]
  · have hroot := hrelabel t' fun _ => hids.mem_iff.mp
    rw [← h'.group_root, hsurvey, hrelocated, Item.group_relabel, Item.group.injEq] at hroot
    rw [Survey.relabel, Expression.mapTexts_id, Survey.mapRules_id]
    exact congrArg (fun root => { e.survey with root }) hroot

/-- An item that has been taken to another group is the last one there. -/
theorem exists_group_of_relocate :
  ∃ g, (e.survey.relocate (e.node u.top).key (e.node w.top).key
      ((u.item e.own).rekey new)).HasGroup g
    ∧ g.key = (e.node w.top).key ∧ g.items.getLast? = some ((u.item e.own).rekey new)
  := by
  obtain ⟨t', h', -, hrekeyed, ⟨vs, hlists⟩, hitem, hsurvey, -⟩ :=
    h.relocated hu hw.top_mem houtside hisGroup hnew hcheck
  have hmem : u ∈ (NodeTree.node w.top (vs ++ [u])).children :=
    List.mem_append_right _ List.mem_cons_self
  obtain ⟨g, hg, hkey, hitems⟩ := exists_item_eq_group (h'.fits.within hlists) hmem
  refine ⟨g, ?_, ?_, ?_⟩
  · rw [Survey.relocate, ← hsurvey]
    exact h'.hasGroup_of_item hlists hg
  · rw [hkey, top, hrekeyed.outside w.top houtside]
    rfl
  · rw [hitems, children, List.map_append, List.map_singleton, List.getLast?_append, hitem]
    rfl

/-- The references in the survey stay, in another order, when an item is taken to another group. -/
theorem references_relocate :
  (e.survey.relocate (e.node u.top).key (e.node w.top).key
      ((u.item e.own).rekey new)).references.Perm e.survey.references
  := by
  obtain ⟨t', h', hids, hrekeyed, -, -, hsurvey, -⟩ :=
    h.relocated hu hw.top_mem houtside hisGroup hnew hcheck
  have hrules : (e.survey.relocate (e.node u.top).key (e.node w.top).key
      ((u.item e.own).rekey new)).ruleReferences = e.survey.ruleReferences := rfl
  rw [Survey.references, hrules, Survey.relocate, ← hsurvey, h'.group_root, Survey.references,
    h.group_root, references_subtree_item h'.fits, references_subtree_item h.fits]
  simp only [hrekeyed.references_own]
  exact (hids.flatMap_right _).append_left _

end

/-- When two items are found, the second outside the subtree of the first, the keys that the first
would get below the second can only clash at its own. -/
theorem exists_outside (h : e.Laid t) (hx : e.survey.locate key = .ok x)
    (hy : e.survey.locate destination = .ok y) (houtside : destination ∉ x.keys)
    (hnew : Key.child destination (Key.leaf key) = new) :
  ∃ u w, Within u t ∧ (e.node u.top).key = key ∧ u.item e.own = x
    ∧ Within w t ∧ (e.node w.top).key = destination ∧ w.item e.own = y ∧ w.top ∉ u.ids
    ∧ Key.parent new = destination
    ∧ e.survey.checkRekey x new
      = if e.survey.contains new = true ∧ new ≠ key then .error (.duplicateKey new) else .ok ()
  := by
  obtain ⟨u, hu, hfound, rfl, rfl⟩ := h.exists_of_locate hx
  obtain ⟨w, hw, -, rfl, rfl⟩ := h.exists_of_locate hy
  rw [h.mem_keys_item_iff hu hw.top_mem] at houtside
  have htop : u.top ≠ t.top := by
    intro htop
    rw [h.eq_of_top_eq hu (Within.self t) htop] at houtside
    exact houtside hw.top_mem
  have hne := h.key_ne_empty_of_locate hu htop hfound
  have hparent : Key.parent new = (e.node w.top).key := by
    rw [← hnew]
    apply Key.parent_child_leaf
  refine ⟨u, w, hu, rfl, rfl, hw, rfl, rfl, houtside, hparent, ?_⟩
  apply h.checkRekey_of_parent hu hne hw houtside hparent

/-- A move of an item to another, when both are found: the first of the conditions that does not
hold is reported. -/
theorem move_eq (h : e.Laid t) (hx : e.survey.locate key = .ok x)
    (hy : e.survey.locate destination = .ok y)
    (hnew : Key.child destination (Key.leaf key) = new) :
  e.survey.move key destination
    = if destination ∈ x.keys then .error (.moveIntoSelf key destination)
      else if y.isGroup = true then
        if e.survey.contains new = true ∧ new ≠ key then .error (.duplicateKey new)
        else .ok ((x.rekey new).redirect key new,
          (e.survey.relocate key destination (x.rekey new)).redirect key new)
      else .error (.notAGroup destination)
  := by
  obtain ⟨w, -, -, rfl, rfl⟩ := h.exists_of_locate hy
  have hwkey : (w.item e.own).key = (e.node w.top).key := key_item e.own w
  rw [Survey.move, hx, hy]
  simp only [bind, Except.bind, hwkey, hnew]
  by_cases hinside : (e.node w.top).key ∈ x.keys
  · rw [if_pos hinside, if_pos hinside]
    rfl
  · rw [if_neg hinside, if_neg hinside]
    cases hgroup : (w.item e.own).isGroup with
    | false => rfl
    | true =>
      obtain ⟨-, -, -, -, -, -, -, -, -, -, hcheck⟩ := h.exists_outside hx hy hinside hnew
      rw [hcheck]
      by_cases htaken : e.survey.contains new = true ∧ new ≠ key
      · rw [if_pos htaken, if_pos htaken]
        rfl
      · rw [if_neg htaken, if_neg htaken]
        rfl

/-- A move succeeds exactly when both items are found, the second is a group outside the subtree of
the first, and no other item has the key that the first gets. -/
theorem move_isOk_iff (h : e.Laid t) (hnew : Key.child destination (Key.leaf key) = new) :
  (∃ p, e.survey.move key destination = .ok p)
    ↔ ∃ x g, e.survey.locate key = .ok x ∧ e.survey.locate destination = .ok (.group g)
      ∧ destination ∉ x.keys ∧ (e.survey.contains new = true → new = key)
  := by
  constructor
  · rintro ⟨p, hok⟩
    obtain ⟨x, hx, hrest⟩ := exists_of_bind_eq_ok hok
    obtain ⟨z, hz, -⟩ := exists_of_bind_eq_ok hrest
    rw [h.move_eq hx hz hnew] at hok
    split at hok
    · cases hok
    · next houtside =>
      cases z with
      | single s => cases hok
      | group g =>
        rw [Item.isGroup, if_pos rfl] at hok
        split at hok
        · cases hok
        · next hfree => exact ⟨x, g, hx, hz, houtside, not_and_not_right.mp hfree⟩
  · rintro ⟨x, g, hx, hg, houtside, hfree⟩
    rw [h.move_eq hx hg hnew, if_neg houtside, Item.isGroup, if_pos rfl,
      if_neg (not_and_not_right.mpr hfree)]
    exact ⟨_, rfl⟩

/-- A move is fatal only if another item has the key that the moved one would get. -/
theorem eq_of_move_eq_error (h : e.Laid t) (hnew : Key.child destination (Key.leaf key) = new)
    {err : EditError} (herr : e.survey.move key destination = .error err)
    (hfatal : err.isFatal = true) :
  err = .duplicateKey new
  := by
  cases hx : e.survey.locate key with
  | error err' =>
    rw [Survey.move, hx] at herr
    cases herr
    rw [Survey.isFatal_of_locate_eq_error hx] at hfatal
    cases hfatal
  | ok x =>
    cases hy : e.survey.locate destination with
    | error err' =>
      rw [Survey.move, hx, hy] at herr
      cases herr
      rw [Survey.isFatal_of_locate_eq_error hy] at hfatal
      cases hfatal
    | ok y =>
      rw [h.move_eq hx hy hnew] at herr
      split_ifs at herr with hinside hgroup htaken
      · cases herr
        cases hfatal
      · cases herr
        rfl
      · cases herr
        cases hfatal

/-- What a move that succeeds makes of the survey, and what it returns. -/
theorem survey_of_move (h : e.Laid t) (hnew : Key.child destination (Key.leaf key) = new)
    {s' : Survey} (hok : e.survey.move key destination = .ok (y, s')) :
  ∃ x k, e.survey.locate key = .ok x ∧ x.Rekeys new k
    ∧ s' = (e.survey.relocate key destination x).relabel k (Key.rebase key new)
    ∧ y = x.relabel k (Key.rebase key new)
    ∧ (∃ g, s'.HasGroup g ∧ g.key = destination ∧ g.items.getLast? = some y)
    ∧ s'.references.Perm (e.survey.references.map (Key.rebase key new))
  := by
  obtain ⟨x, g, hx, hg, houtside, hfree⟩ := (h.move_isOk_iff hnew).mp ⟨_, hok⟩
  have hfree : ¬(e.survey.contains new = true ∧ new ≠ key) := not_and_not_right.mpr hfree
  rw [h.move_eq hx hg hnew, if_neg houtside, Item.isGroup, if_pos rfl, if_neg hfree] at hok
  cases hok
  obtain ⟨u, w, hu, rfl, rfl, hw, rfl, hgroup, hwoutside, hparent, hcheck⟩ :=
    h.exists_outside hx hg houtside hnew
  rw [if_neg hfree] at hcheck
  have hisGroup : (e.own w.top).isGroup = true := by
    rw [← isGroup_item, hgroup]
    rfl
  obtain ⟨k, hk, hitem, hsurvey⟩ :=
    h.exists_relabel_of_relocate hu hw hwoutside hisGroup hparent hcheck
  obtain ⟨g', hg', hkey, hlast⟩ :=
    h.exists_group_of_relocate hu hw hwoutside hisGroup hparent hcheck
  have hredirect (x : Item) :
      (x.relabel k id).redirect (e.node u.top).key new
        = x.relabel k (Key.rebase (e.node u.top).key new) := by
    rw [Item.redirect_eq_relabel, Item.relabel_relabel]
    rfl
  refine ⟨_, k, hx, hk, ?_, ?_, ?_, ?_⟩
  · rw [hsurvey, Survey.redirect_eq_relabel, Survey.relabel_relabel]
    rfl
  · rw [hitem, hredirect]
  · refine ⟨g'.relabel id (Key.rebase (e.node u.top).key new), hg'.relabel _ _, ?_, ?_⟩
    · exact (Item.key_relabel _ _ (.group g')).trans hkey
    · rw [Group.items_relabel, List.getLast?_map, hlast]
      rfl
  · rw [Survey.references_redirect]
    exact (h.references_relocate hu hw hwoutside hisGroup hparent hcheck).map _

end Laid

/-- An item is moved exactly when it and the destination are found, the destination is a group
outside its subtree, and no other item has the key that follows from that of the group; only this
key can clash.  The survey is then the one in which the item stands at the end of the group,
relabelled: the item gets the new key, the keys below it follow, and the references are rebased.
The item returned is the last one of the group. -/
theorem Reachable.relocates_of_move (h : Reachable e) (key destination : Key) :
  let new := Key.child destination (Key.leaf key)
  ((∃ a, (e.serve (.move key destination)).1 = .ok a)
      ↔ ∃ x g, e.findItem key = .ok x ∧ e.findItem destination = .ok (.group g)
        ∧ destination ∉ x.keys ∧ (e.contains new = true → new = key))
    ∧ (∀ err, (e.serve (.move key destination)).1 = .error err → err.isFatal = true →
      err = .duplicateKey new)
    ∧ ∀ a e', e.serve (.move key destination) = (.ok a, e') →
      ∃ x k y, e.findItem key = .ok x ∧ x.Rekeys new k
        ∧ e'.survey = (e.survey.relocate key destination x).relabel k (Key.rebase key new)
        ∧ a = .item y ∧ y = x.relabel k (Key.rebase key new)
        ∧ (∃ g, e'.survey.HasGroup g ∧ g.key = destination ∧ g.items.getLast? = some y)
        ∧ e'.survey.references.Perm (e.survey.references.map (Key.rebase key new))
  := by
  intro new
  obtain ⟨t, ht⟩ := h.laid
  have hagrees := ht.serve (.move key destination)
  rw [ht.find, ht.find, ht.contains_eq]
  refine ⟨?_, ?_, ?_⟩
  · rw [← ht.move_isOk_iff rfl]
    exact hagrees.exists_eq_ok_iff
  · intro err herr hfatal
    exact ht.eq_of_move_eq_error rfl (hagrees.eq_error herr) hfatal
  · intro a e' hserve
    obtain ⟨⟨y, s'⟩, hmove, heq⟩ := hagrees.exists_of_eq_ok hserve
    cases heq
    obtain ⟨x, k, hx, hk, hsurvey, hy, hlast, hreferences⟩ := ht.survey_of_move rfl hmove
    exact ⟨x, k, y, hx, hk, hsurvey, rfl, hy, hlast, hreferences⟩

/-- A question is moved from its group to the end of the root, and the item that follows it follows
it under its new key. -/
theorem relocates_of_move_question :
  ∃ g y, (sample.serve (.move "survey.g.q" "survey")).2.survey.HasGroup g
    ∧ g.key = "survey" ∧ g.items.getLast? = some y ∧ y.key = "survey.q"
    ∧ (sample.serve (.move "survey.g.q" "survey")).2.survey.references = ["survey.q"]
  := by
  have hreachable : Reachable sample := ((Reachable.new.served _).served _).served _
  obtain ⟨a, ha⟩ : ∃ a, (sample.serve (.move "survey.g.q" "survey")).1 = .ok a := ⟨_, rfl⟩
  obtain ⟨x, k, y, -, hk, -, -, rfl, ⟨g, hg, hkey, hlast⟩, -⟩ :=
    (hreachable.relocates_of_move "survey.g.q" "survey").2.2 a _ (Prod.ext ha rfl)
  refine ⟨g, _, hg, hkey, hlast, ?_, rfl⟩
  rw [Item.key_relabel, hk.top]
  rfl

end Editor

end Questionnaire
