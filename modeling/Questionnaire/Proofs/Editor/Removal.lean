import Questionnaire.Proofs.Editor.Addition
import Questionnaire.Proofs.Editor.SurveyKey

/-!
# Items that are removed

An item is removed with all that is in it, and its keys are free again.  In the survey the group of
the item gives way to the same group with one item less.  Adding the item again where it was
restores the survey.
-/

namespace Questionnaire

open NodeTree

/-- The keys of a group are those of an item in it, and those of the group without it. -/
theorem Group.keys_perm {g : Group} {x : Item} {before after : List Item}
    (hitems : g.items = before ++ x :: after) :
  g.keys.Perm (x.keys ++ ({ g with items := before ++ after } : Group).keys)
  := by
  rw [keys_eq, keys_eq, hitems, List.flatMap_append, List.flatMap_append, List.flatMap_cons]
  have hitems : (before.flatMap Item.keys ++ (x.keys ++ after.flatMap Item.keys)).Perm
      (x.keys ++ (before.flatMap Item.keys ++ after.flatMap Item.keys)) :=
    List.perm_append_comm_assoc _ _ _
  apply (hitems.cons g.key).trans List.perm_middle.symm

namespace Survey

variable {s s' : Survey} {x : Item} {key : Key} {g : Group} {before after : List Item}

/-- An item is removed exactly when it is found and is not the root. -/
theorem remove_eq_ok_iff :
  s.remove key = .ok (x, s') ↔ s.locate key = .ok x ∧ key ≠ s.key ∧ s.mapRoot (·.erase key) = s'
  := by
  constructor
  · intro hok
    obtain ⟨y, hlocate, h⟩ := exists_of_bind_eq_ok hok
    by_cases hroot : key = s.key
    · rw [if_pos hroot] at h
      cases h
    · rw [if_neg hroot] at h
      cases h
      use hlocate, hroot
  · rintro ⟨hlocate, hroot, rfl⟩
    apply remove_eq_ok hlocate hroot

/-- Without an item in a group, a survey has the keys that it had, apart from those in the item. -/
theorem Exchanges.mem_keys_of_erase (hs : s.WellKeyed) (hg : s.HasGroup g)
    (hitems : g.items = before ++ x :: after)
    (h : Exchanges (.group g) (.group { g with items := before ++ after }) s s') :
  key ∈ s'.keys ↔ key ∈ s.keys ∧ key ∉ x.keys
  := by
  have hperm := Group.keys_perm hitems
  have hnodup := (hs.root.of_mem hg).nodup
  have hsub : g.keys ⊆ s.keys := by
    rw [keys, ← Item.keys_group, ← Item.keys_group]
    apply ((Item.subtree_sublist hg).map Item.key).subset
  rw [Item.keys_group, hperm.nodup_iff, List.nodup_append] at hnodup
  obtain ⟨-, -, hdisjoint⟩ := hnodup
  rw [h.mem_keys_iff hs, Item.keys_group, Item.keys_group, hperm.mem_iff, List.mem_append, not_or]
  constructor
  · rintro (hkey | ⟨hkey, hx, -⟩)
    · use hsub (hperm.mem_iff.mpr (List.mem_append_right _ hkey))
      intro hx
      apply hdisjoint key hx key hkey rfl
    · use hkey
  · rintro ⟨hkey, hx⟩
    rw [or_iff_not_imp_left]
    intro hnot
    use hkey, hx

end Survey

namespace Editor

namespace Laid

variable {e e' : Editor} {t t' : NodeTree} {x : Item} {g : Group} {before after : List Item}

/-- An item that is found, other than the root, stands in a group whose key lies within that of the
root. -/
theorem exists_hasGroup (h : e.Laid t) {key : Key} (hlocate : e.survey.locate key = .ok x)
    (hroot : key ≠ e.survey.key) :
  x.key = key ∧ ∃ g, e.survey.HasGroup g ∧ x ∈ g.items ∧ Key.isWithin g.key e.key = true
  := by
  obtain ⟨hmem, rfl, hwithin⟩ := h.locate_eq_ok_iff.mp hlocate
  rcases Item.eq_or_exists_group hmem with rfl | ⟨g, hg, hx⟩
  · apply absurd rfl hroot
  · use rfl, g, hg, hx
    rw [h.survey_key] at hroot
    rw [← h.wellKeyed.root.nested g hg x hx]
    apply Key.isWithin_parent hwithin hroot

/-- An item that was taken out of a group is put back where it was. -/
theorem addExisting_of_erase (h : e.Laid t) (h' : e'.Laid t') (hg : e.survey.HasGroup g)
    (hitems : g.items = before ++ x :: after)
    (hgroup : e.survey.Exchanges (.group g) (.group { g with items := before ++ after }) e'.survey)
    (hwithin : Key.isWithin g.key e'.key = true) :
  e'.survey.addExisting x g.key (some before.length) = .ok e.survey
  := by
  have hx : x ∈ g.items := by
    rw [hitems]
    apply List.mem_append_right _ List.mem_cons_self
  have hmem := hgroup.symm.mem_subtree
  have hlocate := h'.locate_eq_ok_iff.mpr ⟨hmem, rfl, hwithin⟩
  apply h'.addExisting_eq_ok_iff.mpr
  use { g with items := before ++ after }, hlocate, h.wellKeyed.root.nested g hg x hx
  use (h.wellKeyed.root.of_mem hg).of_mem (Item.subtree_subset_of_mem_children hx x.mem_subtree_self)
  constructor
  · rw [Survey.contains_eq_false_iff, hgroup.mem_keys_of_erase h.wellKeyed hg hitems]
    intro hkey
    apply hkey.2 x.key_mem_keys
  · have hback := Survey.exchanges_mapItemsAt h'.wellKeyed hmem (insertAt (some before.length) x)
    simp only [insertAt_length, ← hitems, Group.mk_eta] at hback
    apply hback.unique hgroup.symm h'.wellKeyed rfl

end Laid

/-- An item is removed exactly when it is found and is not the root.  The answer is the item, and
the survey is the old one without the item in its group.  The keys in the item, and no others, are
free again.  Adding the item where it was restores the survey. -/
theorem Reachable.restores_of_remove {e : Editor} (h : Reachable e) (key : Key) :
  ((∃ a, (e.serve (.remove key)).1 = .ok a) ↔ (∃ x, e.findItem key = .ok x) ∧ key ≠ e.key)
  ∧ ∀ a e', e.serve (.remove key) = (.ok a, e') →
    ∃ x g before after, a = .item x ∧ e.findItem key = .ok x ∧ g.items = before ++ x :: after
      ∧ e.survey.Exchanges (.group g) (.group { g with items := before ++ after }) e'.survey
      ∧ (∀ k, e'.contains k = true ↔ e.contains k = true ∧ k ∉ x.keys)
      ∧ ∃ e'', e'.serve (.addExisting x g.key (some before.length)) = (.ok (.item x), e'')
        ∧ e''.survey = e.survey
  := by
  obtain ⟨t, ht⟩ := h.laid
  have hagrees := ht.serve (.remove key)
  rw [ht.find, ← ht.survey_key]
  constructor
  · apply hagrees.exists_eq_ok_iff.trans
    constructor
    · rintro ⟨⟨x, s'⟩, hok⟩
      obtain ⟨hlocate, hroot, -⟩ := Survey.remove_eq_ok_iff.mp hok
      use ⟨x, hlocate⟩
    · rintro ⟨⟨x, hlocate⟩, hroot⟩
      use (x, e.survey.mapRoot (·.erase key))
      apply Survey.remove_eq_ok_iff.mpr ⟨hlocate, hroot, rfl⟩
  · intro a e' hserve
    obtain ⟨⟨x, s'⟩, hok, heq⟩ := hagrees.exists_of_eq_ok hserve
    simp only [Prod.mk.injEq] at heq
    obtain ⟨rfl, rfl⟩ := heq
    obtain ⟨hlocate, hroot, hs'⟩ := Survey.remove_eq_ok_iff.mp hok
    obtain ⟨rfl, g, hg, hx, hwithin⟩ := ht.exists_hasGroup hlocate hroot
    obtain ⟨before, after, hitems⟩ := List.append_of_mem hx
    have hgroup := Survey.exchanges_erase ht.wellKeyed hg hitems
    rw [hs'] at hgroup
    obtain ⟨t', ht'⟩ := ht.served hserve
    rw [← ht.survey_key, ← Survey.key_remove hok, ht'.survey_key] at hwithin
    have hagrees' := ht'.serve (.addExisting x g.key (some before.length))
    rw [Survey.respond, ht.addExisting_of_erase ht' hg hitems hgroup hwithin] at hagrees'
    obtain ⟨e'', -, -, hserve', hsurvey⟩ := hagrees'.of_ok
    use x, g, before, after, rfl, hlocate, hitems, hgroup
    use ?_, e'', hserve'
    intro k
    rw [ht.contains_eq, ht'.contains_eq, Survey.contains_eq_true_iff, Survey.contains_eq_true_iff,
      hgroup.mem_keys_of_erase ht.wellKeyed hg hitems]

/-- A group is removed with the question in it, and put back. -/
theorem restores_of_remove_group :
  let r := sample.serve (.remove "survey.g")
  ∃ x, ∃ g : Group, ∃ before after, r.1 = .ok (.item x) ∧ sample.findItem "survey.g" = .ok x
    ∧ g.items = before ++ x :: after
    ∧ (∀ k, r.2.contains k = true ↔ sample.contains k = true ∧ k ∉ x.keys)
    ∧ ∃ e, r.2.serve (.addExisting x g.key (some before.length)) = (.ok (.item x), e)
      ∧ e.survey = sample.survey
  := by
  intro r
  have hreachable : Reachable sample := ((Reachable.new.served _).served _).served _
  obtain ⟨a, hdone⟩ : ∃ a, r.1 = .ok a := ⟨_, rfl⟩
  have hserve : sample.serve (.remove "survey.g") = (.ok a, r.2) := Prod.ext hdone rfl
  obtain ⟨x, g, before, after, rfl, hx, hitems, -, hkeys, hback⟩ :=
    (hreachable.restores_of_remove "survey.g").2 a r.2 hserve
  use x, g, before, after

end Editor

end Questionnaire
