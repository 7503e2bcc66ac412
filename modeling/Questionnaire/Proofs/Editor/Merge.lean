import Questionnaire.Proofs.Editor.Relabel
import Questionnaire.Proofs.Editor.SurveyKey
import Questionnaire.Proofs.Survey.Exchange

/-!
# Items that are updated

An update lets the item of its key give way to the two merged, which has the items of the update in
it and none of its own.  If both are of one kind, the merged item has each optional field from the
update, or from the item where the update leaves it unset (`Item.fills_iff`); otherwise the update
stands as it is.

It succeeds exactly when the item is found and the update is well keyed: the keys in the update lie
within its own, and the survey has no such keys but those in the item that is replaced.

An update that is made again changes nothing.
-/

namespace Questionnaire

open NodeTree

namespace Item

/-! ### Items that are merged -/

/-- The selection method of a group. -/
def selectionMethod? : Item → Option Expression
  | .group g => g.selectionMethod
  | .single _ => none

/-- The type of a single item. -/
def itemType? : Item → Option String
  | .group _ => none
  | .single s => s.itemType

/-- The root component of a single item. -/
def components? : Item → Option Component
  | .group _ => none
  | .single s => s.components

/-- The validations of a single item. -/
def validations? : Item → Option (List Validation)
  | .group _ => none
  | .single s => s.validations

/-- How a single item keeps confidential responses. -/
def confidentialMode? : Item → Option ConfidentialMode
  | .group _ => none
  | .single s => s.confidentialMode

/-- The merged item is the newer one, with what that leaves unset from the older one of the same
kind. -/
structure Fills (older newer merged : Item) : Prop where
  isGroup_eq : merged.isGroup = newer.isGroup
  key_eq : merged.key = newer.key
  metadata_eq : merged.head.metadata = newer.head.metadata.or older.head.metadata
  follows_eq : merged.head.follows = newer.head.follows.or older.head.follows
  condition_eq : merged.head.condition = newer.head.condition.or older.head.condition
  priority_eq : merged.head.priority = newer.head.priority.or older.head.priority
  selectionMethod_eq : merged.selectionMethod? = newer.selectionMethod?.or older.selectionMethod?
  itemType_eq : merged.itemType? = newer.itemType?.or older.itemType?
  components_eq : merged.components? = newer.components?.or older.components?
  validations_eq : merged.validations? = newer.validations?.or older.validations?
  confidentialMode_eq :
    merged.confidentialMode? = newer.confidentialMode?.or older.confidentialMode?
  children_eq : merged.children = newer.children

/-- Items of one kind are merged field by field. -/
theorem fills_merge {older newer : Item} (h : older.isGroup = newer.isGroup) :
  older.Fills newer (older.merge newer)
  := by
  cases older with
  | group older =>
    cases newer with
    | group newer => constructor <;> rfl
    | single newer => cases h
  | single older =>
    cases newer with
    | group newer => cases h
    | single newer => constructor <;> rfl

/-- An item of the other kind gives nothing to the newer one. -/
theorem merge_of_ne {older newer : Item} (h : older.isGroup ≠ newer.isGroup) :
  older.merge newer = newer
  := by
  cases older with
  | group older =>
    cases newer with
    | group newer => exact absurd rfl h
    | single newer => rfl
  | single older =>
    cases newer with
    | group newer => rfl
    | single newer => exact absurd rfl h

/-- The fields determine a merged item. -/
theorem Fills.unique {older newer merged merged' : Item} (h : older.Fills newer merged)
    (h' : older.Fills newer merged') :
  merged = merged'
  := by
  have hkind : merged.isGroup = merged'.isGroup := h.isGroup_eq.trans h'.isGroup_eq.symm
  have hhead : merged.head = merged'.head :=
    Head.ext (h.key_eq.trans h'.key_eq.symm) (h.metadata_eq.trans h'.metadata_eq.symm)
      (h.follows_eq.trans h'.follows_eq.symm) (h.condition_eq.trans h'.condition_eq.symm)
      (h.priority_eq.trans h'.priority_eq.symm)
  cases merged with
  | group merged =>
    cases merged' with
    | group merged' =>
      apply congrArg Item.group
      apply Group.ext
      · exact hhead
      · exact h.selectionMethod_eq.trans h'.selectionMethod_eq.symm
      · exact h.children_eq.trans h'.children_eq.symm
    | single merged' => cases hkind
  | single merged =>
    cases merged' with
    | group merged' => cases hkind
    | single merged' =>
      apply congrArg Item.single
      apply SingleItem.ext
      · exact hhead
      · exact h.itemType_eq.trans h'.itemType_eq.symm
      · exact h.components_eq.trans h'.components_eq.symm
      · exact h.validations_eq.trans h'.validations_eq.symm
      · exact h.confidentialMode_eq.trans h'.confidentialMode_eq.symm

/-- Items of one kind are merged field by field, and in no other way. -/
theorem fills_iff {older newer merged : Item} (h : older.isGroup = newer.isGroup) :
  older.Fills newer merged ↔ older.merge newer = merged
  := by
  constructor
  · intro hfills
    exact (fills_merge h).unique hfills
  · rintro rfl
    exact fills_merge h

/-- The items in a merged item are those of the newer one. -/
theorem children_merge (older newer : Item) :
  (older.merge newer).children = newer.children
  := by
  by_cases h : older.isGroup = newer.isGroup
  · exact (fills_merge h).children_eq
  · rw [merge_of_ne h]

/-- What is merged once changes no more. -/
theorem merge_merge (older newer : Item) :
  (older.merge newer).merge newer = older.merge newer
  := by
  cases older with
  | single older =>
    cases newer with
    | single newer => simp [merge, SingleItem.merge, Head.merge, ← Option.or_assoc]
    | group newer =>
      cases newer
      simp [merge, Group.merge, Head.merge]
  | group older =>
    cases newer with
    | single newer => simp [merge, SingleItem.merge, Head.merge]
    | group newer => simp [merge, Group.merge, Head.merge, ← Option.or_assoc]

end Item

namespace Survey

variable {s s' : Survey} {x old : Item}

/-- An update with the key of the root applies to the root, if it is a group. -/
theorem updated_eq_ok_iff_of_eq (hroot : x.key = s.key) :
  s.updated x = .ok old ↔ x.isGroup = true ∧ .group s.root = old
  := by
  rw [updated, if_pos hroot]
  cases x.isGroup with
  | false => simp
  | true => simp

/-- An update with another key applies to the item that has the key in the group that the key
names. -/
theorem updated_eq_ok_iff_of_ne (hroot : x.key ≠ s.key) :
  s.updated x = .ok old ↔ ∃ y, s.locate (Key.parent x.key) = .ok y
    ∧ (y.children.find? fun z => z.key == x.key) = some old
  := by
  rw [updated, if_neg hroot, locateParent]
  cases s.locate (Key.parent x.key) with
  | error err => simp [Except.mapError, bind, Except.bind]
  | ok y =>
    cases hfind : y.children.find? fun z => z.key == x.key with
    | none => simp [Except.mapError, bind, Except.bind, hfind]
    | some z => simp [Except.mapError, bind, Except.bind, hfind]

/-- An update is made when the item is found that it applies to, the placements in the update are
nested, and the keys in it are different and free, apart from those in the item. -/
theorem update_eq_ok_iff :
  s.update x = .ok s' ↔ ∃ old, s.updated x = .ok old
    ∧ (∀ p ∈ Item.placementsOf x.key x.children, Nested p)
    ∧ (x.children.flatMap Item.keys).Nodup
    ∧ (∀ key ∈ x.children.flatMap Item.keys, key ∈ s.keys → key ∈ old.children.flatMap Item.keys)
    ∧ s.modifyItem x.key (fun _ => old.merge x) = s'
  := by
  have hfree (old : Item) : checkFree (s.keysWithout (old.children.flatMap Item.keys))
      (x.children.flatMap Item.keys) = .ok () ↔ (x.children.flatMap Item.keys).Nodup
        ∧ ∀ key ∈ x.children.flatMap Item.keys, key ∈ s.keys →
          key ∈ old.children.flatMap Item.keys := by
    rw [checkFree_eq_ok_iff]
    simp only [keysWithout, List.mem_filter, decide_eq_true_eq, not_and_not_right]
  constructor
  · intro hok
    obtain ⟨old, hold, hok⟩ := exists_of_bind_eq_ok hok
    obtain ⟨_, hnested, hok⟩ := exists_of_bind_eq_ok hok
    obtain ⟨_, hcheck, hok⟩ := exists_of_bind_eq_ok hok
    cases hok
    rw [Item.children_merge] at hnested hcheck
    rw [Item.subtreeOf_keys, Item.subtreeOf_keys, hfree] at hcheck
    use old, hold, checkNested_eq_ok_iff.mp hnested, hcheck.1, hcheck.2
  · rintro ⟨old, hold, hnested, hnodup, htaken, hs'⟩
    have hcheck := (hfree old).mpr ⟨hnodup, htaken⟩
    rw [update, hold, ← hs']
    simp only [Item.children_merge, Item.subtreeOf_keys, bind, Except.bind, hcheck,
      checkNested_eq_ok_iff.mpr hnested]
    rfl

end Survey

namespace Editor

namespace Laid

variable {e e' : Editor} {t t' : NodeTree} {x old : Item} {s' : Survey}

/-- The item that an update applies to is that of the survey with the key. -/
theorem mem_of_updated (h : e.Laid t) (hold : e.survey.updated x = .ok old) :
  old ∈ (Item.group e.survey.root).subtree ∧ old.key = x.key
    ∧ (x.key = e.survey.key → x.isGroup = true)
  := by
  by_cases hroot : x.key = e.survey.key
  · obtain ⟨hgroup, rfl⟩ := (Survey.updated_eq_ok_iff_of_eq hroot).mp hold
    use Item.mem_subtree_self _, hroot.symm
    intro _
    apply hgroup
  · obtain ⟨y, hy, hfind⟩ := (Survey.updated_eq_ok_iff_of_ne hroot).mp hold
    have hmem := Item.subtree_subset_of_mem_children (List.mem_of_find?_eq_some hfind)
      old.mem_subtree_self
    have hkey := List.find?_some hfind
    use (Item.subtree_sublist (h.locate_eq_ok_iff.mp hy).1).subset hmem, eq_of_beq hkey
    intro hroot'
    apply absurd hroot' hroot

/-- An update applies to the root if it is a group, and to another item if the survey has its key
and its group is found. -/
theorem updated_isOk_iff (h : e.Laid t) :
  (∃ old, e.survey.updated x = .ok old)
    ↔ if x.key = e.survey.key then x.isGroup = true
      else e.survey.contains x.key = true ∧ ∃ y, e.survey.locate (Key.parent x.key) = .ok y
  := by
  by_cases hroot : x.key = e.survey.key
  · rw [if_pos hroot]
    simp only [Survey.updated_eq_ok_iff_of_eq hroot, exists_and_left, exists_eq', and_true]
  · rw [if_neg hroot]
    constructor
    · rintro ⟨old, hold⟩
      obtain ⟨hmem, hkey, -⟩ := h.mem_of_updated hold
      obtain ⟨y, hy, -⟩ := (Survey.updated_eq_ok_iff_of_ne hroot).mp hold
      use ?_, y
      rw [Survey.contains_eq_true_iff, Survey.mem_keys_iff]
      use old
    · rintro ⟨hcontains, y, hy⟩
      rw [Survey.contains_eq_true_iff, Survey.mem_keys_iff] at hcontains
      obtain ⟨z, hz, hzkey⟩ := hcontains
      rcases Item.eq_or_exists_group hz with rfl | ⟨g, hg, hzg⟩
      · apply absurd hzkey.symm hroot
      · obtain ⟨hymem, hykey, -⟩ := h.locate_eq_ok_iff.mp hy
        have hgkey := h.wellKeyed.root.nested g hg z hzg
        rw [hzkey, ← hykey] at hgkey
        have hsame := h.wellKeyed.root.eq_of_key_eq hymem hg hgkey
        subst hsame
        have hsome : (g.items.find? fun z => z.key == x.key).isSome = true := by
          rw [List.find?_isSome]
          use z, hzg, beq_iff_eq.mpr hzkey
        obtain ⟨old, hfind⟩ := Option.isSome_iff_exists.mp hsome
        use old
        apply (Survey.updated_eq_ok_iff_of_ne hroot).mpr
        use .group g, hy, hfind

/-- An update is made exactly when it is well keyed and there is an item that it applies to. -/
theorem update_eq_ok_iff (h : e.Laid t) :
  e.survey.update x = .ok s' ↔ ∃ old, e.survey.updated x = .ok old ∧ x.WellKeyed
    ∧ e.survey.modifyItem x.key (fun _ => old.merge x) = s'
  := by
  rw [Survey.update_eq_ok_iff]
  apply exists_congr
  intro old
  apply and_congr_right
  intro hold
  obtain ⟨hmem, hkey, -⟩ := h.mem_of_updated hold
  have hnodup := (h.wellKeyed.root.of_mem hmem).nodup
  rw [Item.keys_eq, List.nodup_cons, hkey] at hnodup
  constructor
  · rintro ⟨hnested, hdifferent, htaken, hs'⟩
    use ⟨Item.forall_nested_placementsOf_iff.mp hnested, ?_⟩, hs'
    rw [Item.keys_eq, List.nodup_cons]
    use ?_, hdifferent
    intro hbelow
    apply hnodup.1
    apply htaken _ hbelow (Survey.mem_keys_iff.mpr ⟨old, hmem, hkey⟩)
  · rintro ⟨hx, hs'⟩
    have hdifferent := hx.nodup
    rw [Item.keys_eq, List.nodup_cons] at hdifferent
    use Item.forall_nested_placementsOf_iff.mpr hx.nested, hdifferent.2, ?_, hs'
    intro key hbelow htaken
    have hmemx : key ∈ x.keys := by
      rw [Item.keys_eq]
      apply List.mem_cons_of_mem _ hbelow
    have hmemold := h.wellKeyed.mem_keys_of_key_eq hx hmem hkey hmemx htaken
    rw [Item.keys_eq, List.mem_cons, hkey] at hmemold
    apply hmemold.resolve_left
    rintro rfl
    apply hdifferent.1 hbelow

/-- An update lets the item of its key give way to the two merged. -/
theorem exchanges_update (h : e.Laid t) (hold : e.survey.updated x = .ok old) :
  e.survey.Exchanges old (old.merge x) (e.survey.modifyItem x.key fun _ => old.merge x)
  := by
  obtain ⟨hmem, hkey, hgroup⟩ := h.mem_of_updated hold
  rw [← hkey] at hgroup ⊢
  apply Survey.exchanges_modifyItem h.wellKeyed hmem (f := fun _ => old.merge x)
  rw [Item.isGroup_merge]
  apply hgroup

/-- An update that has been made can be made again, and changes nothing then. -/
theorem update_again (h : e.Laid t) (h' : e'.Laid t') (hok : e.survey.update x = .ok e'.survey) :
  e'.survey.update x = .ok e'.survey
  := by
  obtain ⟨old, hold, hx, hs'⟩ := h.update_eq_ok_iff.mp hok
  obtain ⟨-, -, hgroup⟩ := h.mem_of_updated hold
  have hexchanges := h.exchanges_update hold
  rw [hs'] at hexchanges
  have hmem := hexchanges.symm.mem_subtree
  have hkey := Item.key_merge old x
  have hroot := Survey.key_update hok
  obtain ⟨merged, hmerged⟩ : ∃ merged, e'.survey.updated x = .ok merged := by
    rw [h'.updated_isOk_iff, hroot]
    split
    · next heq => apply hgroup heq
    · next hne =>
      rw [Survey.contains_eq_true_iff, Survey.mem_keys_iff]
      use ⟨_, hmem, hkey⟩
      rcases Item.eq_or_exists_group hmem with htop | ⟨g, hg, hitem⟩
      · rw [← hkey, htop] at hne
        apply absurd hroot hne
      · obtain ⟨y, hy, -⟩ := (Survey.updated_eq_ok_iff_of_ne hne).mp hold
        obtain ⟨-, -, hwithin⟩ := h.locate_eq_ok_iff.mp hy
        have hgkey := h'.wellKeyed.root.nested g hg _ hitem
        rw [hkey] at hgkey
        use .group g
        apply h'.locate_eq_ok_iff.mpr
        rw [← h'.survey_key, hroot, h.survey_key]
        use hg, hgkey.symm
  obtain ⟨hmem', hkey', -⟩ := h'.mem_of_updated hmerged
  obtain rfl := h'.wellKeyed.root.eq_of_key_eq hmem' hmem (hkey'.trans hkey.symm)
  have hagain := h'.exchanges_update hmerged
  rw [Item.merge_merge] at hagain
  apply h'.update_eq_ok_iff.mpr
  use old.merge x, hmerged, hx
  rw [Item.merge_merge, ← hagain.eq_of_self]

end Laid

/-- An item is updated exactly when it is found, and the update is well keyed: the root is found if
the update is a group, and any other item if its key is in use and its group is found.  Then the
item of the key gives way, in its place, to the two merged, which has the items of the update in it,
and of an item of the same kind has whatever the update leaves unset.  The keys in the update are in
use, and of those in the item that was replaced, the others are free again.  The same update once
more succeeds and changes nothing. -/
theorem Reachable.merges_of_update {e : Editor} (h : Reachable e) (x : Item) :
  ((∃ a, (e.serve (.update x)).1 = .ok a)
    ↔ (if x.key = e.key then x.isGroup = true
        else e.contains x.key = true ∧ ∃ y, e.findItem (Key.parent x.key) = .ok y) ∧ x.WellKeyed)
  ∧ ∀ a e', e.serve (.update x) = (.ok a, e') →
    ∃ old, old.key = x.key ∧ e.survey.Exchanges old (old.merge x) e'.survey
      ∧ (old.merge x).children = x.children
      ∧ (old.isGroup = x.isGroup → old.Fills x (old.merge x))
      ∧ (old.isGroup ≠ x.isGroup → old.merge x = x)
      ∧ (∀ k, e'.contains k = true ↔ k ∈ x.keys ∨ e.contains k = true ∧ k ∉ old.keys)
      ∧ ∃ e'', e'.serve (.update x) = (.ok a, e'') ∧ e''.survey = e'.survey
  := by
  obtain ⟨t, ht⟩ := h.laid
  have hagrees := ht.serve (.update x)
  rw [ht.find, ht.contains_eq, ← ht.survey_key, ← ht.updated_isOk_iff]
  constructor
  · apply hagrees.exists_eq_ok_iff.trans
    simp only [ht.update_eq_ok_iff]
    constructor
    · rintro ⟨s', old, hold, hx, -⟩
      use ⟨old, hold⟩
    · rintro ⟨⟨old, hold⟩, hx⟩
      use e.survey.modifyItem x.key fun _ => old.merge x, old, hold
  · intro a e' hserve
    obtain ⟨s', hok, heq⟩ := hagrees.exists_of_eq_ok hserve
    rw [Prod.mk.injEq] at heq
    obtain ⟨rfl, rfl⟩ := heq
    obtain ⟨t', ht'⟩ := ht.served hserve
    obtain ⟨old, hold, -, hs'⟩ := ht.update_eq_ok_iff.mp hok
    have hexchanges := ht.exchanges_update hold
    rw [hs'] at hexchanges
    have hagrees' := ht'.serve (.update x)
    rw [Survey.respond, ht.update_again ht' hok] at hagrees'
    obtain ⟨e'', -, -, hserve', hsurvey⟩ := hagrees'.of_ok
    use old, (ht.mem_of_updated hold).2.1, hexchanges, Item.children_merge old x, Item.fills_merge,
      Item.merge_of_ne
    use ?_, e'', hserve'
    intro k
    have hkeys : (old.merge x).keys = x.keys := by
      rw [Item.keys_eq, Item.keys_eq, Item.key_merge, Item.children_merge]
    rw [ht.contains_eq, ht'.contains_eq, Survey.contains_eq_true_iff, Survey.contains_eq_true_iff,
      hexchanges.mem_keys_iff ht.wellKeyed, hkeys]

/-- A group with the key of the one in the sample and without a selection method, and another
question in it. -/
def regrouped : Item :=
  .group { Group.empty "survey.g" with items := [.single { head := { key := "survey.g.r" } }] }

/-- The group of the sample keeps its selection method, and gets another question in the place of
the one that it has. -/
theorem merges_of_update_group :
  let r := sample.serve (.update regrouped)
  r.1 = .ok .done
    ∧ r.2.findItem "survey.g" = .ok (.group {
      head := { key := "survey.g" }
      selectionMethod := some (.named "sequential")
      items := [.single { head := { key := "survey.g.r" } }] })
    ∧ ∃ old, old.key = "survey.g" ∧ sample.survey.Exchanges old (old.merge regrouped) r.2.survey
      ∧ (old.merge regrouped).children = regrouped.children
      ∧ (old.isGroup = true → old.Fills regrouped (old.merge regrouped))
      ∧ (∀ k, r.2.contains k = true ↔ k ∈ regrouped.keys ∨ sample.contains k = true ∧ k ∉ old.keys)
      ∧ ∃ e, r.2.serve (.update regrouped) = (.ok .done, e) ∧ e.survey = r.2.survey
  := by
  intro r
  have hreachable : Reachable sample := ((Reachable.new.served _).served _).served _
  have hdone : r.1 = .ok .done := rfl
  obtain ⟨old, hkey, hexchanges, hchildren, hfills, -, hcontains, hagain⟩ :=
    (hreachable.merges_of_update regrouped).2 _ _ (Prod.ext hdone rfl)
  refine ⟨hdone, ?_, old, hkey, hexchanges, hchildren, hfills, hcontains, hagain⟩
  change (sample.serve (.update regrouped)).2.findItem "survey.g" = _
  rfl

end Editor

end Questionnaire
