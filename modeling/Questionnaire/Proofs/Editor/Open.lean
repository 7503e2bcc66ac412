import Questionnaire.Proofs.Editor.Agreement

/-!
# Opening surveys

The arena of a survey that is opened is laid out, and its survey is the one that was opened.  A
survey is opened if and only if it is well keyed.
-/

namespace Questionnaire

open NodeTree

/-- Changing the items of the top group changes nothing below, if its key does not come again. -/
theorem Group.mapItemsAt_of_notMem {g : Group} {key : Key} (hkey : g.key = key)
    (h : key ∉ g.keysBelow) (f : List Item → List Item) :
  g.mapItemsAt key f = { g with items := f g.items }
  := by
  obtain ⟨head, selectionMethod, items⟩ := g
  have hitems : Item.mapGroupsOf
      (fun g => if g.key = key then { g with items := f g.items } else g) items = items := by
    rw [Item.mapGroupsOf_eq]
    apply Eq.trans _ (List.map_id' items)
    apply List.map_congr_left
    intro x hx
    apply Item.mapGroups_eq_self
    intro g hg
    rw [if_neg]
    rintro rfl
    apply h
    rw [keysBelow, descendants, Item.subtreeOf_eq]
    apply List.mem_map_of_mem (List.mem_flatMap_of_mem hx hg)
  rw [mapItemsAt, mapGroups, hitems, if_pos hkey]

theorem Group.keys_append (g : Group) (xs : List Item) :
  ({ g with items := g.items ++ xs } : Group).keys = g.keys ++ xs.flatMap Item.keys
  := by
  obtain ⟨head, selectionMethod, items⟩ := g
  simp only [keys, keysBelow, descendants, Item.subtreeOf_keys, List.flatMap_append,
    List.cons_append]
  rfl

namespace Editor

namespace Laid

variable {e : Editor} {t : NodeTree}

theorem survey_nodup (h : e.Laid t) :
  e.survey.keys.Nodup
  := by
  rw [h.survey_keys]
  apply h.nodup.map_on
  intro id hid id' hid'
  apply h.eq_of_key_eq hid hid'

/-- The survey of a layout is well keyed. -/
theorem wellKeyed (h : e.Laid t) :
  e.survey.WellKeyed
  := by
  constructor
  · intro p hp
    have hplacements : (t.item e.own).placements ""
        = ((Item.group e.survey.root).key, "") :: e.survey.root.placements := by
      rw [← h.group_root]
      rfl
    rw [placements_item h.fits, List.cons.injEq] at hplacements
    rw [← hplacements.2] at hp
    obtain ⟨u, hu, hp⟩ := List.mem_flatMap.mp hp
    have hwithin := (Within.self t).of_mem_children hu
    apply (Holds.nested_iff (h.holds.of_mem_children hu) (h.fits.within hwithin)).mpr _ p hp
    intro id hid
    apply h.nested id (hwithin.ids_subset hid)
  · exact h.survey_nodup

/-- Attaching an item to the root puts it behind the items of the root. -/
theorem attach_root (h : e.Laid t) {x : Item}
    (hnested : ∀ p ∈ x.placements e.key, Nested p) (hnodup : x.keys.Nodup)
    (hfree : ∀ key ∈ x.keys, key ∉ e.survey.keys) :
  ∃ t', (Editor.attach e.root none x e).Laid t'
    ∧ (Editor.attach e.root none x e).survey
      = e.survey.mapRoot fun g => { g with items := g.items ++ [x] }
  := by
  have hkey : e.key = (e.node t.top).key := by rw [h.top_eq, key]
  have hgroup : (e.own t.top).isGroup = true := by
    rw [h.top_eq]
    exact h.root_group
  rw [hkey] at hnested
  obtain ⟨t', h', hsurvey, -⟩ := h.attach (Within.self t) hgroup none hnested hnodup hfree
  rw [h.top_eq] at h' hsurvey
  have hroot : e.survey.root.key = (e.node e.root).key := h.survey_key
  have hbelow := (List.nodup_cons.mp h.survey_nodup).1
  rw [hroot] at hbelow
  use t', h'
  rw [hsurvey, Survey.mapRoot, Group.mapItemsAt_of_notMem hroot hbelow, insertAt_none]
  rfl

/-- Putting items under the root fails as the check of their places fails, and otherwise gives a
layout of the survey with the items behind those of its root. -/
theorem open?_cases (h : e.Laid t) (xs : List Item) :
  (∃ err, e.open? xs = .error err ∧ checkPlaces e.key e.survey.keys xs = .error err)
    ∨ ∃ e' t', e'.Laid t' ∧ e.open? xs = .ok e' ∧ checkPlaces e.key e.survey.keys xs = .ok ()
      ∧ e'.survey = e.survey.mapRoot fun g => { g with items := g.items ++ xs }
  := by
  induction xs generalizing e t with
  | nil =>
    right
    use e, t, h, rfl, rfl
    simp only [Survey.mapRoot, List.append_nil, Group.mk_eta]
  | cons x xs ih =>
    rw [open?, checkPlaces, Item.checkPlace, h.checkFree_nil_eq]
    cases hnested : checkNested (x.placements e.key) with
    | error err =>
      left
      use err
      exact ⟨rfl, rfl⟩
    | ok _ =>
      cases hfree : Questionnaire.checkFree e.survey.keys x.keys with
      | error err =>
        left
        use err
        exact ⟨rfl, rfl⟩
      | ok _ =>
        rw [checkNested_eq_ok_iff] at hnested
        rw [checkFree_eq_ok_iff] at hfree
        obtain ⟨t', h', happend⟩ := h.attach_root hnested hfree.1 hfree.2
        have hkeys : (Editor.attach e.root none x e).survey.keys = e.survey.keys ++ x.keys := by
          rw [happend, Survey.mapRoot, Survey.keys, Group.keys_append, List.flatMap_singleton]
          rfl
        have hkey' : (Editor.attach e.root none x e).key = e.key := by
          rw [← h'.survey_key, happend, ← h.survey_key]
          rfl
        have hrest := ih h'
        rw [hkeys, hkey', happend] at hrest
        simp only [Survey.mapRoot, List.append_assoc, List.singleton_append] at hrest
        exact hrest

end Laid

/-- The arena with the root of a survey alone is laid out. -/
theorem withDocument_laid (s : Survey) :
  (withDocument s).1.Laid (.node 0 [])
  := by
  refine {
    top_eq := ?top_eq
    holds := ?holds
    nodup := ?nodup
    stored := ?stored
    root_group := ?root_group
    index_iff := ?index_iff
    nested := ?nested }
  case top_eq => rfl
  case holds =>
    apply Holds.node
    · apply Nat.zero_lt_one
    · rfl
    · rfl
    · simp
  case nodup => simp
  case stored =>
    intro id
    cases id with
    | zero => exact ⟨rfl, fun _ => rfl⟩
    | succ id => exact ⟨rfl, fun _ => rfl⟩
  case root_group => rfl
  case index_iff =>
    intro key id
    have hget := Index.get?_single s.key key 0
    rw [ids_node, List.flatMap_nil, List.mem_singleton]
    apply (iff_of_eq (congrArg (· = some id) hget)).trans
    by_cases hkey : key = s.key
    · rw [if_pos hkey, Option.some.injEq, eq_comm, hkey]
      constructor
      · rintro rfl
        exact ⟨rfl, rfl⟩
      · rintro ⟨rfl, -⟩
        rfl
    · rw [if_neg hkey]
      constructor
      · rintro ⟨⟩
      · rintro ⟨rfl, hroot⟩
        exfalso
        apply hkey hroot.symm
  case nested =>
    intro id hid parent hparent
    rw [ids_node, List.flatMap_nil, List.mem_singleton] at hid
    rw [hid] at hparent
    cases hparent

theorem withDocument_survey (s : Survey) :
  (withDocument s).1.survey = { s with root := { s.root with items := [] } }
  := rfl

/-- Opening a survey fails as the check of its keys fails, and otherwise gives a layout of it. -/
theorem ofSurvey_cases (s : Survey) :
  (∃ err, ofSurvey s = .error err ∧ s.checkKeys = .error err)
    ∨ ∃ e t, e.Laid t ∧ ofSurvey s = .ok e ∧ s.checkKeys = .ok () ∧ e.survey = s
  := by
  have hkeys : (withDocument s).1.survey.keys = [s.key] := rfl
  have hkey : (withDocument s).1.key = s.key := rfl
  obtain ⟨err, hopen, hcheck⟩ | ⟨e, t, h, hopen, hcheck, hsurvey⟩ :=
    (withDocument_laid s).open?_cases s.root.items
  · left
    rw [hkeys, hkey] at hcheck
    use err, hopen, hcheck
  · right
    rw [hkeys, hkey] at hcheck
    use e, t, h, hopen, hcheck
    rw [hsurvey, withDocument_survey, Survey.mapRoot]
    simp only [List.nil_append, Group.mk_eta]

/-- A survey can be opened if and only if in its root and in every group of it, each item is keyed
one segment below the group, and no key comes twice; and then its editor has the survey as it is. -/
theorem ofSurvey_eq_ok_iff (s : Survey) :
  ((∃ e, ofSurvey s = .ok e)
      ↔ (∀ g, s.HasGroup g → ∀ x ∈ g.items, Key.parent x.key = g.key) ∧ s.keys.Nodup)
    ∧ ∀ e, ofSurvey s = .ok e → e.survey = s
  := by
  rw [← Survey.wellKeyed_iff, ← Survey.checkKeys_eq_ok_iff]
  obtain ⟨err, hopen, hcheck⟩ | ⟨e, t, -, hopen, hcheck, hsurvey⟩ := ofSurvey_cases s
  · rw [hopen, hcheck]
    simp
  · rw [hopen, hcheck]
    constructor
    · simp
    · rintro _ ⟨⟩
      exact hsurvey

/-- A survey whose root has a group and a question, and the group a question, is its editor's. -/
theorem ofSurvey_nested_groups :
  let s : Survey := { root := { head := { key := "s" }, selectionMethod := none, items := [
    .group { head := { key := "s.g" }, selectionMethod := none, items := [
      .single { head := { key := "s.g.q" } }] },
    .single { head := { key := "s.q" } }] } }
  ∃ e, ofSurvey s = .ok e ∧ e.survey = s
  := by
  intro s
  have hgroups : ∀ g, s.HasGroup g → ∀ x ∈ g.items, Key.parent x.key = g.key := by
    intro g hg
    simp only [Survey.HasGroup, s, Item.subtree_group, Item.subtree_single, List.flatMap_cons,
      List.flatMap_nil, List.append_nil, List.mem_cons, List.mem_append, List.not_mem_nil, or_false,
      Item.group.injEq, reduceCtorEq] at hg
    rcases hg with rfl | rfl
    · decide
    · decide
  obtain ⟨e, hopen⟩ := (ofSurvey_eq_ok_iff s).1.mpr ⟨hgroups, by decide⟩
  exact ⟨e, hopen, (ofSurvey_eq_ok_iff s).2 e hopen⟩

/-- The survey of a layout can be opened again. -/
theorem Laid.ofSurvey_survey {e : Editor} {t : NodeTree} (h : e.Laid t) :
  ∃ e' t', e'.Laid t' ∧ ofSurvey e.survey = .ok e' ∧ e'.survey = e.survey
  := by
  have hcheck := Survey.checkKeys_eq_ok_iff.mpr h.wellKeyed
  obtain ⟨err, -, herr⟩ | ⟨e', t', h', hopen, -, hsurvey⟩ := ofSurvey_cases e.survey
  · rw [hcheck] at herr
    cases herr
  · use e', t', h', hopen, hsurvey

end Editor

end Questionnaire
