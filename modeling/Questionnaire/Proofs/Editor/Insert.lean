import Questionnaire.Proofs.Editor.Attach
import Questionnaire.Proofs.Editor.Surgery
import Questionnaire.Proofs.Survey.Placement

/-!
# Items put into a laid out arena

The checks that an arena makes before items are attached are those of the survey.  When they
succeed, the arena with the items attached is laid out again, and its survey is the survey with the
items in their places.
-/

namespace Questionnaire

open NodeTree

namespace Editor

/-! ### Checks -/

theorem isTaken_eq_true_iff {e : Editor} {replaced : List NodeId} {key : Key} :
  e.isTaken replaced key = true ↔ ∃ id, e.index.get? key = some id ∧ id ∉ replaced
  := by
  rw [isTaken]
  cases e.index.get? key with
  | none => simp
  | some id => simp

/-- The first key that is taken in the arena is the first that is taken by a list of keys, if the
list holds the keys that are taken in the arena. -/
theorem firstTaken?_eq {e : Editor} {replaced : List NodeId} {seen taken : List Key}
    (h : ∀ key, key ∈ taken ↔ e.isTaken replaced key = true ∨ key ∈ seen) (keys : List Key) :
  e.firstTaken? replaced seen keys = Questionnaire.firstTaken? taken keys
  := by
  induction keys generalizing seen taken with
  | nil => rfl
  | cons key keys ih =>
    have hcons : ∀ k, k ∈ key :: taken ↔ e.isTaken replaced k = true ∨ k ∈ key :: seen := by
      intro k
      rw [List.mem_cons, List.mem_cons, h k, or_left_comm]
    rw [firstTaken?, Questionnaire.firstTaken?, ih hcons]
    simp only [Bool.or_eq_true, List.contains_iff_mem, h key]

namespace Laid

variable {e e' : Editor} {t u : NodeTree}

/-- The arena and the survey find the same keys free, if the keys to be replaced are those of the
nodes to be replaced. -/
theorem checkFree_eq (h : e.Laid t) {replaced : List NodeId} {replacedKeys : List Key}
    (hreplaced : ∀ id ∈ t.ids, (e.node id).key ∈ replacedKeys ↔ id ∈ replaced)
    (keys : List Key) :
  e.checkFree keys replaced = Questionnaire.checkFree (e.survey.keysWithout replacedKeys) keys
  := by
  have htaken : ∀ key, key ∈ e.survey.keysWithout replacedKeys
      ↔ e.isTaken replaced key = true ∨ key ∈ ([] : List Key) := by
    intro key
    rw [isTaken_eq_true_iff, Survey.keysWithout, List.mem_filter, h.survey_keys, List.mem_map]
    simp only [List.not_mem_nil, or_false, decide_eq_true_eq]
    constructor
    · rintro ⟨⟨id, hid, rfl⟩, hkey⟩
      use id, (h.index_iff _ _).mpr ⟨hid, rfl⟩
      intro hmem
      apply hkey ((hreplaced id hid).mpr hmem)
    · rintro ⟨id, hget, hid⟩
      obtain ⟨hmem, rfl⟩ := (h.index_iff _ _).mp hget
      refine ⟨⟨id, hmem, rfl⟩, ?_⟩
      intro hkey
      apply hid ((hreplaced id hmem).mp hkey)
  have hfirst := firstTaken?_eq htaken keys
  unfold checkFree Questionnaire.checkFree
  cases hkey : e.firstTaken? replaced [] keys with
  | none =>
    rw [hkey] at hfirst
    rw [← hfirst]
  | some key =>
    rw [hkey] at hfirst
    rw [← hfirst]

theorem checkFree_nil_eq (h : e.Laid t) (keys : List Key) :
  e.checkFree keys [] = Questionnaire.checkFree e.survey.keys keys
  := by
  have hnone : ∀ id ∈ t.ids, (e.node id).key ∈ ([] : List Key) ↔ id ∈ ([] : List NodeId) := by
    simp
  rw [h.checkFree_eq hnone]
  simp [Survey.keysWithout]

end Laid

/-- The placements of the item of a tree are that of its top and those of the trees below. -/
theorem placements_item {own : NodeId → Item} {t : NodeTree} (hfits : t.Fits own)
    (parent : Key) :
  (t.item own).placements parent
    = ((own t.top).key, parent)
      :: t.children.flatMap fun u => (u.item own).placements (own t.top).key
  := by
  rw [Item.placements_eq, key_item, hfits.children_item, Item.placementsOf_eq, List.flatMap_map]

/-- The keys of a tree that the arena holds are nested when the placements of its item are. -/
theorem Holds.nested_iff {e : Editor} {parent : NodeId} {t : NodeTree}
    (h : e.Holds (some parent) t) (hfits : t.Fits e.own) :
  (∀ p ∈ (t.item e.own).placements (e.node parent).key, Nested p)
    ↔ ∀ id ∈ t.ids, ∀ q, (e.node id).parent = some q →
        Key.parent (e.node id).key = (e.node q).key
  := by
  induction t using induct generalizing parent with
  | node id ts ih =>
    have hbelow : ∀ u ∈ ts, ((∀ p ∈ (u.item e.own).placements (e.node id).key, Nested p)
        ↔ ∀ i ∈ u.ids, ∀ q, (e.node i).parent = some q →
          Key.parent (e.node i).key = (e.node q).key) := by
      intro u hu
      apply ih u hu (h.of_mem_children hu) (hfits.within (Within.deeper hu (Within.self u)))
    have hparent : (e.node id).parent = some parent := h.parent_top
    rw [placements_item hfits, ids_node]
    constructor
    · intro hnested i hi q hq
      rcases List.mem_cons.mp hi with rfl | hi
      · rw [hparent] at hq
        cases hq
        apply hnested _ List.mem_cons_self
      · obtain ⟨u, hu, hi⟩ := List.mem_flatMap.mp hi
        apply (hbelow u hu).mp _ i hi q hq
        intro p hp
        apply hnested p (List.mem_cons_of_mem _ (List.mem_flatMap_of_mem hu hp))
    · intro hnested p hp
      rcases List.mem_cons.mp hp with rfl | hp
      · apply hnested id List.mem_cons_self parent hparent
      · obtain ⟨u, hu, hp⟩ := List.mem_flatMap.mp hp
        apply (hbelow u hu).mpr _ p hp
        intro i hi
        apply hnested i (List.mem_cons_of_mem _ (List.mem_flatMap_of_mem hu hi))

namespace Laid

variable {e e' : Editor} {t u : NodeTree}

/-- The survey of a layout, from its document and its item. -/
theorem survey_eq_of_item (h : e.Laid t) {g : Group} (hitem : t.item e.own = .group g) :
  e.survey = { e.document with root := g }
  := by
  obtain ⟨g', hg', hs⟩ := h.survey_eq
  rw [hitem] at hg'
  cases hg'
  exact hs

end Laid

/-! ### Layouts with items attached -/

section Attached

variable {e e' : Editor} {t u : NodeTree} {f : List NodeTree → List NodeTree}
  {us : List NodeTree} {xs : List Item}

/-- A node of the layout keeps its parent and its item. -/
theorem Attached.node_of_mem {parent : NodeId} {children : List NodeId}
    (hatt : Attached e e' parent children us xs) (h : e.Laid t) {id : NodeId} (hid : id ∈ t.ids) :
  (e'.node id).parent = (e.node id).parent ∧ (e'.node id).item = (e.node id).item
  := by
  by_cases hne : id = parent
  · rw [hne, hatt.parent_eq]
    exact ⟨rfl, rfl⟩
  · rw [hatt.node_eq id (h.holds.lt_size hid) hne]
    exact ⟨rfl, rfl⟩

theorem Attached.key_of_mem {parent : NodeId} {children : List NodeId}
    (hatt : Attached e e' parent children us xs) (h : e.Laid t) {id : NodeId} (hid : id ∈ t.ids) :
  (e'.node id).key = (e.node id).key
  := by
  rw [Node.key, (hatt.node_of_mem h hid).2, Node.key]

namespace Laid

/-- The tree with the new trees put among those below a node is held. -/
theorem holds_of_attached (h : e.Laid t) (hu : Within u t)
    (hatt : Attached e e' u.top ((f u.children).map top) us xs)
    (hperm : (f u.children).Perm (us ++ u.children)) :
  e'.Holds none (t.adjust u.top f)
  := by
  have hother {id : NodeId} (hid : id ∈ t.ids) (hne : id ≠ u.top) : e'.node id = e.node id :=
    hatt.node_eq id (h.holds.lt_size hid) hne
  apply h.holds.adjust h.nodup hatt.size_le
  · intro id hid _
    exact (hatt.node_of_mem h hid).1
  · intro id hid _ hne
    rw [hother hid hne]
  · intro vs hvs
    have hchildren : vs = u.children := by
      rw [← h.eq_of_top_eq hvs hu rfl]
      rfl
    rw [hchildren, hatt.parent_eq]
    refine ⟨rfl, ?_⟩
    intro v hv
    rcases List.mem_append.mp (hperm.mem_iff.mp hv) with hv | hv
    · apply hatt.holds v hv
    · have hsub := (hu.of_mem_children hv).ids_subset
      apply ((h.holds.within hu).of_mem_children hv).congr hatt.size_le
      · intro id hid
        exact (hatt.node_of_mem h (hsub hid)).1
      · intro id hid
        have hne : id ≠ u.top := by
          rintro rfl
          apply top_notMem_children (hu.nodup h.nodup) hv hid
        rw [hother (hsub hid) hne]

/-- The index finds the new nodes and those of the layout. -/
theorem index_of_attached (h : e.Laid t) {parent : NodeId} {children : List NodeId}
    (hatt : Attached e e' parent children us xs)
    (hgroup : (e.own parent).isGroup = true ∨ xs = []) (hnodup : (xs.flatMap Item.keys).Nodup)
    (hfree : ∀ key ∈ xs.flatMap Item.keys, key ∉ e.survey.keys) (key : Key) (id : NodeId) :
  e'.index.get? key = some id ↔ (id ∈ us.flatMap ids ∨ id ∈ t.ids) ∧ (e'.node id).key = key
  := by
  have hkeys := hatt.keys_eq h.stored hgroup
  by_cases hnew : key ∈ xs.flatMap Item.keys
  · have hold : ¬ (id ∈ t.ids ∧ (e'.node id).key = key) := by
      rintro ⟨hid, rfl⟩
      apply hfree _ hnew
      rw [h.survey_keys, hatt.key_of_mem h hid]
      apply List.mem_map_of_mem hid
    rw [← hkeys] at hnew
    obtain ⟨i, hi, rfl⟩ := List.mem_map.mp hnew
    rw [hatt.index_new h.stored hgroup hnodup i hi, or_and_right, or_iff_left hold]
    constructor
    · rintro ⟨⟩
      exact ⟨hi, rfl⟩
    · rintro ⟨hid, hsame⟩
      rw [← hatt.index_new h.stored hgroup hnodup i hi, ← hsame,
        hatt.index_new h.stored hgroup hnodup id hid]
  · have hnone : ¬ (id ∈ us.flatMap ids ∧ (e'.node id).key = key) := by
      rintro ⟨hid, rfl⟩
      apply hnew
      rw [← hkeys]
      apply List.mem_map_of_mem hid
    rw [hatt.index_old key hnew, h.index_iff, or_and_right, or_iff_right hnone]
    apply and_congr_right
    intro hid
    rw [hatt.key_of_mem h hid]

/-- The keys of the new nodes are nested if the items may stand where they are attached. -/
theorem nested_of_attached (h : e.Laid t) {parent : NodeId} {children : List NodeId}
    (hparent : parent ∈ t.ids) (hatt : Attached e e' parent children us xs)
    (hgroup : (e.own parent).isGroup = true ∨ xs = [])
    (hnested : ∀ p ∈ Item.placementsOf (e.node parent).key xs, Nested p) {id : NodeId}
    (hid : id ∈ us.flatMap ids) {q : NodeId} (hq : (e'.node id).parent = some q) :
  Key.parent (e'.node id).key = (e'.node q).key
  := by
  obtain ⟨v, hv, hid⟩ := List.mem_flatMap.mp hid
  apply (Holds.nested_iff (hatt.holds v hv) (hatt.fits h.stored hgroup v hv)).mp _ id hid q hq
  rw [hatt.key_of_mem h hparent]
  intro p hp
  apply hnested
  rw [Item.placementsOf_eq, ← hatt.items_eq]
  apply List.mem_flatMap_of_mem (List.mem_map_of_mem hv) hp

/-- An arena in which items are attached to a group of a layout is laid out again, if their keys are
nested below the group, free and all different. -/
theorem of_attached (h : e.Laid t) (hu : Within u t)
    (hatt : Attached e e' u.top ((f u.children).map top) us xs)
    (hgroup : (e.own u.top).isGroup = true ∨ xs = [])
    (hperm : (f u.children).Perm (us ++ u.children))
    (hnested : ∀ p ∈ Item.placementsOf (e.node u.top).key xs, Nested p)
    (hnodup : (xs.flatMap Item.keys).Nodup)
    (hfree : ∀ key ∈ xs.flatMap Item.keys, key ∉ e.survey.keys) :
  e'.Laid (t.adjust u.top f)
  := by
  have hids : (t.adjust u.top f).ids.Perm (us.flatMap ids ++ t.ids) :=
    ids_adjust_perm_append hu h.nodup hperm
  have hmem {id : NodeId} : id ∈ (t.adjust u.top f).ids ↔ id ∈ us.flatMap ids ∨ id ∈ t.ids := by
    rw [hids.mem_iff, List.mem_append]
  refine {
    top_eq := ?top_eq
    holds := ?holds
    nodup := ?nodup
    stored := ?stored
    root_group := ?root_group
    index_iff := ?index_iff
    nested := ?nested }
  case top_eq => rw [top_adjust, hatt.root_eq, h.top_eq]
  case holds => apply h.holds_of_attached hu hatt hperm
  case nodup =>
    rw [hids.nodup_iff, List.nodup_append]
    refine ⟨hatt.nodup, h.nodup, ?_⟩
    intro id hid id' hid'
    apply Nat.ne_of_gt
    apply Nat.lt_of_lt_of_le (h.holds.lt_size hid') (hatt.size_le_of_mem id hid)
  case stored => apply hatt.stored h.stored hgroup
  case root_group =>
    rw [hatt.root_eq, own, (hatt.node_of_mem h h.root_mem).2]
    exact h.root_group
  case index_iff =>
    intro key id
    rw [hmem]
    apply h.index_of_attached hatt hgroup hnodup hfree
  case nested =>
    intro id hid p hp
    rcases hmem.mp hid with hid | hid
    · apply h.nested_of_attached hu.top_mem hatt hgroup hnested hid hp
    · rw [(hatt.node_of_mem h hid).1] at hp
      rw [hatt.key_of_mem h hid, hatt.key_of_mem h (h.parent_mem hid hp)]
      apply h.nested id hid p hp

end Laid

end Attached

end Editor

end Questionnaire
