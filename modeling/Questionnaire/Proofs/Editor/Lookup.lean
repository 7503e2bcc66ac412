import Questionnaire.Proofs.Editor.Layout
import Questionnaire.Proofs.Key

/-!
# Looking nodes up

An arena is searched through its index, a survey through its items.  In a layout both searches
agree: `locate` fails as the search in the survey fails, and otherwise it finds the node of the
item that the search finds.
-/

namespace Questionnaire

open NodeTree

namespace Editor

namespace Laid

variable {e : Editor} {t u : NodeTree}

/-- The index leads from a key to a node with a given parent when the node stands below the parent
and has the key. -/
theorem child_iff (h : e.Laid t) (hu : Within u t) {key : Key} {id : NodeId} :
  e.index.get? key = some id ∧ (e.node id).parent = some u.top
    ↔ ∃ v ∈ u.children, v.top = id ∧ (e.node id).key = key
  := by
  rw [h.index_iff]
  constructor
  · rintro ⟨⟨hid, hkey⟩, hparent⟩
    obtain ⟨w, hw, hwu, v, hv, rfl⟩ := h.exists_parent hid hparent
    use v
    rw [← h.eq_of_top_eq hw hu hwu]
    exact ⟨hv, rfl, hkey⟩
  · rintro ⟨v, hv, rfl, hkey⟩
    have hmem : v.top ∈ t.ids := (hu.of_mem_children hv).top_mem
    exact ⟨⟨hmem, hkey⟩, ((h.holds.within hu).of_mem_children hv).parent_top⟩

/-- A node below another is found by its key among the items of the other. -/
theorem find?_children (h : e.Laid t) (hu : Within u t) {v : NodeTree} (hv : v ∈ u.children) :
  (u.children.map (item e.own)).find? (fun x => x.key == (e.node v.top).key)
    = some (v.item e.own)
  := by
  have hmem : v.item e.own ∈ u.children.map (item e.own) := List.mem_map_of_mem hv
  have hfound : ((u.children.map (item e.own)).find?
      fun x => x.key == (e.node v.top).key).isSome := by
    rw [List.find?_isSome]
    use v.item e.own, hmem
    rw [key_item]
    apply beq_self_eq_true
  obtain ⟨x, hx⟩ := Option.isSome_iff_exists.mp hfound
  obtain ⟨w, hw, rfl⟩ := List.mem_map.mp (List.mem_of_find?_eq_some hx)
  have hkey := List.find?_some hx
  rw [key_item] at hkey
  have htop : w.top = v.top :=
    h.eq_of_key_eq (hu.of_mem_children hw).top_mem (hu.of_mem_children hv).top_mem
      (eq_of_beq hkey)
  rw [hx, h.eq_of_top_eq (hu.of_mem_children hw) (hu.of_mem_children hv) htop]

theorem find?_children_eq_none (h : e.Laid t) (hu : Within u t) {key : Key}
    (hnone : ∀ id, ¬ (e.index.get? key = some id ∧ (e.node id).parent = some u.top)) :
  (u.children.map (item e.own)).find? (fun x => x.key == key) = none
  := by
  rw [List.find?_eq_none]
  intro x hx hkey
  obtain ⟨v, hv, rfl⟩ := List.mem_map.mp hx
  rw [key_item] at hkey
  apply hnone v.top
  apply (h.child_iff hu).mpr
  use v, hv, rfl
  apply eq_of_beq hkey

/-- A search in the arena and one in the survey fail alike, or find a node and its item. -/
inductive Finds (e : Editor) (t : NodeTree) : Except EditError NodeId → Except EditError Item → Prop
  | error (err : EditError) : Finds e t (.error err) (.error err)
  | ok {u : NodeTree} (h : Within u t) : Finds e t (.ok u.top) (.ok (u.item e.own))

theorem Finds.cases {r : Except EditError NodeId} {r' : Except EditError Item}
    (h : Finds e t r r') :
  (∃ err, r = .error err ∧ r' = .error err)
    ∨ ∃ u, Within u t ∧ r = .ok u.top ∧ r' = .ok (u.item e.own)
  := by
  cases h with
  | error err =>
    left
    use err
  | @ok u hu =>
    right
    use u

/-- A search in the arena that succeeds finds a node of the layout, and that in the survey its
item. -/
theorem Finds.of_ok {id : NodeId} {r : Except EditError Item} (h : Finds e t (.ok id) r) :
  ∃ u, Within u t ∧ u.top = id ∧ r = .ok (u.item e.own)
  := by
  cases h with
  | @ok u hu => exact ⟨u, hu, rfl, rfl⟩

/-- Both searches follow keys down from a node in the same way. -/
theorem finds_along (h : e.Laid t) (hu : Within u t) (sought : Key) (keys : List Key) :
  Finds e t (e.along sought keys u.top) (Item.along sought keys (u.item e.own))
  := by
  induction keys generalizing u with
  | nil => exact Finds.ok hu
  | cons key keys ih =>
    rw [along]
    have hgroup : (e.node u.top).item.isGroup = (u.item e.own).isGroup :=
      (isGroup_item e.own u).symm
    have hchildren := (h.fits.within hu).children_item
    cases hitem : u.item e.own with
    | single s =>
      rw [hgroup, hitem]
      have hkey : (e.node u.top).key = s.head.key := by
        have hkey := key_item e.own u
        rw [hitem] at hkey
        exact hkey.symm
      rw [hkey]
      apply Finds.error
    | group g =>
      rw [hitem] at hchildren
      rw [hgroup, hitem, Item.along]
      simp only [Item.isGroup, Bool.not_true, Bool.false_eq_true, if_false]
      have hitems : g.items = u.children.map (item e.own) := hchildren
      rw [hitems]
      by_cases hchild : ∃ id, e.index.get? key = some id ∧ (e.node id).parent = some u.top
      · obtain ⟨id, hid⟩ := hchild
        obtain ⟨v, hv, rfl, rfl⟩ := (h.child_iff hu).mp hid
        rw [hid.1, h.find?_children hu hv]
        simp only [hid.2, if_true]
        apply ih (hu.of_mem_children hv)
      · rw [not_exists] at hchild
        rw [h.find?_children_eq_none hu hchild]
        cases hget : e.index.get? key with
        | none => apply Finds.error
        | some id =>
          have hparent : (e.node id).parent ≠ some u.top := by
            intro hparent
            apply hchild id ⟨hget, hparent⟩
          simp only [hparent, if_false]
          apply Finds.error

/-- A search that meets the key of a node below goes on from there. -/
theorem along_cons (h : e.Laid t) (hu : Within u t) {v : NodeTree} (hv : v ∈ u.children)
    (sought : Key) (keys : List Key) :
  e.along sought ((e.node v.top).key :: keys) u.top = e.along sought keys v.top
  := by
  have hfound := (h.child_iff hu).mpr ⟨v, hv, rfl, rfl⟩
  have hgroup : (e.node u.top).item.isGroup = true := by
    rcases h.fits u.top u.children (by cases u; exact hu) with hgroup | hnil
    · exact hgroup
    · rw [hnil] at hv
      cases hv
  rw [along]
  simp only [hgroup, Bool.not_true, Bool.false_eq_true, if_false, hfound.1, hfound.2, if_true]

/-- A search that succeeds goes on from a node below, of the first key. -/
theorem of_along_cons (h : e.Laid t) (hu : Within u t) {sought key : Key} {keys : List Key}
    {id : NodeId} (hfound : e.along sought (key :: keys) u.top = .ok id) :
  ∃ v ∈ u.children, (e.node v.top).key = key ∧ e.along sought keys v.top = .ok id
  := by
  rw [along] at hfound
  split at hfound
  · cases hfound
  · split at hfound
    · next child hchild =>
      split at hfound
      · next hparent =>
        obtain ⟨v, hv, rfl, hkey⟩ := (h.child_iff hu).mp ⟨hchild, hparent⟩
        use v
      · cases hfound
    · cases hfound

/-- A search along keys ends at a node of the last key. -/
theorem key_of_along (h : e.Laid t) (hu : Within u t) {sought key : Key} {keys : List Key}
    {id : NodeId} (hfound : e.along sought (keys ++ [key]) u.top = .ok id) :
  (e.node id).key = key
  := by
  induction keys generalizing u with
  | nil =>
    obtain ⟨v, _, hkey, hid⟩ := h.of_along_cons hu hfound
    cases hid
    exact hkey
  | cons k keys ih =>
    obtain ⟨v, hv, _, hid⟩ := h.of_along_cons hu hfound
    apply ih (hu.of_mem_children hv) hid

/-- The keys that lead from the root to a key below it, by their bytes as by their characters. -/
theorem below_eq {key root : Key} (h : Key.isWithin key root = true) :
  (Key.prefixes key).filter (fun p => root.utf8ByteSize < p.utf8ByteSize)
    = (Key.prefixes key).filter (fun p => root.length < p.length)
  := by
  apply List.filter_congr
  intro p hp
  rw [decide_eq_decide]
  apply Key.utf8ByteSize_lt_iff (Key.prefix_of_isWithin h) (Key.prefix_of_mem_prefixes hp)

/-- The searches for a key agree. -/
theorem finds_locate (h : e.Laid t) (key : Key) :
  Finds e t (e.locate key) (e.survey.locate key)
  := by
  rw [locate, Survey.locate, h.survey_key, h.group_root, ← h.top_eq]
  by_cases hkey : key = e.key
  · rw [if_pos hkey, if_pos hkey]
    apply Finds.ok (Within.self t)
  · rw [if_neg hkey, if_neg hkey]
    by_cases hwithin : Key.isWithin key e.key = true
    · rw [if_pos hwithin, if_pos hwithin, below_eq hwithin]
      apply h.finds_along (Within.self t)
    · rw [if_neg hwithin, if_neg hwithin]
      apply Finds.error

/-- The node that a key leads to has the key. -/
theorem key_of_locate (h : e.Laid t) {key : Key} {id : NodeId} (hfound : e.locate key = .ok id) :
  (e.node id).key = key
  := by
  rw [locate] at hfound
  split at hfound
  · next hkey =>
    cases hfound
    exact hkey.symm
  · next hkey =>
    split at hfound
    · next hwithin =>
      obtain ⟨shorter, hprefixes, _⟩ := Key.exists_prefixes_eq key
      have hlast : decide (e.key.utf8ByteSize < key.utf8ByteSize) = true := by
        rw [decide_eq_true_iff,
          Key.utf8ByteSize_lt_iff (Key.prefix_of_isWithin hwithin) (List.prefix_refl _)]
        apply Key.length_lt_of_isWithin hwithin hkey
      simp only [hprefixes, List.filter_append, List.filter_cons, hlast, if_true, List.filter_nil,
        ← h.top_eq] at hfound
      apply h.key_of_along (Within.self t) hfound
    · cases hfound

/-- The searches for the parent of other items agree. -/
theorem finds_locateParent (h : e.Laid t) (key : Key) :
  Finds e t (e.locateParent key) (e.survey.locateParent key)
  := by
  rw [locateParent, Survey.locateParent]
  obtain ⟨err, hloc, hloc'⟩ | ⟨u, hu, hloc, hloc'⟩ := (h.finds_locate key).cases
  · rw [hloc, hloc']
    apply Finds.error
  · rw [hloc, hloc']
    exact Finds.ok hu

/-- The searches for the group that items are added to agree. -/
theorem finds_parentNode (h : e.Laid t) (key : Option Key) :
  Finds e t (e.parentNode key) (Item.group <$> e.survey.parentGroup key)
  := by
  cases key with
  | none =>
    have hok := Finds.ok (e := e) (Within.self t)
    rw [h.top_eq, ← h.group_root] at hok
    exact hok
  | some key =>
    rw [parentNode, Survey.parentGroup]
    obtain ⟨err, hloc, hloc'⟩ | ⟨u, hu, hloc, hloc'⟩ := (h.finds_locateParent key).cases
    · rw [hloc, hloc']
      apply Finds.error
    · rw [hloc, hloc']
      have hgroup : (e.node u.top).item.isGroup = (u.item e.own).isGroup :=
        (isGroup_item e.own u).symm
      have hok := Finds.ok (e := e) hu
      simp only [bind, Except.bind, hgroup]
      cases hitem : u.item e.own with
      | single s => apply Finds.error
      | group g =>
        rw [hitem] at hok
        exact hok

/-- Items are added to groups only. -/
theorem isGroup_of_parentNode (h : e.Laid t) {key : Option Key} {id : NodeId}
    (hfound : e.parentNode key = .ok id) :
  (e.own id).isGroup = true
  := by
  cases key with
  | none =>
    cases hfound
    exact h.root_group
  | some key =>
    rw [parentNode] at hfound
    obtain ⟨err, hloc, -⟩ | ⟨u, -, hloc, -⟩ := (h.finds_locateParent key).cases
    · rw [hloc] at hfound
      cases hfound
    · rw [hloc] at hfound
      simp only [bind, Except.bind] at hfound
      split at hfound
      · next hgroup =>
        cases hfound
        exact hgroup
      · cases hfound

/-- The searches for the item that an update applies to agree. -/
theorem finds_updated (h : e.Laid t) (x : Item) :
  Finds e t (e.updated x) (e.survey.updated x)
  := by
  rw [updated, Survey.updated, h.survey_key]
  by_cases hkey : x.key = e.key
  · rw [if_pos hkey, if_pos hkey]
    cases x.isGroup with
    | true =>
      rw [h.group_root, ← h.top_eq]
      apply Finds.ok (Within.self t)
    | false => apply Finds.error
  · rw [if_neg hkey, if_neg hkey, childOfParent]
    obtain ⟨err, hloc, hloc'⟩ | ⟨u, hu, hloc, hloc'⟩ :=
      (h.finds_locateParent (Key.parent x.key)).cases
    · rw [hloc, hloc']
      apply Finds.error
    · rw [hloc, hloc']
      simp only [bind, Except.bind]
      rw [(h.holds.within hu).children_top, (h.fits.within hu).children_item, List.find?_map,
        List.find?_map]
      have hkeys : (fun y : Item => y.key == x.key) ∘ item e.own
          = (fun id => (e.node id).key == x.key) ∘ top := by
        funext v
        rw [Function.comp_apply, key_item]
        rfl
      rw [hkeys]
      cases hfind : u.children.find? ((fun id => (e.node id).key == x.key) ∘ top) with
      | none => apply Finds.error
      | some v => exact Finds.ok (hu.of_mem_children (List.mem_of_find?_eq_some hfind))

end Laid

end Editor

end Questionnaire
