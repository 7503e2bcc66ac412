import Mathlib.Data.List.Nodup
import Questionnaire.Proofs.Item.Tree
import Questionnaire.Proofs.Key.Lineage

/-!
# When items may stand where they stand

The checks on placements and keys succeed exactly when every placement is nested, and when no key
is taken or comes twice.  A survey passes them exactly when in its root and in every group of it,
each item is keyed one segment below the group, and no key comes twice in the survey.

An item is well keyed if the same is true of its subtree.  Then all keys in it lie within its own,
unless that is empty.
-/

namespace Questionnaire

/-! ### Groups and what stands in them -/

/-- The root of a survey and the groups in it, at any depth. -/
def Survey.HasGroup (s : Survey) (g : Group) : Prop := Item.group g ∈ (Item.group s.root).subtree

theorem Survey.hasGroup_root (s : Survey) :
  s.HasGroup s.root
  := Item.mem_subtree_self _

/-- The placements of an item are nested when the item is keyed below the group `parent`, and each
item of a group in its subtree below that group. -/
theorem Item.forall_nested_placements_iff {parent : Key} {x : Item} :
  (∀ p ∈ x.placements parent, Nested p)
    ↔ Key.parent x.key = parent
      ∧ ∀ g, group g ∈ x.subtree → ∀ y ∈ g.items, Key.parent y.key = g.key
  := by
  induction x using induct generalizing parent with
  | single s =>
    rw [placements_eq, subtree_single]
    simp [children, placementsOf, Nested]
  | group head selectionMethod items ih =>
    have hitems : (∀ p ∈ placementsOf head.key items, Nested p)
        ↔ ∀ y ∈ items, Key.parent y.key = head.key
          ∧ ∀ g, group g ∈ y.subtree → ∀ z ∈ g.items, Key.parent z.key = g.key := by
      rw [placementsOf_eq]
      constructor
      · intro hnested y hy
        apply (ih y hy).mp
        intro p hp
        apply hnested p (List.mem_flatMap_of_mem hy hp)
      · intro hbelow p hp
        obtain ⟨y, hy, hp⟩ := List.mem_flatMap.mp hp
        apply (ih y hy).mpr (hbelow y hy) p hp
    have hkey : (group ⟨head, selectionMethod, items⟩).key = head.key := rfl
    have hchildren : (group ⟨head, selectionMethod, items⟩).children = items := rfl
    rw [placements_eq, List.forall_mem_cons, hkey, hchildren, hitems, subtree_group, Nested]
    apply and_congr_right
    intro _
    constructor
    · intro hbelow g hg y hy
      rcases List.mem_cons.mp hg with htop | hg
      · cases htop
        apply (hbelow y hy).1
      · obtain ⟨z, hz, hg⟩ := List.mem_flatMap.mp hg
        apply (hbelow z hz).2 g hg y hy
    · intro hbelow y hy
      refine ⟨hbelow _ List.mem_cons_self y hy, ?_⟩
      intro g hg
      apply hbelow g (List.mem_cons_of_mem _ (List.mem_flatMap_of_mem hy hg))

/-- The placements in an item are nested when each item of a group in its subtree is keyed below
that group. -/
theorem Item.forall_nested_placementsOf_iff {x : Item} :
  (∀ p ∈ placementsOf x.key x.children, Nested p)
    ↔ ∀ g, group g ∈ x.subtree → ∀ y ∈ g.items, Key.parent y.key = g.key
  := by
  have hnested := @forall_nested_placements_iff (Key.parent x.key) x
  rw [placements_eq, List.forall_mem_cons] at hnested
  simpa [Nested] using hnested

/-- A survey is well keyed when in every group each item is keyed below the group, and no key comes
twice. -/
theorem Survey.wellKeyed_iff {s : Survey} :
  s.WellKeyed
    ↔ (∀ g, s.HasGroup g → ∀ x ∈ g.items, Key.parent x.key = g.key) ∧ s.keys.Nodup
  := by
  rw [WellKeyed, Group.placements_eq]
  apply and_congr_left
  intro _
  apply Item.forall_nested_placementsOf_iff (x := .group s.root)

/-- If each item of a group in an item is keyed below that group, the children of the item have it
as their parent, and the same is true of them, unless the item has the empty key. -/
theorem Item.of_nested_of_mem_children {x y : Item}
    (h : ∀ g, group g ∈ x.subtree → ∀ y ∈ g.items, Key.parent y.key = g.key) (hne : x.key ≠ "")
    (hy : y ∈ x.children) :
  Key.parent? y.key = some x.key ∧ y.key ≠ ""
    ∧ ∀ g, group g ∈ y.subtree → ∀ z ∈ g.items, Key.parent z.key = g.key
  := by
  cases x with
  | single s => cases hy
  | group g =>
    have hparent := Key.parent?_of_parent (h g (mem_subtree_self _) y hy) hne
    refine ⟨hparent, ?_, ?_⟩
    · intro hempty
      rw [hempty] at hparent
      cases hparent
    · intro g' hg'
      apply h g' (subtree_subset_of_mem_children hy hg')

/-- If each item of a group in an item is keyed below that group, the keys in the item lie within
its own, unless that is empty. -/
theorem Item.isWithin_of_nested {x : Item}
    (h : ∀ g, group g ∈ x.subtree → ∀ y ∈ g.items, Key.parent y.key = g.key) (hne : x.key ≠ "")
    {key : Key} (hkey : key ∈ x.keys) :
  Key.isWithin key x.key = true
  := by
  induction x using induct with
  | single s =>
    rw [keys, subtree_single, List.map_singleton, List.mem_singleton] at hkey
    rw [hkey]
    apply Key.isWithin_refl
  | group head selectionMethod items ih =>
    rw [keys_eq, List.mem_cons] at hkey
    rcases hkey with rfl | hkey
    · apply Key.isWithin_refl
    · obtain ⟨y, hy, hkey⟩ := List.mem_flatMap.mp hkey
      obtain ⟨hparent, hyne, hbelow⟩ := of_nested_of_mem_children h hne hy
      apply Key.isWithin_trans (ih y hy hbelow hyne hkey)
      apply Key.isWithin_parent? hparent

/-! ### Items that are well keyed -/

/-- Whether in every group of its subtree, each item is keyed one segment below the group, and no
key comes twice. -/
structure Item.WellKeyed (x : Item) : Prop where
  nested : ∀ g, group g ∈ x.subtree → ∀ y ∈ g.items, Key.parent y.key = g.key
  nodup : x.keys.Nodup

theorem Survey.WellKeyed.root {s : Survey} (h : s.WellKeyed) :
  (Item.group s.root).WellKeyed
  := by
  obtain ⟨hnested, hnodup⟩ := wellKeyed_iff.mp h
  use hnested
  rw [Item.keys_group]
  apply hnodup

namespace Item.WellKeyed

variable {x y : Item}

/-- The items in the subtree of an item are well keyed with it. -/
theorem of_mem (h : y.WellKeyed) (hx : x ∈ y.subtree) :
  x.WellKeyed
  := by
  have hsublist := subtree_sublist hx
  constructor
  · intro g hg
    apply h.nested g (hsublist.subset hg)
  · apply h.nodup.sublist (hsublist.map key)

/-- Items in the subtree of an item are the same if they have the same key. -/
theorem eq_of_key_eq {z : Item} (h : z.WellKeyed) (hx : x ∈ z.subtree) (hy : y ∈ z.subtree)
    (hkey : x.key = y.key) :
  x = y
  := List.inj_on_of_nodup_map h.nodup hx hy hkey

/-- Only the top of an item can have the empty key. -/
theorem key_ne_empty {g : Group} (h : (group g).WellKeyed) (hx : x ∈ g.items) :
  x.key ≠ ""
  := by
  intro hempty
  have hparent := h.nested g (mem_subtree_self _) x hx
  have hkey : (group g).key = x.key := by
    rw [hempty] at hparent ⊢
    apply hparent.symm
  have hnodup := h.nodup
  rw [keys_eq, List.nodup_cons, hkey] at hnodup
  apply hnodup.1 (List.mem_flatMap_of_mem hx x.key_mem_keys)

/-- The keys in an item lie within its own, unless that is empty. -/
theorem isWithin (h : x.WellKeyed) (hne : x.key ≠ "") {key : Key} (hkey : key ∈ x.keys) :
  Key.isWithin key x.key = true
  := isWithin_of_nested h.nested hne hkey

/-- The keys in `x` that lie within a given key belong to an item in `x` that has it, unless the key
of `x` itself is longer and lies within it. -/
theorem exists_of_isWithin (h : x.WellKeyed) {key within : Key} (hmem : within ∈ x.keys)
    (hwithin : Key.isWithin within key = true)
    (htop : Key.isWithin x.key key = true → x.key = key) :
  ∃ y ∈ x.subtree, y.key = key ∧ within ∈ y.keys
  := by
  induction x using induct with
  | single s =>
    rw [keys, subtree_single, List.map_singleton, List.mem_singleton] at hmem
    subst hmem
    use single s, mem_subtree_self _, htop hwithin
    apply key_mem_keys
  | group head selectionMethod items ih =>
    have hself := mem_subtree_self (group ⟨head, selectionMethod, items⟩)
    by_cases hkey : Key.isWithin head.key key = true
    · use group ⟨head, selectionMethod, items⟩, hself, htop hkey
    · rw [keys_eq, List.mem_cons] at hmem
      rcases hmem with rfl | hmem
      · exfalso
        apply hkey hwithin
      · obtain ⟨y, hy, hmem⟩ := List.mem_flatMap.mp hmem
        have hsub : y.subtree ⊆ (group ⟨head, selectionMethod, items⟩).subtree :=
          subtree_subset_of_mem_children hy
        have hytop : Key.isWithin y.key key = true → y.key = key := by
          intro hywithin
          have hparent : Key.parent y.key = head.key := h.nested _ hself y hy
          cases hykey : Key.parent? y.key with
          | none => exact (Key.isWithin_of_parent?_eq_none hykey).mp hywithin
          | some p =>
            rw [Key.parent, hykey, Option.getD_some] at hparent
            subst hparent
            exact ((Key.isWithin_of_parent? hykey).mp hywithin).resolve_right hkey
        obtain ⟨z, hz, hzkey, hmem⟩ :=
          ih y hy (h.of_mem (hsub y.mem_subtree_self)) hmem hytop
        use z, hsub hz

/-- The keys in `x` that lie within a given key belong to an item in `x` that has it, if the given
key is one segment longer than that of an item in `x`. -/
theorem exists_of_parent_mem (h : x.WellKeyed) {key within : Key} (hmem : within ∈ x.keys)
    (hwithin : Key.isWithin within key = true) (hparent : Key.parent key ∈ x.keys) :
  ∃ y ∈ x.subtree, y.key = key ∧ within ∈ y.keys
  := by
  apply h.exists_of_isWithin hmem hwithin
  intro htop
  by_cases hne : x.key = ""
  · rw [hne] at htop ⊢
    exact (Key.isWithin_of_parent?_eq_none rfl).mp htop
  · exfalso
    have hbelow := h.isWithin hne hparent
    cases hkey : Key.parent? key with
    | none =>
      rw [Key.parent, hkey, Option.getD_none] at hbelow
      exact hne ((Key.isWithin_of_parent?_eq_none rfl).mp hbelow).symm
    | some p =>
      rw [Key.parent, hkey, Option.getD_some] at hbelow
      have hsame := Key.isWithin_antisymm (Key.isWithin_trans hbelow htop)
        (Key.isWithin_parent? hkey)
      have hlt := Key.length_lt_of_parent? hkey
      rw [hsame] at hlt
      apply Nat.lt_irrefl _ hlt

end Item.WellKeyed

theorem Survey.mem_keys_iff {s : Survey} {key : Key} :
  key ∈ s.keys ↔ ∃ x ∈ (Item.group s.root).subtree, x.key = key
  := by
  rw [keys, ← Item.keys_group, Item.keys, List.mem_map]

theorem Survey.contains_eq_true_iff {s : Survey} {key : Key} :
  s.contains key = true ↔ key ∈ s.keys
  := by
  rw [contains, List.contains_iff_mem]

theorem Survey.contains_eq_false_iff {s : Survey} {key : Key} :
  s.contains key = false ↔ key ∉ s.keys
  := by
  simp [contains]

/-- If an item is keyed below an item of a survey that does not have its key, the survey has none of
the keys in it. -/
theorem Survey.WellKeyed.notMem_keys {s : Survey} (h : s.WellKeyed) {x : Item}
    (hx : ∀ g, Item.group g ∈ x.subtree → ∀ y ∈ g.items, Key.parent y.key = g.key)
    (hparent : Key.parent x.key ∈ s.keys) (hfree : x.key ∉ s.keys) {key : Key}
    (hkey : key ∈ x.keys) :
  key ∉ s.keys
  := by
  have hne : x.key ≠ "" := by
    intro hempty
    rw [hempty] at hparent hfree
    apply hfree hparent
  intro hmem
  rw [keys, ← Item.keys_group] at hparent hmem
  have hwithin := Item.isWithin_of_nested hx hne hkey
  obtain ⟨y, hy, hykey, -⟩ := h.root.exists_of_parent_mem hmem hwithin hparent
  apply hfree (mem_keys_iff.mpr ⟨y, hy, hykey⟩)

/-- If an item has the key of an item of a survey, the keys in it that the survey has are those in
the item of the survey. -/
theorem Survey.WellKeyed.mem_keys_of_key_eq {s : Survey} (h : s.WellKeyed) {x y : Item}
    (hx : x.WellKeyed) (hy : y ∈ (Item.group s.root).subtree) (hkey : y.key = x.key) {key : Key}
    (hmem : key ∈ x.keys) (htaken : key ∈ s.keys) :
  key ∈ y.keys
  := by
  rw [keys, ← Item.keys_group] at htaken
  rcases Item.eq_or_exists_group hy with rfl | ⟨g, hg, hyg⟩
  · apply htaken
  · have hne := (h.root.of_mem hg).key_ne_empty hyg
    have hparent : Key.parent x.key ∈ (Item.group s.root).keys := by
      rw [← hkey, h.root.nested g hg y hyg]
      apply List.mem_map_of_mem hg
    rw [hkey] at hne
    obtain ⟨z, hz, hzkey, hmem⟩ :=
      h.root.exists_of_parent_mem htaken (hx.isWithin hne hmem) hparent
    rw [h.root.eq_of_key_eq hy hz (hkey.trans hzkey.symm)]
    apply hmem

/-! ### Checks -/

theorem checkNested_eq_ok_iff {placements : List (Key × Key)} :
  checkNested placements = .ok () ↔ ∀ p ∈ placements, Nested p
  := by
  rw [checkNested]
  split
  · next key parent hfound =>
    have hp := List.find?_some hfound
    constructor
    · intro h
      cases h
    · intro h
      have hnested := h _ (List.mem_of_find?_eq_some hfound)
      simp [hnested] at hp
  · next hnone =>
    rw [List.find?_eq_none] at hnone
    simpa using hnone

theorem firstTaken?_eq_none_iff {taken keys : List Key} :
  firstTaken? taken keys = none ↔ keys.Nodup ∧ ∀ key ∈ keys, key ∉ taken
  := by
  induction keys generalizing taken with
  | nil => simp [firstTaken?]
  | cons key keys ih =>
    rw [firstTaken?]
    by_cases hkey : key ∈ taken
    · simp [hkey]
    · rw [if_neg hkey, ih, List.nodup_cons]
      simp only [List.mem_cons, not_or, forall_eq_or_imp]
      constructor
      · rintro ⟨hnodup, hfree⟩
        refine ⟨⟨?_, hnodup⟩, hkey, fun k hk => (hfree k hk).2⟩
        intro hmem
        apply (hfree key hmem).1 rfl
      · rintro ⟨⟨hmem, hnodup⟩, -, hfree⟩
        refine ⟨hnodup, fun k hk => ⟨?_, hfree k hk⟩⟩
        rintro rfl
        apply hmem hk

theorem checkFree_eq_ok_iff {taken keys : List Key} :
  checkFree taken keys = .ok () ↔ keys.Nodup ∧ ∀ key ∈ keys, key ∉ taken
  := by
  rw [← firstTaken?_eq_none_iff, checkFree]
  cases firstTaken? taken keys with
  | none => simp
  | some key => simp

/-- An item may stand in a group if it is nested and its keys are free and all different. -/
theorem Item.checkPlace_eq_ok_iff {x : Item} {parent : Key} {taken : List Key} :
  x.checkPlace parent taken = .ok ()
    ↔ (∀ p ∈ x.placements parent, Nested p) ∧ x.keys.Nodup ∧ ∀ key ∈ x.keys, key ∉ taken
  := by
  rw [checkPlace, ← checkNested_eq_ok_iff, ← checkFree_eq_ok_iff]
  cases checkNested (x.placements parent) with
  | error err => simp [bind, Except.bind]
  | ok _ => simp [bind, Except.bind]

/-- An item may stand in a group if it is keyed below the group and well keyed, and no key in it is
taken. -/
theorem Item.checkPlace_eq_ok_iff_wellKeyed {x : Item} {parent : Key} {taken : List Key} :
  x.checkPlace parent taken = .ok ()
    ↔ Key.parent x.key = parent ∧ x.WellKeyed ∧ ∀ key ∈ x.keys, key ∉ taken
  := by
  rw [checkPlace_eq_ok_iff, forall_nested_placements_iff]
  constructor
  · rintro ⟨⟨hparent, hnested⟩, hnodup, hfree⟩
    use hparent, ⟨hnested, hnodup⟩
  · rintro ⟨hparent, hkeyed, hfree⟩
    use ⟨hparent, hkeyed.nested⟩, hkeyed.nodup

/-- Items may stand one after the other if they are nested and their keys are free and all
different. -/
theorem checkPlaces_eq_ok_iff {parent : Key} {taken : List Key} {xs : List Item} :
  checkPlaces parent taken xs = .ok ()
    ↔ (∀ p ∈ Item.placementsOf parent xs, Nested p) ∧ (xs.flatMap Item.keys).Nodup
      ∧ ∀ key ∈ xs.flatMap Item.keys, key ∉ taken
  := by
  induction xs generalizing taken with
  | nil => simp [checkPlaces, Item.placementsOf]
  | cons x xs ih =>
    have hseq : checkPlaces parent taken (x :: xs) = .ok ()
        ↔ x.checkPlace parent taken = .ok ()
          ∧ checkPlaces parent (taken ++ x.keys) xs = .ok () := by
      rw [checkPlaces]
      cases x.checkPlace parent taken with
      | error err => simp [bind, Except.bind]
      | ok _ => simp [bind, Except.bind]
    rw [hseq, Item.checkPlace_eq_ok_iff, ih, Item.placementsOf, List.flatMap_cons,
      List.nodup_append]
    simp only [List.mem_append, not_or]
    constructor
    · rintro ⟨⟨hx, hnodup, hfree⟩, hxs, hnodup', hfree'⟩
      refine ⟨?_, ⟨hnodup, hnodup', ?_⟩, ?_⟩
      · rintro p (hp | hp)
        · apply hx p hp
        · apply hxs p hp
      · rintro key hkey _ hkey' rfl
        apply (hfree' key hkey').2 hkey
      · rintro key (hkey | hkey)
        · apply hfree key hkey
        · apply (hfree' key hkey).1
    · rintro ⟨hnested, ⟨hnodup, hnodup', hne⟩, hfree⟩
      refine ⟨⟨fun p hp => hnested p (Or.inl hp), hnodup, fun key hkey => hfree key (Or.inl hkey)⟩,
        fun p hp => hnested p (Or.inr hp), hnodup', ?_⟩
      intro key hkey
      refine ⟨hfree key (Or.inr hkey), ?_⟩
      intro hkey'
      apply hne key hkey' key hkey rfl

theorem Survey.checkKeys_eq_ok_iff {s : Survey} :
  s.checkKeys = .ok () ↔ s.WellKeyed
  := by
  rw [checkKeys, checkPlaces_eq_ok_iff, WellKeyed, keys, Group.keys_eq, Group.placements_eq,
    List.nodup_cons, ← key]
  apply and_congr_right
  intro _
  rw [and_comm]
  apply and_congr_left
  intro _
  constructor
  · intro h hkey
    apply h s.key hkey
    apply List.mem_cons_self
  · intro h key hkey hmem
    rw [List.mem_singleton] at hmem
    rw [hmem] at hkey
    apply h hkey

end Questionnaire
