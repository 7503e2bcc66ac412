import Questionnaire.Proofs.Survey.Placement
import Questionnaire.Survey.Duplicates

/-!
# What the sweeps report

The sweep of a group reports each item whose key an earlier item of the group has, one after the
other, together with the first item that has the key (`Group.isReport_sweep`).  It reports nothing
if and only if no two items of the group have the same key.

The sweep of the root alone says nothing of the groups below it; the sweep of the whole survey is
made of the reports of all groups, depth first (`Survey.duplicates_eq`).  If no key comes twice in a
survey, no sweep reports anything.  If the survey has a key and each item is keyed below its group,
a key that comes twice in the survey comes twice in one group (`Survey.wellKeyed_iff_distinctKeys`).
-/

namespace Questionnaire

/-- No two items of the group have the same key. -/
def Group.DistinctKeys (g : Group) : Prop := (g.items.map Item.key).Nodup

instance (g : Group) : Decidable g.DistinctKeys :=
  inferInstanceAs (Decidable (g.items.map Item.key).Nodup)

/-! ### Reports -/

/-- The item at the later position of `d` is not the first in the group to have its key; the first
one stands at the first position of `d`. -/
structure Group.Repeats (g : Group) (d : Duplicate) : Prop where
  parent_eq : d.parent = g.key
  later_key : (g.items.map Item.key)[d.later]? = some d.key
  first_key : (g.items.map Item.key)[d.first]? = some d.key
  first_lt : d.first < d.later
  first_least : ∀ i < d.first, (g.items.map Item.key)[i]? ≠ some d.key

/-- A report has the repetitions of a group in the order of their later positions. -/
structure Group.IsReport (g : Group) (ds : List Duplicate) : Prop where
  increasing : ds.Pairwise fun d d' => d.later < d'.later
  mem_iff : ∀ d, d ∈ ds ↔ g.Repeats d
  /-- A later position is that of an item with the key of an earlier one. -/
  later_iff : ∀ j, (∃ d ∈ ds, d.later = j)
    ↔ ∃ i < j, ∃ key, (g.items.map Item.key)[i]? = some key ∧ (g.items.map Item.key)[j]? = some key

/-- The next key is reported if it has been seen before. -/
theorem mem_sweepKeys_cons_iff {parent key : Key} {seen keys : List Key} {d : Duplicate} :
  d ∈ sweepKeys parent seen (key :: keys)
    ↔ (d.parent = parent ∧ seen.length = d.later ∧ d.key = key ∧ seen.idxOf? key = some d.first)
      ∨ d ∈ sweepKeys parent (seen ++ [key]) keys
  := by
  obtain ⟨dkey, dparent, dfirst, dlater⟩ := d
  rw [sweepKeys]
  cases seen.idxOf? key with
  | none => simp
  | some first =>
    rw [List.mem_cons, Duplicate.mk.injEq, Option.some.injEq]
    apply or_congr_left
    constructor
    · rintro ⟨rfl, rfl, rfl, rfl⟩
      use rfl, rfl, rfl
    · rintro ⟨rfl, rfl, rfl, rfl⟩
      use rfl, rfl, rfl

/-- The sweep looks for the key of a later position among the keys before it. -/
theorem mem_sweepKeys_iff {parent : Key} {seen keys : List Key} {d : Duplicate} :
  d ∈ sweepKeys parent seen keys
    ↔ d.parent = parent ∧ seen.length ≤ d.later ∧ (seen ++ keys)[d.later]? = some d.key
      ∧ ((seen ++ keys).take d.later).idxOf? d.key = some d.first
  := by
  induction keys generalizing seen with
  | nil =>
    rw [sweepKeys, List.append_nil]
    constructor
    · intro h
      cases h
    · rintro ⟨-, hle, hlater, -⟩
      rw [List.getElem?_eq_none hle] at hlater
      cases hlater
  | cons key keys ih =>
    have hhere : (d.key = key ∧ seen.idxOf? key = some d.first)
        ↔ (seen ++ key :: keys)[seen.length]? = some d.key
          ∧ ((seen ++ key :: keys).take seen.length).idxOf? d.key = some d.first := by
      rw [List.getElem?_append_right (Nat.le_refl _), Nat.sub_self, List.getElem?_cons_zero,
        List.take_left, Option.some.injEq, eq_comm]
      apply and_congr_right
      rintro rfl
      rfl
    rw [mem_sweepKeys_cons_iff, ih, List.append_assoc, List.singleton_append, List.length_append,
      List.length_singleton, hhere]
    constructor
    · rintro (⟨hparent, hlater, hrest⟩ | ⟨hparent, hle, hrest⟩)
      · rw [hlater] at hrest
        use hparent, Nat.le_of_eq hlater, hrest.1, hrest.2
      · use hparent, Nat.le_of_succ_le hle, hrest.1, hrest.2
    · rintro ⟨hparent, hle, hrest⟩
      rcases Nat.eq_or_lt_of_le hle with hlater | hlt
      · left
        rw [hlater]
        use hparent, rfl, hrest.1, hrest.2
      · right
        use hparent, hlt, hrest.1, hrest.2

theorem increasing_sweepKeys (parent : Key) (seen keys : List Key) :
  (sweepKeys parent seen keys).Pairwise fun d d' => d.later < d'.later
  := by
  induction keys generalizing seen with
  | nil => apply List.Pairwise.nil
  | cons key keys ih =>
    rw [sweepKeys]
    cases seen.idxOf? key with
    | none => apply ih
    | some first =>
      apply List.Pairwise.cons _ (ih _)
      intro d hd
      have hle := (mem_sweepKeys_iff.mp hd).2.1
      rw [List.length_append] at hle
      apply hle

/-- The first position of a key among the first `n` keys. -/
theorem idxOf?_take_eq_some_iff {keys : List Key} {key : Key} {n i : Nat} :
  (keys.take n).idxOf? key = some i
    ↔ keys[i]? = some key ∧ i < n ∧ ∀ j < i, keys[j]? ≠ some key
  := by
  rw [List.idxOf?_eq_some_iff]
  constructor
  · rintro ⟨hi, hkey, hleast⟩
    rw [List.length_take, Nat.lt_min] at hi
    rw [List.getElem_take] at hkey
    use List.getElem?_eq_some_iff.mpr ⟨hi.2, hkey⟩, hi.1
    intro j hj hsame
    obtain ⟨_, hsame⟩ := List.getElem?_eq_some_iff.mp hsame
    apply hleast j hj
    rw [List.getElem_take, hsame]
  · rintro ⟨hkey, hn, hleast⟩
    obtain ⟨hi, hkey⟩ := List.getElem?_eq_some_iff.mp hkey
    refine ⟨?_, ?_, ?_⟩
    · rw [List.length_take, Nat.lt_min]
      use hn
    · rw [List.getElem_take, hkey]
    · intro j hj hsame
      rw [List.getElem_take] at hsame
      apply hleast j hj
      apply List.getElem?_eq_some_iff.mpr ⟨hj.trans hi, hsame⟩

theorem Group.mem_sweep_iff {g : Group} {d : Duplicate} :
  d ∈ g.sweep ↔ g.Repeats d
  := by
  rw [sweep, mem_sweepKeys_iff, List.nil_append, idxOf?_take_eq_some_iff]
  constructor
  · rintro ⟨hparent, -, hlater, hfirst, hlt, hleast⟩
    exact ⟨hparent, hlater, hfirst, hlt, hleast⟩
  · rintro ⟨hparent, hlater, hfirst, hlt, hleast⟩
    exact ⟨hparent, Nat.zero_le _, hlater, hfirst, hlt, hleast⟩

theorem Group.isReport_sweep (g : Group) :
  g.IsReport g.sweep
  := by
  refine ⟨increasing_sweepKeys _ _ _, fun _ => mem_sweep_iff, ?_⟩
  intro j
  constructor
  · rintro ⟨d, hd, rfl⟩
    have hrepeats := mem_sweep_iff.mp hd
    use d.first, hrepeats.first_lt, d.key, hrepeats.first_key, hrepeats.later_key
  · rintro ⟨i, hij, key, hi, hj⟩
    have hmem : key ∈ (g.items.map Item.key).take j := by
      apply List.mem_iff_getElem?.mpr
      use i
      rw [List.getElem?_take, if_pos hij, hi]
    obtain ⟨first, hfirst⟩ := Option.isSome_iff_exists.mp (List.isSome_idxOf?.mpr hmem)
    use ⟨key, g.key, first, j⟩, ?_
    apply mem_sweepKeys_iff.mpr ⟨rfl, Nat.zero_le _, hj, hfirst⟩

theorem sweepKeys_eq_nil_iff {parent : Key} {seen keys : List Key} :
  sweepKeys parent seen keys = [] ↔ keys.Nodup ∧ ∀ key ∈ keys, key ∉ seen
  := by
  induction keys generalizing seen with
  | nil => simp [sweepKeys]
  | cons key keys ih =>
    rw [sweepKeys]
    cases hseen : seen.idxOf? key with
    | some first =>
      have hmem : key ∈ seen := by
        rw [← List.isSome_idxOf?, hseen]
        rfl
      simp [hmem]
    | none =>
      rw [List.idxOf?_eq_none_iff] at hseen
      simp only [ih, List.nodup_cons, List.mem_cons, forall_eq_or_imp, List.mem_append,
        List.not_mem_nil, or_false, not_or]
      constructor
      · rintro ⟨hnodup, hfree⟩
        refine ⟨⟨?_, hnodup⟩, hseen, fun k hk => (hfree k hk).1⟩
        intro hmem
        apply (hfree key hmem).2 rfl
      · rintro ⟨⟨hmem, hnodup⟩, -, hfree⟩
        refine ⟨hnodup, fun k hk => ⟨hfree k hk, ?_⟩⟩
        rintro rfl
        apply hmem hk

theorem Group.sweep_eq_nil_iff {g : Group} :
  g.sweep = [] ↔ g.DistinctKeys
  := by
  rw [sweep, sweepKeys_eq_nil_iff, DistinctKeys]
  simp

/-! ### Groups in depth-first order -/

/-- The groups in the subtree of an item, each one before those in it. -/
def Item.groups (x : Item) : List Group :=
  x.subtree.filterMap fun
    | .group g => some g
    | .single _ => none

/-- The groups of a survey, its root first. -/
def Survey.groups (s : Survey) : List Group := (Item.group s.root).groups

theorem Item.groups_single (s : SingleItem) :
  (single s).groups = []
  := by
  rw [groups, subtree_single]
  rfl

theorem Item.groups_group (g : Group) :
  (group g).groups = g :: g.items.flatMap groups
  := by
  rw [groups, subtree_eq, List.filterMap_cons, List.filterMap_flatMap]
  rfl

theorem Item.mem_groups_iff {x : Item} {g : Group} :
  g ∈ x.groups ↔ group g ∈ x.subtree
  := by
  rw [groups, List.mem_filterMap]
  constructor
  · rintro ⟨_ | _, hmem, ⟨⟩⟩
    apply hmem
  · intro hmem
    use group g, hmem

theorem Item.flatMap_sweep_subtree (x : Item) :
  x.subtree.flatMap sweep = x.groups.flatMap Group.sweep
  := by
  induction x using induct with
  | single s =>
    rw [subtree_single, groups_single]
    rfl
  | group head selectionMethod items ih =>
    rw [subtree_group, groups_group, List.flatMap_cons, List.flatMap_cons, List.flatMap_assoc,
      List.flatMap_assoc, List.flatMap_congr ih]
    rfl

namespace Survey

variable {s : Survey}

theorem rootDuplicates_eq_nil_iff :
  s.rootDuplicates = [] ↔ s.root.DistinctKeys
  := Group.sweep_eq_nil_iff

theorem duplicates_eq :
  s.duplicates = s.groups.flatMap Group.sweep
  := by
  rw [groups, ← Item.flatMap_sweep_subtree, Item.subtree, List.flatMap_cons, duplicates]
  rfl

theorem duplicates_eq_nil_iff :
  s.duplicates = [] ↔ ∀ g, s.HasGroup g → g.DistinctKeys
  := by
  rw [duplicates_eq, List.flatMap_eq_nil_iff]
  simp only [groups, Item.mem_groups_iff, Group.sweep_eq_nil_iff, HasGroup]

end Survey

/-! ### Surveys in which no key comes twice -/

/-- If each item of a group in an item is keyed below that group, and no two items of one group have
the same key, no key comes twice in the item, unless that has the empty key. -/
theorem Item.nodup_keys {x : Item}
    (hnested : ∀ g, group g ∈ x.subtree → ∀ y ∈ g.items, Key.parent y.key = g.key)
    (hne : x.key ≠ "") (hdistinct : ∀ g, group g ∈ x.subtree → g.DistinctKeys) :
  x.keys.Nodup
  := by
  induction x using induct with
  | single s =>
    rw [keys, subtree_single]
    apply List.nodup_singleton
  | group head selectionMethod items ih =>
    have hchild {y : Item} (hy : y ∈ items) := of_nested_of_mem_children hnested hne hy
    have hwithin {y : Item} (hy : y ∈ items) {key : Key} (hkey : key ∈ y.keys) :
        Key.isWithin key y.key = true := by
      obtain ⟨-, hyne, hbelow⟩ := hchild hy
      apply isWithin_of_nested hbelow hyne hkey
    rw [keys_eq, List.nodup_cons, List.nodup_flatMap]
    refine ⟨?_, ?_, ?_⟩
    · intro hmem
      obtain ⟨y, hy, hkey⟩ := List.mem_flatMap.mp hmem
      obtain ⟨hparent, -, -⟩ := hchild hy
      have hsame := Key.isWithin_antisymm (hwithin hy hkey) (Key.isWithin_parent? hparent)
      have hlt := Key.length_lt_of_parent? hparent
      rw [← hsame] at hlt
      apply Nat.lt_irrefl _ hlt
    · intro y hy
      obtain ⟨-, hyne, hbelow⟩ := hchild hy
      apply ih y hy hbelow hyne
      intro g hg
      apply hdistinct g (subtree_subset_of_mem_children hy hg)
    · have hkeys := List.pairwise_map.mp (hdistinct _ (mem_subtree_self _))
      apply hkeys.imp_of_mem
      intro y z hy hz hne key hykey hzkey
      apply hne
      exact Key.eq_of_parent?_eq (hwithin hy hykey) (hwithin hz hzkey) (hchild hy).1 (hchild hz).1

/-- If no key comes twice in a survey, no two items of a group in it have the same key. -/
theorem Survey.distinctKeys_of_nodup {s : Survey} (h : s.keys.Nodup) {g : Group}
    (hg : s.HasGroup g) :
  g.DistinctKeys
  := by
  have hitems : g.items.Sublist (Item.group s.root).subtree :=
    (Item.children_sublist (.group g)).trans (Item.subtree_sublist hg)
  rw [keys, ← Item.keys_group, Item.keys] at h
  apply h.sublist (hitems.map Item.key)

/-- A survey with a key, in which each item of a group is keyed below the group, is well keyed if
and only if the items of each group have different keys. -/
theorem Survey.wellKeyed_iff_distinctKeys {s : Survey} (hne : s.key ≠ "")
    (hnested : ∀ g, s.HasGroup g → ∀ x ∈ g.items, Key.parent x.key = g.key) :
  s.WellKeyed ↔ ∀ g, s.HasGroup g → g.DistinctKeys
  := by
  rw [wellKeyed_iff]
  constructor
  · rintro ⟨-, hnodup⟩ g hg
    apply distinctKeys_of_nodup hnodup hg
  · intro hdistinct
    use hnested
    rw [keys, ← Item.keys_group]
    apply Item.nodup_keys hnested hne hdistinct

end Questionnaire
