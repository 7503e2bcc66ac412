import Questionnaire.Proofs.Survey.Edit
import Questionnaire.Proofs.Survey.Placement

/-!
# Items that give way to others

An edit at one place of a survey lets one item there give way to another: an item to its update, a
group to the same group with one item more or less.  All other items keep their places, and the
survey keeps all else that it has.

In a survey in which no key comes twice, a change of all groups is such an exchange if it leaves all
groups but one alone (`Survey.exchanges_mapGroups`).  The edits of a survey are found to be
exchanges in this way.
-/

namespace Questionnaire

/-- `v` is the item `u` in which, at one place in its subtree, `x` has given way to `y`. -/
inductive Item.Exchanges (x y : Item) : Item → Item → Prop where
  | top : Exchanges x y x y
  | inside {head : Head} {selectionMethod : Option Expression} {before after : List Item}
    {u v : Item} (h : Exchanges x y u v) :
    Exchanges x y (group ⟨head, selectionMethod, before ++ u :: after⟩)
      (group ⟨head, selectionMethod, before ++ v :: after⟩)

namespace Item

variable {x y u v : Item}

namespace Exchanges

/-- What has given way can be put back. -/
theorem symm (h : Exchanges x y u v) :
  Exchanges y x v u
  := by
  induction h with
  | top => apply top
  | inside _ ih => apply inside ih

/-- An exchange inside an item exchanges the item. -/
theorem trans {a b : Item} (h : Exchanges x y u v) (h' : Exchanges u v a b) :
  Exchanges x y a b
  := by
  induction h' with
  | top => apply h
  | inside _ ih => apply inside ih

/-- Giving way to itself, an item changes nothing. -/
theorem eq_of_self (h : Exchanges x x u v) :
  u = v
  := by
  induction h with
  | top => rfl
  | inside _ ih => rw [ih]

/-- The keys of the item that gives way stand together among the keys around it. -/
theorem exists_keys (h : Exchanges x y u v) :
  ∃ front back, u.keys = front ++ x.keys ++ back ∧ v.keys = front ++ y.keys ++ back
  := by
  induction h with
  | top =>
    use [], []
    simp
  | @inside head selectionMethod before after u v _ ih =>
    obtain ⟨front, back, hu, hv⟩ := ih
    use head.key :: before.flatMap keys ++ front, back ++ after.flatMap keys
    constructor
    · simp [keys_group, Group.keys_eq, Group.key, hu]
    · simp [keys_group, Group.keys_eq, Group.key, hv]

end Exchanges

/-- Any item in a subtree can give way to another one. -/
theorem exists_exchanges (hx : x ∈ u.subtree) (y : Item) :
  ∃ v, Exchanges x y u v
  := by
  induction u using induct with
  | single s =>
    rw [subtree_single, List.mem_singleton] at hx
    subst hx
    use y
    apply Exchanges.top
  | group head selectionMethod items ih =>
    rw [subtree_group, List.mem_cons] at hx
    rcases hx with rfl | hx
    · use y
      apply Exchanges.top
    · obtain ⟨z, hz, hx⟩ := List.mem_flatMap.mp hx
      obtain ⟨v, h⟩ := ih z hz hx
      obtain ⟨before, after, rfl⟩ := List.append_of_mem hz
      use group ⟨head, selectionMethod, before ++ v :: after⟩
      apply Exchanges.inside h

/-- The item that gives way stands in the subtree. -/
theorem Exchanges.mem_subtree (h : Exchanges x y u v) :
  x ∈ u.subtree
  := by
  induction h with
  | top => apply mem_subtree_self
  | inside _ ih =>
    apply subtree_subset_of_mem_children _ ih
    apply List.mem_append_right _ List.mem_cons_self

/-! ### Changes of one group -/

/-- A change of groups keeps to the group with a given key if it keeps all keys and changes nothing
in other groups in the subtree of `u`, also when items in them have given way to others. -/
structure KeepsTo (f : Group → Group) (key : Key) (u : Item) : Prop where
  keys : ∀ g, (f g).key = g.key
  other : ∀ g, group g ∈ u.subtree → g.key ≠ key → ∀ items,
    items.map Item.key = g.items.map Item.key → f { g with items } = { g with items }

section

variable {f : Group → Group}

theorem KeepsTo.of_subset {key : Key} (h : KeepsTo f key u) (hsub : v.subtree ⊆ u.subtree) :
  KeepsTo f key v
  := by
  use h.keys
  intro g hg
  apply h.other g (hsub hg)

/-- Nothing changes in items in which no group has the key. -/
theorem KeepsTo.map_mapGroups_eq {key : Key} (h : KeepsTo f key u) {xs : List Item}
    (hsub : ∀ z ∈ xs, z ∈ u.children) (hkey : ∀ z ∈ xs, key ∉ z.keys) :
  xs.map (mapGroups f) = xs
  := by
  apply Eq.trans _ (List.map_id' xs)
  apply List.map_congr_left
  intro z hz
  apply mapGroups_eq_self
  rintro ⟨head, selectionMethod, items⟩ hg
  apply h.other _ (subtree_subset_of_mem_children (hsub z hz) hg) _ items rfl
  rintro rfl
  apply hkey z hz (List.mem_map_of_mem hg)

/-- Changing all groups exchanges the one group that changes. -/
theorem Exchanges.mapGroups_eq {g : Group} (h : Exchanges (group g) (group (f g)) u v)
    (hnodup : u.keys.Nodup) (hf : KeepsTo f g.key u) :
  u.mapGroups f = v
  := by
  generalize hx : group g = x at h
  generalize hy : group (f g) = y at h
  induction h with
  | top =>
    subst hx hy
    obtain ⟨head, selectionMethod, items⟩ := g
    rw [keys_eq, List.nodup_cons] at hnodup
    have hitems : items.map (mapGroups f) = items := by
      apply hf.map_mapGroups_eq fun _ hz => hz
      intro z hz hkey
      apply hnodup.1 (List.mem_flatMap_of_mem hz hkey)
    rw [mapGroups_group, hitems]
  | @inside head selectionMethod before after u v h ih =>
    have hkey : g.key ∈ u.keys := by
      subst hx
      apply List.mem_map_of_mem h.mem_subtree
    have hmem : u ∈ before ++ u :: after := List.mem_append_right _ List.mem_cons_self
    rw [keys_eq, List.nodup_cons] at hnodup
    obtain ⟨htop, hnodup⟩ := hnodup
    rw [children, List.flatMap_append, List.flatMap_cons, List.nodup_append, List.nodup_append]
      at hnodup
    obtain ⟨-, ⟨hu, -, hafter⟩, hbefore⟩ := hnodup
    have hitems : (before ++ u :: after).map (mapGroups f) = before ++ v :: after := by
      rw [List.map_append, List.map_cons]
      congr 1
      · apply hf.map_mapGroups_eq fun _ hz => List.mem_append_left _ hz
        intro z hz hz'
        apply hbefore _ (List.mem_flatMap_of_mem hz hz') _ (List.mem_append_left _ hkey) rfl
      congr 1
      · apply ih hu (hf.of_subset (subtree_subset_of_mem_children hmem))
      · apply hf.map_mapGroups_eq fun _ hz =>
          List.mem_append_right _ (List.mem_cons_of_mem _ hz)
        intro z hz hz'
        apply hafter _ hkey _ (List.mem_flatMap_of_mem hz hz') rfl
    have hkeys : (before ++ v :: after).map key = (before ++ u :: after).map key := by
      rw [← hitems, List.map_map]
      apply List.map_congr_left
      intro z _
      apply key_mapGroups hf.keys
    rw [mapGroups_group, hitems, hf.other _ (mem_subtree_self _) _ _ hkeys]
    intro hsame
    apply htop
    rw [show (group ⟨head, selectionMethod, before ++ u :: after⟩).key = g.key from hsame]
    apply List.mem_flatMap_of_mem hmem hkey

/-- Where no key comes twice, what a group exchanges for another of its key is determined. -/
theorem Exchanges.unique {g g' : Group} {v' : Item} (h : Exchanges (group g) (group g') u v)
    (h' : Exchanges (group g) (group g') u v') (hnodup : u.keys.Nodup) (hkey : g'.key = g.key) :
  v = v'
  := by
  obtain ⟨f, rfl, hf⟩ : ∃ f, f g = g' ∧ KeepsTo f g.key u := by
    use fun h => if h.key = g.key then g' else h, if_pos rfl
    constructor
    · intro h
      split
      · next hsame => rw [hkey, hsame]
      · rfl
    · intro h _ hne items _
      apply if_neg hne
  rw [← h.mapGroups_eq hnodup hf, ← h'.mapGroups_eq hnodup hf]

/-- A change of lists that changes only items with a given key keeps to the group in which an item
can have it. -/
theorem WellKeyed.keepsTo (h : u.WellKeyed) {key : Key} {change : List Item → List Item}
    (hchange : ∀ ys, (∀ y ∈ ys, y.key ≠ key) → change ys = ys) :
  KeepsTo (fun g => { g with items := change g.items }) (Key.parent key) u
  := by
  constructor
  · intro g
    rfl
  · intro g hg hne items hitems
    rw [hchange]
    rintro y hy rfl
    have hmem : y.key ∈ g.items.map Item.key := by
      rw [← hitems]
      apply List.mem_map_of_mem hy
    obtain ⟨z, hz, hzkey⟩ := List.mem_map.mp hmem
    apply hne
    rw [← hzkey, h.nested g hg z hz]

end

end Item

/-! ### Surveys -/

/-- At one place of a survey, `x` has given way to `y`. -/
inductive Survey.Exchanges (x y : Item) : Survey → Survey → Prop where
  | root {s : Survey} {root : Group} (h : Item.Exchanges x y (.group s.root) (.group root)) :
    Exchanges x y s { s with root }

namespace Survey

variable {x y : Item} {s s' s'' : Survey}

namespace Exchanges

theorem mem_subtree (h : Exchanges x y s s') :
  x ∈ (Item.group s.root).subtree
  := by
  obtain ⟨h⟩ := h
  apply h.mem_subtree

theorem symm (h : Exchanges x y s s') :
  Exchanges y x s' s
  := by
  obtain ⟨h⟩ := h
  apply root (s := { s with root := _ }) h.symm

theorem trans {a b : Item} (h : Item.Exchanges x y a b) (h' : Exchanges a b s s') :
  Exchanges x y s s'
  := by
  obtain ⟨h'⟩ := h'
  apply root (h.trans h')

theorem eq_of_self (h : Exchanges x x s s') :
  s = s'
  := by
  obtain ⟨h⟩ := h
  rw [← Item.group.inj h.eq_of_self]

theorem unique {g g' : Group} (h : Exchanges (.group g) (.group g') s s')
    (h' : Exchanges (.group g) (.group g') s s'') (hs : s.WellKeyed) (hkey : g'.key = g.key) :
  s' = s''
  := by
  obtain ⟨h⟩ := h
  obtain ⟨h'⟩ := h'
  rw [Item.group.inj (h.unique h' hs.root.nodup hkey)]

/-- The keys of the item that gives way are free again, apart from those of the other item. -/
theorem mem_keys_iff (h : Exchanges x y s s') (hs : s.WellKeyed) {key : Key} :
  key ∈ s'.keys ↔ key ∈ y.keys ∨ key ∈ s.keys ∧ key ∉ x.keys
  := by
  obtain ⟨h⟩ := h
  obtain ⟨front, back, hfrom, hto⟩ := h.exists_keys
  have hnodup := hs.root.nodup
  rw [Item.keys_group] at hfrom hto hnodup
  rw [hfrom, List.append_assoc, List.nodup_append, List.nodup_append] at hnodup
  obtain ⟨-, ⟨-, -, hback⟩, hfront⟩ := hnodup
  rw [keys, keys, hfrom, hto]
  simp only [List.mem_append]
  constructor
  · rintro ((hkey | hkey) | hkey)
    · right
      use Or.inl (Or.inl hkey)
      intro hx
      apply hfront key hkey key (List.mem_append_left _ hx) rfl
    · left
      apply hkey
    · right
      use Or.inr hkey
      intro hx
      apply hback key hx key hkey rfl
  · rintro (hkey | ⟨(hkey | hkey) | hkey, hx⟩)
    · apply Or.inl (Or.inr hkey)
    · apply Or.inl (Or.inl hkey)
    · apply absurd hkey hx
    · apply Or.inr hkey

end Exchanges

/-- A change of all groups that keeps to one group exchanges it. -/
theorem exchanges_mapGroups {f : Group → Group} {g : Group} (hs : s.WellKeyed) (hg : s.HasGroup g)
    (hf : Item.KeepsTo f g.key (.group s.root)) :
  s.Exchanges (.group g) (.group (f g)) (s.mapRoot (·.mapGroups f))
  := by
  obtain ⟨v, h⟩ := Item.exists_exchanges hg (.group (f g))
  have hv := h.mapGroups_eq hs.root.nodup hf
  rw [Item.mapGroups] at hv
  subst hv
  apply Exchanges.root h

/-- A change of the items of one group exchanges the group. -/
theorem exchanges_mapItemsAt {g : Group} (hs : s.WellKeyed) (hg : s.HasGroup g)
    (f : List Item → List Item) :
  s.Exchanges (.group g) (.group { g with items := f g.items })
    (s.mapRoot (·.mapItemsAt g.key f))
  := by
  have hf : Item.KeepsTo (fun h => if h.key = g.key then { h with items := f h.items } else h) g.key
      (.group s.root) := by
    constructor
    · intro h
      split
      · rfl
      · rfl
    · intro h _ hne items _
      apply if_neg hne
  have hmap := exchanges_mapGroups hs hg hf
  rw [if_pos rfl] at hmap
  apply hmap

variable {g : Group} {before after : List Item}

/-- In the group of an item, no other item has its key. -/
theorem WellKeyed.key_ne (hs : s.WellKeyed) (hg : s.HasGroup g)
    (hitems : g.items = before ++ x :: after) :
  ∀ y ∈ before ++ after, y.key ≠ x.key
  := by
  have hnodup := (hs.root.of_mem hg).nodup.sublist ((Item.children_sublist _).map Item.key)
  rw [Item.children, hitems, List.map_append, List.map_cons, List.nodup_middle, List.nodup_cons,
    ← List.map_append] at hnodup
  intro y hy hkey
  apply hnodup.1
  rw [← hkey]
  apply List.mem_map_of_mem hy

/-- A change of lists that changes only items with the key of an item exchanges its group. -/
theorem exchanges_mapItems (hs : s.WellKeyed) (hg : s.HasGroup g) (hx : x ∈ g.items)
    {change : List Item → List Item} (hchange : ∀ ys, (∀ y ∈ ys, y.key ≠ x.key) → change ys = ys) :
  s.Exchanges (.group g) (.group { g with items := change g.items })
    (s.mapRoot (·.mapGroups fun g => { g with items := change g.items }))
  := by
  have hkeeps := hs.root.keepsTo hchange
  rw [hs.root.nested g hg x hx] at hkeeps
  apply exchanges_mapGroups hs hg hkeeps

/-- Removing an item exchanges its group. -/
theorem exchanges_erase (hs : s.WellKeyed) (hg : s.HasGroup g)
    (hitems : g.items = before ++ x :: after) :
  s.Exchanges (.group g) (.group { g with items := before ++ after }) (s.mapRoot (·.erase x.key))
  := by
  have hx : x ∈ g.items := by
    rw [hitems]
    apply List.mem_append_right _ List.mem_cons_self
  have hkeep {ys : List Item} (hys : ∀ y ∈ ys, y.key ≠ x.key) :
      (ys.filter fun y => y.key ≠ x.key) = ys := by
    apply List.filter_eq_self.mpr
    intro y hy
    apply decide_eq_true (hys y hy)
  have hfilter : (g.items.filter fun y => y.key ≠ x.key) = before ++ after := by
    rw [hitems, List.filter_append, List.filter_cons_of_neg (by simp), ← List.filter_append,
      hkeep (hs.key_ne hg hitems)]
  have hgroup := exchanges_mapItems hs hg hx fun _ => hkeep
  rw [hfilter] at hgroup
  apply hgroup

/-- Replacing an item that stands in a group exchanges it for its image. -/
theorem exchanges_replace (hs : s.WellKeyed) (hg : s.HasGroup g) (hx : x ∈ g.items)
    (f : Item → Item) :
  s.Exchanges x (f x) (s.mapRoot (·.replace x.key f))
  := by
  obtain ⟨before, after, hitems⟩ := List.append_of_mem hx
  have hkeep {ys : List Item} (hys : ∀ y ∈ ys, y.key ≠ x.key) :
      (ys.map fun y => if y.key = x.key then f y else y) = ys := by
    apply Eq.trans _ (List.map_id' ys)
    apply List.map_congr_left
    intro y hy
    apply if_neg (hys y hy)
  have hne := hs.key_ne hg hitems
  have hmap : (g.items.map fun y => if y.key = x.key then f y else y)
      = before ++ f x :: after := by
    rw [hitems, List.map_append, List.map_cons, if_pos rfl,
      hkeep fun y hy => hne y (List.mem_append_left _ hy),
      hkeep fun y hy => hne y (List.mem_append_right _ hy)]
  have hgroup := exchanges_mapItems hs hg hx fun _ => hkeep
  rw [hmap] at hgroup
  apply Exchanges.trans _ hgroup
  obtain ⟨head, selectionMethod, items⟩ := g
  subst hitems
  apply Item.Exchanges.inside Item.Exchanges.top

/-- Modifying an item exchanges it for its image, if the root stays a group. -/
theorem exchanges_modifyItem (hs : s.WellKeyed) (hx : x ∈ (Item.group s.root).subtree)
    {f : Item → Item} (hgroup : x.key = s.key → (f x).isGroup = true) :
  s.Exchanges x (f x) (s.modifyItem x.key f)
  := by
  by_cases hroot : x.key = s.key
  · have hx : x = .group s.root := hs.root.eq_of_key_eq hx (Item.mem_subtree_self _) hroot
    have hgroup := hgroup hroot
    subst hx
    rw [modifyItem, if_pos hroot]
    cases hf : f (.group s.root) with
    | single y =>
      rw [hf] at hgroup
      cases hgroup
    | group root =>
      apply Exchanges.root
      apply Item.Exchanges.top
  · rw [modifyItem, if_neg hroot]
    rcases Item.eq_or_exists_group hx with rfl | ⟨g, hg, hx⟩
    · apply absurd rfl hroot
    · apply exchanges_replace hs hg hx

end Survey

end Questionnaire
