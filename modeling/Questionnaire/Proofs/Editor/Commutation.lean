import Questionnaire.Proofs.Editor.Removal

/-!
# Additions to different groups

Two items are added to two different groups in either order, with the same answers and the same
survey.  It does not matter whether one group lies inside the other, or whether an item is refused.

An addition puts nothing in the way of another one: the item that comes later is keyed below a group
that the survey had before, so a key in it that the survey does not have is not among those that
came with the first item (`checkPlace_of_added`).  What is refused is refused for the same key then,
and what is added goes into its group as it would have before.
-/

namespace Questionnaire

open NodeTree

/-! ### Groups that receive an item -/

/-- The group with an item inserted, if the group has the given key. -/
def Group.receive (key : Key) (position : Option Nat) (x : Item) (g : Group) : Group :=
  if g.key = key then { g with items := insertAt position x g.items } else g

namespace Item

variable {p q : Key} {x y : Item} {i j : Option Nat}

theorem mapGroups_receive_group (head : Head) (selectionMethod : Option Expression)
    (items : List Item) :
  (group ⟨head, selectionMethod, items⟩).mapGroups (.receive p i x)
    = group ⟨head, selectionMethod,
        if head.key = p then insertAt i x (items.map (mapGroups (.receive p i x)))
        else items.map (mapGroups (.receive p i x))⟩
  := by
  rw [mapGroups_group, Group.receive, Group.key]
  split
  · rfl
  · rfl

/-- Nothing goes into an item in which no group has the key. -/
theorem mapGroups_receive_of_notMem (h : p ∉ y.keys) :
  y.mapGroups (.receive p i x) = y
  := by
  apply mapGroups_eq_self
  intro g hg
  apply if_neg
  rintro rfl
  apply h (List.mem_map_of_mem hg)

/-- Items go into two groups in either order, unless one of them has a group in it with the key of
the group of the other. -/
theorem mapGroups_receive_comm (hne : p ≠ q) (hx : q ∉ x.keys) (hy : p ∉ y.keys) (u : Item) :
  (u.mapGroups (.receive p i x)).mapGroups (.receive q j y)
    = (u.mapGroups (.receive q j y)).mapGroups (.receive p i x)
  := by
  induction u using induct with
  | single s => simp
  | group head selectionMethod items ih =>
    have hitems : (items.map (mapGroups (.receive p i x))).map (mapGroups (.receive q j y))
        = (items.map (mapGroups (.receive q j y))).map (mapGroups (.receive p i x)) := by
      rw [List.map_map, List.map_map]
      apply List.map_congr_left
      exact ih
    simp only [mapGroups_receive_group]
    by_cases hp : head.key = p
    · have hq : head.key ≠ q := by
        rw [hp]
        apply hne
      rw [if_pos hp, if_pos hp, if_neg hq, if_neg hq, map_insertAt, mapGroups_receive_of_notMem hx,
        hitems]
    · rw [if_neg hp, if_neg hp]
      by_cases hq : head.key = q
      · rw [if_pos hq, if_pos hq, map_insertAt, mapGroups_receive_of_notMem hy, hitems]
      · rw [if_neg hq, if_neg hq, hitems]

/-- The groups of an item are there under their keys when groups have received an item. -/
theorem exists_group_of_mapGroups_receive {g : Group} {u : Item} (hg : group g ∈ u.subtree) :
  ∃ g', group g' ∈ (u.mapGroups (.receive p i x)).subtree ∧ g'.key = g.key
  := by
  induction u using induct with
  | single s =>
    rw [subtree_single, List.mem_singleton] at hg
    cases hg
  | group head selectionMethod items ih =>
    rw [mapGroups_receive_group]
    rw [subtree_group, List.mem_cons] at hg
    rcases hg with heq | hg
    · cases heq
      refine ⟨_, mem_subtree_self _, rfl⟩
    · obtain ⟨y, hy, hg⟩ := List.mem_flatMap.mp hg
      obtain ⟨g', hg', hkey⟩ := ih y hy hg
      use g', ?_, hkey
      apply subtree_subset_of_mem_children _ hg'
      have hmem : y.mapGroups (.receive p i x) ∈ items.map (mapGroups (.receive p i x)) :=
        List.mem_map_of_mem hy
      rw [children]
      split
      · apply mem_insertAt.mpr (Or.inr hmem)
      · apply hmem

end Item

/-! ### Keys that are free -/

/-- What is taken counts only among the keys that are asked for. -/
theorem firstTaken?_congr {taken taken' keys : List Key}
    (h : ∀ key ∈ keys, key ∈ taken ↔ key ∈ taken') :
  firstTaken? taken keys = firstTaken? taken' keys
  := by
  induction keys generalizing taken taken' with
  | nil => rfl
  | cons key keys ih =>
    obtain ⟨hkey, hkeys⟩ := List.forall_mem_cons.mp h
    have hrest : firstTaken? (key :: taken) keys = firstTaken? (key :: taken') keys := by
      apply ih
      intro k hk
      rw [List.mem_cons, List.mem_cons, hkeys k hk]
    simp only [firstTaken?, hkey, hrest]

theorem firstTaken?_keys_of_mem {taken : List Key} {x : Item} (h : x.key ∈ taken) :
  firstTaken? taken x.keys = some x.key
  := by
  rw [Item.keys_eq, firstTaken?, if_pos h]

namespace Survey

variable {s s' : Survey} {p q : Key} {x y : Item}

/-- The key of an item is not among those of an item that was added to another group before, as its
group did not come with that item. -/
theorem key_notMem_of_nested (hx : x.WellKeyed) (hfree : ∀ key ∈ x.keys, key ∉ s.keys)
    (hne : Key.parent y.key ≠ Key.parent x.key) (hparent : Key.parent y.key ∈ s.keys) :
  y.key ∉ x.keys
  := by
  intro hmem
  obtain ⟨z, hz, hkey⟩ := List.mem_map.mp hmem
  rcases Item.eq_or_exists_group hz with rfl | ⟨g, hg, hzg⟩
  · apply hne
    rw [hkey]
  · apply hfree (Key.parent y.key) _ hparent
    rw [← hkey, hx.nested g hg z hzg]
    apply List.mem_map_of_mem hg

/-- An item may stand in a group, or may not for the same reason, when another item has been added
to another group. -/
theorem checkPlace_of_added (hs : s.WellKeyed) (hs' : s'.WellKeyed)
    (hkeys : ∀ key, key ∈ s'.keys ↔ key ∈ x.keys ∨ key ∈ s.keys) (hx : x.WellKeyed)
    (hfree : ∀ key ∈ x.keys, key ∉ s.keys) (hne : Key.parent x.key ≠ q) (hq : q ∈ s.keys) :
  y.checkPlace q s'.keys = y.checkPlace q s.keys
  := by
  rw [Item.checkPlace, Item.checkPlace]
  cases hcheck : checkNested (y.placements q) with
  | error err => rfl
  | ok _ =>
    obtain ⟨rfl, hnested⟩ :=
      Item.forall_nested_placements_iff.mp (checkNested_eq_ok_iff.mp hcheck)
    have hsame : firstTaken? s'.keys y.keys = firstTaken? s.keys y.keys := by
      by_cases htaken : y.key ∈ s.keys
      · rw [firstTaken?_keys_of_mem htaken, firstTaken?_keys_of_mem ((hkeys _).mpr (Or.inr htaken))]
      · have htaken' : y.key ∉ s'.keys := by
          rw [hkeys, not_or]
          use key_notMem_of_nested hx hfree hne.symm hq
        apply firstTaken?_congr
        intro key hkey
        apply iff_of_false
        · apply hs'.notMem_keys hnested ((hkeys _).mpr (Or.inr hq)) htaken' hkey
        · apply hs.notMem_keys hnested hq htaken hkey
    simp only [checkFree, hsame]

/-- An item is added to a group that is found if it may stand in the group. -/
theorem addExisting_eq_of_locate {g : Group} (hlocate : s.locate p = .ok (.group g))
    (hkey : g.key = p) (x : Item) (position : Option Nat) :
  s.addExisting x p position
    = (x.checkPlace p s.keys).map fun _ => s.mapRoot (·.mapItemsAt p (insertAt position x))
  := by
  have hgroup : s.parentGroup (some p) = .ok g := parentGroup_eq_ok_iff.mpr hlocate
  rw [addExisting, hgroup]
  change s.insert x g.key position = _
  rw [insert, hkey]
  cases x.checkPlace p s.keys with
  | _ => rfl

end Survey

namespace Editor

namespace Laid

variable {e e' : Editor} {t t' : NodeTree} {p q : Key} {x y : Item} {i j : Option Nat} {s' : Survey}
  {g : Group}

/-- An item that is added may stand in the group, and no key in it was in use. -/
theorem of_addExisting (h : e.Laid t) (hok : e.survey.addExisting x p i = .ok s') :
  Key.parent x.key = p ∧ x.WellKeyed ∧ (∀ key ∈ x.keys, key ∉ e.survey.keys)
    ∧ e.survey.mapRoot (·.mapItemsAt p (insertAt i x)) = s'
  := by
  obtain ⟨g, hg, -⟩ := h.addExisting_eq_ok_iff.mp hok
  rw [Survey.addExisting_eq_of_locate hg (h.locate_eq_ok_iff.mp hg).2.1] at hok
  obtain ⟨_, hplace, hs'⟩ := exists_of_map_eq_ok hok
  obtain ⟨hparent, hx, hfree⟩ := Item.checkPlace_eq_ok_iff_wellKeyed.mp hplace
  use hparent, hx, hfree

theorem mem_keys_of_locate (h : e.Laid t) {x : Item} (hx : e.survey.locate p = .ok x) :
  p ∈ e.survey.keys
  := by
  obtain ⟨hmem, hkey, -⟩ := h.locate_eq_ok_iff.mp hx
  apply Survey.mem_keys_iff.mpr ⟨x, hmem, hkey⟩

/-- With an item, a survey gets the keys in it. -/
theorem mem_keys_of_addExisting (h : e.Laid t) (hok : e.survey.addExisting x p i = .ok s')
    {key : Key} :
  key ∈ s'.keys ↔ key ∈ x.keys ∨ key ∈ e.survey.keys
  := by
  obtain ⟨g, hg, -, -, -, hs'⟩ := h.addExisting_eq_ok_iff.mp hok
  obtain ⟨before, after, hitems, -, hgroup⟩ := h.exchanges_insertAt hg x i
  rw [hs'] at hgroup
  have hperm : ({ g with items := before ++ x :: after } : Group).keys.Perm (x.keys ++ g.keys) := by
    have hperm := Group.keys_perm (g := { g with items := before ++ x :: after }) rfl
    simp only [← hitems, Group.mk_eta] at hperm
    exact hperm
  have hsub : key ∈ g.keys → key ∈ e.survey.keys := by
    intro hkey
    rw [Survey.keys, ← Item.keys_group]
    rw [← Item.keys_group] at hkey
    apply ((Item.subtree_sublist hgroup.mem_subtree).map Item.key).subset hkey
  rw [hgroup.mem_keys_iff h.wellKeyed, Item.keys_group, Item.keys_group, hperm.mem_iff,
    List.mem_append]
  constructor
  · rintro ((hx | hkey) | ⟨hkey, -⟩)
    · apply Or.inl hx
    · apply Or.inr (hsub hkey)
    · apply Or.inr hkey
  · rintro (hx | hkey)
    · apply Or.inl (Or.inl hx)
    · by_cases hin : key ∈ g.keys
      · apply Or.inl (Or.inr hin)
      · apply Or.inr ⟨hkey, hin⟩

/-- A group that is found is found under its key when an item has been added. -/
theorem exists_locate_of_added (h : e.Laid t) (h' : e'.Laid t')
    (hok : e.survey.addExisting x p i = .ok e'.survey)
    (hg : e.survey.locate q = .ok (.group g)) :
  ∃ g', e'.survey.locate q = .ok (.group g') ∧ g'.key = q
  := by
  obtain ⟨hmem, hkey, hwithin⟩ := h.locate_eq_ok_iff.mp hg
  obtain ⟨-, -, -, hs'⟩ := h.of_addExisting hok
  have hroot : (Item.group e.survey.root).mapGroups (.receive p i x) = .group e'.survey.root := by
    rw [← hs']
    rfl
  obtain ⟨g', hmem', hkey'⟩ :=
    Item.exists_group_of_mapGroups_receive (p := p) (i := i) (x := x) hmem
  rw [hroot] at hmem'
  rw [← h.survey_key, ← Survey.key_addExisting hok, h'.survey_key] at hwithin
  have hq : g'.key = q := hkey'.trans hkey
  use g', h'.locate_eq_ok_iff.mpr ⟨hmem', hq, hwithin⟩, hq

/-- When an item has been added to another group, an item is added, or refused for the same reason,
as it would have been before. -/
theorem addExisting_of_added (h : e.Laid t) (h' : e'.Laid t')
    (hok : e.survey.addExisting x p i = .ok e'.survey) (hne : p ≠ q)
    (hg : e.survey.locate q = .ok (.group g)) (y : Item) (j : Option Nat) :
  e'.survey.addExisting y q j
    = (e.survey.addExisting y q j).map fun _ => e'.survey.mapRoot (·.mapItemsAt q (insertAt j y))
  := by
  have hkey := (h.locate_eq_ok_iff.mp hg).2.1
  obtain ⟨g', hg', hkey'⟩ := h.exists_locate_of_added h' hok hg
  obtain ⟨rfl, hx, hfree, -⟩ := h.of_addExisting hok
  have hq := h.mem_keys_of_locate hg
  have hplace : y.checkPlace q e'.survey.keys = y.checkPlace q e.survey.keys :=
    Survey.checkPlace_of_added h.wellKeyed h'.wellKeyed (fun _ => h.mem_keys_of_addExisting hok) hx
      hfree hne hq
  rw [Survey.addExisting_eq_of_locate hg' hkey', Survey.addExisting_eq_of_locate hg hkey, hplace]
  cases y.checkPlace q e.survey.keys with
  | _ => rfl

/-- Two items that are added to different groups make the same survey in either order. -/
theorem mapItemsAt_comm_of_added {s₁ s₂ : Survey} (h : e.Laid t) (hne : p ≠ q)
    (hp : p ∈ e.survey.keys) (hq : q ∈ e.survey.keys)
    (hx : e.survey.addExisting x p i = .ok s₁) (hy : e.survey.addExisting y q j = .ok s₂) :
  s₁.mapRoot (·.mapItemsAt q (insertAt j y)) = s₂.mapRoot (·.mapItemsAt p (insertAt i x))
  := by
  obtain ⟨-, -, hxfree, rfl⟩ := h.of_addExisting hx
  obtain ⟨-, -, hyfree, rfl⟩ := h.of_addExisting hy
  have hcomm := Item.mapGroups_receive_comm (i := i) (j := j) hne (fun hmem => hxfree q hmem hq)
    (fun hmem => hyfree p hmem hp) (.group e.survey.root)
  have hroot : ((e.survey.root.mapItemsAt p (insertAt i x)).mapItemsAt q (insertAt j y))
      = (e.survey.root.mapItemsAt q (insertAt j y)).mapItemsAt p (insertAt i x) :=
    Item.group.inj hcomm
  rw [Survey.mapRoot, Survey.mapRoot, Survey.mapRoot, Survey.mapRoot, hroot]

/-- An editor refuses an item as its survey does, and then stays as it is, or it answers with the
item and has the survey with the item. -/
theorem serve_addExisting_cases (h : e.Laid t) (x : Item) (p : Key) (i : Option Nat) :
  (∃ err, e.survey.addExisting x p i = .error err
      ∧ e.serve (.addExisting x p i) = (.error err, e))
    ∨ ∃ e' t', e'.Laid t' ∧ e.survey.addExisting x p i = .ok e'.survey
      ∧ e.serve (.addExisting x p i) = (.ok (.item x), e')
  := by
  have hagrees := h.serve (.addExisting x p i)
  cases hadd : e.survey.addExisting x p i with
  | error err =>
    rw [Survey.respond, hadd] at hagrees
    left
    obtain ⟨_, hserve, ⟨⟩⟩ | ⟨_, _, _, _, _, ⟨⟩⟩ := hagrees.cases
    use err, rfl, hserve
  | ok s' =>
    rw [Survey.respond, hadd] at hagrees
    obtain ⟨e', t', h', hserve, rfl⟩ := hagrees.of_ok
    right
    use e', t', h'

/-- An item that is refused is refused for the same reason when an item has been added to another
group. -/
theorem serve_error_of_added (h : e.Laid t) (h' : e'.Laid t')
    (hok : e.survey.addExisting x p i = .ok e'.survey) (hne : p ≠ q)
    (hg : e.survey.locate q = .ok (.group g)) {err : EditError}
    (herr : e.survey.addExisting y q j = .error err) :
  e'.serve (.addExisting y q j) = (.error err, e')
  := by
  have hlater := h.addExisting_of_added h' hok hne hg y j
  rw [herr] at hlater
  obtain ⟨err', herr', hserve⟩ | ⟨e'', t'', -, hok', -⟩ := h'.serve_addExisting_cases y q j
  · cases herr'.symm.trans hlater
    apply hserve
  · cases hok'.symm.trans hlater

/-- An item that is added is added as well when an item has been added to another group. -/
theorem serve_ok_of_added (h : e.Laid t) (h' : e'.Laid t')
    (hok : e.survey.addExisting x p i = .ok e'.survey) (hne : p ≠ q)
    (hg : e.survey.locate q = .ok (.group g)) (hadded : e.survey.addExisting y q j = .ok s') :
  ∃ e'', e'.serve (.addExisting y q j) = (.ok (.item y), e'')
    ∧ e''.survey = e'.survey.mapRoot (·.mapItemsAt q (insertAt j y))
  := by
  have hlater := h.addExisting_of_added h' hok hne hg y j
  rw [hadded] at hlater
  obtain ⟨err', herr', -⟩ | ⟨e'', t'', -, hok', hserve⟩ := h'.serve_addExisting_cases y q j
  · cases herr'.symm.trans hlater
  · use e'', hserve
    apply Except.ok.inj (hok'.symm.trans hlater)

end Laid

/-- Additions to two different groups commute: in either order each of them gives the same answer,
the item or the reason why it is refused, and the survey is the same in the end. -/
theorem Reachable.commutes_of_add {e : Editor} (h : Reachable e) {p q : Key} (hne : p ≠ q)
    (hp : ∃ g, e.findItem p = .ok (.group g)) (hq : ∃ g, e.findItem q = .ok (.group g))
    (x y : Item) (i j : Option Nat) :
  let first := e.serve (.addExisting x p i)
  let second := first.2.serve (.addExisting y q j)
  let first' := e.serve (.addExisting y q j)
  let second' := first'.2.serve (.addExisting x p i)
  first.1 = second'.1 ∧ second.1 = first'.1 ∧ second.2.survey = second'.2.survey
  := by
  intro first second first' second'
  obtain ⟨t, ht⟩ := h.laid
  simp only [ht.find] at hp hq
  obtain ⟨g, hg⟩ := hp
  obtain ⟨g', hg'⟩ := hq
  have hpkeys : p ∈ e.survey.keys := ht.mem_keys_of_locate hg
  have hqkeys : q ∈ e.survey.keys := ht.mem_keys_of_locate hg'
  obtain ⟨err, hx, hfirst⟩ | ⟨e₁, t₁, h₁, hx, hfirst⟩ := ht.serve_addExisting_cases x p i
  · obtain ⟨err', hy, hfirst'⟩ | ⟨e₂, t₂, h₂, hy, hfirst'⟩ := ht.serve_addExisting_cases y q j
    · simp only [first, second, first', second', hfirst, hfirst', and_self]
    · have hlater := ht.serve_error_of_added h₂ hy hne.symm hg hx
      simp only [first, second, first', second', hfirst, hfirst', hlater, and_self]
  · obtain ⟨err', hy, hfirst'⟩ | ⟨e₂, t₂, h₂, hy, hfirst'⟩ := ht.serve_addExisting_cases y q j
    · have hlater := ht.serve_error_of_added h₁ hx hne hg' hy
      simp only [first, second, first', second', hfirst, hfirst', hlater, and_self]
    · obtain ⟨e₁₂, hlater, hsurvey⟩ := ht.serve_ok_of_added h₁ hx hne hg' hy
      obtain ⟨e₂₁, hlater', hsurvey'⟩ := ht.serve_ok_of_added h₂ hy hne.symm hg hx
      have hcomm := ht.mapItemsAt_comm_of_added hne hpkeys hqkeys hx hy
      simp only [first, second, first', second', hfirst, hfirst', hlater, hlater', true_and]
      rw [hsurvey, hsurvey', hcomm]

/-- Questions are put into a group and into the survey around it, the one in front of the group. -/
theorem commutes_of_add_nested :
  let x : Item := .single { head := { key := "survey.g.r" } }
  let y : Item := .single { head := { key := "survey.r" } }
  let first := sample.serve (.addExisting x "survey.g" none)
  let first' := sample.serve (.addExisting y "survey" (some 0))
  first.1 = .ok (.item x) ∧ first'.1 = .ok (.item y)
    ∧ (first.2.serve (.addExisting y "survey" (some 0))).1 = .ok (.item y)
    ∧ (first'.2.serve (.addExisting x "survey.g" none)).1 = .ok (.item x)
    ∧ (first.2.serve (.addExisting y "survey" (some 0))).2.survey
      = (first'.2.serve (.addExisting x "survey.g" none)).2.survey
  := by
  intro x y first first'
  have hreachable : Reachable sample := ((Reachable.new.served _).served _).served _
  have hfirst : first.1 = .ok (.item x) := rfl
  have hfirst' : first'.1 = .ok (.item y) := rfl
  obtain ⟨hx, hy, hsurvey⟩ := hreachable.commutes_of_add (p := "survey.g") (q := "survey")
    (by decide) ⟨_, rfl⟩ ⟨_, rfl⟩ x y none (some 0)
  exact ⟨hfirst, hfirst', hy.trans hfirst', hx.symm.trans hfirst, hsurvey⟩

end Editor

end Questionnaire
