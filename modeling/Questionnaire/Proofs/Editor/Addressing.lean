import Questionnaire.Proofs.Editor.Find
import Questionnaire.Proofs.Editor.References
import Questionnaire.Proofs.Survey.Edit

/-!
# Items under their own keys

The index of an editor knows every item by its key, and a search from the root finds those whose
keys lie within the key of the survey.  In a survey with a key, these are all items, so that every
item that has been put in its place can be found, renamed, moved and removed under its key.

If the key of the survey is empty, the items of the root may have keys that do not start with a dot.
Such an item is in the index, but nothing finds it.
-/

namespace Questionnaire

open NodeTree

/-- Apart from those of `x`, no key of the survey lies within the given key. -/
def Survey.IsFreeFor (s : Survey) (x : Item) (key : Key) : Prop :=
  ∀ k ∈ s.keys, k ∉ x.keys → ¬ Key.isWithin k key = true

namespace Editor

/-- An item is found under its key, and under its key it is removed, renamed to any free key with
the same parent, and moved to any group outside it below which its new key is free. -/
structure Addressable (e : Editor) (x : Item) : Prop where
  find : (e.serve (.find x.key)).1 = .ok (.item x)
  remove : (e.serve (.remove x.key)).1 = .ok (.item x)
  rename : ∀ new references, Key.parent? new = Key.parent? x.key → e.survey.IsFreeFor x new →
    (e.serve (.rename x.key new references)).1 = .ok .done
  move : ∀ destination g, e.findItem destination = .ok (.group g) → destination ∉ x.keys →
    ∀ new, Key.child destination (Key.leaf x.key) = new → e.survey.IsFreeFor x new →
    (e.serve (.move x.key destination)).1 = .ok (.item ((x.rekey new).redirect x.key new))

/-- The item is that of a node below the root of a layout. -/
def Placed (e : Editor) (x : Item) : Prop :=
  ∃ t u, e.Laid t ∧ Within u t ∧ u.top ≠ t.top ∧ x = u.item e.own

/-- The requests that put an item in its place and answer with the item. -/
inductive Request.Places : Request → Prop where
  | add (kind : Item.Kind) (name : String) (parent : Option Key) (position : Option Nat) :
    Places (.add kind name parent position)
  | addExisting (x : Item) (parent : Key) (position : Option Nat) :
    Places (.addExisting x parent position)
  | move (key destination : Key) : Places (.move key destination)

namespace Laid

variable {e e' : Editor} {t u v : NodeTree}

/-! ### The search for a node -/

/-- The keys that lead from the key of a node to that of a node below it lead a search to the node
below, if its key lies within the key of the root. -/
theorem along_of_isWithin (h : e.Laid t) (hu : Within u t) (hv : Within v u)
    (hwithin : Key.isWithin (e.node v.top).key e.key = true) (sought : Key) {keys : List Key}
    (hkeys : Key.Descends (e.node u.top).key keys (e.node v.top).key) :
  e.along sought keys u.top = .ok v.top
  := by
  induction keys generalizing u with
  | nil =>
    generalize hkey : (e.node v.top).key = key at hkeys
    cases hkeys with
    | done => rw [along, h.eq_of_key_eq (hv.trans hu).top_mem hu.top_mem hkey]
  | cons next keys ih =>
    cases hkeys with
    | step hnext hrest =>
      cases hv with
      | self =>
        exfalso
        have hlt := Key.length_lt_of_parent? hnext
        rw [Key.isWithin_antisymm hrest.isWithin (Key.isWithin_parent? hnext)] at hlt
        apply Nat.lt_irrefl _ hlt
      | @deeper w id us hw hv =>
        have hwt := hu.of_mem_children hw
        have hparent := h.parent?_key_of_isWithin hu hw
          (h.isWithin_root_of_mem hwt hv.top_mem hwithin)
        have hwne : (e.node w.top).key ≠ "" := by
          intro hempty
          rw [hempty] at hparent
          cases hparent
        have hwkey : (e.node w.top).key = next :=
          Key.eq_of_parent?_eq (h.isWithin_of_mem_of_ne hwt hwne hv.top_mem).2 hrest.isWithin
            hparent hnext
        rw [← hwkey] at hrest ⊢
        rw [h.along_cons hu hw]
        apply ih hwt hv hrest

/-- A node whose key lies within that of the root is found by its key. -/
theorem locate_of_isWithin (h : e.Laid t) (hv : Within v t)
    (hwithin : Key.isWithin (e.node v.top).key e.key = true) :
  e.locate (e.node v.top).key = .ok v.top
  := by
  rw [locate]
  by_cases hkey : (e.node v.top).key = e.key
  · rw [if_pos hkey, h.eq_of_key_eq hv.top_mem h.root_mem hkey]
  · rw [if_neg hkey, if_pos hwithin, below_eq hwithin]
    have hdescends := Key.descends_prefixes hwithin
    rw [← h.top_eq]
    nth_rewrite 1 [key, ← h.top_eq] at hdescends
    apply h.along_of_isWithin (Within.self t) hv hwithin _ hdescends

theorem isWithin_of_locate {key : Key} {id : NodeId} (hfound : e.locate key = .ok id) :
  Key.isWithin key e.key = true
  := by
  rw [locate] at hfound
  split at hfound
  · next hkey =>
    rw [hkey]
    apply Key.isWithin_refl
  · split at hfound
    · next hwithin => exact hwithin
    · cases hfound

/-- An item is found if and only if the index knows its key and the key lies within that of the
root. -/
theorem findItem_isOk (h : e.Laid t) (key : Key) :
  (∃ x, e.findItem key = .ok x) ↔ e.contains key = true ∧ Key.isWithin key e.key = true
  := by
  rw [h.contains_eq, h.contains_iff]
  constructor
  · rintro ⟨x, hx⟩
    obtain ⟨id, hid, -⟩ := exists_of_bind_eq_ok hx
    have hfinds := h.finds_locate key
    rw [hid] at hfinds
    obtain ⟨u, hu, rfl, -⟩ := hfinds.of_ok
    exact ⟨⟨u, hu, h.key_of_locate hid⟩, isWithin_of_locate hid⟩
  · rintro ⟨⟨u, hu, rfl⟩, hwithin⟩
    use e.materialize u.top
    rw [findItem, h.locate_of_isWithin hu hwithin]
    rfl

/-- In a survey with a key, the key of every item lies within it. -/
theorem isWithin_of_contains (h : e.Laid t) (hroot : e.key ≠ "") {key : Key}
    (hkey : e.contains key = true) :
  Key.isWithin key e.key = true
  := by
  rw [h.contains_eq, h.contains_iff] at hkey
  obtain ⟨u, hu, rfl⟩ := hkey
  rw [Editor.key, ← h.top_eq]
  apply h.isWithin_of_mem hroot (Within.self t) hu.top_mem

/-! ### What can be done with an item that is found -/

/-- The item of a node whose key lies within that of the root is found by its key in the survey. -/
theorem survey_locate (h : e.Laid t) (hu : Within u t)
    (hwithin : Key.isWithin (e.node u.top).key e.key = true) :
  e.survey.locate (e.node u.top).key = .ok (u.item e.own)
  := by
  have hfinds := h.finds_locate (e.node u.top).key
  rw [h.locate_of_isWithin hu hwithin] at hfinds
  obtain ⟨v, hv, htop, hitem⟩ := hfinds.of_ok
  rw [hitem, h.eq_of_top_eq hv hu htop]

/-- A subtree can have a key if no key outside the subtree lies within it. -/
theorem checkRekey_eq_ok (h : e.Laid t) (hu : Within u t) (hne : (e.node u.top).key ≠ "")
    {new : Key} (hnew : new ≠ "") (hfree : e.survey.IsFreeFor (u.item e.own) new) :
  e.survey.checkRekey (u.item e.own) new = .ok ()
  := by
  obtain ⟨keys, -, hkeys, htop, hbelow⟩ := h.exists_plan hu new
  have hperm : (breadthFirst [u]).Perm u.ids := by
    simpa using breadthFirst_perm [u]
  have hrebase : ∀ id ∈ breadthFirst [u],
      keys id = Key.rebase (e.node u.top).key new (e.node id).key
        ∧ Key.isWithin (e.node id).key (e.node u.top).key = true := by
    intro id hid
    rw [hperm.mem_iff] at hid
    exact ⟨h.keys_eq_rebase hu hne hnew htop hbelow hid, (h.isWithin_of_mem_of_ne hu hne hid).2⟩
  rw [Survey.checkRekey, ← hkeys, checkFree_eq_ok_iff]
  constructor
  · apply (hperm.nodup_iff.mpr (hu.nodup h.nodup)).map_on
    intro id hid id' hid' hsame
    rw [(hrebase id hid).1, (hrebase id' hid').1] at hsame
    apply h.eq_of_key_eq (hu.ids_subset (hperm.mem_iff.mp hid))
      (hu.ids_subset (hperm.mem_iff.mp hid'))
    apply Key.eq_of_rebase_eq (hrebase id hid).2 (hrebase id' hid').2 hsame
  · intro key hkey htaken
    obtain ⟨id, hid, rfl⟩ := List.mem_map.mp hkey
    rw [Survey.keysWithout, List.mem_filter, decide_eq_true_eq] at htaken
    apply hfree _ htaken.1 htaken.2
    rw [(hrebase id hid).1]
    apply Key.isWithin_rebase (hrebase id hid).2

/-- A key that lies within that of the root, and is another, has a parent. -/
theorem exists_parent?_key (h : e.Laid t) (hu : Within u t) (htop : u.top ≠ t.top)
    (hwithin : Key.isWithin (e.node u.top).key e.key = true) :
  (e.node u.top).key ≠ e.survey.key ∧ ∃ p, Key.parent? (e.node u.top).key = some p
  := by
  have hroot : (e.node u.top).key ≠ e.survey.key := by
    rw [Ne, h.key_eq_survey_key_iff hu.top_mem, ← h.top_eq]
    exact htop
  use hroot, Key.parent (e.node u.top).key
  rw [h.survey_key] at hroot
  apply Key.parent?_of_isWithin hwithin hroot

/-- If the key that an item gets in a group is free, it is not empty: otherwise the key of the group
would be empty too, and a key is not free of itself. -/
theorem child_ne_empty (h : e.Laid t) {w : NodeTree} (hw : Within w t) {x : Item} {name : String}
    (houtside : (e.node w.top).key ∉ x.keys)
    (hfree : e.survey.IsFreeFor x (Key.child (e.node w.top).key (Key.leaf name))) :
  Key.child (e.node w.top).key (Key.leaf name) ≠ ""
  := by
  intro hempty
  have hparent := Key.parent_child_leaf (e.node w.top).key name
  rw [hempty] at hparent hfree
  have hkey : (e.node w.top).key ∈ e.survey.keys := by
    rw [h.survey_keys]
    apply List.mem_map_of_mem hw.top_mem
  apply hfree _ hkey houtside
  rw [← hparent]
  apply Key.isWithin_refl

/-- An item other than the root whose key lies within that of the root is addressable. -/
theorem addressable (h : e.Laid t) (hu : Within u t) (htop : u.top ≠ t.top)
    (hwithin : Key.isWithin (e.node u.top).key e.key = true) :
  e.Addressable (u.item e.own)
  := by
  have hlocate := h.survey_locate hu hwithin
  obtain ⟨hroot, p, hparent⟩ := h.exists_parent?_key hu htop hwithin
  have hne {key : Key} (hkey : Key.parent? key = some p) : key ≠ "" := by
    rintro rfl
    cases hkey
  have hkey : (u.item e.own).key = (e.node u.top).key := key_item e.own u
  constructor
  · rw [hkey, (h.serve _).fst_eq, Survey.respond, hlocate]
    rfl
  · rw [hkey, (h.serve _).fst_eq, Survey.respond, Survey.remove_eq_ok hlocate hroot]
    rfl
  · intro new references hnew hfree
    rw [hkey, hparent] at hnew
    rw [hkey, (h.serve _).fst_eq, Survey.respond]
    by_cases hsame : (e.node u.top).key = new
    · rw [← hsame, Survey.rename_self hlocate]
      rfl
    · have hcheck := h.checkRekey_eq_ok hu (hne hparent) (hne hnew) hfree
      rw [Survey.rename_eq_ok hlocate hsame _ hcheck]
      · rfl
      · intro _
        rw [hnew, Key.parent, hparent]
        rfl
  · intro destination g hdestination houtside new hnew hfree
    rw [h.find] at hdestination
    have hfinds := h.finds_locate destination
    rw [hdestination] at hfinds
    obtain ⟨err, -, ⟨⟩⟩ | ⟨w, hw, hfound, hitem⟩ := hfinds.cases
    obtain rfl : (e.node w.top).key = destination := h.key_of_locate hfound
    have hgroup : g.key = (e.node w.top).key := by
      have hitemKey := key_item e.own w
      rw [← Except.ok.inj hitem] at hitemKey
      exact hitemKey
    rw [hkey] at hnew
    subst hnew
    have hcheck :=
      h.checkRekey_eq_ok hu (hne hparent) (h.child_ne_empty hw houtside hfree) hfree
    rw [hkey, (h.serve _).fst_eq, Survey.respond, Survey.move_eq_ok hlocate hdestination
      (hgroup ▸ houtside) (congrArg (Key.child · _) hgroup) hcheck]
    rfl

/-! ### Items that are put in their place -/

/-- Putting an item into a group of a layout gives the item of a node below the root. -/
theorem placed_insert (h : e.Laid t) (hu : Within u t) (hgroup : (e.own u.top).isGroup = true)
    {x y : Item} {position : Option Nat}
    (hinsert : (Editor.insert x u.top position).run e = (.ok y, e')) :
  e'.Placed y
  := by
  rw [Editor.insert, run_bind_eq_ok_iff] at hinsert
  obtain ⟨_, _, ⟨⟩, hinsert⟩ := hinsert
  rw [run_liftM_bind_eq_ok_iff] at hinsert
  obtain ⟨_, hnested, hinsert⟩ := hinsert
  rw [run_liftM_bind_eq_ok_iff] at hinsert
  obtain ⟨_, hfree, hinsert⟩ := hinsert
  rw [h.checkFree_nil_eq, checkFree_eq_ok_iff] at hfree
  obtain ⟨t', h', -, -, hnew, htop⟩ :=
    h.attach hu hgroup position (checkNested_eq_ok_iff.mp hnested) hfree.1 hfree.2
  cases hinsert
  obtain ⟨vs, hvs⟩ := exists_within hnew
  exact ⟨t', .node e.nodes.size vs, h', hvs, htop, h'.materialize hvs⟩

/-- Adding an item to the group of a key, or to the root, gives the item of a node below the
root. -/
theorem placed_insert_of_parentNode (h : e.Laid t) {parent : Option Key} {id : NodeId}
    (hparent : e.parentNode parent = .ok id) {x y : Item} {position : Option Nat}
    (hinsert : (Editor.insert x id position).run e = (.ok y, e')) :
  e'.Placed y
  := by
  have hfinds := h.finds_parentNode parent
  rw [hparent] at hfinds
  obtain ⟨u, hu, rfl, -⟩ := hfinds.of_ok
  apply h.placed_insert hu (h.isGroup_of_parentNode hparent) hinsert

/-- When an item has been moved, its subtree has been listed by a group outside it, under the key
that follows from that of the group, and the references to it have been redirected. -/
theorem exists_of_move (h : e.Laid t) {key destination : Key} {y : Item}
    (hmove : (Editor.move key destination).run e = (.ok y, e')) :
  ∃ u w new, Within u t ∧ Within w t ∧ w.top ∉ u.ids ∧ (e.own w.top).isGroup = true
    ∧ Key.parent new = (e.node w.top).key
    ∧ e.survey.checkRekey (u.item e.own) new = .ok ()
    ∧ e' = (((e.detach u.top).append u.top w.top).applyPlan (e.rekeyPlan u.top new)).redirect key new
    ∧ y = e'.materialize u.top
  := by
  unfold Editor.move at hmove
  rw [run_bind_eq_ok_iff] at hmove
  obtain ⟨_, _, ⟨⟩, hmove⟩ := hmove
  rw [run_liftM_bind_eq_ok_iff] at hmove
  obtain ⟨_, htarget, hmove⟩ := hmove
  have hfinds := h.finds_locate key
  rw [htarget] at hfinds
  obtain ⟨u, hu, rfl, -⟩ := hfinds.of_ok
  rw [run_liftM_bind_eq_ok_iff] at hmove
  obtain ⟨_, hdestination, hmove⟩ := hmove
  have hfinds := h.finds_locate destination
  rw [hdestination] at hfinds
  obtain ⟨w, hw, rfl, -⟩ := hfinds.of_ok
  by_cases hinside : w.top ∈ e.subtree u.top
  · simp only [hinside, if_true] at hmove
    rw [run_throw_bind] at hmove
    cases hmove
  · simp only [hinside, if_false] at hmove
    cases hgroup : (e.node w.top).item.isGroup with
    | false =>
      simp only [hgroup, Bool.not_false, if_true] at hmove
      rw [run_throw_bind] at hmove
      cases hmove
    | true =>
      simp only [hgroup, Bool.not_true, Bool.false_eq_true, if_false] at hmove
      rw [run_liftM_bind_eq_ok_iff] at hmove
      obtain ⟨_, hcheck, hmove⟩ := hmove
      rw [h.checkRekey_eq hu] at hcheck
      rw [((h.holds.within hu).subtree_perm (hu.nodup h.nodup)).mem_iff] at hinside
      cases hmove
      exact ⟨u, w, _, hu, hw, hinside, hgroup, Key.parent_child_leaf _ key, hcheck, rfl, rfl⟩

/-- Moving an item gives the item of a node below the root. -/
theorem placed_move (h : e.Laid t) {key destination : Key} {y : Item}
    (hmove : (Editor.move key destination).run e = (.ok y, e')) :
  e'.Placed y
  := by
  obtain ⟨u, w, new, hu, hw, houtside, hgroup, hnew, hcheck, rfl, rfl⟩ := h.exists_of_move hmove
  obtain ⟨t', h', hids, -, ⟨_, hlists⟩, -⟩ :=
    h.relocated hu hw.top_mem houtside hgroup hnew hcheck
  have hu' := hlists.of_mem (List.mem_append_right _ List.mem_cons_self)
  obtain ⟨hredirected, -⟩ := h'.redirect key new
  refine ⟨t', u, hredirected, hu', ?_, hredirected.materialize hu'⟩
  intro htop
  rw [h'.eq_of_top_eq hu' (Within.self t') htop] at houtside
  apply houtside
  rw [hids.mem_iff]
  exact hw.top_mem

/-- A request that puts an item in its place gives the item of a node below the root. -/
theorem placed (h : e.Laid t) {r : Request} (hr : r.Places) {y : Item}
    (hserve : e.serve r = (.ok (.item y), e')) :
  e'.Placed y
  := by
  rw [Editor.serve] at hserve
  cases hr with
  | add kind name parent position =>
    obtain ⟨_, hadd, ⟨⟩⟩ := run_map_eq_ok_iff.mp hserve
    rw [Editor.add, run_bind_eq_ok_iff] at hadd
    obtain ⟨_, _, ⟨⟩, hadd⟩ := hadd
    rw [run_liftM_bind_eq_ok_iff] at hadd
    obtain ⟨_, hparent, hinsert⟩ := hadd
    apply h.placed_insert_of_parentNode hparent hinsert
  | addExisting x parent position =>
    obtain ⟨_, hadd, ⟨⟩⟩ := run_map_eq_ok_iff.mp hserve
    rw [Editor.addExisting, run_bind_eq_ok_iff] at hadd
    obtain ⟨_, _, ⟨⟩, hadd⟩ := hadd
    rw [run_liftM_bind_eq_ok_iff] at hadd
    obtain ⟨_, hparent, hinsert⟩ := hadd
    apply h.placed_insert_of_parentNode hparent hinsert
  | move key destination =>
    obtain ⟨_, hmove, ⟨⟩⟩ := run_map_eq_ok_iff.mp hserve
    apply h.placed_move hmove

end Laid

/-! ### Reachable editors -/

/-- A reachable editor finds those of the items that it contains whose keys lie within the key of
the survey, which are all if that is not empty.  An item that has been put in its place is
contained, and if its key lies within that of the survey, it can be found, renamed, moved and
removed. -/
theorem Reachable.findItem_isOk_iff {e : Editor} (h : Reachable e) :
  (∀ key, (∃ x, e.findItem key = .ok x)
      ↔ e.contains key = true ∧ Key.isWithin key e.key = true)
    ∧ (e.key ≠ "" → ∀ key, e.contains key = true → Key.isWithin key e.key = true)
    ∧ ∀ r x, r.Places → (e.serve r).1 = .ok (.item x) →
      (e.serve r).2.contains x.key = true
        ∧ (Key.isWithin x.key (e.serve r).2.key = true → (e.serve r).2.Addressable x)
  := by
  obtain ⟨t, ht⟩ := h.laid
  refine ⟨ht.findItem_isOk, fun hroot _ => ht.isWithin_of_contains hroot, ?_⟩
  intro r x hr hserve
  obtain ⟨t', u, ht', hu, htop, rfl⟩ := ht.placed hr (Prod.ext hserve rfl)
  rw [key_item]
  constructor
  · rw [ht'.contains_eq, ht'.contains_iff]
    exact ⟨u, hu, rfl⟩
  · apply ht'.addressable hu htop

/-- A question that has been added to a group is addressable. -/
theorem addressable_question :
  let x : Item := .single { head := { key := "survey.g.r" } }
  let r := sample.serve (.addExisting x "survey.g" none)
  r.1 = .ok (.item x) ∧ (∃ y, r.2.findItem "survey.g.r" = .ok y) ∧ r.2.Addressable x
  := by
  intro x r
  have hreachable : Reachable sample := ((Reachable.new.served _).served _).served _
  have hadded : r.1 = .ok (.item x) := rfl
  have hwithin : Key.isWithin "survey.g.r" r.2.key = true := by decide
  obtain ⟨hcontains, haddressable⟩ :=
    (Reachable.findItem_isOk_iff hreachable).2.2 _ _ (.addExisting x "survey.g" none) hadded
  refine ⟨hadded, ?_, haddressable hwithin⟩
  apply ((Reachable.findItem_isOk_iff (hreachable.served _)).1 _).mpr ⟨hcontains, hwithin⟩

/-- A question that has been added to a survey whose key is empty is contained, but it is not
found. -/
theorem not_found_below_empty_key :
  let e := (Editor.new.serve (.rename "survey" "" .follow)).2
  let r := e.serve (.add { isGroup := false } "a" none none)
  Reachable r.2 ∧ r.1 = .ok (.item (Item.create { isGroup := false } "a"))
    ∧ r.2.contains "a" = true ∧ r.2.findItem "a" = .error (.itemNotFound "a")
    ∧ (r.2.serve (.remove "a")).1 = .error (.itemNotFound "a")
  := by
  refine ⟨(Reachable.new.served _).served _, rfl, ?_, rfl, rfl⟩
  decide

end Editor

end Questionnaire
