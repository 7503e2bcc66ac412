import Questionnaire.Proofs.Editor.Relabel
import Questionnaire.Proofs.Survey.Exchange

/-!
# Items that are added

An item is added to a group with all that is in it, exactly when it is well keyed, keyed below the
group, and its key is not in use.  The keys inside it need not be looked up: they lie within its
own, and no key of the survey does.  In the survey the group gives way to the same group with one
item more.

A new item is added in the same way as any other, under the key that its name gives it.
-/

namespace Questionnaire

open NodeTree

/-- The item has the key, is of the kind, and has no items in it. -/
structure Item.IsNew (x : Item) (kind : Item.Kind) (key : Key) : Prop where
  key_eq : x.key = key
  isGroup_eq : x.isGroup = kind.isGroup
  itemType_eq : ∀ s, x = .single s → s.itemType = kind.itemType
  children_eq : x.children = []

theorem Item.create_isNew (kind : Item.Kind) (key : Key) :
  (Item.create kind key).IsNew kind key
  := by
  obtain ⟨isGroup, itemType⟩ := kind
  cases isGroup with
  | false =>
    refine ⟨rfl, rfl, ?_, rfl⟩
    rintro _ ⟨⟩
    rfl
  | true =>
    refine ⟨rfl, rfl, ?_, rfl⟩
    intro s h
    cases h

namespace Survey

variable {s s' : Survey} {x : Item}

/-- Items are added to the group that has the given key, or to the root. -/
theorem parentGroup_eq_ok_iff {parent : Option Key} {g : Group} :
  s.parentGroup parent = .ok g ↔ s.locate (parent.getD s.key) = .ok (.group g)
  := by
  cases parent with
  | none => simp [parentGroup, locate_key]
  | some key =>
    rw [Option.getD_some, parentGroup, locateParent]
    rcases s.locate key with err | (g' | y)
    · simp [Except.mapError, bind, Except.bind]
    · simp [Except.mapError, bind, Except.bind, pure, Except.pure]
    · simp [Except.mapError, bind, Except.bind]

theorem insert_eq_ok_iff {parent : Key} {position : Option Nat} :
  s.insert x parent position = .ok s'
    ↔ x.checkPlace parent s.keys = .ok ()
      ∧ s.mapRoot (·.mapItemsAt parent (insertAt position x)) = s'
  := by
  rw [insert]
  cases x.checkPlace parent s.keys with
  | error err => simp [bind, Except.bind]
  | ok _ => simp [bind, Except.bind, pure, Except.pure]

end Survey

namespace Editor

namespace Laid

variable {e : Editor} {t : NodeTree} {x : Item} {parent : Key} {position : Option Nat} {s' : Survey}

/-- An item is added exactly when it is well keyed, keyed below the group, and its key is free. -/
theorem addExisting_eq_ok_iff (h : e.Laid t) :
  e.survey.addExisting x parent position = .ok s'
    ↔ ∃ g, e.survey.locate parent = .ok (.group g) ∧ Key.parent x.key = parent ∧ x.WellKeyed
      ∧ e.survey.contains x.key = false
      ∧ e.survey.mapRoot (·.mapItemsAt g.key (insertAt position x)) = s'
  := by
  rw [Survey.addExisting]
  constructor
  · intro hok
    obtain ⟨g, hg, hinsert⟩ := exists_of_bind_eq_ok hok
    obtain ⟨hplace, hs'⟩ := Survey.insert_eq_ok_iff.mp hinsert
    obtain ⟨hparent, hx, hfree⟩ := Item.checkPlace_eq_ok_iff_wellKeyed.mp hplace
    have hg := Survey.parentGroup_eq_ok_iff.mp hg
    use g, hg, hparent.trans (h.locate_eq_ok_iff.mp hg).2.1, hx
    constructor
    · apply Survey.contains_eq_false_iff.mpr (hfree _ x.key_mem_keys)
    · apply hs'
  · rintro ⟨g, hg, hparent, hx, hcontains, hs'⟩
    obtain ⟨hmem, hgkey, -⟩ := h.locate_eq_ok_iff.mp hg
    have hparentMem : Key.parent x.key ∈ e.survey.keys :=
      Survey.mem_keys_iff.mpr ⟨_, hmem, hgkey.trans hparent.symm⟩
    rw [Survey.parentGroup_eq_ok_iff.mpr hg]
    apply Survey.insert_eq_ok_iff.mpr
    use Item.checkPlace_eq_ok_iff_wellKeyed.mpr ⟨hparent.trans hgkey.symm, hx, ?_⟩
    intro key hkey
    rw [Survey.contains_eq_false_iff] at hcontains
    apply h.wellKeyed.notMem_keys hx.nested hparentMem hcontains hkey

/-- The group to which an item is added gives way to the same group with one item more. -/
theorem exchanges_insertAt (h : e.Laid t) {g : Group}
    (hg : e.survey.locate parent = .ok (.group g)) (x : Item) (position : Option Nat) :
  ∃ before after, g.items = before ++ after
    ∧ before.length = min (position.getD g.items.length) g.items.length
    ∧ e.survey.Exchanges (.group g) (.group { g with items := before ++ x :: after })
      (e.survey.mapRoot (·.mapItemsAt g.key (insertAt position x)))
  := by
  obtain ⟨before, after, hitems, hlength, hinsert⟩ := exists_insertAt_eq position x g.items
  use before, after, hitems, hlength
  rw [← hinsert]
  apply Survey.exchanges_mapItemsAt h.wellKeyed (h.locate_eq_ok_iff.mp hg).1

/-- The root is also the group of its own key. -/
theorem parentNode_getD (h : e.Laid t) (parent : Option Key) :
  e.parentNode (some (parent.getD e.key)) = e.parentNode parent
  := by
  cases parent with
  | some key => rfl
  | none =>
    have hroot : (e.node e.root).item.isGroup = true := h.root_group
    simp [parentNode, locateParent, locate, Except.mapError, bind, Except.bind, pure, Except.pure,
      hroot]

theorem key_of_parentNode (h : e.Laid t) {parent : Option Key} {id : NodeId}
    (hfound : e.parentNode parent = .ok id) :
  (e.node id).key = parent.getD e.key
  := by
  have hfinds := h.finds_parentNode parent
  rw [hfound] at hfinds
  obtain ⟨u, -, rfl, hgroup⟩ := hfinds.of_ok
  obtain ⟨g, hg, hitem⟩ := exists_of_map_eq_ok hgroup
  obtain ⟨-, hkey, -⟩ := h.locate_eq_ok_iff.mp (Survey.parentGroup_eq_ok_iff.mp hg)
  rw [hitem, key_item, h.survey_key] at hkey
  apply hkey

/-- A new item is added as any other. -/
theorem serve_add_eq (h : e.Laid t) (kind : Item.Kind) (name : String) (parent : Option Key)
    (position : Option Nat) :
  e.serve (.add kind name parent position)
    = e.serve (.addExisting (Item.create kind (Key.child (parent.getD e.key) name))
        (parent.getD e.key) position)
  := by
  rw [Editor.serve, Editor.serve, respond, respond, run_map, run_map, Editor.add, Editor.addExisting,
    run_bind_of_ok (run_get e), run_bind_of_ok (run_get e), h.parentNode_getD]
  cases hfound : e.parentNode parent with
  | error err =>
    rw [run_bind_of_error (run_liftM _ e), run_bind_of_error (run_liftM _ e)]
  | ok id =>
    rw [run_bind_of_ok (run_liftM _ e), run_bind_of_ok (run_liftM _ e), h.key_of_parentNode hfound]

end Laid

/-- An item is added under a key with all that is in it exactly when a group is found under the key,
the item is keyed below the group and every item in it below its group, no key comes twice in it,
and its own key is not in use.  The answer is the item, and the survey is the old one with the item
in the group, at the position or at the end.  A new item, of the kind that is asked for and with
nothing in it, is added in the same way under the key that its name gives it, by default to the
root. -/
theorem Reachable.inserts_of_add {e : Editor} (h : Reachable e) (position : Option Nat) :
  (∀ x parent,
    ((∃ a, (e.serve (.addExisting x parent position)).1 = .ok a)
      ↔ (∃ g, e.findItem parent = .ok (.group g)) ∧ Key.parent x.key = parent ∧ x.WellKeyed
        ∧ e.contains x.key = false)
    ∧ ∀ a e', e.serve (.addExisting x parent position) = (.ok a, e') →
      a = .item x ∧ ∃ g before after, e.findItem parent = .ok (.group g)
        ∧ g.items = before ++ after
        ∧ before.length = min (position.getD g.items.length) g.items.length
        ∧ e.survey.Exchanges (.group g) (.group { g with items := before ++ x :: after }) e'.survey)
  ∧ ∀ kind name parent, e.serve (.add kind name parent position)
      = e.serve (.addExisting (Item.create kind (Key.child (parent.getD e.key) name))
          (parent.getD e.key) position)
        ∧ (Item.create kind (Key.child (parent.getD e.key) name)).IsNew kind
          (Key.child (parent.getD e.key) name)
  := by
  obtain ⟨t, ht⟩ := h.laid
  constructor
  · intro x parent
    have hagrees := ht.serve (.addExisting x parent position)
    rw [ht.find, ht.contains_eq]
    constructor
    · apply hagrees.exists_eq_ok_iff.trans
      constructor
      · rintro ⟨s', hok⟩
        obtain ⟨g, hg, hparent, hx, hfree, -⟩ := ht.addExisting_eq_ok_iff.mp hok
        use ⟨g, hg⟩, hparent, hx
      · rintro ⟨⟨g, hg⟩, hparent, hx, hfree⟩
        use e.survey.mapRoot (·.mapItemsAt g.key (insertAt position x))
        apply ht.addExisting_eq_ok_iff.mpr
        use g, hg, hparent, hx, hfree
    · intro a e' hserve
      obtain ⟨s', hok, heq⟩ := hagrees.exists_of_eq_ok hserve
      cases heq
      obtain ⟨g, hg, -, -, -, hs'⟩ := ht.addExisting_eq_ok_iff.mp hok
      obtain ⟨before, after, hitems, hlength, hgroup⟩ := ht.exchanges_insertAt hg x position
      rw [hs'] at hgroup
      use rfl, g, before, after
  · intro kind name parent
    use ht.serve_add_eq kind name parent position
    apply Item.create_isNew

/-- A question is put in front of the others in a group. -/
theorem inserts_of_add_question :
  let x : Item := .single { head := { key := "survey.g.r" } }
  let r := sample.serve (.addExisting x "survey.g" (some 0))
  r.1 = .ok (.item x) ∧ ∃ g, sample.findItem "survey.g" = .ok (.group g)
    ∧ sample.survey.Exchanges (.group g) (.group { g with items := x :: g.items }) r.2.survey
  := by
  intro x r
  have hreachable : Reachable sample := ((Reachable.new.served _).served _).served _
  have hdone : r.1 = .ok (.item x) := rfl
  have hserve : sample.serve (.addExisting x "survey.g" (some 0)) = (.ok (.item x), r.2) :=
    Prod.ext hdone rfl
  use hdone
  obtain ⟨-, g, before, after, hg, hitems, hlength, hgroup⟩ :=
    ((hreachable.inserts_of_add (some 0)).1 x "survey.g").2 _ _ hserve
  use g, hg
  rw [Option.getD_some, Nat.zero_min, List.length_eq_zero_iff] at hlength
  subst hlength
  rw [List.nil_append] at hitems
  rw [hitems]
  apply hgroup

end Editor

end Questionnaire
