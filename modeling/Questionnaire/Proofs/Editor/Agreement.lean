import Questionnaire.Proofs.Edit.Run
import Questionnaire.Proofs.Editor.Insert
import Questionnaire.Proofs.Editor.Lookup
import Questionnaire.Survey.Edit

/-!
# Agreement of the arena with the survey

An action on a laid out arena agrees with an edit of its survey if both fail alike, and then the
arena stays as it is, or if both give the same result, and then the arena is laid out again and its
survey is the edited survey.  Here the additions are found to agree, and a survey that is opened.
-/

namespace Questionnaire

open NodeTree

namespace Editor

/-- What comes of an action on the arena, and what comes of an edit of its survey. -/
inductive Agrees {α : Type} (e : Editor) :
    Except EditError α × Editor → Except EditError (α × Survey) → Prop
  | error (err : EditError) : Agrees e (.error err, e) (.error err)
  | ok (a : α) {e' : Editor} {t : NodeTree} (h : e'.Laid t) : Agrees e (.ok a, e') (.ok (a, e'.survey))

namespace Agrees

variable {α β : Type} {e : Editor}

theorem cases {r : Except EditError α × Editor} {r' : Except EditError (α × Survey)}
    (h : Agrees e r r') :
  (∃ err, r = (.error err, e) ∧ r' = .error err)
    ∨ ∃ a e' t, e'.Laid t ∧ r = (.ok a, e') ∧ r' = .ok (a, e'.survey)
  := by
  cases h with
  | error err =>
    left
    use err
  | @ok a e' t h =>
    right
    use a, e', t

/-- What agrees has the same result. -/
theorem fst_eq {r : Except EditError α × Editor} {r' : Except EditError (α × Survey)}
    (h : Agrees e r r') :
  r.1 = r'.map Prod.fst
  := by
  cases h with
  | _ => rfl

/-- What agrees with an edit that succeeds leaves an arena of the edited survey. -/
theorem of_ok {r : Except EditError α × Editor} {a : α} {s : Survey} (h : Agrees e r (.ok (a, s))) :
  ∃ e' t, e'.Laid t ∧ r = (.ok a, e') ∧ e'.survey = s
  := by
  cases h with
  | @ok _ e' t h => exact ⟨e', t, h, rfl, rfl⟩

/-! ### Edits whose results are mapped -/

section

variable {edit : Except EditError β} {f : β → α × Survey} {r : Except EditError α × Editor}

/-- What agrees with an edit succeeds exactly when the edit does. -/
theorem exists_eq_ok_iff (h : Agrees e r (f <$> edit)) :
  (∃ a, r.1 = .ok a) ↔ ∃ b, edit = .ok b
  := by
  rw [h.fst_eq]
  cases edit with
  | error err =>
    constructor
    · rintro ⟨_, ⟨⟩⟩
    · rintro ⟨_, ⟨⟩⟩
  | ok b => exact ⟨fun _ => ⟨b, rfl⟩, fun _ => ⟨(f b).1, rfl⟩⟩

/-- What agrees with an edit fails as the edit does. -/
theorem eq_error (h : Agrees e r (f <$> edit)) {err : EditError} (herr : r.1 = .error err) :
  edit = .error err
  := by
  rw [h.fst_eq] at herr
  cases edit with
  | error err' =>
    cases herr
    rfl
  | ok b => cases herr

/-- What agrees with an edit and succeeds has the result of the edit, and leaves its survey. -/
theorem exists_of_eq_ok (h : Agrees e r (f <$> edit)) {a : α} {e' : Editor} (hr : r = (.ok a, e')) :
  ∃ b, edit = .ok b ∧ f b = (a, e'.survey)
  := by
  cases edit with
  | error err =>
    cases h
    cases hr
  | ok b =>
    obtain ⟨e'', t, -, rfl, hsurvey⟩ := h.of_ok
    cases hr
    exact ⟨b, rfl, Prod.ext rfl hsurvey.symm⟩

end

/-! ### Steps of actions -/

variable {action : Action α} {next : β → Action α} {r : Except EditError β}
  {next' : β → Except EditError (α × Survey)}

/-- An action that reads the arena. -/
theorem get {next : Editor → Action α} {r' : Except EditError (α × Survey)}
    (h : Agrees e ((next e).run e) r') :
  Agrees e ((MonadState.get >>= next).run e) r'
  := h

/-- A check or a search that both make alike. -/
theorem lift (h : ∀ b, r = .ok b → Agrees e ((next b).run e) (next' b)) :
  Agrees e ((liftM r >>= next).run e) (r >>= next')
  := by
  cases r with
  | error err => apply Agrees.error
  | ok b => apply h b rfl

/-- A search that finds a node in the arena, and the item of the node in the survey. -/
theorem find {t : NodeTree} {r : Except EditError NodeId} {r' : Except EditError Item}
    {next : NodeId → Action α} {next' : Item → Except EditError (α × Survey)}
    (hfinds : Laid.Finds e t r r')
    (h : ∀ u, Within u t → r = .ok u.top →
      Agrees e ((next u.top).run e) (next' (u.item e.own))) :
  Agrees e ((liftM r >>= next).run e) (r' >>= next')
  := by
  obtain ⟨err, rfl, rfl⟩ | ⟨u, hu, rfl, rfl⟩ := hfinds.cases
  · apply Agrees.error
  · apply h u hu rfl

/-- An action that leaves another arena behind. -/
theorem set {e' : Editor} {t : NodeTree} (h : e'.Laid t) (a : α) :
  Agrees e ((MonadState.set e' >>= fun _ => pure a : Action α).run e) (.ok (a, e'.survey))
  := Agrees.ok a h

theorem map (f : α → β) {action : Action α} {r' : Except EditError (α × Survey)}
    (h : Agrees e (action.run e) r') :
  Agrees e ((f <$> action).run e) ((fun p => (f p.1, p.2)) <$> r')
  := by
  rw [run_map]
  obtain ⟨err, hr, rfl⟩ | ⟨a, e', t, ht, hr, rfl⟩ := h.cases
  · rw [hr]
    apply Agrees.error
  · rw [hr]
    exact Agrees.ok (f a) ht

end Agrees

namespace Laid

variable {e e' : Editor} {t t' u : NodeTree}

/-- The survey of an arena whose item is the old one with its root changed. -/
theorem survey_eq_mapRoot (h : e.Laid t) (h' : e'.Laid t') (hdocument : e'.document = e.document)
    {f : Group → Group} (hitem : t'.item e'.own = .group (f e.survey.root)) :
  e'.survey = e.survey.mapRoot f
  := by
  rw [h'.survey_eq_of_item hitem, hdocument, h.survey_eq_of_item h.group_root.symm]
  rfl

/-- Attaching an item to a group of a layout puts it into the items of the group, under a new node
of the layout. -/
theorem attach (h : e.Laid t) (hu : Within u t) (hgroup : (e.own u.top).isGroup = true)
    {x : Item} (position : Option Nat)
    (hnested : ∀ p ∈ x.placements (e.node u.top).key, Nested p) (hnodup : x.keys.Nodup)
    (hfree : ∀ key ∈ x.keys, key ∉ e.survey.keys) :
  ∃ t', (attach u.top position x e).Laid t'
    ∧ (attach u.top position x e).survey
      = e.survey.mapRoot (·.mapItemsAt (e.node u.top).key (insertAt position x))
    ∧ (attach u.top position x e).materialize e.nodes.size = x
    ∧ e.nodes.size ∈ t'.ids ∧ e.nodes.size ≠ t'.top
  := by
  obtain ⟨us, hatt⟩ := attached x e u.top position (h.holds.lt_size hu.top_mem)
  have hx : (NodeTree.node e.nodes.size us).item (Editor.attach u.top position x e).own = x := by
    apply List.singleton_inj.mp hatt.items_eq
  have hchildren : insertAt position e.nodes.size (e.node u.top).children
      = (insertAt position (.node e.nodes.size us) u.children).map top := by
    rw [(h.holds.within hu).children_top, map_insertAt, top]
  rw [hchildren] at hatt
  rw [← List.flatMap_singleton Item.keys x] at hnodup hfree
  have hlaid : (Editor.attach u.top position x e).Laid
      (t.adjust u.top (insertAt position (.node e.nodes.size us))) := by
    apply h.of_attached hu hatt (Or.inl hgroup) (insertAt_perm _ _ _) _ hnodup hfree
    rw [Item.placementsOf_eq, List.flatMap_singleton]
    exact hnested
  use t.adjust u.top (insertAt position (.node e.nodes.size us)), hlaid
  refine ⟨?_, ?_, ?_, ?_⟩
  · apply h.survey_eq_mapRoot hlaid hatt.document_eq
    have hown : ∀ id ∈ t.ids, (Editor.attach u.top position x e).own id = e.own id :=
      fun _ hid => (hatt.node_of_mem h hid).2
    have hkey : ∀ id ∈ t.ids, ((Editor.attach u.top position x e).own id).key
        = (e.node u.top).key ↔ id = u.top := by
      intro id hid
      rw [hown id hid]
      apply h.key_eq_iff hid hu.top_mem
    rw [item_insertAt hkey, item_congr hown, hx, ← h.group_root]
    rfl
  · have hholds := hatt.holds _ List.mem_cons_self
    have hnew : (NodeTree.node e.nodes.size us).ids.Nodup := by
      have hnew := hatt.nodup
      rwa [List.flatMap_singleton] at hnew
    apply Eq.trans _ hx
    exact hholds.materialize hnew
  · have hperm : (insertAt position (.node e.nodes.size us) u.children).Perm
        ([.node e.nodes.size us] ++ u.children) := insertAt_perm _ _ _
    rw [(ids_adjust_perm_append hu h.nodup hperm).mem_iff]
    simp
  · rw [top_adjust]
    apply Nat.ne_of_gt (h.holds.lt_size t.top_mem_ids)

/-- Putting an item into a group of a layout agrees with putting it into the group of the survey. -/
theorem insert (h : e.Laid t) (hu : Within u t) (hgroup : (e.own u.top).isGroup = true) (x : Item)
    (position : Option Nat) :
  Agrees e ((Editor.insert x u.top position).run e)
    ((x, ·) <$> e.survey.insert x (e.node u.top).key position)
  := by
  rw [Survey.insert, Item.checkPlace, ← h.checkFree_nil_eq, Editor.insert, map_bind, bind_assoc]
  apply Agrees.get
  apply Agrees.lift
  intro _ hnested
  apply Agrees.lift
  intro _ hfree
  rw [h.checkFree_nil_eq, checkFree_eq_ok_iff] at hfree
  obtain ⟨t', ht', hsurvey, hx, -⟩ :=
    h.attach hu hgroup position (checkNested_eq_ok_iff.mp hnested) hfree.1 hfree.2
  simp only [hx, map_pure]
  rw [← hsurvey]
  exact Agrees.set ht' x

/-- Adding a new item agrees with adding it to the survey. -/
theorem add (h : e.Laid t) (kind : Item.Kind) (name : String) (parent : Option Key)
    (position : Option Nat) :
  Agrees e ((Editor.add kind name parent position).run e) (e.survey.add kind name parent position)
  := by
  have hadd : e.survey.add kind name parent position
      = (Item.group <$> e.survey.parentGroup parent) >>= fun y =>
          (Item.create kind (Key.child y.key name), ·)
            <$> e.survey.insert (Item.create kind (Key.child y.key name)) y.key position := by
    rw [bind_map_left]
    rfl
  rw [hadd, Editor.add]
  apply Agrees.get
  apply Agrees.find (h.finds_parentNode parent)
  intro u hu hfound
  rw [key_item]
  apply h.insert hu (h.isGroup_of_parentNode hfound)

/-- Adding an item with its subtree agrees with adding it to the survey. -/
theorem addExisting (h : e.Laid t) (x : Item) (parent : Key) (position : Option Nat) :
  Agrees e ((Editor.addExisting x parent position).run e)
    ((x, ·) <$> e.survey.addExisting x parent position)
  := by
  have hadd : (x, ·) <$> e.survey.addExisting x parent position
      = (Item.group <$> e.survey.parentGroup (some parent)) >>= fun y =>
          (x, ·) <$> e.survey.insert x y.key position := by
    rw [Survey.addExisting, map_bind, bind_map_left]
    rfl
  rw [hadd, Editor.addExisting]
  apply Agrees.get
  apply Agrees.find (h.finds_parentNode (some parent))
  intro u hu hfound
  rw [key_item]
  apply h.insert hu (h.isGroup_of_parentNode hfound)

end Laid

end Editor

end Questionnaire
