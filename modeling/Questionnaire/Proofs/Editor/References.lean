import Questionnaire.Proofs.Editor.Ancestry
import Questionnaire.Proofs.Editor.Reachable
import Questionnaire.Proofs.Survey.Relabel

/-!
# Keys that change and the references to them

Renaming and moving change the keys of a subtree and the references to them.  The keys are
recomputed from the top of the subtree down, each from that of the parent; the references are
rebased one by one, wherever they stand.  In a survey with a key both come to the same
(`Rekeyed.own_eq`), so a reference to an item is a reference to the item afterwards, whether its key
has changed or not.

After an item has been renamed, no reference in the items and the rules of the survey leads to the
old key.  The texts about the survey are not redirected, and may still refer to it.
-/

namespace Questionnaire

open NodeTree

theorem Item.setKey_key (x : Item) :
  x.setKey x.key = x
  := by
  cases x with
  | single s => rfl
  | group g =>
    obtain ⟨head, selectionMethod, items⟩ := g
    rfl

@[simp]
theorem Item.references_setKey (key : Key) (x : Item) :
  (x.setKey key).references = x.references
  := by
  cases x with
  | single s => rfl
  | group g => rfl

/-- Modifying an item changes nothing but the root and the items. -/
theorem Survey.exists_modifyItem_eq (s : Survey) (key : Key) (f : Item → Item) :
  ∃ root, s.modifyItem key f = { s with root }
  := by
  rw [modifyItem]
  by_cases hkey : key = s.key
  · rw [if_pos hkey]
    cases f (.group s.root) with
    | single x => exact ⟨s.root, rfl⟩
    | group root => exact ⟨root, rfl⟩
  · rw [if_neg hkey]
    exact ⟨_, rfl⟩

theorem Survey.ruleReferences_modifyItem (s : Survey) (key : Key) (f : Item → Item) :
  (s.modifyItem key f).ruleReferences = s.ruleReferences
  := by
  obtain ⟨root, hroot⟩ := s.exists_modifyItem_eq key f
  rw [hroot]
  rfl

namespace Editor

variable {e e' : Editor} {t u : NodeTree}

/-! ### Keys that are recomputed -/

namespace Laid

/-- The keys that follow from a new key of the top of a subtree are the rebased keys. -/
theorem keys_eq_rebase (h : e.Laid t) (hu : Within u t) (hne : (e.node u.top).key ≠ "")
    {new : Key} (hnew : new ≠ "") {keys : NodeId → Key} (htop : keys u.top = new)
    (hbelow : ∀ id us, Within (.node id us) u → ∀ v ∈ us,
      keys v.top = Key.child (keys id) (Key.leaf (e.node v.top).key))
    {id : NodeId} (hid : id ∈ u.ids) :
  keys id = Key.rebase (e.node u.top).key new (e.node id).key
  := by
  -- The key of a node is rebased when that of its parent is, so the induction is down the tree.
  have hdown (w : NodeTree) (hw : Within w u)
      (hwkey : keys w.top = Key.rebase (e.node u.top).key new (e.node w.top).key) :
      ∀ id ∈ w.ids, keys id = Key.rebase (e.node u.top).key new (e.node id).key := by
    induction w using induct with
    | node i ws ih =>
      intro id hid
      rw [ids_node, List.mem_cons] at hid
      rcases hid with rfl | hid
      · exact hwkey
      · obtain ⟨v, hv, hid⟩ := List.mem_flatMap.mp hid
        apply ih v hv (hw.of_mem hv) _ id hid
        obtain ⟨hine, hwithin⟩ := h.isWithin_of_mem_of_ne hu hne hw.top_mem
        rw [top] at hwkey hwithin hine
        rw [hbelow i ws hw v hv, hwkey, Key.child, if_neg (Key.rebase_ne_empty hnew hwithin),
          Key.rebase_of_parent? (h.parent?_key_of_ne (hw.trans hu) hv hine) hwithin]
        rfl
  apply hdown u (Within.self u) _ id hid
  rw [htop, Key.rebase_self]

variable (h : e.Laid t) (hroot : e.key ≠ "")

include h hroot

/-- When a subtree gets another key, the key of every node is rebased, in the subtree and
outside. -/
theorem own_eq_of_rekeyed (hu : Within u t) {new : Key} (hnew : new ≠ "")
    (hrekeyed : Rekeyed e e' u new) {id : NodeId} (hid : id ∈ t.ids) :
  e'.own id = (e.own id).setKey (Key.rebase (e.node u.top).key new (e.node id).key)
  := by
  obtain ⟨⟨keys, htop, hbelow, hinside⟩, houtside⟩ := hrekeyed
  by_cases hid' : id ∈ u.ids
  · rw [hinside id hid', h.keys_eq_rebase hu (h.key_ne_empty hroot hu.top_mem) hnew htop hbelow
      hid']
  · have hwithin : ¬ Key.isWithin (e.node id).key (e.node u.top).key = true :=
      (h.isWithin_iff_mem hroot hu hid).not.mpr hid'
    rw [houtside id hid', Key.rebase_of_not_isWithin hwithin]
    exact (Item.setKey_key _).symm

end Laid

/-! ### Keys and references that are carried along -/

/-- The keys and the references of an editor are replaced by their images; the nodes that the root
leads to stay the same. -/
structure Carried (f : Key → Key) (e e' : Editor) : Prop where
  reaches_iff : ∀ id, e'.Reaches e'.root id ↔ e.Reaches e.root id
  key_eq : ∀ id, e.Reaches e.root id → (e'.node id).key = f (e.node id).key
  references_eq : ∀ id, e.Reaches e.root id →
    (e'.own id).references = (e.own id).references.map f
  rules_eq : e'.survey.ruleReferences = e.survey.ruleReferences.map f

theorem Carried.refl (e : Editor) :
  Carried id e e
  := ⟨fun _ => Iff.rfl, fun _ _ => rfl, fun _ _ => (List.map_id _).symm, (List.map_id _).symm⟩

/-- Rekeying a subtree and redirecting the references to it carries keys and references along. -/
theorem Laid.carried (h : e.Laid t) (hroot : e.key ≠ "") (hu : Within u t) {new : Key}
    (hnew : new ≠ "") {t' : NodeTree} (h' : e'.Laid t') (hids : t'.ids.Perm t.ids)
    (hrekeyed : Rekeyed e e' u new) (hrules : e'.survey.ruleReferences = e.survey.ruleReferences) :
  Carried (Key.rebase (e.node u.top).key new) e (e'.redirect (e.node u.top).key new)
  := by
  obtain ⟨hlaid, hsurvey, -, hown⟩ := h'.redirect (e.node u.top).key new
  have hmem (id : NodeId) : id ∈ t.ids ↔ e.Reaches e.root id := by
    rw [← h.top_eq]
    apply h.holds.mem_ids_iff
  have hmem' (id : NodeId) : id ∈ t'.ids ↔ (e'.redirect (e.node u.top).key new).Reaches
      (e'.redirect (e.node u.top).key new).root id := by
    rw [← hlaid.top_eq]
    apply hlaid.holds.mem_ids_iff
  have hitem (id : NodeId) (hid : e.Reaches e.root id) :
      (e'.redirect (e.node u.top).key new).own id
        = ((e.own id).setKey (Key.rebase (e.node u.top).key new (e.node id).key)).redirectOwn
            (e.node u.top).key new := by
    rw [← hmem] at hid
    rw [hown id (hids.mem_iff.mpr hid), h.own_eq_of_rekeyed hroot hu hnew hrekeyed hid]
  refine ⟨?_, ?_, ?_, ?_⟩
  · intro id
    rw [← hmem, ← hmem', hids.mem_iff]
  · intro id hid
    rw [Node.key, ← own, hitem id hid, Item.key_redirectOwn, Item.key_setKey]
  · intro id hid
    rw [hitem id hid, Item.references_redirectOwn, Item.references_setKey]
  · rw [hsurvey, Survey.redirect_eq_relabel, Survey.ruleReferences_relabel, hrules]

/-! ### Requests that succeed -/

/-- If an action succeeds, the arena that it leaves behind has a property. -/
inductive Ensures {α : Type} (Q : Editor → Prop) : Except EditError α × Editor → Prop
  | error (err : EditError) (e : Editor) : Ensures Q (.error err, e)
  | ok (a : α) {e : Editor} (h : Q e) : Ensures Q (.ok a, e)

namespace Ensures

variable {α β : Type} {Q : Editor → Prop}

theorem of_ok {a : α} (h : Ensures Q (.ok a, e)) :
  Q e
  := by
  cases h with
  | ok _ h => exact h

/-- An action that reads the arena. -/
theorem get {next : Editor → Action α} (h : Ensures Q ((next e).run e)) :
  Ensures Q ((MonadState.get >>= next).run e)
  := h

/-- A check that succeeds. -/
theorem lift {r : Except EditError β} {next : β → Action α}
    (h : ∀ b, r = .ok b → Ensures Q ((next b).run e)) :
  Ensures Q ((liftM r >>= next).run e)
  := by
  cases r with
  | error err => apply Ensures.error
  | ok b => apply h b rfl

/-- A search that finds the node of a key. -/
theorem locate (h : e.Laid t) {key : Key} {next : NodeId → Action α}
    (hnext : ∀ u, Within u t → (e.node u.top).key = key → Ensures Q ((next u.top).run e)) :
  Ensures Q ((liftM (e.locate key) >>= next).run e)
  := by
  apply Ensures.lift
  intro id hloc
  have hkey := h.key_of_locate hloc
  have hfinds := h.finds_locate key
  rw [hloc] at hfinds
  obtain ⟨u, hu, rfl, -⟩ := hfinds.of_ok
  apply hnext u hu hkey

theorem map (f : α → β) {action : Action α} (h : Ensures Q (action.run e)) :
  Ensures Q ((f <$> action).run e)
  := by
  rw [run_map]
  generalize action.run e = r at h
  cases h with
  | error err e' => apply Ensures.error
  | ok a hQ => apply Ensures.ok (f a) hQ

end Ensures

namespace Laid

variable (h : e.Laid t) (hroot : e.key ≠ "")

include h hroot

/-- Giving a subtree a key where it stands carries keys and references along. -/
theorem ensures_rekeySubtree (hu : Within u t) {new : Key} (hnew : new ≠ "")
    (htop : ∀ parent, (e.node u.top).parent = some parent →
      Key.parent new = (e.node parent).key) :
  Ensures (fun e' => ∃ f, Carried f e e') ((do
    Editor.rekeySubtree u.top new
    modify fun e' => e'.redirect (e.node u.top).key new : Action Unit).run e)
  := by
  unfold Editor.rekeySubtree
  simp only [bind_assoc]
  apply Ensures.get
  apply Ensures.lift
  intro _ hcheck
  rw [h.checkRekey_eq hu] at hcheck
  obtain ⟨hlaid, hsurvey, hrekeyed⟩ := h.rekeyed hu htop hcheck
  apply Ensures.ok
  refine ⟨_, h.carried hroot hu hnew hlaid (List.Perm.refl _) hrekeyed ?_⟩
  rw [hsurvey, Survey.ruleReferences_modifyItem]

/-- Renaming an item or the root carries keys and references along. -/
theorem ensures_rename (old : Key) {new : Key} (hnew : new ≠ "") :
  Ensures (fun e' => ∃ f, Carried f e e') ((Editor.rename old new .follow).run e)
  := by
  unfold Editor.rename
  apply Ensures.get
  apply Ensures.locate h
  rintro u hu rfl
  by_cases hsame : (e.node u.top).key = new
  · simp only [hsame, if_true]
    apply Ensures.ok
    exact ⟨id, Carried.refl e⟩
  · simp only [hsame, if_false]
    cases hparent : (e.node u.top).parent with
    | none =>
      apply h.ensures_rekeySubtree hroot hu hnew
      rw [hparent]
      rintro _ ⟨⟩
    | some parent =>
      by_cases hguard : Key.parent? new = some (e.node parent).key
      · simp only [hguard, ne_eq, not_true_eq_false, if_false]
        apply h.ensures_rekeySubtree hroot hu hnew
        rw [hparent]
        rintro _ ⟨⟩
        rw [Key.parent, hguard]
        rfl
      · simp only [hguard, ne_eq, not_false_eq_true, if_true]
        apply Ensures.error

/-- Moving an item carries keys and references along. -/
theorem ensures_move (key destination : Key) :
  Ensures (fun e' => ∃ f, Carried f e e') ((Editor.move key destination).run e)
  := by
  unfold Editor.move
  apply Ensures.get
  apply Ensures.locate h
  rintro u hu rfl
  apply Ensures.locate h
  rintro w hw -
  by_cases hinside : w.top ∈ e.subtree u.top
  · simp only [hinside, if_true]
    apply Ensures.error
  · simp only [hinside, if_false]
    cases hgroup : (e.node w.top).item.isGroup with
    | false => apply Ensures.error
    | true =>
      simp only [Bool.not_true, Bool.false_eq_true, if_false]
      have hparent := Key.parent_child_leaf (e.node w.top).key (e.node u.top).key
      have hnew : Key.child (e.node w.top).key (Key.leaf (e.node u.top).key) ≠ "" := by
        intro hempty
        rw [hempty] at hparent
        apply h.key_ne_empty hroot hw.top_mem hparent.symm
      generalize Key.child (e.node w.top).key (Key.leaf (e.node u.top).key) = new at hparent hnew ⊢
      apply Ensures.lift
      intro _ hcheck
      rw [h.checkRekey_eq hu] at hcheck
      have houtside : w.top ∉ u.ids := by
        rwa [((h.holds.within hu).subtree_perm (hu.nodup h.nodup)).mem_iff] at hinside
      obtain ⟨t', hlaid, hids, hrekeyed, -, -, hsurvey, -⟩ :=
        h.relocated hu hw.top_mem houtside hgroup hparent hcheck
      apply Ensures.ok
      refine ⟨_, h.carried hroot hu hnew hlaid hids hrekeyed ?_⟩
      rw [hsurvey]
      rfl

end Laid

/-! ### References that follow -/

/-- The requests that change the keys of items and the references along with them. -/
inductive Request.CarriesReferences : Request → Prop where
  | rename (old : Key) {new : Key} (h : new ≠ "") : CarriesReferences (.rename old new .follow)
  | move (key destination : Key) : CarriesReferences (.move key destination)

/-- A reference to the item of a node before a request is one to the item after it. -/
def Follows (e e' : Editor) (id : NodeId) (before after : Key) : Prop :=
  before = (e.node id).key → after = (e'.node id).key

theorem Carried.follows {f : Key → Key} (h : Carried f e e') {id : NodeId}
    (hid : e.Reaches e.root id) (references : List Key) :
  List.Forall₂ (Follows e e' id) references (references.map f)
  := by
  rw [List.forall₂_map_right_iff, List.forall₂_same]
  intro reference _ heq
  rw [heq, h.key_eq id hid]

theorem Laid.exists_carried (h : e.Laid t) (hroot : e.key ≠ "") {r : Request}
    (hr : r.CarriesReferences) {a : Answer} (hserve : e.serve r = (.ok a, e')) :
  ∃ f, Carried f e e'
  := by
  have hensures : Ensures (fun e' => ∃ f, Carried f e e') (e.serve r) := by
    rw [Editor.serve]
    cases hr with
    | rename old hnew =>
      rw [respond, bind_pure_comp]
      exact (h.ensures_rename hroot old hnew).map _
    | move key destination => exact (h.ensures_move hroot key destination).map _
  rw [hserve] at hensures
  exact hensures.of_ok

/-- When a survey with a key has served a request that changes keys, it has the nodes that it had,
and for each of them, every reference to its item, in any item and in the rules, refers to it under
its new key. -/
theorem Reachable.references_follow (h : Reachable e) (hroot : e.key ≠ "") {r : Request}
    (hr : r.CarriesReferences) {a : Answer} (hserve : e.serve r = (.ok a, e')) :
  (∀ id, e'.Reaches e'.root id ↔ e.Reaches e.root id)
    ∧ ∀ x, e.Reaches e.root x →
      (∀ id, e.Reaches e.root id →
        List.Forall₂ (Follows e e' x) (e.own id).references (e'.own id).references)
      ∧ List.Forall₂ (Follows e e' x) e.survey.ruleReferences e'.survey.ruleReferences
  := by
  obtain ⟨t, ht⟩ := h.laid
  obtain ⟨f, hcarried⟩ := ht.exists_carried hroot hr hserve
  use hcarried.reaches_iff
  intro x hx
  constructor
  · intro id hid
    rw [hcarried.references_eq id hid]
    apply hcarried.follows hx
  · rw [hcarried.rules_eq]
    apply hcarried.follows hx

/-- A survey with a group, a question in the group, and an item that follows the question. -/
def sample : Editor :=
  (((Editor.new.serve (.add { isGroup := true } "g" none none)).2.serve
    (.add { isGroup := false } "q" (some "survey.g") none)).2.serve
      (.addExisting (.single { head := { key := "survey.p", follows := some ["survey.g.q"] } })
        "survey" none)).2

/-- An item that follows a question follows it under its new key when its group is renamed. -/
theorem references_follow_group :
  let r := sample.serve (.rename "survey.g" "survey.h" .follow)
  sample.key ≠ "" ∧ r.1 = .ok .done ∧ sample.Reaches sample.root 2 ∧ sample.Reaches sample.root 3
    ∧ List.Forall₂ (Follows sample r.2 2) (sample.own 3).references (r.2.own 3).references
    ∧ (sample.own 3).references = ["survey.g.q"] ∧ (r.2.own 3).references = ["survey.h.q"]
  := by
  have hreachable : Reachable sample := ((Reachable.new.served _).served _).served _
  have hkey : sample.key ≠ "" := by decide
  have hq : sample.Reaches sample.root 2 :=
    .head (show 1 ∈ (sample.node 0).children by decide)
      (.single (show 2 ∈ (sample.node 1).children by decide))
  have hp : sample.Reaches sample.root 3 :=
    .single (show 3 ∈ (sample.node 0).children by decide)
  have hdone : (sample.serve (.rename "survey.g" "survey.h" .follow)).1 = .ok .done := rfl
  have hfollow := Reachable.references_follow hreachable hkey
    (.rename "survey.g" (by decide : "survey.h" ≠ "")) (Prod.ext hdone rfl)
  exact ⟨hkey, hdone, hq, hp, (hfollow.2 2 hq).1 3 hp, rfl, rfl⟩

end Editor

/-! ### References to a key that is gone -/

/-- The expressions in the texts about a survey. -/
def SurveyTexts.expressions (t : SurveyTexts) : List Expression :=
  (t.name.getD [] ++ t.description.getD [] ++ t.typicalDuration.getD []).flatMap
    LocalizedText.expressions

/-- Renaming an item other than the root gives it a key with the same parent. -/
theorem Survey.parent?_of_rename {s s' : Survey} {old new : Key}
    (hrename : s.rename old new .follow = .ok s') (hold : old ≠ s.key) (hne : new ≠ old) :
  (∃ p, Key.parent? old = some p ∧ Key.parent? new = some p)
    ∧ s' = (s.modifyItem old (·.rekey new)).redirect old new
  := by
  obtain ⟨x, hlocate, hparent, -, hfollow, -⟩ := exists_of_rename_eq_ok hrename hne.symm
  refine ⟨⟨Key.parent old, ?_, hparent hold⟩, hfollow rfl⟩
  cases hnone : Key.parent? old with
  | some p =>
    rw [Key.parent, hnone]
    rfl
  | none =>
    exfalso
    rw [locate, if_neg hold, if_neg] at hlocate
    · cases hlocate
    · rw [Key.isWithin_of_parent?_eq_none hnone]
      exact hold

/-- After an item has got another key, the references in the items and the rules do not lead to the
old key or below it, and the texts about the survey are as they were. -/
theorem Survey.references_of_rename {s s' : Survey} {old new : Key}
    (hrename : s.rename old new .follow = .ok s') (hold : old ≠ s.key) (hne : new ≠ old) :
  (∀ reference ∈ s'.references, ¬ Key.isWithin reference old = true) ∧ s'.texts = s.texts
  := by
  obtain ⟨⟨p, hpold, hpnew⟩, rfl⟩ := parent?_of_rename hrename hold hne
  constructor
  · intro reference hreference
    rw [references_redirect] at hreference
    obtain ⟨before, -, rfl⟩ := List.mem_map.mp hreference
    apply Key.not_isWithin_rebase hpold hpnew hne.symm
  · obtain ⟨root, hroot⟩ := s.exists_modifyItem_eq old (·.rekey new)
    rw [hroot]
    rfl

namespace Editor

variable {e e' : Editor}

/-- After an item other than the root has got another key, no reference in the items and the rules
of the survey leads to the old key or below it, and the texts about the survey are as they were. -/
theorem Reachable.not_isWithin_of_rename (h : Reachable e) {old new : Key} {a : Answer}
    (hserve : e.serve (.rename old new .follow) = (.ok a, e')) (hold : old ≠ e.key)
    (hne : new ≠ old) :
  (∀ reference ∈ e'.survey.references, ¬ Key.isWithin reference old = true)
    ∧ e'.survey.texts = e.survey.texts
  := by
  obtain ⟨t, ht⟩ := h.laid
  obtain ⟨err, hfailed, -⟩ | ⟨b, f, _, -, hserved, hrespond⟩ :=
    (ht.serve (.rename old new .follow)).cases
  · rw [hserve] at hfailed
    cases hfailed
  · rw [hserve] at hserved
    cases hserved
    rw [Survey.respond] at hrespond
    obtain ⟨s', hrename, hsurvey⟩ := exists_of_map_eq_ok hrespond
    cases hsurvey
    rw [← ht.survey_key] at hold
    apply Survey.references_of_rename hrename hold hne

/-- An item that follows a question has no reference to its old key when the question is renamed. -/
theorem not_isWithin_of_rename_question :
  let r := sample.serve (.rename "survey.g.q" "survey.g.r" .follow)
  r.1 = .ok .done
    ∧ (∀ reference ∈ r.2.survey.references, ¬ Key.isWithin reference "survey.g.q" = true)
    ∧ "survey.g.q" ∈ sample.survey.references ∧ "survey.g.r" ∈ r.2.survey.references
  := by
  have hreachable : Reachable sample := ((Reachable.new.served _).served _).served _
  have hdone : (sample.serve (.rename "survey.g.q" "survey.g.r" .follow)).1 = .ok .done := rfl
  have hstale := Reachable.not_isWithin_of_rename hreachable (Prod.ext hdone rfl) (by decide)
    (by decide)
  exact ⟨hdone, hstale.1, by decide, by decide⟩

/-- A reference in a text about the survey stays when the item that it refers to gets another
key. -/
theorem stale_reference_in_texts :
  let text := LocalizedText.ofExpression "en" (.apply "getSurveyItem" [.text "survey.q"])
  let e := ((Editor.new.serve (.add { isGroup := false } "q" none none)).2.serve
    (.set (.typicalDuration [text]))).2
  let r := e.serve (.rename "survey.q" "survey.r" .follow)
  r.1 = .ok .done ∧ ∃ x ∈ r.2.survey.texts.expressions, "survey.q" ∈ x.texts
  := by
  refine ⟨rfl, _, List.mem_singleton_self _, ?_⟩
  decide

end Editor

end Questionnaire
