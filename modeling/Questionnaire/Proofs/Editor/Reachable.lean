import Mathlib.Logic.Relation
import Questionnaire.Proofs.Editor.Serve

/-!
# Editors that requests lead to

An editor is reachable if it was made without items or by opening a survey, and has then served any
requests, failing ones among them.  The index of an editor enumerates its entries in no particular
order, so reordering them leads to a reachable editor too.

Every reachable editor is coherent: the nodes that the root leads to form a tree, the index knows
these nodes by their keys, and the keys follow the tree.  What such an editor answers depends on its
survey alone, and a request that fails leaves it as it was.
-/

namespace Questionnaire

open NodeTree

namespace Editor

/-- The editors that requests lead to. -/
inductive Reachable : Editor → Prop where
  | new : Reachable Editor.new
  | opened {s : Survey} {e : Editor} (h : ofSurvey s = .ok e) : Reachable e
  | served {e : Editor} (h : Reachable e) (r : Request) : Reachable (e.serve r).2
  | reindexed {e : Editor} (h : Reachable e) {index : Index}
    (perm : index.entries.Perm e.index.entries) : Reachable { e with index }

/-- The nodes that a node leads to, through the lists of nodes. -/
def Reaches (e : Editor) : NodeId → NodeId → Prop :=
  Relation.ReflTransGen fun id child => child ∈ (e.node id).children

/-- The lists of nodes, the parents of nodes and the index fit together. -/
structure Coherent (e : Editor) : Prop where
  /-- The nodes that the root leads to form a finite tree, in which every one of them comes once. -/
  tree : ∃ t : NodeTree, t.top = e.root ∧ e.Holds none t ∧ t.ids.Nodup
    ∧ ∀ id, id ∈ t.ids ↔ e.Reaches e.root id
  root_parent : (e.node e.root).parent = none
  /-- The parent of a node is the node that lists it, and lists it once. -/
  parent_iff : ∀ parent id, e.Reaches e.root parent →
    (id ∈ (e.node parent).children ↔ e.Reaches e.root id ∧ (e.node id).parent = some parent)
  children_nodup : ∀ id, e.Reaches e.root id → (e.node id).children.Nodup
  /-- The index has the nodes that the root leads to, each once and under its key, and no others. -/
  index_iff : ∀ key id, (key, id) ∈ e.index.entries ↔ e.Reaches e.root id ∧ (e.node id).key = key
  index_nodup : e.index.nodes.Nodup
  key_inj : ∀ id id', e.Reaches e.root id → e.Reaches e.root id' →
    (e.node id).key = (e.node id').key → id = id'
  /-- Single items have no nodes below them, and groups hold no items themselves. -/
  stored : ∀ id, Stored (e.node id)
  /-- A key is one segment longer than that of the parent. -/
  nested : ∀ id parent, e.Reaches e.root id → (e.node id).parent = some parent →
    Key.parent (e.node id).key = (e.node parent).key

variable {e e' : Editor} {t : NodeTree}

/-! ### Layouts of reachable editors -/

/-- The numbers of a tree that the arena holds are those of the nodes that its top leads to. -/
theorem Holds.mem_ids_iff {parent : Option NodeId} (h : e.Holds parent t) {id : NodeId} :
  id ∈ t.ids ↔ e.Reaches t.top id
  := by
  constructor
  · intro hid
    induction h with
    | @node parent i ts _ _ hchildren _ ih =>
      rw [ids_node, List.mem_cons] at hid
      rcases hid with rfl | hid
      · apply Relation.ReflTransGen.refl
      · obtain ⟨u, hu, hid⟩ := List.mem_flatMap.mp hid
        apply Relation.ReflTransGen.head _ (ih u hu hid)
        rw [top, hchildren]
        apply List.mem_map_of_mem hu
  · intro hreaches
    induction hreaches with
    | refl => apply top_mem_ids
    | tail _ hchild ih =>
      obtain ⟨ts, hts, hchildren⟩ := h.exists_children ih
      rw [hchildren] at hchild
      obtain ⟨u, hu, rfl⟩ := List.mem_map.mp hchild
      exact (hts.of_mem hu).top_mem

/-- An editor that is laid out is coherent. -/
theorem coherent_of_laid (h : e.Laid t) :
  e.Coherent
  := by
  have hreaches (id : NodeId) : id ∈ t.ids ↔ e.Reaches e.root id := by
    rw [← h.top_eq]
    apply h.holds.mem_ids_iff
  constructor
  · use t, h.top_eq, h.holds, h.nodup
  · rw [h.parent_eq_none_iff h.root_mem]
  · intro parent id hparent
    rw [← hreaches] at hparent ⊢
    obtain ⟨ts, hts, hchildren⟩ := h.holds.exists_children hparent
    rw [hchildren, List.mem_map]
    constructor
    · rintro ⟨u, hu, rfl⟩
      exact ⟨(hts.of_mem hu).top_mem, ((h.holds.within hts).of_mem_children hu).parent_top⟩
    · rintro ⟨hid, hp⟩
      obtain ⟨u, hu, hutop, v, hv, rfl⟩ := h.exists_parent hid hp
      rw [h.eq_of_top_eq hu hts hutop] at hv
      use v, hv
  · intro id hid
    rw [← hreaches] at hid
    obtain ⟨ts, hts, hchildren⟩ := h.holds.exists_children hid
    rw [hchildren]
    have hnodup := hts.nodup h.nodup
    rw [ids_node, List.nodup_cons] at hnodup
    exact hnodup.2.sublist (map_top_sublist ts)
  · intro key id
    rw [Index.mem_entries_iff, h.index_iff, hreaches]
  · exact h.index_nodes.1
  · intro id id' hid hid'
    rw [← hreaches] at hid hid'
    apply h.eq_of_key_eq hid hid'
  · exact h.stored
  · intro id parent hid
    rw [← hreaches] at hid
    apply h.nested id hid

/-- Reordering the index changes nothing else. -/
theorem Laid.reindex (h : e.Laid t) {index : Index} (perm : index.entries.Perm e.index.entries) :
  ({ e with index } : Editor).Laid t
  := by
  refine ⟨⟨h.top_eq, ?_, h.nodup, h.stored, h.root_group, ?_⟩, h.nested⟩
  · exact h.holds.congr (Nat.le_refl _) (fun _ _ => rfl) fun _ _ => rfl
  · intro key id
    rw [← Index.mem_entries_iff, perm.mem_iff, Index.mem_entries_iff]
    apply h.index_iff

theorem Laid.survey_reindex (h : e.Laid t) {index : Index}
    (perm : index.entries.Perm e.index.entries) :
  ({ e with index } : Editor).survey = e.survey
  := by
  rw [(h.reindex perm).survey_eq_of_item h.group_root.symm,
    h.survey_eq_of_item h.group_root.symm]

/-- Serving a request keeps the editor laid out. -/
theorem Laid.served (h : e.Laid t) {r : Request} {a : Except EditError Answer} {e' : Editor}
    (hserve : e.serve r = (a, e')) :
  ∃ t', e'.Laid t'
  := by
  obtain ⟨err, herror, -⟩ | ⟨b, e'', t', h', hok, -⟩ := (h.serve r).cases
  · cases hserve.symm.trans herror
    use t
  · cases hserve.symm.trans hok
    use t'

/-- Every reachable editor is laid out. -/
theorem Reachable.laid (h : Reachable e) :
  ∃ t, e.Laid t
  := by
  induction h with
  | new => exact ⟨_, withDocument_laid _⟩
  | @opened s e hopen =>
    obtain ⟨err, herr, -⟩ | ⟨e', t, h', hopen', -⟩ := ofSurvey_cases s
    · rw [herr] at hopen
      cases hopen
    · rw [hopen'] at hopen
      cases hopen
      use t
  | served _ r ih =>
    obtain ⟨t, ht⟩ := ih
    apply ht.served rfl
  | reindexed _ perm ih =>
    obtain ⟨t, ht⟩ := ih
    use t
    apply ht.reindex perm

/-! ### Coherence -/

/-- Every reachable editor is coherent. -/
theorem Reachable.coherent (h : Reachable e) :
  e.Coherent
  := by
  obtain ⟨t, ht⟩ := h.laid
  exact coherent_of_laid ht

theorem coherent_after_removal :
  ((((Editor.new.serve (.add { isGroup := true } "g" none none)).2.serve
    (.add { isGroup := false } "q" (some "survey.g") none)).2.serve (.remove "survey.g")).2).Coherent
  := Reachable.coherent (((Reachable.new.served _).served _).served _)

/-! ### Editors of the same survey -/

/-- Serving requests, one after the other, with the answers to them.  The index may be reordered in
between. -/
inductive Run : Editor → List Request → List (Except EditError Answer) → Editor → Prop where
  | done (e : Editor) : Run e [] [] e
  | served {e e' : Editor} {r : Request} {rs : List Request} {as : List (Except EditError Answer)}
    (h : Run (e.serve r).2 rs as e') : Run e (r :: rs) ((e.serve r).1 :: as) e'
  | reindexed {e e' : Editor} {rs : List Request} {as : List (Except EditError Answer)}
    {index : Index} (perm : index.entries.Perm e.index.entries) (h : Run { e with index } rs as e') :
    Run e rs as e'

/-- The answers to requests, and the survey after them, depend on the survey before them alone. -/
theorem Run.respondAll_eq {e' : Editor} {rs : List Request} {as : List (Except EditError Answer)}
    (h : Run e rs as e') (he : Reachable e) :
  e.survey.respondAll rs = (as, e'.survey)
  := by
  induction h with
  | done e => rfl
  | @served e e' r rs as _ ih =>
    have hrest := ih (he.served r)
    obtain ⟨t, ht⟩ := he.laid
    rw [Survey.respondAll]
    obtain ⟨err, hserve, hrespond⟩ | ⟨a, f, -, -, hserve, hrespond⟩ := (ht.serve r).cases
    · rw [hserve] at hrest ⊢
      rw [hrespond, hrest]
    · rw [hserve] at hrest ⊢
      have hrest : f.survey.respondAll rs = (as, e'.survey) := hrest
      rw [hrespond]
      simp only [hrest]
  | reindexed perm _ ih =>
    obtain ⟨t, ht⟩ := he.laid
    rw [← ih (he.reindexed perm), ht.survey_reindex perm]

/-- The survey of a reachable editor can be opened again. -/
theorem Reachable.exists_reopened (h : Reachable e) :
  ∃ f, ofSurvey e.survey = .ok f ∧ f.survey = e.survey
  := by
  obtain ⟨t, ht⟩ := h.laid
  obtain ⟨f, -, -, hopen, hsurvey⟩ := ht.ofSurvey_survey
  use f

/-- Reachable editors of the same survey answer every request alike and have the same survey after
it, and so they give the same answers to all further requests; one of them is made by opening the
survey. -/
theorem Reachable.indistinguishable (h : Reachable e) :
  (∃ f, ofSurvey e.survey = .ok f ∧ f.survey = e.survey)
    ∧ ∀ e', Reachable e' → e'.survey = e.survey →
      (∀ r, (e'.serve r).1 = (e.serve r).1 ∧ (e'.serve r).2.survey = (e.serve r).2.survey)
        ∧ ∀ rs as as' f f', Run e rs as f → Run e' rs as' f' → as' = as ∧ f'.survey = f.survey
  := by
  use h.exists_reopened
  intro e' h' hsurvey
  have hruns : ∀ rs as as' f f', Run e rs as f → Run e' rs as' f' →
      as' = as ∧ f'.survey = f.survey := by
    intro rs as as' f f' hrun hrun'
    have hall := hrun.respondAll_eq h
    have hall' := hrun'.respondAll_eq h'
    rw [hsurvey, hall, Prod.mk.injEq] at hall'
    exact ⟨hall'.1.symm, hall'.2.symm⟩
  refine ⟨?_, hruns⟩
  intro r
  obtain ⟨has, hf⟩ := hruns [r] _ _ _ _ (.served (.done _)) (.served (.done _))
  exact ⟨List.singleton_inj.mp has, hf⟩

/-- An editor that has added an item and removed it answers as a new editor does. -/
theorem indistinguishable_after_removal :
  let e := ((Editor.new.serve (.add { isGroup := false } "q" none none)).2.serve
    (.remove "survey.q")).2
  (∃ f, ofSurvey Editor.new.survey = .ok f ∧ f.survey = Editor.new.survey)
    ∧ e.nodes.size ≠ Editor.new.nodes.size
    ∧ ∀ r, (e.serve r).1 = (Editor.new.serve r).1
      ∧ (e.serve r).2.survey = (Editor.new.serve r).2.survey
  := by
  have hnew := Reachable.indistinguishable Reachable.new
  refine ⟨hnew.1, by decide, ?_⟩
  exact (hnew.2 _ ((Reachable.new.served _).served _) rfl).1

/-! ### Requests that fail -/

/-- A request that fails leaves the editor as it was. -/
theorem Laid.serve_of_error (h : e.Laid t) {r : Request} {err : EditError}
    (herr : (e.serve r).1 = .error err) :
  (e.serve r).2 = e
  := by
  obtain ⟨err', hserve, -⟩ | ⟨a, e', t', -, hserve, -⟩ := (h.serve r).cases
  · rw [hserve]
  · rw [hserve] at herr
    cases herr

/-- After a request that fails, a reachable editor has the survey that it had, and finds the items
that it found. -/
theorem Reachable.unchanged_of_error (h : Reachable e) {r : Request} {err : EditError}
    (herr : (e.serve r).1 = .error err) :
  (e.serve r).2.survey = e.survey
    ∧ (∀ key, (e.serve r).2.contains key = e.contains key)
    ∧ ∀ key, (e.serve r).2.findItem key = e.findItem key
  := by
  obtain ⟨t, ht⟩ := h.laid
  rw [ht.serve_of_error herr]
  exact ⟨rfl, fun _ => rfl, fun _ => rfl⟩

theorem unchanged_of_duplicate :
  let e := (Editor.new.serve (.add { isGroup := false } "q" none none)).2
  (e.serve (.add { isGroup := false } "q" none none)).2.survey = e.survey
    ∧ (∀ key, (e.serve (.add { isGroup := false } "q" none none)).2.contains key = e.contains key)
    ∧ ∀ key, (e.serve (.add { isGroup := false } "q" none none)).2.findItem key = e.findItem key
  := Reachable.unchanged_of_error (Reachable.new.served _)
    (rfl : _ = Except.error (EditError.duplicateKey "survey.q"))

end Editor

end Questionnaire
