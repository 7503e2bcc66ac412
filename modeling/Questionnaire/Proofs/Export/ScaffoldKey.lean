import Questionnaire.Proofs.Editor.SurveyKey
import Questionnaire.Proofs.Export.Plan
import Questionnaire.Proofs.Files.Path

/-!
# Scaffolds and the keys of their surveys

A scaffold keeps the key that it was started with.  Its survey is started with the same key, but
gets another one when the root is renamed; so after any steps it has the key to which the root was
renamed last (`Run.key_eq`).

The file of a survey is named for the key of the scaffold, and items are added to the item with that
key.  If the survey has the same key, it is written under its own key and the items are added to its
root (`Reachable.filedByKey_iff`, `Reachable.addsToRoot`).  If it has another one, it is written
under a key that is not its own, and items are added elsewhere or not at all.
-/

namespace Questionnaire

/-! ### Items at the end of the root -/

/-- The survey with more items at the end of its root. -/
def Survey.append (s : Survey) (xs : List Item) : Survey :=
  s.mapRoot fun root => { root with items := root.items ++ xs }

namespace Survey

variable {s : Survey}

theorem key_append (s : Survey) (xs : List Item) :
  (s.append xs).key = s.key
  := rfl

theorem append_append (s : Survey) (xs ys : List Item) :
  (s.append xs).append ys = s.append (xs ++ ys)
  := by
  simp only [append, mapRoot, List.append_assoc]

/-- An item that is added to the root stands at its end. -/
theorem addExisting_key (h : s.keys.Nodup) (x : Item) :
  s.addExisting x s.key none = (fun _ => s.append [x]) <$> x.checkPlace s.key s.keys
  := by
  have hgroup : s.parentGroup (some s.key) = .ok s.root := by
    rw [parentGroup, locateParent, s.locate_key]
    rfl
  have hroot : s.mapRoot (·.mapItemsAt s.key (insertAt none x)) = s.append [x] := by
    have hkey : s.root.key = s.key := rfl
    have hbelow : s.key ∉ s.root.keysBelow := (List.nodup_cons.mp h).1
    rw [mapRoot, Group.mapItemsAt_of_notMem hkey hbelow, insertAt_none]
    rfl
  rw [addExisting, hgroup, ← hroot]
  rfl

end Survey

namespace Scaffold

variable {s s' : Scaffold}

/-! ### The key of a scaffold -/

theorem Additions.key_eq (h : s.Additions s') :
  s'.key = s.key
  := by
  induction h with
  | refl => rfl
  | added _ x parent ih => exact ih

/-- No step changes the key of a scaffold. -/
theorem key_serve {r : Request} {a : Except EditError Editor.Answer}
    (h : s.serve r = some (a, s')) :
  s'.key = s.key
  := by
  obtain ⟨_, -, -, hkey⟩ | ⟨-, hadditions⟩ := serve_cases h
  · exact hkey
  · exact hadditions.key_eq

/-! ### The key of the survey -/

/-- A step that has been served, with the answer to it. -/
abbrev Step := Request × Except EditError Editor.Answer

/-- The key that the survey has after a step. -/
def Step.rootKey (key : Key) : Step → Key
  | (.edit r, .ok _) => r.rootKey key
  | _ => key

/-- The key that the survey has after some steps. -/
def keyAfter (key : Key) (steps : List Step) : Key := steps.foldl Step.rootKey key

/-- Additions leave the key of the survey alone. -/
theorem Additions.rootKey_eq (h : s.Additions s') (hs : s.editor.Reachable) :
  s'.editor.survey.key = s.editor.survey.key
  := by
  induction h with
  | refl => rfl
  | @added s' hadditions x parent ih =>
    have hserve := (hadditions.editor_reachable hs).key_serve (.addExisting x parent none)
    split at hserve
    · exact hserve.trans ih
    · exact hserve.trans ih

/-- A step changes the key of the survey only if it is answered and renames the root. -/
theorem Reachable.rootKey_serve (h : s.Reachable) {r : Request} {a : Except EditError Editor.Answer}
    (hserve : s.serve r = some (a, s')) :
  s'.editor.survey.key = Step.rootKey s.editor.survey.key (r, a)
  := by
  obtain ⟨request, rfl, hedit, -⟩ | ⟨hr, hadditions⟩ := serve_cases hserve
  · have hkey := h.editor_reachable.key_serve request
    rw [hedit] at hkey
    cases a with
    | error err => exact hkey
    | ok answer => exact hkey
  · rw [hadditions.rootKey_eq h.editor_reachable]
    cases r with
    | edit request => exact absurd rfl (hr request)
    | _ => rfl

/-! ### Runs of steps -/

/-- Serving steps, one after the other, with the answers to them.  The index may be reordered in
between. -/
inductive Run : Scaffold → List Step → Scaffold → Prop where
  | done (s : Scaffold) : Run s [] s
  | served {s s₁ s' : Scaffold} {r : Request} {a : Except EditError Editor.Answer}
    {steps : List Step} (hserve : s.serve r = some (a, s₁)) (h : Run s₁ steps s') :
    Run s ((r, a) :: steps) s'
  | reindexed {s s' : Scaffold} {steps : List Step} {index : Index}
    (perm : index.entries.Perm s.editor.index.entries)
    (h : Run { s with editor := { s.editor with index } } steps s') : Run s steps s'

/-- After a run the scaffold has the key that it had, and the survey the key to which the root was
renamed last. -/
theorem Run.key_eq {steps : List Step} (hrun : Run s steps s') (h : s.Reachable) :
  s'.Reachable ∧ s'.key = s.key ∧ s'.editor.survey.key = keyAfter s.editor.survey.key steps
  := by
  induction hrun with
  | done s => exact ⟨h, rfl, rfl⟩
  | served hserve _ ih =>
    obtain ⟨hreachable, hkey, hroot⟩ := ih (h.served hserve)
    use hreachable, hkey.trans (key_serve hserve)
    rw [hroot, h.rootKey_serve hserve]
    rfl
  | @reindexed s s' steps index perm _ ih =>
    obtain ⟨hreachable, hkey, hroot⟩ := ih (h.reindexed perm)
    obtain ⟨t, ht⟩ := h.editor_reachable.laid
    use hreachable, hkey
    rw [hroot, ht.survey_reindex perm]

/-- A scaffold is started with the same key as its survey. -/
theorem key_of_create {p : ScaffoldProps} (h : create p = .ok s) :
  s.key = p.key ∧ s.editor.survey.key = p.key
  := by
  obtain ⟨e, hbare, hcreate⟩ := exists_create_bare p
  rw [h] at hcreate
  cases hcreate
  exact ⟨rfl, hbare.2.key_eq⟩

/-! ### The file of a survey -/

/-- In every study that has the survey, it is planned under its own key. -/
def FiledByKey (s : Scaffold) : Prop :=
  ∀ (t : Study) (o : ExportOptions) (p : ExportPlan), t.plan o = .ok p → s.definition ∈ t.surveys →
    o.file "surveys" (s.editor.survey.key ++ ".json") s.editor.survey.toJson ∈ p.files

/-- A survey is planned under its own key if and only if this is the key of the scaffold. -/
theorem Reachable.filedByKey_iff (h : s.Reachable) :
  s.FiledByKey ↔ s.editor.survey.key = s.key
  := by
  constructor
  · intro hfiled
    obtain ⟨p, hp, hfiles⟩ := Study.exists_plan_of_scaffold
      (s := { key := "", surveys := [s.definition] }) (o := {}) h rfl
    have hmem := hfiled _ _ p hp List.mem_cons_self
    rw [hfiles] at hmem
    have hfile := List.mem_singleton.mp hmem
    have hname := Path.join_injective (by decide) (congrArg PlannedFile.path hfile)
    exact (String.append_left_inj ".json").mp hname
  · intro hkey t o p hp hs
    obtain ⟨-, files, hfiles, hp⟩ := Study.of_plan hp
    obtain ⟨_, hfile, survey, hsurvey, rfl⟩ := Study.exists_fileOf_of_mem hfiles hs
    obtain rfl : s.editor.survey = survey := Except.ok.inj (h.checked.2.symm.trans hsurvey)
    rw [hp, hkey]
    exact List.mem_append_left _ hfile

/-! ### Items that are added to a scaffold -/

/-- Items are added to the root of the survey. -/
structure AddsToRoot (s : Scaffold) : Prop where
  /-- An item is added if it may stand in the root. -/
  accepts : ∀ x draw, x.checkPlace s.editor.survey.key s.editor.survey.keys = .ok () →
    ∃ s', s.serve (.addItem x false draw) = some (.ok .done, s')
  /-- An item that may not stand in the root is refused, and nothing changes. -/
  rejects : ∀ x pageBreak draw err,
    x.checkPlace s.editor.survey.key s.editor.survey.keys = .error err →
      s.serve (.addItem x pageBreak draw) = some (.error err, s)
  /-- An item that is added stands at the end of the root, in front of the page break that is asked
  for.  That has the first of the drawn keys that is free when the item has been added. -/
  appends : ∀ x pageBreak draw a s', s.serve (.addItem x pageBreak draw) = some (.ok a, s') →
    ∃ n, s'.editor.survey = s.editor.survey.append
        (x :: if pageBreak then [.pageBreak s.editor.survey.key (pageBreakName (draw n))] else [])
      ∧ (pageBreak = true → IsLeast {m | Key.child s.editor.survey.key (pageBreakName (draw m))
        ∉ (s.editor.survey.append [x]).keys} n)

/-- An item is added to the root of the survey if it may stand there, and then stands at the end. -/
theorem serve_addTo_key {t : NodeTree} (ht : s.editor.Laid t) (x : Item) :
  (∃ err, x.checkPlace s.editor.survey.key s.editor.survey.keys = .error err
      ∧ s.serve (.addTo x s.editor.survey.key) = some (.error err, s))
    ∨ x.checkPlace s.editor.survey.key s.editor.survey.keys = .ok ()
      ∧ ∃ s', s.serve (.addTo x s.editor.survey.key) = some (.ok .done, s') ∧ s'.key = s.key
        ∧ (∃ t', s'.editor.Laid t') ∧ s'.editor.survey = s.editor.survey.append [x]
  := by
  have hagrees := ht.serve (.addExisting x s.editor.survey.key none)
  rw [Survey.respond, Survey.addExisting_key ht.survey_nodup] at hagrees
  rw [serve_addTo, added]
  cases hcheck : x.checkPlace s.editor.survey.key s.editor.survey.keys with
  | error err =>
    left
    rw [hcheck] at hagrees
    obtain ⟨_, hserve, ⟨⟩⟩ | ⟨_, _, _, _, _, ⟨⟩⟩ := hagrees.cases
    use err, rfl
    rw [hserve]
    rfl
  | ok _ =>
    right
    rw [hcheck] at hagrees
    obtain ⟨e', t', ht', hserve, hsurvey⟩ := hagrees.of_ok
    refine ⟨rfl, { s with editor := e' }, ?_, rfl, ⟨t', ht'⟩, hsurvey⟩
    rw [hserve]
    rfl

/-- An item that is added to the root of the survey stands at its end. -/
theorem survey_of_addTo_key {t : NodeTree} (ht : s.editor.Laid t) {x : Item} {a : Editor.Answer}
    (h : s.serve (.addTo x s.editor.survey.key) = some (.ok a, s')) :
  s'.key = s.key ∧ (∃ t', s'.editor.Laid t') ∧ s'.editor.survey = s.editor.survey.append [x]
  := by
  obtain ⟨err, -, hrefused⟩ | ⟨-, s'', hadded, hs''⟩ := serve_addTo_key ht x
  · rw [h] at hrefused
    cases hrefused
  · rw [h] at hadded
    cases hadded
    exact hs''

/-- The draws that give a free key are those whose key no item of the survey has. -/
theorem freeDraws_zero {t : NodeTree} (ht : s.editor.Laid t) (draw : Nat → String) :
  s.freeDraws draw 0 = {m | Key.child s.key (pageBreakName (draw m)) ∉ s.editor.survey.keys}
  := by
  ext m
  have hfree : s.editor.contains (s.pageBreakOf (draw m)).key = false
      ↔ Key.child s.key (pageBreakName (draw m)) ∉ s.editor.survey.keys := by
    rw [ht.contains_eq, ← Bool.not_eq_true, Survey.contains_eq_true_iff]
    rfl
  constructor
  · rintro ⟨-, hm⟩
    exact hfree.mp hm
  · intro hm
    exact ⟨Nat.zero_le m, hfree.mpr hm⟩

/-- Nothing is added if no item has the key of the scaffold, or none that is a group. -/
theorem serve_addItem_of_parentNode {err : EditError}
    (h : s.editor.parentNode (some s.key) = .error err) (x : Item) (pageBreak : Bool)
    (draw : Nat → String) :
  s.serve (.addItem x pageBreak draw) = some (.error err, s)
  := by
  have hexisting : (Editor.addExisting x s.key none).run s.editor = (.error err, s.editor) := by
    rw [Editor.addExisting, run_bind_of_ok (run_get s.editor), h]
    exact run_bind_of_error (run_liftM _ s.editor)
  rw [serve_addItem, serve_addTo, added, Editor.serve, Editor.respond, run_map, hexisting]
  rfl

/-- Items are added to the root of the survey if it has the key of the scaffold. -/
theorem Reachable.addsToRoot (h : s.Reachable) (hkey : s.editor.survey.key = s.key) :
  s.AddsToRoot
  := by
  obtain ⟨t, ht⟩ := h.editor_reachable.laid
  constructor
  · intro x draw hcheck
    obtain ⟨err, herr, -⟩ | ⟨-, s', hadded, -⟩ := serve_addTo_key ht x
    · rw [hcheck] at herr
      cases herr
    · use s'
      rw [hkey] at hadded
      rw [serve_addItem, hadded]
      rfl
  · intro x pageBreak draw err hcheck
    obtain ⟨err', herr, hrefused⟩ | ⟨hok, -⟩ := serve_addTo_key ht x
    · rw [hcheck] at herr
      cases herr
      rw [hkey] at hrefused
      rw [serve_addItem, hrefused]
      rfl
    · rw [hcheck] at hok
      cases hok
  · intro x pageBreak draw a s' hserve
    rw [serve_addItem, ← hkey] at hserve
    obtain ⟨⟨err | _, s''⟩, hadded, hserve⟩ := Option.bind_eq_some_iff.mp hserve
    · cases hserve
    obtain ⟨hkey'', ⟨t'', ht''⟩, hsurvey⟩ := survey_of_addTo_key ht hadded
    cases pageBreak with
    | false =>
      cases hserve
      use 0, hsurvey, nofun
    | true =>
      have hroot : s''.editor.survey.key = s''.key := by
        rw [hsurvey, Survey.key_append, hkey, hkey'']
      simp only [if_true] at hserve
      rw [serve_addPageBreak] at hserve
      obtain ⟨y, hfree, hbreak⟩ := Option.bind_eq_some_iff.mp hserve
      obtain ⟨n, hleast, rfl⟩ := freePageBreakFrom_eq_some_iff.mp hfree
      rw [← hroot] at hbreak
      obtain ⟨-, -, hsurvey'⟩ := survey_of_addTo_key ht'' hbreak
      rw [freeDraws_zero ht'', hsurvey, hkey'', ← hkey] at hleast
      use n
      rw [hsurvey', hsurvey, Survey.append_append, pageBreakOf, hkey'', ← hkey]
      exact ⟨rfl, fun _ => hleast⟩

/-- After any steps a scaffold has the key that it was started with, its survey is finished as it
stands, and the survey has the key to which the root was renamed last.  The survey is planned under
its own key if and only if the two keys are the same, and then items are added to its root. -/
theorem key_of_run (p : ScaffoldProps) {start : Scaffold} {steps : List Step}
    (hcreate : create p = .ok start) (hrun : Run start steps s) :
  s.key = p.key ∧ s.finish = .ok s.editor.survey ∧ s.editor.survey.key = keyAfter p.key steps
    ∧ (s.FiledByKey ↔ keyAfter p.key steps = p.key)
    ∧ (keyAfter p.key steps = p.key → s.AddsToRoot)
  := by
  obtain ⟨hkey, hroot⟩ := key_of_create hcreate
  obtain ⟨hreachable, hkey', hroot'⟩ := hrun.key_eq (.created hcreate)
  rw [hkey] at hkey'
  rw [hroot] at hroot'
  refine ⟨hkey', hreachable.checked.2, hroot', ?_, ?_⟩
  · rw [hreachable.filedByKey_iff, hroot', hkey']
  · intro hsame
    apply hreachable.addsToRoot
    rw [hroot', hkey', hsame]

/-- A scaffold whose root has been renamed, and then given its key back. -/
theorem key_of_renamed_back :
  let q : Item := .single { head := { key := "intake.q" } }
  let start : Scaffold := ⟨"intake", ((prepare { key := "intake" }).run Editor.new).2⟩
  let s₁ := (start.added q "intake").added (.pageBreak "intake" "PB_0000") "intake"
  let s₂ : Scaffold := { s₁ with editor := (s₁.editor.serve (.rename "intake" "other" .follow)).2 }
  let s₃ : Scaffold := { s₂ with editor := (s₂.editor.serve (.rename "other" "intake" .follow)).2 }
  start.serve (.addItem q true fun _ => "0000") = some (.ok .done, s₁)
    ∧ s₂.editor.survey.key = "other" ∧ ¬ s₂.FiledByKey
    ∧ s₃.editor.survey.key = "intake" ∧ s₃.FiledByKey ∧ s₃.AddsToRoot
    ∧ s₃.editor.survey.keys = ["intake", "intake.q", "intake.PB_0000"]
  := by
  intro q start s₁ s₂ s₃
  have hcreate : create { key := "intake" } = .ok start := rfl
  have hadded : start.serve (.addItem q true fun _ => "0000") = some (.ok .done, s₁) := by
    rw [serve_addItem, serve_addTo_of_answered (by decide)]
    change (start.added q "intake").serve (.addPageBreak _) = _
    rw [serve_addPageBreak, freePageBreakFrom_of_free (by decide)]
    exact serve_addTo_of_answered (by decide)
  have hback : Run s₂ _ s₃ := .served (serve_edit s₂ _) (.done s₃)
  obtain ⟨-, -, hroot₂, hfiled₂, -⟩ := key_of_run { key := "intake" } hcreate
    (.served hadded (.served (serve_edit s₁ _) (.done s₂)))
  obtain ⟨-, -, hroot₃, hfiled₃, hadds₃⟩ := key_of_run { key := "intake" } hcreate
    (.served hadded (.served (serve_edit s₁ _) hback))
  refine ⟨hadded, hroot₂.trans (by decide), ?_, hroot₃.trans (by decide), hfiled₃.mpr (by decide),
    hadds₃ (by decide), by decide⟩
  rw [hfiled₂]
  decide

/-- A scaffold whose root has been renamed: its survey is planned under the old key, and takes no
more items. -/
theorem key_of_renamed_root :
  let start : Scaffold := ⟨"intake", ((prepare { key := "intake" }).run Editor.new).2⟩
  let rename : Editor.Request := .rename "intake" "other" .follow
  let s : Scaffold := { start with editor := (start.editor.serve rename).2 }
  let q : Item := .single { head := { key := "other.q" } }
  create { key := "intake" } = .ok start
    ∧ start.serve (.edit rename) = some ((start.editor.serve rename).1, s)
    ∧ s.finish = .ok s.editor.survey ∧ s.key = "intake" ∧ s.editor.survey.key = "other"
    ∧ (∃ p, Study.plan { key := "x", surveys := [s.definition] } {} = .ok p
      ∧ p.files.map (·.path) = ["surveys/intake.json"])
    ∧ s.serve (.addItem q false fun _ => "0000") = some (.error (.parentNotFound "intake"), s)
  := by
  intro start rename s q
  have hcreate : create { key := "intake" } = .ok start := rfl
  have hrenamed := start.serve_edit rename
  have hreachable : s.Reachable := (Reachable.created hcreate).served hrenamed
  obtain ⟨p, hp, hfiles⟩ := Study.exists_plan_of_scaffold
    (s := { key := "x", surveys := [s.definition] }) (o := {}) hreachable rfl
  have hmissing : s.editor.parentNode (some s.key) = .error (.parentNotFound "intake") := by decide
  refine ⟨hcreate, hrenamed, hreachable.checked.2, rfl, by decide, ⟨p, hp, ?_⟩,
    serve_addItem_of_parentNode hmissing q false _⟩
  rw [hfiles]
  decide

end Scaffold

end Questionnaire
