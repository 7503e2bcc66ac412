import Mathlib.Data.List.Forall2
import Questionnaire.Proofs.Editor.Open
import Questionnaire.Proofs.Survey.Duplicates

/-!
# Sweeps and opening

The sweep of a whole survey looks only for keys that come twice among the items of one group.  This
is enough: if the survey has a key and each item is keyed one segment below its group, a key that
comes twice anywhere comes twice in one group.  So the sweep reports nothing exactly when an editor
opens the survey.
-/

namespace Questionnaire.Survey

/-- A survey can be opened if and only if it is well keyed. -/
theorem exists_ofSurvey_iff {s : Survey} :
  (∃ e, Editor.ofSurvey s = .ok e) ↔ s.WellKeyed
  := by
  rw [← checkKeys_eq_ok_iff]
  obtain ⟨err, hopen, hcheck⟩ | ⟨e, t, -, hopen, hcheck, -⟩ := Editor.ofSurvey_cases s
  · rw [hopen, hcheck]
    simp
  · rw [hopen, hcheck]
    simp

/-- The sweep of the root reports the repetitions among its items.  The sweep of the whole survey
adds the report of each group below the root, depth first; and if the survey has a key and each item
of a group is keyed one segment below the group, it reports nothing if and only if the survey can be
opened. -/
theorem duplicates_eq_reports (s : Survey) :
  s.root.IsReport s.rootDuplicates
    ∧ (∃ reports, List.Forall₂ Group.IsReport (s.root.items.flatMap Item.groups) reports
      ∧ s.duplicates = s.rootDuplicates ++ reports.flatten)
    ∧ (s.key ≠ "" → (∀ g, s.HasGroup g → ∀ x ∈ g.items, Key.parent x.key = g.key)
      → (s.duplicates = [] ↔ ∃ e, Editor.ofSurvey s = .ok e))
  := by
  refine ⟨s.root.isReport_sweep, ?_, ?_⟩
  · use (s.root.items.flatMap Item.groups).map Group.sweep
    constructor
    · rw [List.forall₂_map_right_iff, List.forall₂_same]
      intro g _
      apply g.isReport_sweep
    · rw [duplicates_eq, groups, Item.groups_group, List.flatMap_cons, ← List.flatMap_def]
      rfl
  · intro hne hnested
    rw [duplicates_eq_nil_iff, exists_ofSurvey_iff, wellKeyed_iff_distinctKeys hne hnested]

/-- A survey whose only group has a question twice is keyed as it should be otherwise.  One
repetition is reported, and the survey cannot be opened. -/
theorem duplicates_of_question_twice :
  let s : Survey := { root := { head := { key := "s" }, selectionMethod := none, items := [
    .group { head := { key := "s.g" }, selectionMethod := none, items := [
      .single { head := { key := "s.g.q" } }, .single { head := { key := "s.g.q" } }] }] } }
  s.duplicates = [⟨"s.g.q", "s.g", 0, 1⟩] ∧ ¬ ∃ e, Editor.ofSurvey s = .ok e
  := by
  intro s
  have hnested : ∀ g, s.HasGroup g → ∀ x ∈ g.items, Key.parent x.key = g.key := by
    intro g hg
    simp only [HasGroup, s, Item.subtree_group, Item.subtree_single, List.flatMap_cons,
      List.flatMap_nil, List.append_nil, List.mem_cons, List.mem_append, List.not_mem_nil, or_false,
      Item.group.injEq, reduceCtorEq] at hg
    rcases hg with rfl | rfl
    · decide
    · decide
  have hreport : s.duplicates = [⟨"s.g.q", "s.g", 0, 1⟩] := by decide
  use hreport
  rw [← (duplicates_eq_reports s).2.2 (by decide) hnested, hreport]
  apply List.cons_ne_nil

end Questionnaire.Survey
