import Mathlib.Data.List.Forall2
import Questionnaire.Export.Plan
import Questionnaire.Proofs.Study.Scaffold

/-!
# Plans of studies

A study can be planned if and only if each of its surveys can be built, and the plan then has a file
for each (`Study.plan_eq_ok_iff`).

For documents and scaffolds this means that in each of the surveys the items of the root have
different keys.  The plan then has the surveys as they stand, and otherwise the first survey that
cannot be finished is reported.  Deeper groups are not swept: those of a scaffold need not be, but a
document may have items with the same key in a group below the root.
-/

namespace Questionnaire

namespace Study

variable {s : Study} {o : ExportOptions} {p : ExportPlan}

/-! ### Surveys that are built -/

/-- The file of the survey that a definition gives. -/
def FileOf (o : ExportOptions) (definition : SurveyDefinition) (file : PlannedFile) : Prop :=
  ∃ survey, definition.survey = .ok survey ∧ surveyFile o definition.key survey = file

/-- The files of the surveys are made if every survey can be built. -/
theorem surveyFiles_eq_ok_iff {definitions : List SurveyDefinition} {files : List PlannedFile} :
  surveyFiles o definitions = .ok files ↔ List.Forall₂ (FileOf o) definitions files
  := by
  induction definitions generalizing files with
  | nil =>
    rw [surveyFiles, List.forall₂_nil_left_iff]
    constructor
    · rintro ⟨⟩
      rfl
    · rintro rfl
      rfl
  | cons definition definitions ih =>
    rw [surveyFiles, List.forall₂_cons_left_iff]
    constructor
    · intro hok
      obtain ⟨survey, hsurvey, hok⟩ := exists_of_bind_eq_ok hok
      obtain ⟨rest, hrest, hok⟩ := exists_of_bind_eq_ok hok
      cases hok
      exact ⟨_, rest, ⟨survey, hsurvey, rfl⟩, ih.mp hrest, rfl⟩
    · rintro ⟨_, rest, ⟨survey, hsurvey, rfl⟩, hrest, rfl⟩
      rw [hsurvey, ih.mpr hrest]
      rfl

theorem exists_fileOf_of_mem {definitions : List SurveyDefinition} {files : List PlannedFile}
    (h : List.Forall₂ (FileOf o) definitions files) {definition : SurveyDefinition}
    (hmem : definition ∈ definitions) :
  ∃ file ∈ files, FileOf o definition file
  := by
  induction h with
  | nil => cases hmem
  | @cons _ file _ _ hfile _ ih =>
    rcases List.mem_cons.mp hmem with rfl | hmem
    · exact ⟨file, List.mem_cons_self, hfile⟩
    · obtain ⟨file, hmem, hfile⟩ := ih hmem
      exact ⟨file, List.mem_cons_of_mem _ hmem, hfile⟩

/-- The files that are planned besides those of the surveys. -/
def otherFiles (o : ExportOptions) (s : Study) : List PlannedFile :=
  s.ruleFiles o ++ s.customRuleFiles o ++ s.messageFiles o

/-- A study is planned if every survey can be built. -/
theorem plan_eq_ok_iff :
  s.plan o = .ok p ↔ ∃ files, List.Forall₂ (FileOf o) s.surveys files
    ∧ { root := o.root.getD s.defaultRoot, directories := s.directories,
        files := files ++ s.otherFiles o } = p
  := by
  rw [plan, otherFiles]
  constructor
  · intro hok
    obtain ⟨files, hfiles, hok⟩ := exists_of_bind_eq_ok hok
    cases hok
    use files, surveyFiles_eq_ok_iff.mp hfiles
    simp only [List.append_assoc]
  · rintro ⟨files, hfiles, rfl⟩
    rw [surveyFiles_eq_ok_iff.mpr hfiles]
    simp only [← List.append_assoc]
    rfl

/-- What a plan is made of. -/
theorem of_plan (h : s.plan o = .ok p) :
  p.directories = s.directories
    ∧ ∃ files, List.Forall₂ (FileOf o) s.surveys files ∧ p.files = files ++ s.otherFiles o
  := by
  obtain ⟨files, hfiles, rfl⟩ := plan_eq_ok_iff.mp h
  exact ⟨rfl, files, hfiles, rfl⟩

/-- A study with a single survey, that of a scaffold, is planned. -/
theorem exists_plan_of_scaffold {c : Scaffold} (hc : c.Reachable)
    (hs : s.surveys = [c.definition]) :
  ∃ p, s.plan o = .ok p ∧ p.files = surveyFile o c.key c.editor.survey :: s.otherFiles o
  := by
  have hfile : FileOf o c.definition (surveyFile o c.key c.editor.survey) := ⟨_, hc.checked.2, rfl⟩
  refine ⟨_, plan_eq_ok_iff.mpr ⟨[surveyFile o c.key c.editor.survey], ?_, rfl⟩, rfl⟩
  rw [hs]
  exact .cons hfile .nil

end Study

/-! ### Documents and scaffolds -/

/-- A survey that is given to a study as a document or as a scaffold. -/
inductive SurveySource where
  | document (s : Survey)
  | scaffold (s : Scaffold)

namespace SurveySource

/-- What the document or the scaffold gives the study. -/
def definition : SurveySource → SurveyDefinition
  | .document s => s.definition
  | .scaffold s => s.definition

/-- The survey, finished or not. -/
def survey : SurveySource → Survey
  | .document s => s
  | .scaffold s => s.editor.survey

theorem survey_definition (source : SurveySource) :
  source.definition.survey = source.survey.checked
  := by
  cases source with
  | document s => rfl
  | scaffold s => rfl

end SurveySource

namespace Study

variable {s : Study} {sources : List SurveySource} {o : ExportOptions} {p : ExportPlan}

/-- The file of the survey as it stands. -/
def sourceFile (o : ExportOptions) (source : SurveySource) : PlannedFile :=
  surveyFile o source.definition.key source.survey

/-- The first survey of which two items of the root have the same key. -/
def firstAmbiguous? (sources : List SurveySource) : Option SurveySource :=
  sources.find? fun source => ¬ source.survey.root.DistinctKeys

/-- The files of the surveys are made if there is no such survey. -/
theorem surveyFiles_eq (o : ExportOptions) (sources : List SurveySource) :
  surveyFiles o (sources.map (·.definition)) =
    match firstAmbiguous? sources with
    | some source => .error (.duplicateKeys source.survey.key source.survey.rootDuplicates)
    | none => .ok (sources.map (sourceFile o))
  := by
  induction sources with
  | nil => rfl
  | cons source sources ih =>
    rw [List.map_cons, surveyFiles, source.survey_definition, ih, firstAmbiguous?, firstAmbiguous?,
      List.find?_cons]
    obtain ⟨hdistinct, hchecked⟩ | ⟨hdistinct, hchecked⟩ := source.survey.checked_cases
    · rw [hchecked]
      simp only [hdistinct, not_true_eq_false, decide_false]
      cases sources.find? fun source => ¬ source.survey.root.DistinctKeys with
      | none => rfl
      | some source => rfl
    · rw [hchecked]
      simp only [hdistinct, not_false_eq_true, decide_true]
      rfl

/-- A study of documents and scaffolds is planned if there is no such survey. -/
theorem plan_eq (hs : s.surveys = sources.map (·.definition)) (o : ExportOptions) :
  s.plan o =
    match firstAmbiguous? sources with
    | some source => .error (.duplicateKeys source.survey.key source.survey.rootDuplicates)
    | none => .ok {
        root := o.root.getD s.defaultRoot
        directories := s.directories
        files := sources.map (sourceFile o) ++ s.otherFiles o }
  := by
  rw [plan, hs, surveyFiles_eq, otherFiles, ← List.append_assoc, ← List.append_assoc]
  cases firstAmbiguous? sources with
  | none => rfl
  | some source => rfl

theorem firstAmbiguous?_eq_none_iff :
  firstAmbiguous? sources = none ↔ ∀ source ∈ sources, source.survey.root.DistinctKeys
  := by
  rw [firstAmbiguous?, List.find?_eq_none]
  simp

/-- A bundle is planned if in each of its surveys the items of the root have different keys. -/
theorem exists_plan_of_bundle {b : Bundle} (h : ∀ s ∈ b.surveys, s.root.DistinctKeys) :
  ∃ p, b.toStudy.plan o = .ok p
  := by
  have hs : b.toStudy.surveys = (b.surveys.map SurveySource.document).map (·.definition) := by
    rw [List.map_map]
    rfl
  rw [plan_eq hs, firstAmbiguous?_eq_none_iff.mpr (List.forall_mem_map.mpr h)]
  exact ⟨_, rfl⟩

/-- The surveys of a plan are those of the study.  In each of them the items of the root have
different keys, and in those that come from scaffolds, the items of every group.  If two items of
the root of a survey have the same key, there is no plan, and the first such survey is reported. -/
theorem distinctKeys_of_plan (s : Study) (o : ExportOptions) (sources : List SurveySource)
    (hs : s.surveys = sources.map (·.definition)) :
  (∀ plan, s.plan o = .ok plan →
      plan.files = sources.map (sourceFile o) ++ s.otherFiles o
        ∧ (∀ source ∈ sources, source.survey.root.DistinctKeys)
        ∧ ∀ scaffold : Scaffold, .scaffold scaffold ∈ sources → scaffold.Reachable →
          ∀ g, scaffold.editor.survey.HasGroup g → g.DistinctKeys)
    ∧ ((∃ source ∈ sources, ¬ source.survey.root.DistinctKeys) →
      ∃ source, firstAmbiguous? sources = some source
        ∧ s.plan o = .error (.duplicateKeys source.survey.key source.survey.rootDuplicates))
  := by
  rw [plan_eq hs]
  cases hfirst : firstAmbiguous? sources with
  | none =>
    rw [firstAmbiguous?_eq_none_iff] at hfirst
    constructor
    · rintro _ ⟨⟩
      refine ⟨rfl, hfirst, ?_⟩
      intro scaffold _ hreachable g hg
      apply Survey.distinctKeys_of_nodup hreachable.checked.1 hg
    · rintro ⟨source, hsource, hambiguous⟩
      exfalso
      apply hambiguous (hfirst source hsource)
  | some source =>
    constructor
    · rintro _ ⟨⟩
    · intro _
      exact ⟨source, rfl, rfl⟩

/-- A scaffold with a group is planned, and not together with a document whose root has two items
with the same key. -/
theorem plan_of_scaffold :
  let start : Scaffold := ⟨"intake", ((Scaffold.prepare { key := "intake" }).run Editor.new).2⟩
  let add : Editor.Request := .add { isGroup := true } "g" none none
  let s : Scaffold := { start with editor := (start.editor.serve add).2 }
  let q : Item := .single { head := { key := "s.q" } }
  let d : Survey := { root := { head := { key := "s" }, selectionMethod := none, items := [q, q] } }
  (∃ p, Study.plan { key := "x", surveys := [s.definition] } {} = .ok p
      ∧ p.files = [surveyFile {} "intake" s.editor.survey])
    ∧ (∀ g, s.editor.survey.HasGroup g → g.DistinctKeys)
    ∧ Study.plan { key := "x", surveys := [s.definition, d.definition] } {}
      = .error (.duplicateKeys "s" [⟨"s.q", "s", 0, 1⟩])
  := by
  intro start add s q d
  have hcreated : Scaffold.create { key := "intake" } = .ok start := rfl
  have hserve : start.serve (.edit add) = some ((start.editor.serve add).1, s) := rfl
  have hreachable : s.Reachable := (Scaffold.Reachable.created hcreated).served hserve
  have hroot : s.editor.survey.root.DistinctKeys := by decide
  obtain ⟨p, hp, -⟩ := exists_plan_of_scaffold (s := { key := "x", surveys := [s.definition] })
    (o := {}) hreachable rfl
  obtain ⟨hfiles, -, hdistinct⟩ := (distinctKeys_of_plan _ _ [.scaffold s] rfl).1 p hp
  refine ⟨⟨p, hp, hfiles⟩, ?_, ?_⟩
  · apply hdistinct s List.mem_cons_self hreachable
  · obtain ⟨source, hfirst, hp⟩ := (distinctKeys_of_plan
      { key := "x", surveys := [s.definition, d.definition] } {} [.scaffold s, .document d] rfl).2
        ⟨.document d, by simp, by decide⟩
    rw [firstAmbiguous?, List.find?_cons] at hfirst
    simp only [SurveySource.survey, hroot, not_true_eq_false, decide_false] at hfirst
    cases hfirst
    exact hp

/-- A document is planned though a group below its root has two items with the same key. -/
theorem plan_of_ambiguous_group :
  let q : Item := .single { head := { key := "s.g.q" } }
  let g : Group := { head := { key := "s.g" }, selectionMethod := none, items := [q, q] }
  let s : Survey :=
    { root := { head := { key := "s" }, selectionMethod := none, items := [.group g] } }
  (∃ p, Study.plan (Bundle.toStudy { key := "x", surveys := [s] }) {} = .ok p
      ∧ p.files = [surveyFile {} "s" s])
    ∧ s.HasGroup g ∧ ¬ g.DistinctKeys
  := by
  intro q g s
  refine ⟨⟨_, rfl, rfl⟩, ?_, by decide⟩
  rw [Survey.HasGroup, Item.subtree_group, List.flatMap_singleton]
  apply List.mem_cons_of_mem
  apply Item.mem_subtree_self

end Study

end Questionnaire
