import Mathlib.Data.List.Nodup
import Mathlib.Data.Prod.Basic
import Mathlib.Logic.Function.Basic
import Questionnaire.Proofs.Export.Folders
import Questionnaire.Proofs.Export.Run

/-!
# Files that are planned for the same path

Nothing compares the names of planned files.  Two of them have the same path if and only if their
names lead to the same file from one directory or are the same absolute path (`nodup_paths_iff`).
In a study whose texts have no slash, this is so if two surveys have the same key, two custom rules
the same name, or two messages labels that are the same in lower case and with underscores for
spaces (`SlashFree.namesApart_iff`).

A sink that never fails keeps for each path the last text that is written to it.  After a plan is
written to such a sink, each path holds the contents of one of the files planned for it
(`exists_keep_eq`), and every file is reported as written, also those that are overwritten.
-/

namespace Questionnaire

/-! ### Names that lead to different files -/

namespace Path

/-- The names lead to different files from every directory. -/
def Apart (name name' : String) : Prop :=
  ¬ (isAbsolute name = isAbsolute name' ∧ parts name = parts name')

/-- Single names lead to different files if they differ. -/
theorem IsName.apart_iff {name name' : String} (h : IsName name) (h' : IsName name') :
  Apart name name' ↔ name ≠ name'
  := by
  rw [Apart, h.isAbsolute_eq, h'.isAbsolute_eq, h.parts_eq, h'.parts_eq]
  simp

/-- Files in one directory, and files with absolute names, have the same path if their names are not
apart; other files have different paths. -/
theorem components_join_ne_iff {directory directory' : Path} (h : IsName directory)
    (h' : IsName directory') (name name' : String) :
  components (join directory name) ≠ components (join directory' name')
    ↔ (directory = directory' ∨ isAbsolute name = true ∧ isAbsolute name' = true →
      Apart name name')
  := by
  have hne {directory : Path} (h : IsName directory) : directory ≠ "/" := by
    rintro rfl
    apply h.slash_notMem
    decide
  have hne' := hne h'
  have hne := hne h
  rw [h.components_join_eq, h'.components_join_eq, ne_eq, List.cons.injEq, Apart]
  cases isAbsolute name with
  | false => cases isAbsolute name' with
    | false => simp
    | true => simp [hne]
  | true => cases isAbsolute name' with
    | false => simp [hne'.symm]
    | true => simp

end Path

namespace Study

variable {s : Study} {o : ExportOptions} {p : ExportPlan}

/-- Names that are seen from one directory, or are absolute, lead to different files. -/
def NamesApart (s : Study) : Prop :=
  s.namedFiles.Pairwise fun named named' =>
    named.1 = named'.1 ∨ Path.isAbsolute named.2 = true ∧ Path.isAbsolute named'.2 = true →
      Path.Apart named.2 named'.2

/-- The components of the paths of a plan, the rules first. -/
theorem components_perm (h : s.plan o = .ok p) :
  (p.files.map fun file => file.path.components).Perm
    (s.rules.toList.map (fun _ => ["studyRules.json"])
      ++ s.namedFiles.map fun named => (Path.join named.1 named.2).components)
  := by
  have hpaths : (p.files.map fun file => file.path.components)
      = (p.files.map (·.path)).map Path.components := by
    rw [List.map_map]
    rfl
  rw [hpaths, paths_of_plan h, namedFiles]
  simp only [List.map_append, List.map_map, Function.comp_def, isName_rules.components_eq,
    List.append_assoc]
  apply List.perm_append_comm_assoc

/-- The path of the rules is that of no file with a name. -/
theorem components_ne_rules (h : s.plan o = .ok p) {named : Path × String}
    (hnamed : named ∈ s.namedFiles) :
  ["studyRules.json"] ≠ (Path.join named.1 named.2).components
  := by
  obtain ⟨hfolder, hne⟩ := isName_of_plan h (fst_mem_directories h hnamed)
  rw [hfolder.components_join_eq, ne_eq, List.cons.injEq]
  rintro ⟨hhead, -⟩
  split at hhead
  · exact absurd hhead (by decide)
  · apply hne hhead.symm

/-- The paths of a plan differ if and only if the names of its files do. -/
theorem nodup_paths_iff (h : s.plan o = .ok p) :
  (p.files.map fun file => file.path.components).Nodup ↔ s.NamesApart
  := by
  have hnamed : (s.namedFiles.map fun named => (Path.join named.1 named.2).components).Nodup
      ↔ s.NamesApart := by
    rw [List.Nodup, List.pairwise_map, NamesApart]
    apply List.Pairwise.iff_of_mem
    intro named named' hnamed hnamed'
    apply Path.components_join_ne_iff
    · exact (isName_of_plan h (fst_mem_directories h hnamed)).1
    · exact (isName_of_plan h (fst_mem_directories h hnamed')).1
  rw [(components_perm h).nodup_iff, List.nodup_append, hnamed]
  constructor
  · rintro ⟨-, hapart, -⟩
    exact hapart
  · intro hapart
    refine ⟨?_, hapart, ?_⟩
    · cases s.rules with
      | none => exact List.nodup_nil
      | some rules => exact List.nodup_singleton _
    · intro components hcomponents components' hcomponents'
      obtain ⟨rules, -, rfl⟩ := List.mem_map.mp hcomponents
      obtain ⟨named, hnamed, rfl⟩ := List.mem_map.mp hcomponents'
      apply components_ne_rules h hnamed

/-- Texts differ if and only if they do so with an extension. -/
theorem nodup_map_extension_iff (texts : List String) :
  (texts.map (· ++ ".json")).Nodup ↔ texts.Nodup
  := by
  rw [List.nodup_map_iff]
  intro text text' heq
  exact (String.append_left_inj ".json").mp heq

theorem surveyNames_nodup_iff (s : Study) :
  s.surveyNames.Nodup ↔ (s.surveys.map (·.key)).Nodup
  := by
  rw [← nodup_map_extension_iff (s.surveys.map (·.key)), List.map_map]
  rfl

theorem customRuleNames_nodup_iff (s : Study) :
  s.customRuleNames.Nodup ↔ (s.customRules.map (·.name)).Nodup
  := by
  rw [← nodup_map_extension_iff (s.customRules.map (·.name)), List.map_map]
  rfl

/-- Without slashes, names lead to different files if they differ among those of one directory. -/
theorem SlashFree.namesApart_iff (h : s.SlashFree) :
  s.NamesApart ↔ (s.surveys.map (·.key)).Nodup ∧ (s.customRules.map (·.name)).Nodup
    ∧ s.messageNames.Nodup
  := by
  have hnodup : s.NamesApart ↔ s.namedFiles.Nodup := by
    apply List.Pairwise.iff_of_mem
    rintro ⟨directory, name⟩ ⟨directory', name'⟩ hnamed hnamed'
    have hname := h.isName hnamed
    have hname' := h.isName hnamed'
    rw [hname.apart_iff hname', hname.isAbsolute_eq]
    simp
  have hcross {directory directory' : Path} (hne : directory ≠ directory')
      {names names' : List String} :
      ∀ named ∈ names.map (directory, ·), ∀ named' ∈ names'.map (directory', ·), named ≠ named' := by
    simp [hne]
  rw [hnodup, namedFiles, List.nodup_append, List.nodup_append,
    List.nodup_map_iff (Prod.mk_right_injective _), List.nodup_map_iff (Prod.mk_right_injective _),
    List.nodup_map_iff (Prod.mk_right_injective _), surveyNames_nodup_iff,
    customRuleNames_nodup_iff]
  constructor
  · rintro ⟨⟨hsurveys, hcustomRules, -⟩, hmessages, -⟩
    exact ⟨hsurveys, hcustomRules, hmessages⟩
  · rintro ⟨hsurveys, hcustomRules, hmessages⟩
    refine ⟨⟨hsurveys, hcustomRules, hcross (by decide)⟩, hmessages, ?_⟩
    intro named hnamed named' hnamed'
    rcases List.mem_append.mp hnamed with hnamed | hnamed
    · apply hcross (by decide) named hnamed named' hnamed'
    · apply hcross (by decide) named hnamed named' hnamed'

end Study

/-! ### A sink that never fails -/

/-- The last texts that were written to files, under the components of their paths. -/
abbrev Contents := List String → Option String

namespace FileSink

/-- A sink that never fails and keeps the last text that is written to each path. -/
def keeping : FileSink (StateM Contents) where
  createDirectory _ := return true
  writeFile path text := fun held => (true, Function.update held path.components (some text))

variable (held : Contents)

theorem run_createDirectories_keeping (paths : List Path) :
  (keeping.createDirectories paths).run held = (none, held)
  := by
  induction paths with
  | nil => rfl
  | cons path paths ih =>
    have hmade : (keeping.createDirectory path).run held = (true, held) := rfl
    rw [createDirectories, run_bind_of_run hmade]
    exact ih

/-- What is kept after files are written below a root. -/
def keep (held : Contents) (root : Path) (files : List PlannedFile) : Contents :=
  files.foldl (fun held file =>
    Function.update held (Path.join root file.path).components (some file.contents)) held

theorem run_writeFiles_keeping (root : Path) (files : List PlannedFile) :
  (keeping.writeFiles root files).run held
    = (files.map fun file => (file.path, true), keep held root files)
  := by
  induction files generalizing held with
  | nil => rfl
  | cons file files ih =>
    have hwritten : (keeping.writeFile (Path.join root file.path) file.contents).run held
        = (true, Function.update held (Path.join root file.path).components (some file.contents)) :=
      rfl
    rw [writeFiles, run_bind_of_run hwritten, run_bind_of_run (ih _)]
    rfl

/-- A path that files are written to holds the contents of one of them. -/
theorem exists_keep_eq (root : Path) {files : List PlannedFile} {file : PlannedFile}
    (hfile : file ∈ files) :
  ∃ last ∈ files, (Path.join root last.path).components = (Path.join root file.path).components
    ∧ keep held root files (Path.join root file.path).components = some last.contents
  := by
  induction files using List.reverseRecOn with
  | nil => cases hfile
  | append_singleton files last ih =>
    rw [keep, List.foldl_append, List.foldl_cons, List.foldl_nil]
    by_cases hlast : (Path.join root last.path).components = (Path.join root file.path).components
    · use last, List.mem_append_right _ (List.mem_singleton_self last), hlast
      rw [hlast, Function.update_self]
    · have hmem : file ∈ files := by
        rcases List.mem_append.mp hfile with hmem | hmem
        · exact hmem
        · exfalso
          rw [List.mem_singleton] at hmem
          apply hlast
          rw [hmem]
      obtain ⟨last', hlast', hpath, hkeep⟩ := ih hmem
      use last', List.mem_append_left _ hlast', hpath
      rw [Function.update_of_ne (Ne.symm hlast)]
      exact hkeep

end FileSink

/-! ### Plans that are written to it -/

namespace ExportPlan

/-- The path that a file of a plan is written to, as components. -/
def target (p : ExportPlan) (file : PlannedFile) : List String :=
  (Path.join p.root file.path).components

/-- A sink that never fails is reported to have written all files. -/
theorem run_keeping (p : ExportPlan) (held : Contents) :
  (p.run .keeping).run held
    = (.ok { root := p.root, written := p.files.map (·.path), failed := [] },
      FileSink.keep held p.root p.files)
  := by
  rw [run, run_bind_of_run (FileSink.run_createDirectories_keeping held p.allDirectories)]
  apply (run_bind_of_run (FileSink.run_writeFiles_keeping held p.root p.files) _).trans
  have hwritten : ((p.files.map fun file => (file.path, true)).filter (·.2)).map (·.1)
      = p.files.map (·.path) := by
    simp [List.filter_map, Function.comp_def]
  have hfailed : ((p.files.map fun file => (file.path, true)).filter (!·.2)).map (·.1) = [] := by
    simp [List.filter_map, Function.comp_def]
  change (Except.ok (ExportReport.mk _ _ _), _) = _
  rw [hwritten, hfailed]

/-- Each path holds the contents of its file if and only if files for the same path have the same
contents. -/
theorem keep_eq_iff (p : ExportPlan) (held : Contents) :
  (∀ file ∈ p.files, FileSink.keep held p.root p.files (p.target file) = some file.contents)
    ↔ ∀ file ∈ p.files, ∀ file' ∈ p.files, p.target file = p.target file' →
      file.contents = file'.contents
  := by
  constructor
  · intro hall file hfile file' hfile' htarget
    have hkeep := hall file hfile
    rw [htarget, hall file' hfile'] at hkeep
    exact (Option.some.inj hkeep).symm
  · intro hsame file hfile
    obtain ⟨last, hlast, htarget, hkeep⟩ := FileSink.exists_keep_eq held p.root hfile
    rw [← hsame last hlast file hfile htarget]
    exact hkeep

/-- A plan whose files have relative names is written below its root. -/
theorem target_eq {s : Study} {o : ExportOptions} {p : ExportPlan} (h : s.plan o = .ok p)
    (hrelative : ∀ named ∈ s.namedFiles, Path.isAbsolute named.2 = false) {file : PlannedFile}
    (hfile : file ∈ p.files) :
  p.target file = p.root.components ++ file.path.components
  := by
  have hpath := List.mem_map_of_mem (f := fun file => file.path) hfile
  obtain ⟨-, hrules⟩ | ⟨named, hnamed, hnamed'⟩ := (Study.mem_paths_iff h).mp hpath
  · rw [target, hrules]
    apply Path.components_join_of_head?_ne _ Study.isName_rules.isAbsolute_eq
      Study.isName_rules.head?_names_ne
  · have hname := hrelative named hnamed
    obtain ⟨hdirectory, -⟩ := Study.isName_of_plan h (Study.fst_mem_directories h hnamed)
    rw [target, ← hnamed']
    apply Path.components_join_of_head?_ne _ _ (hdirectory.head?_names_join_ne hname)
    rw [Path.isAbsolute_join hname, hdirectory.isAbsolute_eq]

end ExportPlan

namespace Study

/-- The paths of a plan differ if and only if the names of its files do.  When the plan is written
to a sink that never fails, all files are reported as written, and each path holds the contents of
its file if and only if files for the same path have the same contents, and so if the names differ
and are not absolute. -/
theorem kept_of_plan (s : Study) (o : ExportOptions) {p : ExportPlan} (h : s.plan o = .ok p)
    (held : Contents) :
  ((p.files.map fun file => file.path.components).Nodup ↔ s.NamesApart)
    ∧ (s.SlashFree → (s.NamesApart ↔ (s.surveys.map (·.key)).Nodup
      ∧ (s.customRules.map (·.name)).Nodup ∧ s.messageNames.Nodup))
    ∧ ∃ held', (p.run .keeping).run held
        = (.ok { root := p.root, written := p.files.map (·.path), failed := [] }, held')
      ∧ ((∀ file ∈ p.files, held' (p.target file) = some file.contents)
        ↔ ∀ file ∈ p.files, ∀ file' ∈ p.files, p.target file = p.target file' →
          file.contents = file'.contents)
      ∧ (s.NamesApart → (∀ named ∈ s.namedFiles, Path.isAbsolute named.2 = false) →
        ∀ file ∈ p.files, held' (p.target file) = some file.contents)
  := by
  refine ⟨nodup_paths_iff h, fun hfree => hfree.namesApart_iff, _, p.run_keeping held,
    p.keep_eq_iff held, ?_⟩
  intro hapart hrelative
  rw [p.keep_eq_iff held]
  intro file hfile file' hfile' htarget
  rw [ExportPlan.target_eq h hrelative hfile, ExportPlan.target_eq h hrelative hfile',
    List.append_cancel_left_eq] at htarget
  rw [List.inj_on_of_nodup_map ((nodup_paths_iff h).mpr hapart) hfile hfile' htarget]

/-- Two surveys and two messages, each of which is found in its file. -/
theorem kept_weekly_reminder :
  let m (label : String) : MessageConfig :=
    { label, messageType := "weekly", defaultLanguage := "en", texts := [] }
  let s : Study := Bundle.toStudy
    { key := "flu", surveys := [.empty "weekly", .empty "intake"],
      messages := [m "Weekly Reminder", m "Last Call"] }
  ∃ p, s.plan {} = .ok p ∧ (p.files.map fun file => file.path.components).Nodup
    ∧ ∃ held', (p.run .keeping).run (fun _ => none)
        = (.ok { root := p.root, written := p.files.map (·.path), failed := [] }, held')
      ∧ ∀ file ∈ p.files, held' (p.target file) = some file.contents
  := by
  intro m s
  obtain ⟨p, hp⟩ : ∃ p, s.plan {} = .ok p := exists_plan_of_bundle (by decide)
  have hfree : s.SlashFree := by
    constructor
    · decide
    · decide
    · decide
  obtain ⟨hnodup, hapart, held', hrun, -, hkept⟩ := kept_of_plan s {} hp fun _ => none
  have hapart : s.NamesApart := (hapart hfree).mpr (by decide +kernel)
  refine ⟨p, hp, hnodup.mpr hapart, held', hrun, hkept hapart ?_⟩
  intro named hnamed
  exact (hfree.isName hnamed).isAbsolute_eq

/-- Two messages whose labels differ are planned for the same path, and one of them is lost. -/
theorem overwritten_of_labels :
  let m (label messageType : String) : MessageConfig :=
    { label, messageType, defaultLanguage := "en", texts := [] }
  let s : Study := Bundle.toStudy
    { key := "flu", messages := [m "Weekly Reminder" "reminder", m "weekly_reminder" "letter"] }
  ∃ p, s.plan {} = .ok p
    ∧ p.files.map (·.path)
      = ["messageConfigs/weekly_reminder.json", "messageConfigs/weekly_reminder.json"]
    ∧ ¬ (p.files.map fun file => file.path.components).Nodup
    ∧ ¬ ∀ file ∈ p.files,
      ((p.run .keeping).run fun _ => none).2 (p.target file) = some file.contents
  := by
  intro m s
  obtain ⟨p, hp⟩ : ∃ p, s.plan {} = .ok p := exists_plan_of_bundle (by decide)
  have hpaths : p.files.map (·.path)
      = ["messageConfigs/weekly_reminder.json", "messageConfigs/weekly_reminder.json"] := by
    rw [paths_of_plan hp]
    decide +kernel
  have hcontents : (p.files.map (·.contents)).Nodup := by
    obtain ⟨-, files, hfiles, hp⟩ := of_plan hp
    rw [hp, List.forall₂_nil_left_iff.mp hfiles]
    decide +kernel
  obtain ⟨file, _, hfiles, hfile, hrest⟩ := List.map_eq_cons_iff.mp hpaths
  obtain ⟨file', _, rfl, hfile', hnil⟩ := List.map_eq_cons_iff.mp hrest
  rw [List.map_eq_nil_iff.mp hnil] at hfiles
  refine ⟨p, hp, hpaths, ?_, ?_⟩
  · simp [hfiles, hfile, hfile']
  · rw [p.run_keeping, p.keep_eq_iff, hfiles]
    intro hsame
    have htarget : p.target file = p.target file' := by
      rw [ExportPlan.target, ExportPlan.target, hfile, hfile']
    have hsame := hsame file (by simp) file' (by simp) htarget
    simp [hfiles, hsame] at hcontents

end Study

end Questionnaire
