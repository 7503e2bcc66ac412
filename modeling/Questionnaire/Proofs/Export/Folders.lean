import Questionnaire.Proofs.Export.Plan
import Questionnaire.Proofs.Files.Path

/-!
# The folders of planned files

The file of a survey, of custom rules or of a message has a name, which is seen from a directory of
the plan.  The names are texts of the study, and such a text can be a path of its own.  A file
stands in its directory if and only if its name is a single one (`encloses_join_iff`).

This is so if the keys of the surveys, the names of the custom rules and the labels of the messages
have no slash: lowercasing a label does not bring one in (`mem_of_mem_lowercase`).
-/

namespace Questionnaire

/-! ### Lowercase texts -/

namespace Text

/-- The small letters of all capital ones come after the punctuation and the digits. -/
theorem le_first_add_shift :
  ∀ run ∈ capitals, ('a'.toNat : Int) ≤ run.first + run.shift
  := by decide +kernel

/-- A number that is not the code of a character gives the character with code zero. -/
theorem toNat_ofNat (n : Nat) :
  (Char.ofNat n).toNat = n ∨ (Char.ofNat n).toNat = 0
  := by
  by_cases h : n.isValidChar
  · left
    have hchar : Char.ofNat n = Char.ofNatAux n h := dif_pos h
    rw [hchar]
    rfl
  · right
    have hchar : Char.ofNat n = '\x00' := dif_neg h
    rw [hchar]
    rfl

/-- A character in front of the letter `a` is the small letter of no other. -/
theorem eq_of_smallLetter_eq {c d : Char} (h : smallLetter c = d) (hd : d.toNat < 'a'.toNat)
    (hpos : 0 < d.toNat) :
  c = d
  := by
  rw [smallLetter] at h
  rcases hrun : capitalRun? c with _ | run
  · rw [hrun] at h
    exact h
  · exfalso
    rw [hrun] at h
    have hfirst := le_first_add_shift run (List.mem_of_find?_eq_some hrun)
    have hbounds := List.find?_some hrun
    simp only [Bool.and_eq_true, decide_eq_true_eq] at hbounds
    have hletter : 'a'.toNat ≤ (c.toNat + run.shift).toNat := by omega
    have hsmall := congrArg Char.toNat h
    rcases toNat_ofNat (c.toNat + run.shift).toNat with hcode | hcode
    · rw [hcode] at hsmall
      omega
    · rw [hcode] at hsmall
      omega

/-- Lowercasing brings in no character in front of the letter `a`. -/
theorem mem_of_mem_lowercaseFrom {d : Char} (hd : d.toNat < 'a'.toNat) (hpos : 0 < d.toNat)
    {before cs : List Char} (h : d ∈ lowercaseFrom before cs) :
  d ∈ cs
  := by
  induction cs generalizing before with
  | nil => exact h
  | cons c cs ih =>
    rw [lowercaseFrom, List.mem_append] at h
    rw [List.mem_cons]
    rcases h with hsmall | hrest
    · left
      split at hsmall
      · exfalso
        simp only [List.mem_cons, List.not_mem_nil, or_false] at hsmall
        rcases hsmall with rfl | rfl
        · exact absurd hd (by decide)
        · exact absurd hd (by decide)
      · split at hsmall
        · exfalso
          obtain rfl := List.mem_singleton.mp hsmall
          revert hd
          split
          · decide
          · decide
        · exact (eq_of_smallLetter_eq (List.mem_singleton.mp hsmall).symm hd hpos).symm
    · right
      apply ih hrest

theorem mem_of_mem_lowercase {d : Char} (hd : d.toNat < 'a'.toNat) (hpos : 0 < d.toNat) {s : String}
    (h : d ∈ (lowercase s).toList) :
  d ∈ s.toList
  := by
  rw [lowercase, String.toList_ofList] at h
  apply mem_of_mem_lowercaseFrom hd hpos h

end Text

/-! ### Names in a directory -/

namespace Path

/-- The text names a file in the directory that it is seen from. -/
def IsFileName (name : String) : Prop :=
  isAbsolute name = false ∧ ∃ part, part ≠ ".." ∧ parts name = [part]

/-- A single name is the name of a file. -/
theorem IsName.isFileName {name : String} (h : IsName name) :
  IsFileName name
  := ⟨h.isAbsolute_eq, name, h.ne_dots, h.parts_eq⟩

end Path

/-! ### Names of planned files -/

theorem ExportOptions.file_path (o : ExportOptions) (directory : Path) (name : String)
    (document : Json) :
  (o.file directory name document).path = Path.join directory name
  := rfl

namespace Study

/-- The names of the files of the surveys. -/
def surveyNames (s : Study) : List String :=
  s.surveys.map fun definition => definition.key ++ ".json"

/-- The names of the files of the custom rules. -/
def customRuleNames (s : Study) : List String := s.customRules.map fun rule => rule.name ++ ".json"

/-- The names of the files of the messages. -/
def messageNames (s : Study) : List String :=
  s.messages.map fun message => MessageConfig.fileName message.label

/-- The names of the files of a study, each with the directory that it is seen from; the file of the
rules is not among them. -/
def namedFiles (s : Study) : List (Path × String) :=
  s.surveyNames.map ("surveys", ·) ++ s.customRuleNames.map ("customRules", ·)
    ++ s.messageNames.map ("messageConfigs", ·)

variable {s : Study} {o : ExportOptions} {p : ExportPlan}

theorem surveyFiles_paths {definitions : List SurveyDefinition} {files : List PlannedFile}
    (h : List.Forall₂ (FileOf o) definitions files) :
  files.map (·.path)
    = definitions.map fun definition => Path.join "surveys" (definition.key ++ ".json")
  := by
  induction h with
  | nil => rfl
  | cons hfile _ ih =>
    obtain ⟨survey, -, rfl⟩ := hfile
    rw [List.map_cons, List.map_cons, ih]
    rfl

theorem ruleFiles_paths (s : Study) (o : ExportOptions) :
  (s.ruleFiles o).map (·.path) = s.rules.toList.map fun _ => "studyRules.json"
  := by
  rw [ruleFiles, List.map_map]
  rfl

theorem customRuleFiles_paths (s : Study) (o : ExportOptions) :
  (s.customRuleFiles o).map (·.path) = s.customRuleNames.map (Path.join "customRules")
  := by
  simp only [customRuleFiles, customRuleNames, List.map_map, Function.comp_def,
    ExportOptions.file_path]

theorem messageFiles_paths (s : Study) (o : ExportOptions) :
  (s.messageFiles o).map (·.path) = s.messageNames.map (Path.join "messageConfigs")
  := by
  simp only [messageFiles, messageNames, List.map_map, Function.comp_def, ExportOptions.file_path]

/-- The paths of a plan, in its order. -/
theorem paths_of_plan (h : s.plan o = .ok p) :
  p.files.map (·.path) = s.surveyNames.map (Path.join "surveys")
    ++ (s.rules.toList.map (fun _ => "studyRules.json")
      ++ (s.customRuleNames.map (Path.join "customRules")
        ++ s.messageNames.map (Path.join "messageConfigs")))
  := by
  obtain ⟨-, files, hfiles, hp⟩ := of_plan h
  rw [hp, otherFiles, List.append_assoc, List.map_append, List.map_append, List.map_append,
    surveyFiles_paths hfiles, ruleFiles_paths, customRuleFiles_paths, messageFiles_paths, surveyNames,
    List.map_map]
  rfl

theorem mem_directories_iff {directory : Path} :
  directory ∈ s.directories ↔ directory = "surveys"
    ∨ directory = "customRules" ∧ s.customRules ≠ []
    ∨ directory = "messageConfigs" ∧ s.messages ≠ []
  := by
  rw [directories, List.mem_append, List.mem_cons]
  cases s.customRules with
  | nil => cases s.messages with
    | _ => simp
  | cons rule rules => cases s.messages with
    | _ => simp [or_assoc]

theorem isName_of_mem_directories {directory : Path} (h : directory ∈ s.directories) :
  Path.IsName directory
  := by
  obtain rfl | ⟨rfl, -⟩ | ⟨rfl, -⟩ := mem_directories_iff.mp h
  · constructor <;> decide
  · constructor <;> decide
  · constructor <;> decide

end Study

/-! ### Files in their folders -/

/-- The path is that of the rules, or that of a file in a directory of the plan. -/
def ExportPlan.Encloses (p : ExportPlan) (path : Path) : Prop :=
  Path.isAbsolute path = false ∧ (path = "studyRules.json"
    ∨ ∃ directory ∈ p.directories, ∃ name, name ≠ ".." ∧ path.components = [directory, name])

/-- The texts that the names of files are made of have no slash. -/
structure Study.SlashFree (s : Study) : Prop where
  surveys : ∀ definition ∈ s.surveys, '/' ∉ definition.key.toList
  customRules : ∀ rule ∈ s.customRules, '/' ∉ rule.name.toList
  messages : ∀ message ∈ s.messages, '/' ∉ message.label.toList

namespace Study

variable {s : Study} {o : ExportOptions} {p : ExportPlan}

theorem isName_of_plan (h : s.plan o = .ok p) {directory : Path}
    (hdirectory : directory ∈ p.directories) :
  Path.IsName directory ∧ directory ≠ "studyRules.json"
  := by
  rw [(of_plan h).1] at hdirectory
  use isName_of_mem_directories hdirectory
  rintro rfl
  revert hdirectory
  rw [mem_directories_iff]
  simp

theorem isName_rules :
  Path.IsName "studyRules.json"
  := by
  constructor <;> decide

/-- A file is in its directory if and only if its name is a single one. -/
theorem encloses_join_iff (h : s.plan o = .ok p) {directory : Path}
    (hdirectory : directory ∈ p.directories) (name : String) :
  p.Encloses (Path.join directory name) ↔ Path.IsFileName name
  := by
  obtain ⟨hfolder, hne⟩ := isName_of_plan h hdirectory
  have hcomponents := hfolder.components_join_eq name
  constructor
  · rintro ⟨hrelative, hpath⟩
    have hname : Path.isAbsolute name = false := by
      rw [Bool.eq_false_iff]
      intro habsolute
      rw [Path.join_of_isAbsolute habsolute, habsolute] at hrelative
      cases hrelative
    rw [hname, if_neg Bool.false_ne_true] at hcomponents
    use hname
    obtain hrules | ⟨directory', -, part, hpart, hpath⟩ := hpath
    · exfalso
      rw [hrules, isName_rules.components_eq, List.cons.injEq] at hcomponents
      apply hne hcomponents.1.symm
    · rw [hpath, List.cons.injEq] at hcomponents
      exact ⟨part, hpart, hcomponents.2.symm⟩
  · rintro ⟨hname, part, hpart, hparts⟩
    constructor
    · rw [Path.isAbsolute_join hname]
      exact hfolder.isAbsolute_eq
    · right
      rw [hname, hparts] at hcomponents
      exact ⟨directory, hdirectory, part, hpart, hcomponents⟩

/-- The files of a plan are that of the rules, if there are any, and those with a name. -/
theorem mem_paths_iff (h : s.plan o = .ok p) {path : Path} :
  path ∈ p.files.map (·.path) ↔ s.rules.isSome ∧ path = "studyRules.json"
    ∨ ∃ named ∈ s.namedFiles, Path.join named.1 named.2 = path
  := by
  rw [paths_of_plan h, namedFiles]
  simp only [List.mem_append, List.mem_map, Option.mem_toList, Option.isSome_iff_exists]
  constructor
  · rintro (⟨name, hname, rfl⟩ | ⟨rules, hrules, rfl⟩ | ⟨name, hname, rfl⟩ | ⟨name, hname, rfl⟩)
    · exact Or.inr ⟨_, Or.inl (Or.inl ⟨name, hname, rfl⟩), rfl⟩
    · exact Or.inl ⟨⟨rules, hrules⟩, rfl⟩
    · exact Or.inr ⟨_, Or.inl (Or.inr ⟨name, hname, rfl⟩), rfl⟩
    · exact Or.inr ⟨_, Or.inr ⟨name, hname, rfl⟩, rfl⟩
  · rintro (⟨⟨rules, hrules⟩, rfl⟩ | ⟨_, (⟨name, hname, rfl⟩ | ⟨name, hname, rfl⟩)
      | ⟨name, hname, rfl⟩, rfl⟩)
    · exact Or.inr (Or.inl ⟨rules, hrules, rfl⟩)
    · exact Or.inl ⟨name, hname, rfl⟩
    · exact Or.inr (Or.inr (Or.inl ⟨name, hname, rfl⟩))
    · exact Or.inr (Or.inr (Or.inr ⟨name, hname, rfl⟩))

/-- A plan has the directories that names are seen from. -/
theorem fst_mem_directories (h : s.plan o = .ok p) {named : Path × String}
    (hnamed : named ∈ s.namedFiles) :
  named.1 ∈ p.directories
  := by
  rw [(of_plan h).1, mem_directories_iff]
  rw [namedFiles, List.mem_append, List.mem_append, List.mem_map, List.mem_map, List.mem_map]
    at hnamed
  obtain (⟨name, -, rfl⟩ | ⟨name, hname, rfl⟩) | ⟨name, hname, rfl⟩ := hnamed
  · left
    rfl
  · right
    left
    use rfl
    intro hnil
    rw [customRuleNames, hnil] at hname
    cases hname
  · right
    right
    use rfl
    intro hnil
    rw [messageNames, hnil] at hname
    cases hname

theorem encloses_rules (p : ExportPlan) :
  p.Encloses "studyRules.json"
  := ⟨isName_rules.isAbsolute_eq, Or.inl rfl⟩

/-- Texts without a slash give single names. -/
theorem SlashFree.isName (h : s.SlashFree) {named : Path × String} (hnamed : named ∈ s.namedFiles) :
  Path.IsName named.2
  := by
  rw [namedFiles, List.mem_append, List.mem_append, List.mem_map, List.mem_map, List.mem_map]
    at hnamed
  obtain (⟨name, hname, rfl⟩ | ⟨name, hname, rfl⟩) | ⟨name, hname, rfl⟩ := hnamed
  · obtain ⟨definition, hdefinition, rfl⟩ := List.mem_map.mp hname
    apply Path.isName_append (h.surveys definition hdefinition)
  · obtain ⟨rule, hrule, rfl⟩ := List.mem_map.mp hname
    apply Path.isName_append (h.customRules rule hrule)
  · obtain ⟨message, hmessage, rfl⟩ := List.mem_map.mp hname
    apply Path.isName_append
    intro hslash
    have hwords := Text.mem_of_mem_lowercase (by decide) (by decide) hslash
    rw [String.toList_ofList, List.mem_map] at hwords
    obtain ⟨c, hc, hslash⟩ := hwords
    split at hslash
    · exact absurd hslash (by decide)
    · subst hslash
      apply h.messages message hmessage hc

/-- Below the root, a file that is in its directory stands in one that is made. -/
theorem exists_directory_of_encloses (h : s.plan o = .ok p) {path : Path} (hpath : p.Encloses path) :
  ∃ directory ∈ p.root :: p.directories.map (Path.join p.root), ∃ below name,
    directory.components = p.root.components ++ below
      ∧ (Path.join p.root path).components = directory.components ++ [name]
      ∧ ".." ∉ below ∧ name ≠ ".."
  := by
  obtain ⟨hrelative, rfl | ⟨directory, hdirectory, name, hname, hcomponents⟩⟩ := hpath
  · refine ⟨p.root, List.mem_cons_self, [], "studyRules.json", ?_, ?_, nofun, by decide⟩
    · rw [List.append_nil]
    · rw [Path.components_join_of_head?_ne _ hrelative isName_rules.head?_names_ne,
        isName_rules.components_eq]
  · obtain ⟨hfolder, -⟩ := isName_of_plan h hdirectory
    have hjoin := Path.components_join_of_head?_ne p.root hfolder.isAbsolute_eq
      hfolder.head?_names_ne
    rw [hfolder.components_eq] at hjoin
    refine ⟨Path.join p.root directory, ?_, [directory], name, hjoin, ?_, ?_, hname⟩
    · apply List.mem_cons_of_mem
      apply List.mem_map_of_mem hdirectory
    · rw [hjoin, List.append_assoc]
      have hhead' : (Path.names path).head? ≠ some "." := by
        intro hdot
        rw [Path.components, Path.start, hrelative, if_neg Bool.false_ne_true, if_pos hdot,
          List.singleton_append, List.cons.injEq] at hcomponents
        apply hfolder.ne_dot hcomponents.1.symm
      rw [Path.components_join_of_head?_ne _ hrelative hhead', hcomponents]
      rfl
    · rw [List.mem_singleton]
      intro hdots
      apply hfolder.ne_dots hdots.symm

/-- The files of a plan stand in its directories if and only if their names are single ones, which
they are if the texts that they are made of have no slash.  Below the root, such a file stands in a
directory that is made. -/
theorem encloses_of_plan (s : Study) (o : ExportOptions) {p : ExportPlan} (h : s.plan o = .ok p) :
  ((∀ file ∈ p.files, p.Encloses file.path)
      ↔ ∀ named ∈ s.namedFiles, Path.IsFileName named.2)
    ∧ (s.SlashFree → ∀ file ∈ p.files, p.Encloses file.path)
    ∧ ∀ file ∈ p.files, p.Encloses file.path →
      ∃ directory ∈ p.root :: p.directories.map (Path.join p.root), ∃ below name,
        directory.components = p.root.components ++ below
          ∧ (Path.join p.root file.path).components = directory.components ++ [name]
          ∧ ".." ∉ below ∧ name ≠ ".."
  := by
  have hencloses : (∀ file ∈ p.files, p.Encloses file.path)
      ↔ ∀ named ∈ s.namedFiles, Path.IsFileName named.2 := by
    have hpaths : (∀ path ∈ p.files.map (·.path), p.Encloses path)
        ↔ ∀ file ∈ p.files, p.Encloses file.path := List.forall_mem_map
    rw [← hpaths]
    constructor
    · intro hall named hnamed
      rw [← encloses_join_iff h (fst_mem_directories h hnamed)]
      apply hall
      rw [mem_paths_iff h]
      exact Or.inr ⟨named, hnamed, rfl⟩
    · intro hall path hpath
      obtain ⟨-, rfl⟩ | ⟨named, hnamed, rfl⟩ := (mem_paths_iff h).mp hpath
      · apply encloses_rules
      · rw [encloses_join_iff h (fst_mem_directories h hnamed)]
        apply hall named hnamed
  refine ⟨hencloses, ?_, ?_⟩
  · intro hfree
    rw [hencloses]
    intro named hnamed
    exact (hfree.isName hnamed).isFileName
  · intro file _ hfile
    apply exists_directory_of_encloses h hfile

/-- The files of a survey, of custom rules and of a message in their directories. -/
theorem encloses_weekly_reminder :
  let m : MessageConfig :=
    { label := "Weekly Reminder", messageType := "weekly", defaultLanguage := "en", texts := [] }
  let s : Study := Bundle.toStudy
    { key := "flu", surveys := [.empty "weekly"], customRules := [⟨"reset", []⟩], messages := [m] }
  ∃ p, s.plan {} = .ok p
    ∧ p.files.map (·.path)
      = ["surveys/weekly.json", "customRules/reset.json", "messageConfigs/weekly_reminder.json"]
    ∧ (∀ file ∈ p.files, p.Encloses file.path)
    ∧ ∀ file ∈ p.files, ∃ directory ∈ p.root :: p.directories.map (Path.join p.root), ∃ below name,
      directory.components = p.root.components ++ below
        ∧ (Path.join p.root file.path).components = directory.components ++ [name]
        ∧ ".." ∉ below ∧ name ≠ ".."
  := by
  intro m s
  obtain ⟨p, hp⟩ : ∃ p, s.plan {} = .ok p := exists_plan_of_bundle (by decide)
  have hfree : s.SlashFree := by
    constructor
    · decide
    · decide
    · decide
  obtain ⟨-, hencloses, hdirectory⟩ := encloses_of_plan s {} hp
  refine ⟨p, hp, ?_, hencloses hfree, ?_⟩
  · rw [paths_of_plan hp]
    decide +kernel
  · intro file hfile
    apply hdirectory file hfile (hencloses hfree file hfile)

/-- A survey whose key starts with a slash is planned outside the root, and custom rules can be so
too. -/
theorem outside_of_slash :
  let s : Study := Bundle.toStudy
    { key := "flu", surveys := [.empty "/weekly"], customRules := [⟨"../../reset", []⟩] }
  ∃ p, s.plan {} = .ok p
    ∧ p.files.map (·.path) = ["/weekly.json", "customRules/../../reset.json"]
    ∧ ∀ file ∈ p.files, ¬ p.Encloses file.path
  := by
  intro s
  obtain ⟨p, hp⟩ : ∃ p, s.plan {} = .ok p := exists_plan_of_bundle (by decide)
  have hpaths : p.files.map (·.path) = ["/weekly.json", "customRules/../../reset.json"] := by
    rw [paths_of_plan hp]
    decide +kernel
  refine ⟨p, hp, hpaths, ?_⟩
  have hnot : ∀ path ∈ p.files.map (·.path), ¬ p.Encloses path := by
    rw [hpaths]
    simp only [List.forall_mem_cons]
    refine ⟨?_, ?_, nofun⟩
    · rintro ⟨habsolute, -⟩
      revert habsolute
      decide
    · rintro ⟨-, hrules | ⟨_, -, _, -, hcomponents⟩⟩
      · revert hrules
        decide
      · have hlength : (Path.components "customRules/../../reset.json").length = 4 := by
          decide +kernel
        rw [hcomponents] at hlength
        cases hlength
  intro file hfile
  apply hnot file.path (List.mem_map_of_mem hfile)

end Study

end Questionnaire
