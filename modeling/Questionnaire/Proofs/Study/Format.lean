import Questionnaire.Proofs.Survey.Format
import Questionnaire.Study.Bundle

/-!
# Reading studies that are written

Messages are read as they were written, and so are the rules and the surveys of a study, except
that negative zero among the numbers of their expressions is read as zero.
-/

namespace Questionnaire

/-! ### Messages -/

namespace HeaderOverrides

theorem reads (h : HeaderOverrides) (bound : Nat) :
  fields.reader.Reads bound h.toJson h
  := by
  apply Fields.reads_reader
  exact ((((Fields.Reads.pure HeaderOverrides.mk).optional "from" h.author
    (fun s _ => Reader.reads_string s) nofun).optional "sender" h.sender
    (fun s _ => Reader.reads_string s) nofun).optional "replyTo" h.replyTo
    (fun ss _ => Reader.reads_list_self fun s _ => Reader.reads_string s) nofun).optional
    "noReplyTo" h.noReplyTo (fun b _ => Reader.reads_bool b) nofun

theorem yields :
  fields.reader.Yields fun d h => h.toJson.depth ≤ d
  := by
  apply Fields.yields_reader_succ
  apply Fields.Yields.seq (Fields.yields_optional (Reader.yields_any _))
  apply Fields.Yields.seq
    (Fields.yields_optional (Reader.yields_list (Reader.yields_any Reader.string)))
  apply Fields.Yields.seq (Fields.yields_optional (Reader.yields_any _))
  apply Fields.Yields.seq (Fields.yields_optional (Reader.yields_any _))
  apply Fields.Yields.pure
  intro d author _ sender _ replyTo hreply noReplyTo _
  apply Json.depth_record_le (Nat.succ_pos d)
  simp only [List.forall_mem_cons, Json.Member.within_optional]
  refine ⟨fun _ _ => Nat.zero_le d, fun _ _ => Nat.zero_le d, ?_, fun _ _ => Nat.zero_le d, nofun⟩
  intro ss hss
  exact Json.depth_list_le (hreply ss hss).1 fun _ _ => Nat.zero_le _

end HeaderOverrides

namespace MessageText

theorem reads (t : MessageText) (bound : Nat) :
  fields.reader.Reads bound (t.toJsonAs "template") t
  := by
  apply Fields.reads_reader
  exact (((Fields.Reads.pure MessageText.mk).required "lang"
    (Reader.reads_string t.language)).required "subject" (Reader.reads_string t.subject)).required
    "template" (Reader.reads_string t.body)

theorem yields :
  fields.reader.Yields fun d t => (t.toJsonAs "template").depth ≤ d
  := by
  apply Fields.yields_reader_succ
  apply Fields.Yields.seq (Fields.yields_required (Reader.yields_any _))
  apply Fields.Yields.seq (Fields.yields_required (Reader.yields_any _))
  apply Fields.Yields.seq (Fields.yields_required (Reader.yields_any _))
  apply Fields.Yields.pure
  intro d language _ subject _ body _
  apply Json.depth_record_le (Nat.succ_pos d)
  simp only [List.forall_mem_cons, Json.Member.within_required]
  exact ⟨Nat.zero_le d, Nat.zero_le d, Nat.zero_le d, nofun⟩

end MessageText

namespace MessageConfig

/-- A message is read as it was written. -/
theorem reads (m : MessageConfig) (bound : Nat) :
  fields.reader.Reads bound m.toJson m
  := by
  apply Fields.reads_reader
  exact (((((Fields.Reads.pure MessageConfig.mk).required "label"
    (Reader.reads_string m.label)).required "messageType"
    (Reader.reads_string m.messageType)).required "defaultLanguage"
    (Reader.reads_string m.defaultLanguage)).optional "headerOverrides" m.headerOverrides
    (fun h _ => h.reads bound) nofun).required "translations"
    (Reader.reads_list_self fun t _ => t.reads bound)

theorem yields :
  fields.reader.Yields fun d m => m.toJson.depth ≤ d
  := by
  apply Fields.yields_reader_succ
  apply Fields.Yields.seq (Fields.yields_required (Reader.yields_list MessageText.yields))
  apply Fields.Yields.seq (Fields.yields_optional HeaderOverrides.yields)
  apply Fields.Yields.seq (Fields.yields_required (Reader.yields_any _))
  apply Fields.Yields.seq (Fields.yields_required (Reader.yields_any _))
  apply Fields.Yields.seq (Fields.yields_required (Reader.yields_any _))
  apply Fields.Yields.pure
  intro d label _ messageType _ defaultLanguage _ headerOverrides hheader texts htexts
  apply Json.depth_record_le (Nat.succ_pos d)
  simp only [List.forall_mem_cons, Json.Member.within_required, Json.Member.within_optional]
  exact ⟨Nat.zero_le d, Nat.zero_le d, Nat.zero_le d, hheader,
    Json.depth_list_le htexts.1 htexts.2, nofun⟩

end MessageConfig

/-! ### Rules -/

namespace StudyRules

/-- The rules, with zero in place of negative zero. -/
def normalize (r : StudyRules) : StudyRules where
  enter := r.enter.map (·.map Expression.normalize)
  submit := r.submit.map (·.map Expression.normalize)
  timer := r.timer.map (·.map Expression.normalize)
  merge := r.merge.map (·.map Expression.normalize)
  leave := r.leave.map (·.map Expression.normalize)
  custom := r.custom.map (·.map Expression.normalize)

theorem actions_normalize (r : StudyRules) (kind : EventKind) :
  r.normalize.actions kind = (r.actions kind).map (·.map Expression.normalize)
  := by
  cases kind with
  | _ => rfl

/-- The rules of a study are read as they were written, but for the sign of zero. -/
theorem reads (r : StudyRules) (bound : Nat) :
  fields.reader.Reads bound r.toJson r.normalize
  := by
  have hread (kind : EventKind) : ∀ es ∈ r.actions kind, (Reader.list Expression.reader).Reads bound
      (.list Expression.toJson es) (es.map Expression.normalize) :=
    fun es _ => Reader.reads_list fun e _ => e.reads bound
  apply Fields.reads_reader
  exact ((((((Fields.Reads.pure StudyRules.mk).optionalMap "enter" r.enter (hread .enter)
    nofun).optionalMap "submit" r.submit (hread .submit)
    nofun).optionalMap "timer" r.timer (hread .timer)
    nofun).optionalMap "merge" r.merge (hread .merge)
    nofun).optionalMap "leave" r.leave (hread .leave)
    nofun).optionalMap "custom" r.custom (hread .custom) nofun

theorem toJson_normalize (r : StudyRules) :
  r.normalize.toJson = r.toJson
  := by
  have hactions (kind : EventKind) : ∀ es ∈ r.actions kind, Json.list Expression.toJson
      (es.map Expression.normalize) = Json.list Expression.toJson es :=
    fun es _ => Json.list_map_eq fun e _ => e.toJson_normalize
  simp only [toJson, actions_normalize, Json.Member.optional_map_eq (hactions _)]

theorem yields :
  fields.reader.Yields fun d r => r.toJson.depth ≤ d
  := by
  have hfield (kind : EventKind) : (actionField kind).Yields fun d v => ∀ es ∈ v,
      0 < d ∧ ∀ e ∈ es, e.toJson.depth ≤ d - 1 :=
    Fields.yields_optional (Reader.yields_list Expression.yields)
  apply Fields.yields_reader_succ
  apply Fields.Yields.seq (hfield .custom)
  apply Fields.Yields.seq (hfield .leave)
  apply Fields.Yields.seq (hfield .merge)
  apply Fields.Yields.seq (hfield .timer)
  apply Fields.Yields.seq (hfield .submit)
  apply Fields.Yields.seq (hfield .enter)
  apply Fields.Yields.pure
  intro d enter henter submit hsubmit timer htimer merge hmerge leave hleave custom hcustom
  apply Json.depth_record_le (Nat.succ_pos d)
  intro m hm
  obtain ⟨kind, -, rfl⟩ := List.mem_map.mp hm
  apply Json.Member.within_optional.mpr
  intro es hes
  have hes : 0 < d ∧ ∀ e ∈ es, e.toJson.depth ≤ d - 1 := by
    cases kind with
    | enter => exact henter es hes
    | submit => exact hsubmit es hes
    | timer => exact htimer es hes
    | merge => exact hmerge es hes
    | leave => exact hleave es hes
    | custom => exact hcustom es hes
  exact Json.depth_list_le hes.1 hes.2

end StudyRules

namespace CustomRule

/-- The rules, with zero in place of negative zero. -/
def normalize (r : CustomRule) : CustomRule :=
  { r with rules := r.rules.map Expression.normalize }

/-- Custom rules are read as they were written, but for the sign of zero. -/
theorem reads (r : CustomRule) (bound : Nat) :
  fields.reader.Reads bound r.toJson r.normalize
  := by
  apply Fields.reads_reader
  exact ((Fields.Reads.pure CustomRule.mk).required "name" (Reader.reads_string r.name)).required
    "rules" (Reader.reads_list fun e _ => e.reads bound)

theorem toJson_normalize (r : CustomRule) :
  r.normalize.toJson = r.toJson
  := by
  simp only [toJson, normalize, Json.list_map_eq fun e _ => Expression.toJson_normalize e]

theorem yields :
  fields.reader.Yields fun d r => r.toJson.depth ≤ d
  := by
  apply Fields.yields_reader_succ
  apply Fields.Yields.seq (Fields.yields_required (Reader.yields_list Expression.yields))
  apply Fields.Yields.seq (Fields.yields_required (Reader.yields_any _))
  apply Fields.Yields.pure
  intro d name _ rules hrules
  apply Json.depth_record_le (Nat.succ_pos d)
  simp only [List.forall_mem_cons, Json.Member.within_required]
  exact ⟨Nat.zero_le d, Json.depth_list_le hrules.1 hrules.2, nofun⟩

end CustomRule

/-! ### Bundles -/

namespace Bundle

/-- The bundle, with zero in place of negative zero among the numbers of its expressions. -/
def normalize (b : Bundle) : Bundle :=
  { b with
    surveys := b.surveys.map Survey.normalize
    rules := b.rules.map StudyRules.normalize
    customRules := b.customRules.map CustomRule.normalize }

/-- The surveys of the bundle are well formed. -/
def WellFormed (b : Bundle) : Prop :=
  ∀ s ∈ b.surveys, s.WellFormed

/-- A bundle is read as it was written, but for the sign of zero. -/
theorem WellFormed.reads {b : Bundle} (h : b.WellFormed) (bound : Nat) :
  reader.Reads bound b.toJson b.normalize
  := by
  apply Fields.reads_reader
  exact ((((((Fields.Reads.pure Bundle.mk).required "studyKey" (Reader.reads_string b.key)).optional
    "outputFolderName" b.folderName (fun s _ => Reader.reads_string s) nofun).withDefault "surveys"
    (Reader.reads_list fun s hs => (h s hs).reads bound)).optionalMap "studyRules" b.rules
    (fun r _ => r.reads bound) nofun).withDefault "customStudyRules"
    (Reader.reads_list fun r _ => r.reads bound)).withDefault "messageConfigs"
    (Reader.reads_list_self fun m _ => m.reads bound)

/-- The sign of zero is not written. -/
theorem toJson_normalize (b : Bundle) :
  b.normalize.toJson = b.toJson
  := by
  simp only [toJson, normalize, Json.list_map_eq fun s _ => Survey.toJson_normalize s,
    Json.list_map_eq fun r _ => CustomRule.toJson_normalize r,
    Json.Member.optional_map_eq fun r _ => StudyRules.toJson_normalize r]

/-- A list that may be left out nests as deep as it was allowed to if that is deep enough for the
empty one. -/
theorem yields_list_withDefault {α : Type} {name : String} {r : Reader α} {f : α → Json}
    {Q : α → Prop} (h : r.Yields fun d a => Q a ∧ (f a).depth ≤ d) :
  (Fields.withDefault name (.list r) []).Yields fun d as =>
    (∀ a ∈ as, Q a) ∧ (0 < d → (Json.list f as).depth ≤ d)
  := by
  apply Fields.yields_withDefault
  · apply (Reader.yields_list h).mono
    rintro d as ⟨hd, has⟩
    exact ⟨fun a ha => (has a ha).1, fun _ => Json.depth_list_le hd fun a ha => (has a ha).2⟩
  · intro d
    exact ⟨nofun, fun hd => Json.depth_list_le hd nofun⟩

/-- What is read as a bundle is well formed, and nests no deeper, when it is written, than it was
allowed to if that is deep enough for the lists in it. -/
theorem yields :
  reader.Yields fun d b => b.WellFormed ∧ (1 < d → b.toJson.depth ≤ d)
  := by
  have htrivial {α : Type} {r : Reader α} {P : Nat → α → Prop} (h : r.Yields P) :
      r.Yields fun d a => True ∧ P d a :=
    h.mono fun _ _ ha => ⟨trivial, ha⟩
  apply Fields.yields_reader_succ
  apply Fields.Yields.seq (yields_list_withDefault (htrivial MessageConfig.yields))
  apply Fields.Yields.seq (yields_list_withDefault (htrivial CustomRule.yields))
  apply Fields.Yields.seq (Fields.yields_optional StudyRules.yields)
  apply Fields.Yields.seq (yields_list_withDefault Survey.yields)
  apply Fields.Yields.seq (Fields.yields_optional (Reader.yields_any _))
  apply Fields.Yields.seq (Fields.yields_required (Reader.yields_any _))
  apply Fields.Yields.pure
  intro d key _ folderName _ surveys hsurveys rules hrules customRules hcustom messages hmessages
  constructor
  · exact hsurveys.1
  · intro hd
    have hd : 0 < d := Nat.lt_of_succ_lt_succ hd
    apply Json.depth_record_le (Nat.succ_pos d)
    simp only [List.forall_mem_cons, Json.Member.within_required, Json.Member.within_optional]
    exact ⟨Nat.zero_le d, fun _ _ => Nat.zero_le d, hsurveys.2 hd, hrules, hcustom.2 hd,
      hmessages.2 hd, nofun⟩

end Bundle

end Questionnaire
