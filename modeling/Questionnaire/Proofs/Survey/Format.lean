import Questionnaire.Proofs.Item.Format
import Questionnaire.Survey.Format

/-!
# Reading surveys that are written

A survey is read as it was written, except that negative zero among the numbers of its expressions
is read as zero.
-/

namespace Questionnaire

namespace SurveyTexts

/-- The texts, with zero in place of negative zero. -/
def normalize (t : SurveyTexts) : SurveyTexts where
  name := t.name.map (·.map LocalizedText.normalize)
  description := t.description.map (·.map LocalizedText.normalize)
  typicalDuration := t.typicalDuration.map (·.map LocalizedText.normalize)

theorem reads (t : SurveyTexts) (bound : Nat) :
  fields.reader.Reads bound t.toJson t.normalize
  := by
  have htexts (ts : List LocalizedText) : (Reader.list LocalizedText.reader).Reads bound
      (.list LocalizedText.toJson ts) (ts.map LocalizedText.normalize) :=
    Reader.reads_list fun t _ => t.reads bound
  apply Fields.reads_reader
  exact (((Fields.Reads.pure SurveyTexts.mk).optionalMap "name" t.name (fun ts _ => htexts ts)
    nofun).optionalMap "description" t.description (fun ts _ => htexts ts)
    nofun).optionalMap "typicalDuration" t.typicalDuration (fun ts _ => htexts ts) nofun

theorem toJson_normalize (t : SurveyTexts) :
  t.normalize.toJson = t.toJson
  := by
  have htexts (ts : List LocalizedText) : Json.list LocalizedText.toJson
      (ts.map LocalizedText.normalize) = Json.list LocalizedText.toJson ts :=
    Json.list_map_eq fun t _ => t.toJson_normalize
  simp only [toJson, normalize, Json.Member.optional_map_eq fun ts _ => htexts ts]

theorem yields :
  fields.reader.Yields fun d t => t.toJson.depth ≤ d
  := by
  have htexts := Reader.yields_list LocalizedText.yields
  apply Fields.yields_reader_succ
  apply Fields.Yields.seq (Fields.yields_optional htexts)
  apply Fields.Yields.seq (Fields.yields_optional htexts)
  apply Fields.Yields.seq (Fields.yields_optional htexts)
  apply Fields.Yields.pure
  intro d name hname description hdescription typicalDuration hduration
  apply Json.depth_record_le (Nat.succ_pos d)
  simp only [List.forall_mem_cons, Json.Member.within_optional]
  refine ⟨?_, ?_, ?_, nofun⟩
  · intro ts hts
    exact Json.depth_list_le (hname ts hts).1 (hname ts hts).2
  · intro ts hts
    exact Json.depth_list_le (hdescription ts hts).1 (hdescription ts hts).2
  · intro ts hts
    exact Json.depth_list_le (hduration ts hts).1 (hduration ts hts).2

end SurveyTexts

namespace SurveyContext

/-- The context, with zero in place of negative zero. -/
def normalize (c : SurveyContext) : SurveyContext where
  mode := c.mode.map Argument.normalize
  previousResponses := c.previousResponses.map (·.map Expression.normalize)
  participantFlags := c.participantFlags.map Expression.normalize

theorem reads (c : SurveyContext) (bound : Nat) :
  fields.reader.Reads bound c.toJson c.normalize
  := by
  apply Fields.reads_reader
  exact (((Fields.Reads.pure SurveyContext.mk).optionalMap "mode" c.mode
    (fun a _ => a.reads bound) Argument.toJson_ne_null).optionalMap "previousResponses"
    c.previousResponses (fun es _ => Reader.reads_list fun e _ => e.reads bound)
    nofun).optionalMap "participantFlags" c.participantFlags (fun e _ => e.reads bound)
    Expression.toJson_ne_null

theorem toJson_normalize (c : SurveyContext) :
  c.normalize.toJson = c.toJson
  := by
  have hresponses : ∀ es ∈ c.previousResponses, Json.list Expression.toJson
      (es.map Expression.normalize) = Json.list Expression.toJson es :=
    fun es _ => Json.list_map_eq fun e _ => e.toJson_normalize
  simp only [toJson, normalize, Json.Member.optional_map_eq hresponses,
    Json.Member.optional_map_eq fun a _ => Argument.toJson_normalize a,
    Json.Member.optional_map_eq fun e _ => Expression.toJson_normalize e]

theorem yields :
  fields.reader.Yields fun d c => c.toJson.depth ≤ d
  := by
  apply Fields.yields_reader_succ
  apply Fields.Yields.seq (Fields.yields_optional Expression.yields)
  apply Fields.Yields.seq (Fields.yields_optional (Reader.yields_list Expression.yields))
  apply Fields.Yields.seq (Fields.yields_optional Argument.yields)
  apply Fields.Yields.pure
  intro d mode hmode previousResponses hresponses participantFlags hflags
  apply Json.depth_record_le (Nat.succ_pos d)
  simp only [List.forall_mem_cons, Json.Member.within_optional]
  refine ⟨hmode, ?_, hflags, nofun⟩
  intro es hes
  exact Json.depth_list_le (hresponses es hes).1 (hresponses es hes).2

end SurveyContext

namespace PageLimits

/-- The limits have 32 bits. -/
def WellFormed (p : PageLimits) : Prop :=
  p.large < Nat.pow 2 32 ∧ p.small < Nat.pow 2 32

theorem WellFormed.reads {p : PageLimits} (h : p.WellFormed) (bound : Nat) :
  fields.reader.Reads bound p.toJson p
  := by
  apply Fields.reads_reader
  exact ((Fields.Reads.pure PageLimits.mk).required "large" (Reader.reads_nat32 h.1)).required
    "small" (Reader.reads_nat32 h.2)

theorem yields :
  fields.reader.Yields fun d p => p.WellFormed ∧ p.toJson.depth ≤ d
  := by
  apply Fields.yields_reader_succ
  apply Fields.Yields.seq (Fields.yields_required Reader.yields_nat32)
  apply Fields.Yields.seq (Fields.yields_required Reader.yields_nat32)
  apply Fields.Yields.pure
  intro d large hlarge small hsmall
  constructor
  · exact ⟨hlarge, hsmall⟩
  · apply Json.depth_record_le (Nat.succ_pos d)
    simp only [List.forall_mem_cons, Json.Member.within_required]
    exact ⟨Nat.zero_le d, Nat.zero_le d, nofun⟩

end PageLimits

theorem Audience.reads (a : Audience) (bound : Nat) :
  reader.Reads bound a.toJson a
  := by
  apply Reader.reads_choice
  cases a <;> rfl

namespace Survey

/-- The survey, with zero in place of negative zero among the numbers of its expressions. -/
def normalize (s : Survey) : Survey :=
  { s with
    texts := s.texts.normalize
    root := s.root.normalize
    contextRules := s.contextRules.map SurveyContext.normalize
    prefillRules := s.prefillRules.map (·.map Expression.normalize) }

/-- The items, the page limits and the metadata of the survey are well formed. -/
structure WellFormed (s : Survey) : Prop where
  root : s.root.WellFormed
  pageLimits : ∀ p ∈ s.pageLimits, p.WellFormed
  metadata : ∀ m ∈ s.metadata, Dict.Ordered m

/-- A survey is read as it was written, but for the sign of zero. -/
theorem WellFormed.reads {s : Survey} (h : s.WellFormed) (bound : Nat) :
  reader.Reads bound s.toJson s.normalize
  := by
  apply Fields.reads_reader
  exact (((((((((Fields.Reads.pure Survey.mk).withDefault "props" (s.texts.reads bound)).required
    "surveyDefinition" (h.root.reads bound)).withDefault "versionId"
    (Reader.reads_string s.versionId)).optionalMap "contextRules" s.contextRules
    (fun c _ => c.reads bound) nofun).optionalMap "prefillRules" s.prefillRules
    (fun es _ => Reader.reads_list fun e _ => e.reads bound) nofun).optional "maxItemsPerPage"
    s.pageLimits (fun p hp => (h.pageLimits p hp).reads bound) nofun).optional "availableFor"
    s.availableFor (fun a _ => a.reads bound) nofun).optional "requireLoginBeforeSubmission"
    s.requiresLogin (fun b _ => Reader.reads_bool b) nofun).optional "metadata" s.metadata
    (fun m hm => Json.reads_texts (h.metadata m hm) bound) nofun

/-- The sign of zero is not written. -/
theorem toJson_normalize (s : Survey) :
  s.normalize.toJson = s.toJson
  := by
  have hprefill : ∀ es ∈ s.prefillRules, Json.list Expression.toJson
      (es.map Expression.normalize) = Json.list Expression.toJson es :=
    fun es _ => Json.list_map_eq fun e _ => e.toJson_normalize
  simp only [toJson, normalize, SurveyTexts.toJson_normalize, Group.toJson_normalize,
    Json.Member.optional_map_eq fun c _ => SurveyContext.toJson_normalize c,
    Json.Member.optional_map_eq hprefill]

/-- What is read as a survey is well formed, and nests no deeper, when it is written, than it was
allowed to. -/
theorem yields :
  reader.Yields fun d s => s.WellFormed ∧ s.toJson.depth ≤ d
  := by
  have htexts : SurveyTexts.fields.reader.Yields fun d t => 0 < d → t.toJson.depth ≤ d :=
    SurveyTexts.yields.mono fun _ _ ht _ => ht
  have hempty : ∀ d, 0 < d → (SurveyTexts.toJson {}).depth ≤ d := fun _ hd =>
    Json.depth_record_le hd (by simp [Json.Member.within_optional])
  apply Fields.yields_reader_succ
  apply Fields.Yields.seq
    (Fields.yields_optional (Reader.yields_dict (Reader.yields_any Reader.string)))
  apply Fields.Yields.seq (Fields.yields_optional (Reader.yields_any _))
  apply Fields.Yields.seq (Fields.yields_optional (Reader.yields_any _))
  apply Fields.Yields.seq (Fields.yields_optional PageLimits.yields)
  apply Fields.Yields.seq (Fields.yields_optional (Reader.yields_list Expression.yields))
  apply Fields.Yields.seq (Fields.yields_optional SurveyContext.yields)
  apply Fields.Yields.seq (Fields.yields_withDefault (Reader.yields_any _) fun _ => trivial)
  apply Fields.Yields.seq (Fields.yields_required Group.yields)
  apply Fields.Yields.seq (Fields.yields_withDefault htexts hempty)
  apply Fields.Yields.pure
  intro d texts htexts root hroot versionId _ contextRules hcontext prefillRules hprefill
    pageLimits hlimits availableFor _ requiresLogin _ metadata hmetadata
  constructor
  · exact ⟨hroot.1, fun p hp => (hlimits p hp).1, fun m hm => (hmetadata m hm).2.1⟩
  · have hd : 0 < d := Nat.lt_of_lt_of_le root.toJson_depth_pos hroot.2
    apply Json.depth_record_le (Nat.succ_pos d)
    simp only [List.forall_mem_cons, Json.Member.within_required, Json.Member.within_optional]
    refine ⟨htexts hd, hroot.2, Nat.zero_le d, hcontext, ?_, fun p hp => (hlimits p hp).2,
      fun _ _ => Nat.zero_le d, fun _ _ => Nat.zero_le d, fun m hm => ?_, nofun⟩
    · intro es hes
      exact Json.depth_list_le (hprefill es hes).1 (hprefill es hes).2
    · exact Json.depth_texts_le (hmetadata m hm).1

end Survey

end Questionnaire
