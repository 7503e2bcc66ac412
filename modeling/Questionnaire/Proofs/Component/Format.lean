import Questionnaire.Component.Format
import Questionnaire.Proofs.Expression.Format

/-!
# Reading components that are written

A component is read as it was written, except that negative zero among the numbers of its
expressions is read as zero.  The properties of a component are arbitrary JSON; they come back if
their members stand in order, as those that are read always do.
-/

namespace Questionnaire

/-! ### Localized texts -/

namespace LocalizedText

/-- The text, with zero in place of negative zero. -/
def normalize (t : LocalizedText) : LocalizedText :=
  { t with parts := t.parts.map Argument.normalize }

theorem reads (t : LocalizedText) (bound : Nat) :
  reader.Reads bound t.toJson t.normalize
  := by
  apply Fields.reads_reader
  exact (((Fields.Reads.pure LocalizedText.mk).required "code"
    (Reader.reads_string t.code)).required "parts"
    (Reader.reads_list fun a _ => a.reads bound)).optional "resolvedText" t.resolvedText
    (fun s _ => Reader.reads_string s) nofun

theorem toJson_normalize (t : LocalizedText) :
  t.normalize.toJson = t.toJson
  := by
  unfold toJson normalize
  rw [Json.list_map_eq fun a _ => a.toJson_normalize]

theorem yields :
  reader.Yields fun d t => t.toJson.depth ≤ d
  := by
  apply Fields.yields_reader_succ
  apply Fields.Yields.seq (Fields.yields_optional (Reader.yields_any _))
  apply Fields.Yields.seq (Fields.yields_required (Reader.yields_list Argument.yields))
  apply Fields.Yields.seq (Fields.yields_required (Reader.yields_any _))
  apply Fields.Yields.pure
  intro d code _ parts hparts resolvedText _
  apply Json.depth_record_le (Nat.succ_pos d)
  simp only [List.forall_mem_cons, Json.Member.within_required, Json.Member.within_optional]
  exact ⟨Nat.zero_le d, Json.depth_list_le hparts.1 hparts.2, fun _ _ => Nat.zero_le d, nofun⟩

end LocalizedText

/-! ### Styles -/

namespace StyleEntry

theorem reads (s : StyleEntry) (bound : Nat) :
  fields.reader.Reads bound s.toJson s
  := by
  apply Fields.reads_reader
  exact ((Fields.Reads.pure StyleEntry.mk).required "key" (Reader.reads_string s.key)).required
    "value" (Reader.reads_string s.value)

theorem yields :
  fields.reader.Yields fun d s => s.toJson.depth ≤ d
  := by
  apply Fields.yields_reader_succ
  apply Fields.Yields.seq (Fields.yields_required (Reader.yields_any _))
  apply Fields.Yields.seq (Fields.yields_required (Reader.yields_any _))
  apply Fields.Yields.pure
  intro d key _ value _
  apply Json.depth_record_le (Nat.succ_pos d)
  simp only [List.forall_mem_cons, Json.Member.within_required]
  exact ⟨Nat.zero_le d, Nat.zero_le d, nofun⟩

end StyleEntry

/-! ### Components -/

namespace Component

/-- The head, with zero in place of negative zero. -/
def Head.normalize (h : Head) : Head :=
  { h with
    content := h.content.map (·.map LocalizedText.normalize)
    description := h.description.map (·.map LocalizedText.normalize)
    displayCondition := h.displayCondition.map Expression.normalize
    disabled := h.disabled.map Expression.normalize
    order := h.order.map Expression.normalize }

mutual

/-- The component, with zero in place of negative zero among the numbers of its expressions. -/
def normalize : Component → Component
  | ⟨head, none⟩ => ⟨head.normalize, none⟩
  | ⟨head, some items⟩ => ⟨head.normalize, some (normalizeAll items)⟩

/-- The components, with zero in place of negative zero. -/
def normalizeAll : List Component → List Component
  | [] => []
  | c :: rest => c.normalize :: normalizeAll rest

end

theorem normalizeAll_eq_map (items : List Component) :
  normalizeAll items = items.map normalize
  := by
  induction items with
  | nil => rfl
  | cons c rest ih => rw [normalizeAll, ih, List.map_cons]

theorem toJsonAll_eq_map (items : List Component) :
  toJsonAll items = items.map toJson
  := by
  induction items with
  | nil => rfl
  | cons c rest ih => rw [toJsonAll, ih, List.map_cons]

/-- What passes from the components inside a component to the component holds of every component.
-/
theorem inductionOn {P : Component → Prop} (c : Component)
    (mk : ∀ head items, (∀ cs ∈ items, ∀ c ∈ cs, P c) → P ⟨head, items⟩) :
  P c
  := by
  apply @Component.rec P (fun items => ∀ cs ∈ items, ∀ c ∈ cs, P c) (fun cs => ∀ c ∈ cs, P c) mk
  · nofun
  · intro cs hcs cs' h
    cases h
    exact hcs
  · nofun
  · intro c cs hc hcs
    exact List.forall_mem_cons.mpr ⟨hc, hcs⟩

/-- The properties of the component are JSON in order. -/
def Head.WellFormed (h : Head) : Prop :=
  ∀ properties ∈ h.properties, (Json.object properties).Canonical

/-- The properties of the component and of the components inside it are JSON in order. -/
inductive WellFormed : Component → Prop where
  | leaf {head : Head} (h : head.WellFormed) : WellFormed ⟨head, none⟩
  | group {head : Head} {items : List Component} (h : head.WellFormed)
    (hitems : ∀ c ∈ items, WellFormed c) : WellFormed ⟨head, some items⟩

/-- The items of a component stand between the members of its head. -/
def memberList (c : Component) : List Json.Member :=
  c.head.membersBefore ++ .optional "items" (.list toJson) c.items :: c.head.membersBehind

theorem toJson_eq (c : Component) :
  c.toJson = .record c.memberList
  := by
  obtain ⟨head, items⟩ := c
  cases items with
  | none =>
    rw [toJson]
    rfl
  | some items =>
    rw [toJson, toJsonAll_eq_map]
    rfl

theorem normalize_mk (head : Head) (items : Option (List Component)) :
  normalize ⟨head, items⟩ = ⟨head.normalize, items.map (·.map normalize)⟩
  := by
  cases items with
  | none => rfl
  | some items =>
    rw [normalize, normalizeAll_eq_map]
    rfl

/-- The sign of zero is not written. -/
theorem toJson_normalize (c : Component) :
  c.normalize.toJson = c.toJson
  := by
  induction c using inductionOn with
  | mk head items ih =>
    have htexts : ∀ ts : List LocalizedText, Json.list LocalizedText.toJson
        (ts.map LocalizedText.normalize) = Json.list LocalizedText.toJson ts :=
      fun ts => Json.list_map_eq fun t _ => t.toJson_normalize
    have hitems : ∀ cs ∈ items, Json.list toJson (cs.map normalize) = Json.list toJson cs :=
      fun cs hcs => Json.list_map_eq (ih cs hcs)
    rw [normalize_mk, toJson_eq, toJson_eq]
    simp only [memberList, Head.membersBefore, Head.membersBehind, Head.normalize,
      Json.Member.optional_map_eq fun ts _ => htexts ts, Json.Member.optional_map_eq hitems,
      Json.Member.optional_map_eq fun e _ => Expression.toJson_normalize e]

theorem reads_properties {properties : Dict Json} (h : (Json.object properties).Canonical)
    (bound : Nat) :
  (Reader.dict Outline.json).Reads bound (.dict id properties) properties
  := by
  cases h with
  | object ordered hmembers =>
    exact Reader.reads_dict_self ordered fun m hm => Outline.reads_json (hmembers m hm)

/-- A component is read if the components inside it are. -/
theorem reads_with {inner : Reader Component} {bound : Nat} (c : Component)
    (h : c.head.WellFormed)
    (hitems : ∀ items ∈ c.items, ∀ d ∈ items, inner.Reads bound d.toJson d.normalize) :
  (fieldsWith inner).reader.Reads (bound + 1) c.toJson
    ⟨c.head.normalize, c.items.map (·.map normalize)⟩
  := by
  rw [toJson_eq]
  apply Fields.reads_reader_succ
  have htexts (ts : List LocalizedText) : (Reader.list LocalizedText.reader).Reads bound
      (.list LocalizedText.toJson ts) (ts.map LocalizedText.normalize) :=
    Reader.reads_list fun t _ => t.reads bound
  exact (((((((((((Fields.Reads.pure ofFields).required "role"
    (Reader.reads_string c.head.role)).optional "key" c.head.key
    (fun s _ => Reader.reads_string s) nofun).optionalMap "content" c.head.content
    (fun ts _ => htexts ts) nofun).optionalMap "description" c.head.description
    (fun ts _ => htexts ts) nofun).optionalMap "displayCondition" c.head.displayCondition
    (fun e _ => e.reads bound) Expression.toJson_ne_null).optionalMap "disabled" c.head.disabled
    (fun e _ => e.reads bound) Expression.toJson_ne_null).optional "style" c.head.style
    (fun ss _ => Reader.reads_list_self fun s _ => s.reads bound) nofun).optional
    "properties" c.head.properties
    (fun ps hps => reads_properties (h ps hps) bound) nofun).optional "dtype" c.head.dataType
    (fun s _ => Reader.reads_string s) nofun).optionalMap "items" c.items
    (fun cs hcs => Reader.reads_list (hitems cs hcs)) nofun).optionalMap "order" c.head.order
    (fun e _ => e.reads bound) Expression.toJson_ne_null

/-- A component is read as it was written, but for the sign of zero. -/
theorem WellFormed.reads {c : Component} (h : c.WellFormed) (bound : Nat) :
  reader.Reads bound c.toJson c.normalize
  := by
  apply Reader.reads_fix
  intro n
  induction h generalizing n with
  | @leaf head h =>
    apply Reader.reads_unroll
    intro n
    exact reads_with ⟨head, none⟩ h nofun
  | @group head items h hitems ih =>
    apply Reader.reads_unroll
    intro n
    rw [normalize, normalizeAll_eq_map]
    apply reads_with ⟨head, some items⟩ h
    intro cs hcs c hc
    cases hcs
    exact ih c hc n

theorem toJson_ne_null (c : Component) :
  c.toJson ≠ .null
  := by
  rw [toJson_eq]
  nofun

theorem wellFormed_mk {head : Head} {items : Option (List Component)} (h : head.WellFormed)
    (hitems : ∀ cs ∈ items, ∀ c ∈ cs, c.WellFormed) :
  WellFormed ⟨head, items⟩
  := by
  cases items with
  | none => exact .leaf h
  | some cs => exact .group h (hitems cs rfl)

/-- What is read as a component is well formed, and nests no deeper, when it is written, than it
was allowed to. -/
theorem yields :
  reader.Yields fun d c => c.WellFormed ∧ c.toJson.depth ≤ d
  := by
  apply Reader.yields_fix
  intro inner h
  apply Fields.yields_reader_succ
  apply Fields.Yields.seq (Fields.yields_optional Expression.yields)
  apply Fields.Yields.seq (Fields.yields_optional (Reader.yields_list h))
  apply Fields.Yields.seq (Fields.yields_optional (Reader.yields_any _))
  apply Fields.Yields.seq (Fields.yields_optional (Reader.yields_dict Outline.yields_json))
  apply Fields.Yields.seq (Fields.yields_optional (Reader.yields_list StyleEntry.yields))
  apply Fields.Yields.seq (Fields.yields_optional Expression.yields)
  apply Fields.Yields.seq (Fields.yields_optional Expression.yields)
  apply Fields.Yields.seq (Fields.yields_optional (Reader.yields_list LocalizedText.yields))
  apply Fields.Yields.seq (Fields.yields_optional (Reader.yields_list LocalizedText.yields))
  apply Fields.Yields.seq (Fields.yields_optional (Reader.yields_any _))
  apply Fields.Yields.seq (Fields.yields_required (Reader.yields_any _))
  apply Fields.Yields.pure
  intro d role _ key _ content hcontent description hdescription displayCondition hdisplay
    disabled hdisabled style hstyle properties hproperties dataType _ items hitems order horder
  constructor
  · apply wellFormed_mk
    · intro ps hps
      obtain ⟨-, ordered, hmembers⟩ := hproperties ps hps
      exact .object ordered fun m hm => (hmembers m hm).1
    · intro cs hcs c hc
      exact ((hitems cs hcs).2 c hc).1
  · rw [toJson_eq]
    apply Json.depth_record_le (Nat.succ_pos d)
    simp only [memberList, ofFields, Head.membersBefore, Head.membersBehind, List.cons_append,
      List.nil_append, List.forall_mem_cons, Json.Member.within_required,
      Json.Member.within_optional]
    refine ⟨Nat.zero_le d, fun _ _ => Nat.zero_le d, ?_, ?_, hdisplay, hdisabled, ?_, ?_,
      fun _ _ => Nat.zero_le d, ?_, horder, nofun⟩
    · intro ts hts
      exact Json.depth_list_le (hcontent ts hts).1 (hcontent ts hts).2
    · intro ts hts
      exact Json.depth_list_le (hdescription ts hts).1 (hdescription ts hts).2
    · intro ss hss
      exact Json.depth_list_le (hstyle ss hss).1 (hstyle ss hss).2
    · intro ps hps
      obtain ⟨hd, -, hmembers⟩ := hproperties ps hps
      exact Json.depth_dict_le hd fun m hm => (hmembers m hm).2
    · intro cs hcs
      obtain ⟨hd, hall⟩ := hitems cs hcs
      exact Json.depth_list_le hd fun c hc => (hall c hc).2

end Component

end Questionnaire
