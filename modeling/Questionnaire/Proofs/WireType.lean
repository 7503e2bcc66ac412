import Questionnaire.Proofs.Json.Document
import Questionnaire.Proofs.Study.Format

/-!
# The documents of the wire

The documents that are exchanged as JSON, from an expression to the bundle of a study.  A document
that is written is read as the same document, and so writing a document that was read and reading
it again changes nothing.  The one exception is negative zero among the arguments of expressions:
it is written as the integer zero, and that is what is read.
-/

namespace Questionnaire

/-- The types of documents that are exchanged as JSON. -/
inductive WireType where
  | survey
  | expression
  | argument
  | component
  | item
  | studyRules
  | customRule
  | message
  | bundle
  deriving DecidableEq, Repr

namespace WireType

/-- The documents of a type. -/
def Document : WireType → Type
  | .survey => Survey
  | .expression => Expression
  | .argument => Argument
  | .component => Component
  | .item => Item
  | .studyRules => StudyRules
  | .customRule => CustomRule
  | .message => MessageConfig
  | .bundle => Bundle

/-- The JSON form of a document. -/
def toJson : (t : WireType) → t.Document → Json
  | .survey => Survey.toJson
  | .expression => Expression.toJson
  | .argument => Argument.toJson
  | .component => Component.toJson
  | .item => Item.toJson
  | .studyRules => StudyRules.toJson
  | .customRule => CustomRule.toJson
  | .message => MessageConfig.toJson
  | .bundle => Bundle.toJson

/-- The reader of the documents of a type. -/
def reader : (t : WireType) → Reader t.Document
  | .survey => Survey.reader
  | .expression => Expression.reader
  | .argument => Argument.reader
  | .component => Component.reader
  | .item => Item.reader
  | .studyRules => StudyRules.fields.reader
  | .customRule => CustomRule.fields.reader
  | .message => MessageConfig.fields.reader
  | .bundle => Bundle.reader

/-- The document, with zero in place of negative zero among the numbers of its expressions. -/
def normalize : (t : WireType) → t.Document → t.Document
  | .survey => Survey.normalize
  | .expression => Expression.normalize
  | .argument => Argument.normalize
  | .component => Component.normalize
  | .item => Item.normalize
  | .studyRules => StudyRules.normalize
  | .customRule => CustomRule.normalize
  | .message => id
  | .bundle => Bundle.normalize

/-- The dictionaries of the document stand in the order of their names, and its integers have the
bits of their types. -/
def WellFormed : (t : WireType) → t.Document → Prop
  | .survey => Survey.WellFormed
  | .component => Component.WellFormed
  | .item => Item.WellFormed
  | .bundle => Bundle.WellFormed
  | .expression | .argument | .studyRules | .customRule | .message => fun _ => True

/-- The text of a document. -/
def toText (t : WireType) (style : Json.Style) (v : t.Document) : String :=
  (t.toJson v).toText style

theorem reads (t : WireType) {v : t.Document} (h : t.WellFormed v) (bound : Nat) :
  t.reader.Reads bound (t.toJson v) (t.normalize v)
  := by
  cases t with
  | survey => exact Survey.WellFormed.reads h bound
  | expression => exact Expression.reads v bound
  | argument => exact Argument.reads v bound
  | component => exact Component.WellFormed.reads h bound
  | item => exact Item.WellFormed.reads h bound
  | studyRules => exact StudyRules.reads v bound
  | customRule => exact CustomRule.reads v bound
  | message => exact MessageConfig.reads v bound
  | bundle => exact Bundle.WellFormed.reads h bound

/-- The sign of zero is not written. -/
theorem toJson_normalize (t : WireType) (v : t.Document) :
  t.toJson (t.normalize v) = t.toJson v
  := by
  cases t with
  | survey => exact Survey.toJson_normalize v
  | expression => exact Expression.toJson_normalize v
  | argument => exact Argument.toJson_normalize v
  | component => exact Component.toJson_normalize v
  | item => exact Item.toJson_normalize v
  | studyRules => exact StudyRules.toJson_normalize v
  | customRule => exact CustomRule.toJson_normalize v
  | message => rfl
  | bundle => exact Bundle.toJson_normalize v

/-- What is read is well formed, and nests no deeper, when it is written, than it was allowed to
if that is deep enough for the lists of a bundle. -/
theorem yields (t : WireType) :
  t.reader.Yields fun d v => t.WellFormed v ∧ (1 < d → (t.toJson v).depth ≤ d)
  := by
  have hplain {α : Type} {r : Reader α} {P : Nat → α → Prop} (h : r.Yields P) :
      r.Yields fun d v => True ∧ (1 < d → P d v) :=
    h.mono fun _ _ hv => ⟨trivial, fun _ => hv⟩
  have hformed {α : Type} {r : Reader α} {W : α → Prop} {P : Nat → α → Prop}
      (h : r.Yields fun d v => W v ∧ P d v) : r.Yields fun d v => W v ∧ (1 < d → P d v) :=
    h.mono fun _ _ hv => ⟨hv.1, fun _ => hv.2⟩
  cases t with
  | survey => exact hformed Survey.yields
  | expression => exact hplain Expression.yields
  | argument => exact hplain Argument.yields
  | component => exact hformed Component.yields
  | item => exact hformed Item.yields
  | studyRules => exact hplain StudyRules.yields
  | customRule => exact hplain CustomRule.yields
  | message => exact hplain MessageConfig.yields
  | bundle => exact Bundle.yields

/-- A document that is written is read as it was, but for the sign of zero, and a document that
was read stays the same, but for the sign of zero, however often it is written and read again. -/
theorem roundTrip (t : WireType) (style : Json.Style) :
  (∀ v, t.WellFormed v → (t.toJson v).depth ≤ maxNesting → (t.toJson v).FloatsReadBack →
    t.reader.ofText (t.toText style v) = .ok (t.normalize v)) ∧
  (∀ text v, t.reader.ofText text = .ok v → (t.toJson v).FloatsReadBack →
    t.reader.ofText (t.toText style v) = .ok (t.normalize v) ∧
    t.toText style (t.normalize v) = t.toText style v)
  := by
  have hwritten (v : t.Document) (hv : t.WellFormed v) (hdepth : (t.toJson v).depth ≤ maxNesting)
      (hfloats : (t.toJson v).FloatsReadBack) :
      t.reader.ofText (t.toText style v) = .ok (t.normalize v) :=
    (t.reads hv (maxNesting + 1)).ofText_toText (Nat.lt_succ_self _) hdepth hfloats style
  constructor
  · exact hwritten
  · intro text v hv hfloats
    obtain ⟨hformed, hdepth⟩ := t.yields.of_ofText hv
    constructor
    · exact hwritten v hformed (hdepth (by decide)) hfloats
    · rw [toText, toText, t.toJson_normalize]

/-! ### A survey that is read back

The survey has the numbers of every kind: an argument that is negative zero, doubles with a
fraction among the arguments and outside of them, and an integer among the properties of a
component.
-/

/-- The double `0.5`. -/
def half : Double := ⟨false, Nat.pow 2 52, -53, by decide⟩

theorem half_toInt? :
  half.toInt? = none
  := by decide +kernel

theorem half_readsBack :
  Numeral.ReadsBack (.double half)
  := by
  have hwrite : half.write = ['0', '.', '5'] := by decide +kernel
  have hread : Double.ofDecimal? ⟨false, [0], some [5], none⟩ = some half := by decide +kernel
  show Outline.takeNumber half.write = _
  rw [hwrite]
  simp [Outline.takeNumber, Outline.takeMagnitude, Outline.takeFraction, Outline.takeExponent,
    Outline.decimalToken, Outline.numeral?, List.span, List.span.loop, Outline.digitValues, hread,
    Json.token]

/-- The component of the only item of the survey. -/
def sampleComponent : Component :=
  ⟨{ role := "root", properties := some [("max", .int 3)] }, some []⟩

/-- A survey with one item. -/
def sample : Survey where
  root :=
    { head :=
        { key := "q"
          condition := some (.apply "gt" [.number (.zero true), .number half]) }
      selectionMethod := none
      items := [
        .single
          { head := { key := "q.a", priority := some half }
            components := some sampleComponent }] }

theorem sampleComponent_wellFormed :
  sampleComponent.WellFormed
  := by
  apply Component.WellFormed.group
  · intro properties hproperties
    cases hproperties
    apply Json.Canonical.object
    · simp [Dict.Ordered]
    · intro m hm
      rw [List.mem_singleton.mp hm]
      apply Json.Canonical.number
      constructor <;> decide
  · simp

theorem sample_wellFormed :
  sample.WellFormed
  where
    root := by
      apply Item.WellFormed.group
      · simp [Item.Head.WellFormed]
      · intro x hx
        rw [List.mem_singleton.mp hx]
        apply Item.WellFormed.single
        constructor
        · simp [Item.Head.WellFormed]
        · intro c hc
          cases hc
          exact sampleComponent_wellFormed
    pageLimits := nofun
    metadata := nofun

/-- The members of the survey as they are written. -/
theorem sample_toJson :
  sample.toJson = .object [
    ("props", .object []),
    ("surveyDefinition", .object [
      ("key", .string "q"),
      ("condition", .object [
        ("name", .string "gt"),
        ("data", .array [
          .object [("dtype", .string "num"), ("num", .int 0)],
          .object [("dtype", .string "num"), ("num", .double half)]])]),
      ("items", .array [
        .object [
          ("key", .string "q.a"),
          ("priority", .double half),
          ("components", .object [
            ("role", .string "root"),
            ("properties", .object [("max", .int 3)]),
            ("items", .array [])])]])]),
    ("versionId", .string "")]
  := by
  have hzero : (Double.zero true).toInt? = some 0 := by decide +kernel
  simp only [Survey.toJson, sample, Group.toJson_mk]
  simp [Json.record, Json.Member.optional, Json.Member.required, SurveyTexts.toJson,
    Item.Head.members, Expression.apply, Expression.toJson, Argument.toJson, Argument.toJsonAll,
    Argument.numberToJson, hzero, half_toInt?, Item.toJson, SingleItem.toJson, Json.list,
    Component.toJson, Component.toJsonAll, sampleComponent, Component.Head.membersBefore,
    Component.Head.membersBehind, Json.dict]

theorem sample_floatsReadBack :
  sample.toJson.FloatsReadBack
  := by
  intro x hx
  rw [sample_toJson] at hx
  have hx : x = half := by simpa [Json.numerals, Json.numeralsMembers, Json.numeralsElements,
    Json.int, Json.double] using hx
  rw [hx]
  exact half_readsBack

/-- The survey is read with zero in place of negative zero, and from then on it stays the same. -/
theorem sample_roundTrip :
  survey.reader.ofText (survey.toText .pretty sample) = .ok (survey.normalize sample) ∧
  survey.reader.ofText (survey.toText .compact (survey.normalize sample))
    = .ok (survey.normalize (survey.normalize sample))
  := by
  have hdepth : (survey.toJson sample).depth ≤ maxNesting := by
    show sample.toJson.depth ≤ maxNesting
    rw [sample_toJson]
    simp [Json.depth, Json.depthMembers, Json.depthElements, Json.int, Json.double, maxNesting]
  have hread := (roundTrip survey .pretty).1 sample sample_wellFormed hdepth sample_floatsReadBack
  have hfloats : sample.normalize.toJson.FloatsReadBack := by
    rw [Survey.toJson_normalize]
    exact sample_floatsReadBack
  exact ⟨hread, ((roundTrip survey .compact).2 _ _ hread hfloats).1⟩

end WireType

end Questionnaire
