import Questionnaire.Engine.Condition
import Questionnaire.Proofs.Expression.Format

/-!
# Queries of earlier responses

A query of earlier responses has four filters, each of which is set or not.  The filters that are
set are sent one behind the other, and one that is not set leaves no gap.  So the expression for a
query tells the values of its filters once it is known which of them are set
(`forOldResponses_eq_iff`), but it does not tell which ones are set: that all earlier responses must
meet the condition, and that those to the survey `all` are asked for, is sent in the same way
(`forOldResponses_all_eq`).
-/

namespace Questionnaire

/-- Lists of options are the same if the same ones are set, to the same values in the same order. -/
theorem eq_of_isSome_eq {α : Type} {xs ys : List (Option α)}
    (hset : xs.map Option.isSome = ys.map Option.isSome)
    (hvalues : xs.filterMap id = ys.filterMap id) :
  xs = ys
  := by
  induction xs generalizing ys with
  | nil => exact (List.map_eq_nil_iff.mp hset.symm).symm
  | cons x xs ih =>
    obtain ⟨y, ys, rfl, hxy, hrest⟩ := List.map_eq_cons_iff.mp hset.symm
    cases x with
    | none =>
      obtain rfl : y = none := Option.isNone_iff_eq_none.mp (by simpa using hxy)
      rw [ih hrest.symm hvalues]
    | some a =>
      obtain ⟨b, rfl⟩ := Option.isSome_iff_exists.mp hxy
      obtain ⟨rfl, hothers⟩ := List.cons_eq_cons.mp hvalues
      rw [ih hrest.symm hothers]

namespace Condition

/-! ### Checks -/

/-- The count of a check has 32 bits. -/
def OldResponsesCheck.WellFormed : OldResponsesCheck → Prop
  | .atLeast count => count < Nat.pow 2 32
  | .all | .any => True

/-- The count of a check is a double. -/
theorem OldResponsesCheck.toInt?_count {count : Nat} (h : (atLeast count).WellFormed) :
  (Double.ofInt count).toInt? = some (count : Int)
  := Double.toInt?_ofInt (Nat.lt_trans h (Nat.pow_lt_pow_of_lt Nat.one_lt_two (by decide)))

/-- Checks are told apart by their arguments: two by their texts, and the others by their counts,
which are doubles. -/
theorem OldResponsesCheck.eq_of_toArgument_eq {check check' : OldResponsesCheck}
    (hcheck : check.WellFormed) (hcheck' : check'.WellFormed)
    (h : check.toArgument = check'.toArgument) :
  check = check'
  := by
  cases check with
  | all =>
    cases check' with
    | all => rfl
    | any => exact absurd (Argument.text.inj h) (by decide)
    | atLeast count => cases h
  | any =>
    cases check' with
    | all => exact absurd (Argument.text.inj h) (by decide)
    | any => rfl
    | atLeast count => cases h
  | atLeast count =>
    cases check' with
    | all => cases h
    | any => cases h
    | atLeast count' =>
      have heq := toInt?_count hcheck
      rw [Argument.number.inj h, toInt?_count hcheck'] at heq
      rw [Int.ofNat.inj (Option.some.inj heq)]

/-- The count of a check is not negative zero. -/
theorem OldResponsesCheck.normalize_toArgument {check : OldResponsesCheck}
    (hcheck : check.WellFormed) :
  check.toArgument.normalize = check.toArgument
  := by
  cases check with
  | all => rfl
  | any => rfl
  | atLeast count => exact congrArg _ (Double.ofInt_of_toInt? (toInt?_count hcheck)).symm

/-! ### Queries -/

namespace OldResponsesQuery

variable {q q' : OldResponsesQuery}

/-- The count of the check of a query, if it has one, has 32 bits. -/
def WellFormed (q : OldResponsesQuery) : Prop := ∀ check ∈ q.check, check.WellFormed

/-- The arguments for the four filters of a query, none for a filter that is not set. -/
def filters (q : OldResponsesQuery) : List (Option Argument) :=
  [q.check.map OldResponsesCheck.toArgument, q.surveyKey.map .text, q.since, q.before]

theorem eq_of_filters_eq (hq : q.WellFormed) (hq' : q'.WellFormed) (h : q.filters = q'.filters) :
  q = q'
  := by
  obtain ⟨check, surveyKey, since, before⟩ := q
  obtain ⟨check', surveyKey', since', before'⟩ := q'
  simp only [filters, List.cons.injEq, and_true] at h
  obtain ⟨hcheck, hkey, rfl, rfl⟩ := h
  obtain rfl : surveyKey = surveyKey' :=
    Option.map_injective (fun _ _ => Argument.text.inj) hkey
  have hsame : check = check' := by
    cases check with
    | none =>
      exact (Option.map_eq_none_iff.mp hcheck.symm).symm
    | some check =>
      obtain ⟨other, rfl, hother⟩ := Option.map_eq_some_iff.mp hcheck.symm
      rw [OldResponsesCheck.eq_of_toArgument_eq (hq' other rfl) (hq check rfl) hother]
  rw [hsame]

/-- The query, with zero in place of negative zero. -/
def normalize (q : OldResponsesQuery) : OldResponsesQuery :=
  { q with
    since := q.since.map Argument.normalize
    before := q.before.map Argument.normalize }

theorem filters_normalize (hq : q.WellFormed) :
  q.normalize.filters = q.filters.map (Option.map Argument.normalize)
  := by
  have hcheck : (q.check.map OldResponsesCheck.toArgument).map Argument.normalize
      = q.check.map OldResponsesCheck.toArgument := by
    rw [Option.map_map]
    exact Option.map_congr fun check h => OldResponsesCheck.normalize_toArgument (hq check h)
  have hkey : (q.surveyKey.map Argument.text).map Argument.normalize
      = q.surveyKey.map .text := by
    rw [Option.map_map]
    rfl
  simp only [filters, List.map_cons, List.map_nil, hcheck, hkey]
  rfl

/-- Which filters are set does not depend on the sign of zero. -/
theorem map_isSome_filters_normalize (hq : q.WellFormed) :
  q.normalize.filters.map Option.isSome = q.filters.map Option.isSome
  := by
  rw [filters_normalize hq, List.map_map]
  exact List.map_congr_left fun filter _ => Option.isSome_map

theorem filterMap_filters_normalize (hq : q.WellFormed) :
  q.normalize.filters.filterMap id = (q.filters.filterMap id).map Argument.normalize
  := by
  rw [filters_normalize hq, List.filterMap_map, List.map_filterMap]
  rfl

end OldResponsesQuery

variable {q q' : OldResponsesQuery}

theorem forOldResponses_eq (condition : Expression) (q : OldResponsesQuery) :
  forOldResponses condition q
    = ⟨"checkConditionForOldResponses", none, .expression condition :: q.filters.filterMap id⟩
  := rfl

theorem normalize_forOldResponses (condition : Expression) (hq : q.WellFormed) :
  (forOldResponses condition q).normalize = forOldResponses condition.normalize q.normalize
  := by
  rw [forOldResponses_eq, forOldResponses_eq, OldResponsesQuery.filterMap_filters_normalize hq,
    Expression.normalize, Argument.normalizeAll_eq_map, List.map_cons, Argument.normalize]

/-- Queries are sent as the same expression exactly if the filters that they set have the same
arguments in the same order. -/
theorem forOldResponses_eq_iff_filterMap (condition : Expression) :
  forOldResponses condition q = forOldResponses condition q'
    ↔ q.filters.filterMap id = q'.filters.filterMap id
  := by
  rw [forOldResponses_eq, forOldResponses_eq]
  constructor
  · intro h
    exact List.tail_eq_of_cons_eq (congrArg Expression.arguments h)
  · intro h
    rw [h]

/-- If the filters of different queries have the same arguments, they are not the same filters. -/
theorem OldResponsesQuery.filterMap_eq_iff_of_ne (hq : q.WellFormed) (hq' : q'.WellFormed)
    (hne : q ≠ q') :
  q.filters.filterMap id = q'.filters.filterMap id
    ↔ q.filters.map Option.isSome ≠ q'.filters.map Option.isSome
      ∧ q.filters.filterMap id = q'.filters.filterMap id
  := by
  rw [iff_and_self]
  intro hvalues hset
  exact hne (eq_of_filters_eq hq hq' (eq_of_isSome_eq hset hvalues))

/-- Different queries are sent as the same expression exactly if they do not set the same filters,
but those that they set have the same arguments in the same order.  This holds also where the sign
of zero does not count. -/
theorem forOldResponses_eq_iff (condition : Expression) (hq : q.WellFormed) (hq' : q'.WellFormed) :
  (q ≠ q' → (forOldResponses condition q = forOldResponses condition q'
    ↔ q.filters.map Option.isSome ≠ q'.filters.map Option.isSome
      ∧ q.filters.filterMap id = q'.filters.filterMap id))
    ∧ (q.normalize ≠ q'.normalize →
      ((forOldResponses condition q).normalize = (forOldResponses condition q').normalize
        ↔ q.filters.map Option.isSome ≠ q'.filters.map Option.isSome
          ∧ (q.filters.filterMap id).map Argument.normalize
            = (q'.filters.filterMap id).map Argument.normalize))
  := by
  constructor
  · intro hne
    rw [forOldResponses_eq_iff_filterMap]
    exact OldResponsesQuery.filterMap_eq_iff_of_ne hq hq' hne
  · intro hne
    rw [normalize_forOldResponses condition hq, normalize_forOldResponses condition hq',
      forOldResponses_eq_iff_filterMap, ← OldResponsesQuery.filterMap_filters_normalize hq,
      ← OldResponsesQuery.filterMap_filters_normalize hq',
      ← OldResponsesQuery.map_isSome_filters_normalize hq,
      ← OldResponsesQuery.map_isSome_filters_normalize hq']
    exact OldResponsesQuery.filterMap_eq_iff_of_ne hq hq' hne

/-- The same time is a lower or an upper bound for the same expression, but two lower bounds are
not confused.  Negative zero as a lower bound is sent like the count zero, up to its sign. -/
theorem forOldResponses_eq_iff_of_bound :
  let condition : Expression := .named "isDefined"
  let since : OldResponsesQuery := { check := some (.atLeast 2), since := some (.int 100) }
  let before : OldResponsesQuery := { check := some (.atLeast 2), before := some (.int 100) }
  let more : OldResponsesQuery := { check := some (.atLeast 3), since := some (.int 100) }
  let count : OldResponsesQuery := { check := some (.atLeast 0) }
  let minus : OldResponsesQuery := { since := some (.number (Double.zero true)) }
  since.WellFormed ∧ before.WellFormed ∧ more.WellFormed ∧ count.WellFormed ∧ minus.WellFormed
    ∧ since ≠ before ∧ since ≠ more ∧ count.normalize ≠ minus.normalize
    ∧ forOldResponses condition since = forOldResponses condition before
    ∧ forOldResponses condition since ≠ forOldResponses condition more
    ∧ (forOldResponses condition count).normalize = (forOldResponses condition minus).normalize
  := by
  intro condition since before more count minus
  have hsince : since.WellFormed := by
    rintro _ ⟨⟩
    show 2 < Nat.pow 2 32
    decide
  have hbefore : before.WellFormed := hsince
  have hmore : more.WellFormed := by
    rintro _ ⟨⟩
    show 3 < Nat.pow 2 32
    decide
  have hcount : count.WellFormed := by
    rintro _ ⟨⟩
    show 0 < Nat.pow 2 32
    decide
  have hminus : minus.WellFormed := by
    rintro _ ⟨⟩
  have hbound : since ≠ before := by
    intro h
    cases congrArg OldResponsesQuery.since h
  have hthree : since ≠ more := by
    intro h
    cases congrArg OldResponsesQuery.check h
  have hset : count.normalize ≠ minus.normalize := by
    intro h
    cases congrArg OldResponsesQuery.check h
  refine ⟨hsince, hbefore, hmore, hcount, hminus, hbound, hthree, hset, ?_, ?_, ?_⟩
  · exact ((forOldResponses_eq_iff condition hsince hbefore).1 hbound).mpr ⟨by decide, rfl⟩
  · intro h
    exact (((forOldResponses_eq_iff condition hsince hmore).1 hthree).mp h).1 rfl
  · exact ((forOldResponses_eq_iff condition hcount hminus).2 hset).mpr ⟨by decide, rfl⟩

/-- Two queries that are different and are sent as the same expression. -/
theorem forOldResponses_all_eq :
  let all : OldResponsesQuery := { check := some .all }
  let key : OldResponsesQuery := { surveyKey := some "all" }
  all ≠ key
    ∧ forOldResponses (.named "isDefined") all = forOldResponses (.named "isDefined") key
  := by
  intro all key
  refine ⟨?_, rfl⟩
  intro h
  cases congrArg OldResponsesQuery.check h

end Condition

end Questionnaire
