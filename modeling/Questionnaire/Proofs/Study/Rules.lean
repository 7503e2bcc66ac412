import Mathlib.Data.List.Induction
import Questionnaire.Proofs.Study.Format

/-!
# Rules composed of actions

Study rules are made in steps, each of which sets the actions for a kind of event or clears them.
The last step for a kind decides which actions it has in the end (`actions_applyAll`).

The composed rules are one rule for each kind with actions, in the order of the kinds
(`compose_eq_map`).  The actions for a kind can be read off them again (`actionsIn_compose`), so
they tell study rules apart, except that no actions and an empty list of actions are the same
(`compose_eq_compose_iff`).
-/

namespace Questionnaire

namespace EventKind

theorem lookup_name (kind : EventKind) :
  names.lookup kind.name = some kind
  := by
  cases kind with
  | _ => rfl

theorem name_inj {kind other : EventKind} :
  kind.name = other.name ↔ kind = other
  := by
  constructor
  · intro h
    have hlookup := lookup_name kind
    rw [h, lookup_name other] at hlookup
    exact (Option.some.inj hlookup).symm
  · rintro rfl
    rfl

theorem filter_all_eq (kind : EventKind) :
  all.filter (fun other => other = kind) = [kind]
  := by
  cases kind with
  | _ => rfl

end EventKind

namespace StudyRules

variable {r s : StudyRules}

/-! ### The actions for each kind -/

/-- The actions that are assigned to a kind are read back for this kind, and those for any other
kind are as before. -/
theorem actions_assign (r : StudyRules) (kind other : EventKind)
    (actions : Option (List Expression)) :
  (r.assign kind actions).actions other = if other = kind then actions else r.actions other
  := by
  cases kind with
  | _ => cases other with
    | _ => rfl

theorem eq_of_actions_eq (h : ∀ kind, r.actions kind = s.actions kind) :
  r = s
  := by
  obtain ⟨enter, submit, timer, merge, leave, custom⟩ := r
  obtain ⟨enter', submit', timer', merge', leave', custom'⟩ := s
  obtain rfl : enter = enter' := h .enter
  obtain rfl : submit = submit' := h .submit
  obtain rfl : timer = timer' := h .timer
  obtain rfl : merge = merge' := h .merge
  obtain rfl : leave = leave' := h .leave
  obtain rfl : custom = custom' := h .custom
  rfl

/-! ### Steps -/

/-- A step in which study rules are made. -/
inductive Step where
  | set (kind : EventKind) (actions : List Expression)
  | clear (kind : EventKind)

namespace Step

/-- The kind that a step is about. -/
def kind : Step → EventKind
  | set kind _ => kind
  | clear kind => kind

/-- What a step leaves as the actions for its kind. -/
def actions : Step → Option (List Expression)
  | set _ actions => some actions
  | clear _ => none

/-- The last of some steps that is about a kind. -/
def lastFor? (kind : EventKind) (steps : List Step) : Option Step :=
  (steps.filter fun step => step.kind = kind).getLast?

end Step

/-- The rules after a step. -/
def apply (r : StudyRules) (step : Step) : StudyRules := r.assign step.kind step.actions

/-- The rules after some steps. -/
def applyAll (r : StudyRules) (steps : List Step) : StudyRules := steps.foldl apply r

/-- The last step for a kind decides about its actions. -/
theorem actions_applyAll (r : StudyRules) (steps : List Step) (kind : EventKind) :
  (r.applyAll steps).actions kind = (Step.lastFor? kind steps).elim (r.actions kind) Step.actions
  := by
  induction steps using List.reverseRecOn with
  | nil => rfl
  | append_singleton steps step ih =>
    have happly : r.applyAll (steps ++ [step]) = (r.applyAll steps).apply step :=
      List.foldl_concat ..
    rw [happly, apply, actions_assign, Step.lastFor?, List.filter_append]
    by_cases hkind : kind = step.kind
    · rw [if_pos hkind, List.filter_cons_of_pos (by simp [hkind]), List.filter_nil,
        List.getLast?_concat, Option.elim_some]
    · rw [if_neg hkind, List.filter_cons_of_neg (by simp [Ne.symm hkind]), List.filter_nil,
        List.append_nil, ih, Step.lastFor?]

/-- Only the order of the steps for one kind matters. -/
theorem applyAll_congr {steps others : List Step} (h : ∀ kind,
    steps.filter (fun step => step.kind = kind) = others.filter fun step => step.kind = kind) :
  r.applyAll steps = r.applyAll others
  := by
  apply eq_of_actions_eq
  intro kind
  rw [actions_applyAll, actions_applyAll, Step.lastFor?, Step.lastFor?, h]

/-! ### Composed rules -/

/-- The actions for a kind, the empty list if they are not set. -/
def actionsFor (r : StudyRules) (kind : EventKind) : List Expression := (r.actions kind).getD []

/-- The rule that runs the actions on events of a kind. -/
def rule (kind : EventKind) (actions : List Expression) : Expression :=
  ⟨"IFTHEN", none,
    .expression ⟨"checkEventType", none, [.text kind.name]⟩ :: actions.map .expression⟩

theorem ruleFor?_eq (r : StudyRules) (kind : EventKind) :
  r.ruleFor? kind
    = if (r.actionsFor kind).isEmpty then none else some (rule kind (r.actionsFor kind))
  := by
  rw [ruleFor?, actionsFor]
  cases r.actions kind with
  | none => rfl
  | some actions =>
    cases actions with
    | nil => rfl
    | cons first rest => rfl

/-- One rule is composed for each kind with actions. -/
theorem compose_eq_map (r : StudyRules) :
  r.compose = (EventKind.all.filter fun kind => !(r.actionsFor kind).isEmpty).map
    fun kind => rule kind (r.actionsFor kind)
  := by
  rw [compose]
  induction EventKind.all with
  | nil => rfl
  | cons kind kinds ih =>
    rw [List.filterMap_cons, ruleFor?_eq, List.filter_cons]
    cases (r.actionsFor kind).isEmpty with
    | true => exact ih
    | false => exact congrArg (rule kind (r.actionsFor kind) :: ·) ih

/-- The name of the kind of events on which a rule runs. -/
def eventName? (rule : Expression) : Option String :=
  match rule.arguments with
  | .expression ⟨_, _, [.text name]⟩ :: _ => some name
  | _ => none

/-- The actions that rules run on events of a kind. -/
def actionsIn (kind : EventKind) (rules : List Expression) : List Expression :=
  (rules.filter fun rule => eventName? rule = some kind.name).flatMap
    fun rule => rule.arguments.tail.filterMap Argument.expression?

theorem actionsIn_rule (kind : EventKind) (actions : List Expression) :
  (rule kind actions).arguments.tail.filterMap Argument.expression? = actions
  := by
  rw [rule, List.tail_cons, List.filterMap_map]
  exact List.filterMap_some

/-- The actions for a kind can be read off the composed rules. -/
theorem actionsIn_compose (r : StudyRules) (kind : EventKind) :
  actionsIn kind r.compose = r.actionsFor kind
  := by
  have hname : ((fun e => decide (eventName? e = some kind.name))
      ∘ fun other => rule other (r.actionsFor other)) = fun other => decide (other = kind) := by
    funext other
    have heq : eventName? (rule other (r.actionsFor other)) = some other.name := rfl
    simp only [Function.comp_apply, heq, Option.some_inj, EventKind.name_inj]
  rw [actionsIn, compose_eq_map, List.filter_map, hname, List.filter_comm, EventKind.filter_all_eq,
    List.filter_singleton]
  cases hactions : r.actionsFor kind with
  | nil => rfl
  | cons first rest =>
    rw [← hactions]
    simp only [hactions, List.isEmpty_cons, Bool.not_false, cond_true, List.map_singleton,
      List.flatMap_singleton, actionsIn_rule]

/-- The composed rules are the same exactly if the actions for each kind are. -/
theorem compose_eq_compose_iff :
  r.compose = s.compose ↔ ∀ kind, r.actionsFor kind = s.actionsFor kind
  := by
  constructor
  · intro h kind
    rw [← actionsIn_compose, h, actionsIn_compose]
  · intro h
    rw [compose_eq_map, compose_eq_map, funext h]

/-! ### The sign of zero -/

theorem actionsFor_normalize (r : StudyRules) (kind : EventKind) :
  r.normalize.actionsFor kind = (r.actionsFor kind).map Expression.normalize
  := by
  rw [actionsFor, actions_normalize, actionsFor]
  cases r.actions kind with
  | _ => rfl

theorem normalize_rule (kind : EventKind) (actions : List Expression) :
  (rule kind actions).normalize = rule kind (actions.map Expression.normalize)
  := by
  rw [rule, Expression.normalize, Argument.normalizeAll_eq_map, rule, List.map_cons, List.map_map,
    List.map_map]
  rfl

theorem compose_normalize (r : StudyRules) :
  r.normalize.compose = r.compose.map Expression.normalize
  := by
  simp only [compose_eq_map, List.map_map, Function.comp_def, normalize_rule,
    actionsFor_normalize, List.isEmpty_map]

/-! ### Rules made in steps -/

/-- The actions for a kind that its last step leaves, or else those at the start; the empty list if
they are not set. -/
def leftFor (r : StudyRules) (steps : List Step) (kind : EventKind) : List Expression :=
  ((Step.lastFor? kind steps).elim (r.actions kind) Step.actions).getD []

/-- Whatever the rules at the start and the steps, one rule is composed for each kind for which its
last step, or else the start, leaves actions, and no other.  Steps for different kinds may change
places.  And study rules compose to the same list exactly if they have the same actions for each
kind, also where the sign of zero does not count. -/
theorem compose_applyAll (r : StudyRules) (steps : List Step) :
  (r.applyAll steps).compose
      = (EventKind.all.filter fun kind => !(r.leftFor steps kind).isEmpty).map
        (fun kind => rule kind (r.leftFor steps kind))
    ∧ (∀ reordered : List Step, (∀ kind, reordered.filter (fun step => step.kind = kind)
        = steps.filter fun step => step.kind = kind) →
      (r.applyAll reordered).compose = (r.applyAll steps).compose)
    ∧ ∀ s : StudyRules,
      (r.compose = s.compose ↔ ∀ kind, r.actionsFor kind = s.actionsFor kind)
      ∧ (r.compose.map Expression.normalize = s.compose.map Expression.normalize
        ↔ ∀ kind, (r.actionsFor kind).map Expression.normalize
          = (s.actionsFor kind).map Expression.normalize)
  := by
  refine ⟨?_, ?_, ?_⟩
  · have hleft : (r.applyAll steps).actionsFor = r.leftFor steps := by
      funext kind
      rw [actionsFor, actions_applyAll, leftFor]
    rw [compose_eq_map, hleft]
  · intro reordered h
    rw [applyAll_congr h]
  · intro s
    refine ⟨compose_eq_compose_iff, ?_⟩
    rw [← compose_normalize, ← compose_normalize, compose_eq_compose_iff]
    simp only [actionsFor_normalize]

/-- Rules for leaving are cleared, and others set in the order of the kinds or against it. -/
theorem compose_applyAll_reordered :
  let finish := Action.finishParticipation
  let flag := Action.updateFlag "done" (.text "1")
  let r : StudyRules := { leave := some [finish], custom := some [flag] }
  let steps := [.set .submit [flag], .set .merge [finish, flag], .clear .leave]
  let reordered := [.clear .leave, .set .merge [finish, flag], .set .submit [flag]]
  (∀ kind, reordered.filter (fun step => step.kind = kind)
      = steps.filter fun step : Step => step.kind = kind)
    ∧ (r.applyAll reordered).compose = (r.applyAll steps).compose
    ∧ (r.applyAll steps).compose
      = [rule .submit [flag], rule .merge [finish, flag], rule .custom [flag]]
  := by
  intro finish flag r steps reordered
  have hkinds : ∀ kind, reordered.filter (fun step => step.kind = kind)
      = steps.filter fun step : Step => step.kind = kind := by
    intro kind
    cases kind with
    | _ => rfl
  obtain ⟨hcompose, hreorder, -⟩ := compose_applyAll r steps
  exact ⟨hkinds, hreorder reordered hkinds, hcompose⟩

end StudyRules

end Questionnaire
