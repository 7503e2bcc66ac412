import Questionnaire.Proofs.Component.Format
import Questionnaire.Proofs.Expression.Traversal
import Questionnaire.Proofs.Item.Tree

/-!
# References in a survey

A reference is a text in an expression, or an entry of `follows`.  Here the references are listed:
those of an item, without those of the items in it, and those of a survey, in its rules, its root
and all its items.

Replacing expressions in a document replaces them in the lists of expressions, in their order.
-/

namespace Questionnaire

/-! ### Expressions that are replaced -/

variable (f : Expression → Expression)

theorem LocalizedText.expressions_mapExpressions (t : LocalizedText) :
  (t.mapExpressions f).expressions = t.expressions.map f
  := by
  rw [expressions, expressions, mapExpressions, List.filterMap_map, List.map_filterMap]
  congr 1
  funext a
  cases a with
  | text s => rfl
  | number x => rfl
  | expression e => rfl

namespace Component

theorem Head.expressions_mapExpressions (h : Head) :
  (h.mapExpressions f).expressions = h.expressions.map f
  := by
  have htexts (texts : Option (List LocalizedText)) :
      ((texts.map (·.map (LocalizedText.mapExpressions f))).getD []).flatMap
          LocalizedText.expressions
        = ((texts.getD []).flatMap LocalizedText.expressions).map f := by
    cases texts with
    | none => rfl
    | some texts =>
      rw [Option.map_some, Option.getD_some, Option.getD_some, List.flatMap_map, List.map_flatMap]
      apply List.flatMap_congr
      intro t _
      apply LocalizedText.expressions_mapExpressions
  rw [expressions, expressions, mapExpressions, htexts, htexts]
  simp only [Option.toList_map, List.map_append]

theorem expressionsOf_eq (cs : List Component) :
  expressionsOf cs = cs.flatMap expressions
  := by
  induction cs with
  | nil => rfl
  | cons c rest ih => rw [expressionsOf, ih, List.flatMap_cons]

theorem mapExpressionsOf_eq (cs : List Component) :
  mapExpressionsOf f cs = cs.map (mapExpressions f)
  := by
  induction cs with
  | nil => rfl
  | cons c rest ih => rw [mapExpressionsOf, ih, List.map_cons]

theorem expressions_mapExpressions (c : Component) :
  (c.mapExpressions f).expressions = c.expressions.map f
  := by
  induction c using inductionOn with
  | mk head items ih =>
    cases items with
    | none => apply Head.expressions_mapExpressions
    | some cs =>
      rw [mapExpressions, expressions, expressions, mapExpressionsOf_eq, expressionsOf_eq,
        expressionsOf_eq, Head.expressions_mapExpressions, List.map_append, List.flatMap_map,
        List.map_flatMap]
      congr 1
      apply List.flatMap_congr
      apply ih cs rfl

end Component

theorem SingleItem.expressions_mapExpressions (s : SingleItem) :
  (s.mapExpressions f).expressions = s.expressions.map f
  := by
  have hrules : ((s.validations.map (·.map fun v => { v with rule := f v.rule })).getD []).map
      (·.rule) = ((s.validations.getD []).map (·.rule)).map f := by
    cases s.validations with
    | none => rfl
    | some validations =>
      rw [Option.map_some, Option.getD_some, Option.getD_some, List.map_map, List.map_map]
      rfl
  have hcomponents :
      ((s.components.map (Component.mapExpressions f)).map Component.expressions).getD []
        = ((s.components.map Component.expressions).getD []).map f := by
    cases s.components with
    | none => rfl
    | some c => exact Component.expressions_mapExpressions f c
  rw [expressions, expressions, mapExpressions, hrules, hcomponents, Item.Head.mapExpressions]
  simp only [Option.toList_map, List.map_append]

theorem SurveyContext.expressions_mapExpressions (c : SurveyContext) :
  (c.mapExpressions f).expressions = c.expressions.map f
  := by
  have hmode : ((c.mode.map (Argument.mapExpression f)).bind Argument.expression?).toList
      = (c.mode.bind Argument.expression?).toList.map f := by
    rcases c.mode with _ | (_ | _ | _)
    · rfl
    · rfl
    · rfl
    · rfl
  have hprevious : (c.previousResponses.map (·.map f)).getD []
      = (c.previousResponses.getD []).map f := by
    cases c.previousResponses with
    | none => rfl
    | some expressions => rfl
  rw [expressions, expressions, mapExpressions, hmode, hprevious]
  simp only [Option.toList_map, List.map_append]

theorem Survey.ruleExpressions_mapRules (s : Survey) :
  (s.mapRules f).ruleExpressions = s.ruleExpressions.map f
  := by
  have hprefill : (s.prefillRules.map (·.map f)).getD [] = (s.prefillRules.getD []).map f := by
    cases s.prefillRules with
    | none => rfl
    | some rules => rfl
  have hcontext : ((s.contextRules.map (SurveyContext.mapExpressions f)).map
      SurveyContext.expressions).getD []
        = ((s.contextRules.map SurveyContext.expressions).getD []).map f := by
    cases s.contextRules with
    | none => rfl
    | some c => exact SurveyContext.expressions_mapExpressions f c
  rw [ruleExpressions, ruleExpressions, mapRules, hprefill, hcontext, List.map_append]

/-! ### References -/

/-- The references in an item, without those in the items in it: the texts in its expressions, and
the keys that it follows. -/
def Item.references (x : Item) : List Key :=
  x.expressions.flatMap Expression.texts ++ x.head.follows.getD []

/-- The references in the rules of a survey. -/
def Survey.ruleReferences (s : Survey) : List Key := s.ruleExpressions.flatMap Expression.texts

/-- The references in the rules of a survey, in its root and in all its items. -/
def Survey.references (s : Survey) : List Key :=
  s.ruleReferences ++ (Item.group s.root).subtree.flatMap Item.references

theorem flatMap_texts_mapTexts (r : String → String) (expressions : List Expression) :
  (expressions.map (Expression.mapTexts r)).flatMap Expression.texts
    = (expressions.flatMap Expression.texts).map r
  := by
  rw [List.flatMap_map, List.map_flatMap]
  apply List.flatMap_congr
  intro e _
  apply Expression.texts_mapTexts

theorem Survey.ruleReferences_mapRules (r : String → String) (s : Survey) :
  (s.mapRules (Expression.mapTexts r)).ruleReferences = s.ruleReferences.map r
  := by
  rw [ruleReferences, ruleReferences, ruleExpressions_mapRules, flatMap_texts_mapTexts]

end Questionnaire
