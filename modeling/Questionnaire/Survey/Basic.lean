import Questionnaire.Item.Tree

/-!
# Surveys

A survey is a group of items, its root, with texts about it and the rules that the study engine
applies to it as a whole.  The key of the root is the key of the survey.
-/

namespace Questionnaire

/-- The texts about a survey. -/
structure SurveyTexts where
  name : Option (List LocalizedText) := none
  description : Option (List LocalizedText) := none
  typicalDuration : Option (List LocalizedText) := none

/-- The responses and flags that are loaded before a survey is shown. -/
structure SurveyContext where
  mode : Option Argument := none
  previousResponses : Option (List Expression) := none
  participantFlags : Option Expression := none

/-- How many items a page shows, on large and on small screens. -/
structure PageLimits where
  large : Nat
  small : Nat
  deriving DecidableEq, Repr

/-- Who may take a survey. -/
inductive Audience where
  | everyone
  | temporaryParticipants
  | activeParticipants
  | assignedParticipants
  deriving DecidableEq, Repr

/-- A survey. -/
structure Survey where
  texts : SurveyTexts := {}
  root : Group
  versionId : String := ""
  contextRules : Option SurveyContext := none
  prefillRules : Option (List Expression) := none
  pageLimits : Option PageLimits := none
  availableFor : Option Audience := none
  requiresLogin : Option Bool := none
  metadata : Option (Dict String) := none

namespace SurveyContext

/-- The expressions of a context. -/
def expressions (c : SurveyContext) : List Expression :=
  (c.mode.bind Argument.expression?).toList ++ c.previousResponses.getD []
    ++ c.participantFlags.toList

/-- The context with each of its expressions replaced. -/
def mapExpressions (f : Expression → Expression) (c : SurveyContext) : SurveyContext where
  mode := c.mode.map (Argument.mapExpression f)
  previousResponses := c.previousResponses.map (·.map f)
  participantFlags := c.participantFlags.map f

end SurveyContext

namespace Survey

/-- A survey without items. -/
def empty (key : Key) : Survey := { root := .empty key }

/-- The key of surveys that have not been given another one. -/
def defaultKey : Key := "survey"

/-- The key of a survey. -/
def key (s : Survey) : Key := s.root.key

/-- The keys of a survey, that of the root first, depth first. -/
def keys (s : Survey) : List Key := s.root.keys

/-- Whether an item of the survey, or its root, has the key. -/
def contains (s : Survey) (key : Key) : Bool := s.keys.contains key

/-- The first item with the given key, depth first; the root is not an item. -/
def find? (s : Survey) (key : Key) : Option Item := s.root.findBelow? key

/-- The expressions of the rules of a survey: prefill rules, then the rules of its context. -/
def ruleExpressions (s : Survey) : List Expression :=
  s.prefillRules.getD [] ++ (s.contextRules.map SurveyContext.expressions).getD []

/-- The survey with each expression of its rules replaced. -/
def mapRules (f : Expression → Expression) (s : Survey) : Survey :=
  { s with
    prefillRules := s.prefillRules.map (·.map f)
    contextRules := s.contextRules.map (SurveyContext.mapExpressions f) }

/-- The survey with its root replaced. -/
def mapRoot (f : Group → Group) (s : Survey) : Survey := { s with root := f s.root }

end Survey

end Questionnaire
