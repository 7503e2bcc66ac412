import Questionnaire.Key

/-!
# Why an edit fails

An edit of a survey, an item or a component fails for one of the reasons below.  A key that would
come twice is fatal: from then on the key would not address one item.  After any other failure the
tree is as it was, and the work can go on.
-/

namespace Questionnaire

/-- Why an edit fails. -/
inductive EditError where
  /-- The key would come twice in the survey. -/
  | duplicateKey (key : Key)
  /-- The key would come twice among the children of a component. -/
  | duplicateComponentKey (group : String) (key : Key)
  | itemNotFound (key : Key)
  | parentNotFound (key : Key)
  | notAGroup (key : Key)
  | componentNotFound (key : Key)
  | componentNotAGroup (key : Key)
  /-- The root of a survey is not removed. -/
  | rootRemoval (key : Key)
  /-- An item is not moved below itself. -/
  | moveIntoSelf (key destination : Key)
  /-- The key is not one segment longer than that of its group. -/
  | keyOutsideParent (key parent : Key)
  deriving DecidableEq, Repr

namespace EditError

/-- Whether keys no longer address items, so that nothing may be built from the survey. -/
def isFatal : EditError → Bool
  | .duplicateKey _ => true
  | .duplicateComponentKey _ _ => true
  | _ => false

/-- The message of an error. -/
def message : EditError → String
  | .duplicateKey key => "duplicate key in survey: " ++ key
  | .duplicateComponentKey group key =>
    "duplicate component key '" ++ key ++ "' in '" ++ group ++ "'"
  | .itemNotFound key => "survey item cannot be found: " ++ key
  | .parentNotFound key => "parent survey item cannot be found: " ++ key
  | .notAGroup key => "survey item is not a group: " ++ key
  | .componentNotFound key => "component cannot be found: " ++ key
  | .componentNotAGroup key => "component is not a group: " ++ key
  | .rootRemoval key => "the survey root '" ++ key ++ "' cannot be removed"
  | .moveIntoSelf key destination =>
    "cannot move '" ++ key ++ "' into its own subtree '" ++ destination ++ "'"
  | .keyOutsideParent key parent =>
    "key '" ++ key ++ "' is not a direct child key of '" ++ parent ++ "'"

end EditError

end Questionnaire
