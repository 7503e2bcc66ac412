/-!
# Dotted keys

The key of an item names all its ancestors: the item `survey.group.q1` lies in the group
`survey.group` of the survey `survey`, and its local name is `q1`.  This file holds the
functions that take keys apart and put them together, and the component keys that the study
engine addresses by convention.  Empty segments are kept as they are: `a..b` has the prefixes
`a`, `a.` and `a..b`.
-/

namespace Questionnaire

/-- A dot-separated key. -/
abbrev Key := String

namespace Key

/-- The initial segments of a list of characters that end before a dot or at the end of the
list, shortest first. -/
def dottedInits : List Char → List (List Char)
  | [] => [[]]
  | c :: cs =>
    let longer := (dottedInits cs).map (c :: ·)
    if c = '.' then [] :: longer else longer

/-- The prefixes of a key, shortest first; the last one is the key itself. -/
def prefixes (key : Key) : List Key :=
  (dottedInits key.toList).map String.ofList

/-- A list of characters divided at its last dot, the dot left out. -/
def divide? : List Char → Option (List Char × List Char)
  | [] => none
  | c :: cs =>
    match divide? cs with
    | some (front, back) => some (c :: front, back)
    | none => if c = '.' then some ([], cs) else none

/-- The key of the parent: the key without its last segment, if it has a dot. -/
def parent? (key : Key) : Option Key :=
  (divide? key.toList).map fun parts => String.ofList parts.1

/-- The key of the parent, the empty key if there is none. -/
def parent (key : Key) : Key :=
  (parent? key).getD ""

/-- The last segment of a key. -/
def leaf (key : Key) : String :=
  match divide? key.toList with
  | some (_, back) => String.ofList back
  | none => key

/-- The key of the child `name` of `parent`; below the empty key it is `name` itself. -/
def child (parent : Key) (name : String) : Key :=
  if parent = "" then name else parent ++ "." ++ name

/-- The segments of a key, one more than it has dots. -/
def segments (key : Key) : List String :=
  (key.toList.splitOn '.').map String.ofList

/-- What is left of `key` after `front`, if `key` starts with `front`. -/
def after? : List Char → List Char → Option (List Char)
  | key, [] => some key
  | [], _ :: _ => none
  | c :: key, d :: front => if c = d then after? key front else none

/-- Whether `key` is `ancestor` or lies below it. -/
def isWithin (key ancestor : Key) : Bool :=
  if key = ancestor then true
  else
    match after? key.toList ancestor.toList with
    | some ('.' :: _) => true
    | _ => false

/-- The key moved from `old` to `new`, if it is `old` or lies below it. -/
def rebase? (key old new : Key) : Option Key :=
  if key = old then some new
  else
    match after? key.toList old.toList with
    | some ('.' :: rest) => some (new ++ String.ofList ('.' :: rest))
    | _ => none

/-- The key moved from `old` to `new` if it is `old` or lies below it, and otherwise as it is. -/
def rebase (old new key : Key) : Key :=
  (rebase? key old new).getD key

/-! ## Component keys known to the study engine -/

/-- The response group of a question. -/
def responseGroup : Key := "rg"

/-- The single choice group of a response group. -/
def singleChoiceGroup : Key := "scg"

/-- The multiple choice group of a response group. -/
def multipleChoiceGroup : Key := "mcg"

/-- The consent component of a response group. -/
def consentGroup : Key := "con"

/-- The response slot of a single choice question. -/
def singleChoiceSlot : Key := child responseGroup singleChoiceGroup

/-- The response slot of a multiple choice question. -/
def multipleChoiceSlot : Key := child responseGroup multipleChoiceGroup

/-- The response slot of a consent question. -/
def consentSlot : Key := child responseGroup consentGroup

end Key

end Questionnaire
