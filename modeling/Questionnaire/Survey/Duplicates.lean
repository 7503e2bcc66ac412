import Questionnaire.Survey.Basic

/-!
# Keys used twice

A sweep over the items of a group reports every item whose key an earlier item of the group has.
The root of a survey may be swept alone or together with all groups in it.
-/

namespace Questionnaire

/-- A key that comes twice among the items of a group. -/
structure Duplicate where
  key : Key
  parent : Key
  /-- The position of the first item with the key. -/
  first : Nat
  /-- The position of the later item. -/
  later : Nat
  deriving DecidableEq, Repr

/-- The message of a duplicate. -/
def Duplicate.message (d : Duplicate) : String :=
  d.key ++ " is used twice (at index " ++ d.first.repr ++ " and at index " ++ d.later.repr ++ ")"

/-- The duplicates among the keys of the items of `parent`: the keys from the position
`seen.length` on are compared with those before them. -/
def sweepKeys (parent : Key) (seen : List Key) : List Key → List Duplicate
  | [] => []
  | key :: rest =>
    let later := sweepKeys parent (seen ++ [key]) rest
    match seen.idxOf? key with
    | some first => ⟨key, parent, first, seen.length⟩ :: later
    | none => later

/-- The duplicates among the items of a group. -/
def Group.sweep (g : Group) : List Duplicate :=
  sweepKeys g.key [] (g.items.map Item.key)

/-- The duplicates among the items of a group, of which a single item has none. -/
def Item.sweep : Item → List Duplicate
  | .group g => g.sweep
  | .single _ => []

namespace Survey

/-- The duplicates among the items of the root. -/
def rootDuplicates (s : Survey) : List Duplicate := s.root.sweep

/-- The duplicates among the items of the root and of every group. -/
def duplicates (s : Survey) : List Duplicate :=
  s.root.sweep ++ s.root.descendants.flatMap Item.sweep

end Survey

end Questionnaire
