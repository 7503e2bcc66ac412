import Questionnaire.Edit.Error
import Questionnaire.Survey.Basic

/-!
# Where items may stand

In a survey that can be edited, every item is keyed one segment below its group, and no key comes
twice.  Such a survey is well keyed.  The checks of this file report the first item that breaks
one of the two rules.
-/

namespace Questionnaire

mutual

/-- The keys below a group, each with the key of the group that holds it, depth first. -/
def Group.placements : Group → List (Key × Key)
  | ⟨head, _, items⟩ => Item.placementsOf head.key items

/-- The keys in the subtree of an item of the group `parent`, each with the key of the group that
holds it, depth first. -/
def Item.placements (parent : Key) : Item → List (Key × Key)
  | .group g => (g.head.key, parent) :: g.placements
  | .single s => [(s.head.key, parent)]

/-- The keys in the subtrees of the items of the group `parent`. -/
def Item.placementsOf (parent : Key) : List Item → List (Key × Key)
  | [] => []
  | x :: rest => x.placements parent ++ Item.placementsOf parent rest

end

/-- Whether a key is one segment longer than that of its group.  A key without a dot lies below the
empty key. -/
def Nested (placement : Key × Key) : Prop := Key.parent placement.1 = placement.2

instance (placement : Key × Key) : Decidable (Nested placement) :=
  inferInstanceAs (Decidable (_ = _))

/-- Fails with the first key that is not nested. -/
def checkNested (placements : List (Key × Key)) : Except EditError Unit :=
  match placements.find? fun p => ¬ Nested p with
  | some (key, parent) => .error (.keyOutsideParent key parent)
  | none => .ok ()

/-- The first key that is taken or comes a second time. -/
def firstTaken? (taken : List Key) : List Key → Option Key
  | [] => none
  | key :: rest => if key ∈ taken then some key else firstTaken? (key :: taken) rest

/-- Fails with the first key that is taken or comes a second time. -/
def checkFree (taken keys : List Key) : Except EditError Unit :=
  match firstTaken? taken keys with
  | some key => .error (.duplicateKey key)
  | none => .ok ()

/-- Fails unless the item can stand in the group `parent` of a survey that has the keys `taken`. -/
def Item.checkPlace (x : Item) (parent : Key) (taken : List Key) : Except EditError Unit := do
  checkNested (x.placements parent)
  checkFree taken x.keys

/-- Fails unless the items can stand one after the other in the group `parent` of a survey that
has the keys `taken`. -/
def checkPlaces (parent : Key) (taken : List Key) : List Item → Except EditError Unit
  | [] => .ok ()
  | x :: rest => do
    x.checkPlace parent taken
    checkPlaces parent (taken ++ x.keys) rest

namespace Survey

/-- Whether every item is keyed one segment below its group and no key comes twice. -/
def WellKeyed (s : Survey) : Prop :=
  (∀ p ∈ s.root.placements, Nested p) ∧ s.keys.Nodup

/-- Fails unless the survey is well keyed. -/
def checkKeys (s : Survey) : Except EditError Unit :=
  checkPlaces s.key [s.key] s.root.items

end Survey

end Questionnaire
