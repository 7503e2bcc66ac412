import Questionnaire.Collection
import Questionnaire.Number.Double

/-!
# JSON values

A JSON value keeps the members of an object in the order in which they are written.  A number is
either an integer or a double, and the two are different values: `1` and `1.0` are not equal.
-/

namespace Questionnaire

/-- A number of a JSON value. -/
inductive Numeral where
  | int (n : Int)
  | double (x : Double)
  deriving DecidableEq

/-- A JSON value. -/
inductive Json where
  | null
  | bool (b : Bool)
  | number (n : Numeral)
  | string (s : String)
  | array (elements : List Json)
  | object (members : List (String × Json))

namespace Json

/-- The integer `n`. -/
def int (n : Int) : Json := .number (.int n)

/-- The double `x`. -/
def double (x : Double) : Json := .number (.double x)

/-- The array of the values that `f` gives for the elements of a list. -/
def list {α : Type} (f : α → Json) (xs : List α) : Json := .array (xs.map f)

/-- The object of the values that `f` gives for the entries of a dictionary. -/
def dict {α : Type} (f : α → Json) (d : Dict α) : Json := .object (d.map fun p => (p.1, f p.2))

/-- A member that an object may have. -/
abbrev Member := Option (String × Json)

/-- A member that is always written. -/
def Member.required (name : String) (value : Json) : Member := some (name, value)

/-- A member that is written when its value is set. -/
def Member.optional {α : Type} (name : String) (f : α → Json) (value : Option α) : Member :=
  value.map fun x => (name, f x)

/-- The object of the members that are written. -/
def record (members : List Member) : Json := .object (members.filterMap id)

end Json

end Questionnaire
