/-!
# Lists and dictionaries

What a list becomes when one place of it changes: an element is inserted at a place that may lie
beyond the end, or the first element of some kind is replaced.

A dictionary holds one value for each of its names, in the order of the names.  Names are
ordered by code point, character by character.
-/

namespace Questionnaire

/-! ## Places in a list -/

section

variable {α : Type}

/-- The list with `x` at the given position, or at its end. -/
def insertAt (position : Option Nat) (x : α) (xs : List α) : List α :=
  let n := min (position.getD xs.length) xs.length
  xs.take n ++ x :: xs.drop n

/-- Replaces the first element that satisfies `p` by its image. -/
def modifyFirst (p : α → Bool) (f : α → α) : List α → List α
  | [] => []
  | a :: rest => if p a then f a :: rest else a :: modifyFirst p f rest

end

/-! ## Dictionaries -/

/-- Names with their values, in the order of the names. -/
abbrev Dict (α : Type) := List (String × α)

namespace Dict

variable {α : Type}

/-- The dictionary with `value` under `name`, in place of an earlier value. -/
def insert (name : String) (value : α) : Dict α → Dict α
  | [] => [(name, value)]
  | entry :: rest =>
    if name < entry.1 then (name, value) :: entry :: rest
    else if name = entry.1 then (name, value) :: rest
    else entry :: insert name value rest

/-- The dictionary of some pairs; a later pair replaces an earlier one of the same name. -/
def ofPairs (pairs : List (String × α)) : Dict α :=
  pairs.foldl (fun d p => insert p.1 p.2 d) []

/-- Whether the names stand in strictly increasing order. -/
def Ordered (d : Dict α) : Prop :=
  d.Pairwise fun p q => p.1 < q.1

end Dict

end Questionnaire
