import Questionnaire.Json.Basic

/-!
# Outlines of JSON texts

A text is read in two steps.  The first, in `Questionnaire.Json.Outline.Text`, finds its outline:
the values in it in the order of the text, up to the place where it stops being JSON.  The second
reads a document off the outline.  An outline that breaks off still has a beginning, so a reader
can report whichever problem comes first in the text: a value of the wrong shape, or the place
where the text breaks off.

A reader that has no use for a value skips it.  Skipping asks less of a text than reading does: a
number may be too large, and a string may hold half of a surrogate pair.  So a number or a string
of an outline says two things, the value if it has one, and whether the text breaks off in it.
-/

namespace Questionnaire

/-- How a text fails to be JSON: it ends too early, or something in it is out of place. -/
inductive Fault where
  | ended
  | misplaced
  deriving DecidableEq, Repr

/-- A number or a string of a text: its value or the fault that denies it one, and the fault
that stops a reader even if it skips the value. -/
structure Token (α : Type) where
  value : Except Fault α
  stop : Option Fault

/-- A JSON value of a text that may break off. -/
inductive Outline where
  /-- The text ends where a value should be. -/
  | missing
  /-- No value starts with the next character. -/
  | unreadable
  /-- The word `null`, which may be cut short. -/
  | null (stop : Option Fault)
  /-- A truth value, whose word may be cut short. -/
  | bool (b : Bool) (stop : Option Fault)
  | number (n : Token Numeral)
  | string (s : Token String)
  /-- An array: its elements, and if it has no end the fault after the last of them and whether a
  comma comes before the fault. -/
  | array (elements : List Outline) (fault : Option (Bool × Fault))
  /-- An object: its members, and if it has no end the fault after the last of them, whether a
  comma comes before the fault, and the value that stands in place of a member. -/
  | object (members : List (Token String × Outline)) (fault : Option (Bool × Fault))
    (stray : Option Outline)

namespace Outline

/-- The outline at a place with a fault. -/
def ofFault : Fault → Outline
  | .ended => .missing
  | .misplaced => .unreadable

mutual

/-- The first fault that stops a reader who skips the value. -/
def stop? : Outline → Option Fault
  | .missing => some .ended
  | .unreadable => some .misplaced
  | .null stop => stop
  | .bool _ stop => stop
  | .number n => n.stop
  | .string s => s.stop
  | .array elements fault => stopElements? elements <|> fault.map (·.2)
  | .object members fault _ => stopMembers? members <|> fault.map (·.2)

/-- The first fault in some elements. -/
def stopElements? : List Outline → Option Fault
  | [] => none
  | o :: rest => stop? o <|> stopElements? rest

/-- The first fault in some members.  A name that breaks off has a value that says so. -/
def stopMembers? : List (Token String × Outline) → Option Fault
  | [] => none
  | (_, o) :: rest => stop? o <|> stopMembers? rest

end

end Outline

end Questionnaire
