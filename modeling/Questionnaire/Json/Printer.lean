import Questionnaire.Json.Basic
import Questionnaire.Number.Layout

/-!
# JSON text

The text of a JSON value, on one line without spaces or with one member a line and two spaces a
level.  Text is escaped only where JSON asks for it: quotes, backslashes and control characters
below `U+0020`, the latter by their short names where there are some.
-/

namespace Questionnaire

namespace Json

/-- How the text of a JSON value is broken into lines. -/
inductive Style where
  | compact
  | pretty
  deriving DecidableEq, Repr

/-- The break before an element on the given level. -/
def Style.lineBreak : Style → Nat → List Char
  | .compact, _ => []
  | .pretty, level => '\n' :: List.replicate (2 * level) ' '

/-- What separates the name of a member from its value. -/
def Style.colon : Style → List Char
  | .compact => [':']
  | .pretty => [':', ' ']

/-- The texts of the parts of a container between its brackets; the container stands on the given
level. -/
def Style.enclose (style : Style) (level : Nat) (left right : Char) :
    List (List Char) → List Char
  | [] => [left, right]
  | parts =>
    left :: style.lineBreak (level + 1)
      ++ List.intercalate (',' :: style.lineBreak (level + 1)) parts
      ++ style.lineBreak level ++ [right]

/-- A hexadecimal digit. -/
def hexDigit (n : Nat) : Char :=
  Nat.digitChar n

/-- The text of a character inside a string. -/
def escape (c : Char) : List Char :=
  if c = '"' then ['\\', '"']
  else if c = '\\' then ['\\', '\\']
  else if c = '\x08' then ['\\', 'b']
  else if c = '\x0c' then ['\\', 'f']
  else if c = '\n' then ['\\', 'n']
  else if c = '\r' then ['\\', 'r']
  else if c = '\t' then ['\\', 't']
  else if c.toNat < 32 then
    ['\\', 'u', '0', '0', hexDigit (c.toNat / 16), hexDigit (c.toNat % 16)]
  else [c]

/-- The text of a string, in quotes. -/
def writeString (s : String) : List Char :=
  '"' :: s.toList.flatMap escape ++ ['"']

/-- The text of a number. -/
def writeNumeral : Numeral → List Char
  | .int n => intDigits n
  | .double x => x.write

mutual

/-- The text of a value on the given level. -/
def write (style : Style) (level : Nat) : Json → List Char
  | .null => ['n', 'u', 'l', 'l']
  | .bool true => ['t', 'r', 'u', 'e']
  | .bool false => ['f', 'a', 'l', 's', 'e']
  | .number n => writeNumeral n
  | .string s => writeString s
  | .array elements => style.enclose level '[' ']' (writeElements style (level + 1) elements)
  | .object members =>
    style.enclose level '\x7b' '\x7d' (writeMembers style (level + 1) members)

/-- The texts of the elements of an array. -/
def writeElements (style : Style) (level : Nat) : List Json → List (List Char)
  | [] => []
  | value :: rest => write style level value :: writeElements style level rest

/-- The texts of the members of an object. -/
def writeMembers (style : Style) (level : Nat) : List (String × Json) → List (List Char)
  | [] => []
  | (name, value) :: rest =>
    (writeString name ++ style.colon ++ write style level value)
      :: writeMembers style level rest

end

/-- The text of a value. -/
def toText (style : Style) (value : Json) : String :=
  String.ofList (write style 0 value)

/-- The text of a value on one line. -/
def compact (value : Json) : String :=
  value.toText .compact

end Json

end Questionnaire
