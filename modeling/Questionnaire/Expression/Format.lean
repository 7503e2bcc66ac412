import Questionnaire.Expression.Basic
import Questionnaire.Json.Record

/-!
# The JSON form of expressions

An expression is a record of its name, its return type if it has one, and its arguments if there
are any.  An argument carries a tag, `str`, `num` or `exp`, and its value under the tag's name; an
argument without a tag is a text.  A number without a fraction is written as an integer.
-/

namespace Questionnaire

namespace ReturnType

/-- The names of the return types. -/
def names : List (String × ReturnType) := [("float", .float), ("string", .string)]

/-- The name of a return type. -/
def name : ReturnType → String
  | .float => "float"
  | .string => "string"

/-- The JSON form of a return type. -/
def toJson (t : ReturnType) : Json := .string t.name

end ReturnType

namespace Argument

/-- The JSON form of a number: an integer if it has no fraction and less than 64 bits. -/
def numberToJson (x : Double) : Json :=
  match x.toInt? with
  | some n => if n.natAbs < Nat.pow 2 63 then .int n else .double x
  | none => .double x

end Argument

mutual

/-- The JSON form of an expression. -/
def Expression.toJson : Expression → Json
  | ⟨name, returnType, arguments⟩ =>
    .record [
      .required "name" (.string name),
      .optional "returnType" ReturnType.toJson returnType,
      match arguments with
      | [] => none
      | a :: rest => .required "data" (.array (a.toJson :: Argument.toJsonAll rest))]

/-- The JSON form of an argument. -/
def Argument.toJson : Argument → Json
  | .text s => .object [("dtype", .string "str"), ("str", .string s)]
  | .number x => .object [("dtype", .string "num"), ("num", Argument.numberToJson x)]
  | .expression e => .object [("dtype", .string "exp"), ("exp", e.toJson)]

/-- The JSON forms of some arguments. -/
def Argument.toJsonAll : List Argument → List Json
  | [] => []
  | a :: rest => a.toJson :: Argument.toJsonAll rest

end

namespace Argument

/-- The members of an argument, any of which may be absent. -/
structure Parts where
  tag : Option String
  text : Option String
  number : Option Double
  expression : Option Expression

/-- The fields of an argument whose expressions are read by `expression`. -/
def parts (expression : Reader Expression) : Fields Parts :=
  Parts.mk <$> .optional "dtype" .string <*> .optional "str" .string
    <*> .optional "num" .double <*> .optional "exp" expression

/-- The argument that its members make: the tag says which of the others counts. -/
def ofParts (p : Parts) : Except ReadError Argument :=
  let present {α : Type} (name : String) (value : Option α) (f : α → Argument) :
      Except ReadError Argument :=
    match value with
    | some a => .ok (f a)
    | none => .error (.misfit (.missingField name))
  match p.tag.getD "str" with
  | "str" => present "str" p.text .text
  | "num" => present "num" p.number .number
  | "exp" => present "exp" p.expression .expression
  | other => .error (.misfit (.unknownName other ["str", "num", "exp"]))

/-- The reader of arguments whose expressions are read by `expression`. -/
def readerWith (expression : Reader Expression) : Reader Argument :=
  fun depth o => do ofParts (← (parts expression).reader depth o)

end Argument

namespace Expression

/-- The fields of an expression whose nested expressions are read by `inner`. -/
def fieldsWith (inner : Reader Expression) : Fields Expression :=
  Expression.mk <$> .required "name" .string
    <*> .optional "returnType" (.choice ReturnType.names)
    <*> .withDefault "data" (.list (Argument.readerWith inner)) []

/-- The reader of expressions. -/
def reader : Reader Expression :=
  .fix fun inner => (fieldsWith inner).reader

/-- The fields of an expression. -/
def fields : Fields Expression := fieldsWith reader

end Expression

/-- The reader of arguments. -/
def Argument.reader : Reader Argument := Argument.readerWith Expression.reader

end Questionnaire
