import Questionnaire.Number.Double

/-!
# Expressions

An expression of the study engine is a name applied to arguments; an argument is a text, a number
or another expression.  Nothing here knows what a name means.
-/

namespace Questionnaire

/-- The type that an expression announces for its value. -/
inductive ReturnType where
  | float
  | string
  deriving DecidableEq, Repr

mutual

/-- A name applied to arguments. -/
structure Expression where
  name : String
  returnType : Option ReturnType
  arguments : List Argument

/-- An argument of an expression. -/
inductive Argument where
  | text (s : String)
  | number (x : Double)
  | expression (e : Expression)

end

namespace Argument

/-- The double nearest to an integer. -/
def int (n : Int) : Argument := .number (Double.ofInt n)

/-- The expression that an argument is. -/
def expression? : Argument → Option Expression
  | .expression e => some e
  | _ => none

/-- An argument with its expression, if it is one, replaced. -/
def mapExpression (f : Expression → Expression) : Argument → Argument
  | .expression e => .expression (f e)
  | a => a

end Argument

namespace Expression

/-- The expression without arguments. -/
def named (name : String) : Expression := ⟨name, none, []⟩

/-- The expression of a name and the arguments that are set; arguments that are not set are left
out, wherever they stand. -/
def build (name : String) (returnType : Option ReturnType) (arguments : List (Option Argument)) :
    Expression :=
  ⟨name, returnType, arguments.filterMap id⟩

/-- The expression of a name and its arguments. -/
def apply (name : String) (arguments : List Argument) : Expression := ⟨name, none, arguments⟩

instance : Inhabited Expression := ⟨named ""⟩

end Expression

end Questionnaire
