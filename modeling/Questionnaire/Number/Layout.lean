import Questionnaire.Number.Shortest

/-!
# The text of a double

The digits of a double are written positionally while the decimal exponent of the number is
moderate, and in scientific notation otherwise.  A `DecimalLayout` says where the boundary lies
and how either form looks; `Double.layout` is the layout of documents.
-/

namespace Questionnaire

/-- How the digits of a number are laid out. -/
structure DecimalLayout where
  /-- The least exponent that is written positionally. -/
  leastPlain : Int
  /-- The greatest exponent that is written positionally. -/
  greatestPlain : Int
  /-- The digits that stand after the point of a number without a fraction. -/
  fraction : List Char
  /-- The mark of the exponent. -/
  mark : Char
  /-- Whether a positive exponent carries its sign. -/
  plusSign : Bool
  deriving DecidableEq, Repr

/-- The decimal digits of a natural number. -/
def natDigits (n : Nat) : List Char :=
  Nat.toDigits 10 n

/-- The decimal text of an integer. -/
def intDigits : Int → List Char
  | .ofNat n => natDigits n
  | .negSucc n => '-' :: natDigits (n + 1)

namespace DecimalLayout

/-- A decimal whose digits have a point among them, in front of them or behind them. -/
def plain (layout : DecimalLayout) (digits : List Char) : Int → List Char
  | .ofNat e => digits ++ List.replicate e '0' ++ '.' :: layout.fraction
  | .negSucc e =>
    let places := e + 1
    if places < digits.length then
      digits.take (digits.length - places) ++ '.' :: digits.drop (digits.length - places)
    else '0' :: '.' :: List.replicate (places - digits.length) '0' ++ digits

/-- A decimal with one digit in front of the point, and the exponent of that digit. -/
def scientific (layout : DecimalLayout) (digits : List Char) (exponent : Int) : List Char :=
  let mantissa := match digits with
    | [] => []
    | [d] => [d]
    | d :: rest => d :: '.' :: rest
  let sign := if layout.plusSign ∧ 0 ≤ exponent then ['+'] else []
  mantissa ++ layout.mark :: sign ++ intDigits exponent

/-- The text of a decimal. -/
def write (layout : DecimalLayout) (d : DecimalDigits) : List Char :=
  let digits := natDigits d.digits
  let exponent := d.exponent + digits.length - 1
  if layout.leastPlain ≤ exponent ∧ exponent ≤ layout.greatestPlain then
    layout.plain digits d.exponent
  else layout.scientific digits exponent

end DecimalLayout

namespace Double

/-- Documents write a number positionally from `0.00001` up to sixteen digits before the point,
with at least one digit after it; other numbers read `1.5e-7` or `1e+16`. -/
def layout : DecimalLayout :=
  { leastPlain := -5, greatestPlain := 15, fraction := ['0'], mark := 'e', plusSign := true }

/-- The text of a double. -/
def write (x : Double) : List Char :=
  let digits := layout.write x.shortest
  if x.negative then '-' :: digits else digits

end Double

end Questionnaire
