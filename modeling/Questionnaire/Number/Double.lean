/-!
# Double-precision numbers

A finite number of the binary64 format: a sign, and a magnitude `mantissa * 2 ^ exponent` whose
mantissa has at most 53 bits.  The representation is canonical, so equal numbers are equal
values, except that the two zeros are kept apart.  Every operation rounds the exact result to
the nearest double, a tie to the even mantissa, and fails where that result is too large.
-/

namespace Questionnaire

/-- The mantissa and exponent pairs that represent a magnitude: 53 bits with the leading one set,
or fewer bits at the least exponent. -/
def CanonicalMagnitude (mantissa : Nat) (exponent : Int) : Prop :=
  mantissa < Nat.pow 2 53 ∧ -1074 ≤ exponent ∧ exponent ≤ 971 ∧
    (Nat.pow 2 52 ≤ mantissa ∨ exponent = -1074)

instance (mantissa : Nat) (exponent : Int) : Decidable (CanonicalMagnitude mantissa exponent) :=
  inferInstanceAs (Decidable (_ ∧ _))

/-- A finite double. -/
structure Double where
  negative : Bool
  mantissa : Nat
  exponent : Int
  canonical : CanonicalMagnitude mantissa exponent
  deriving DecidableEq

namespace Double

/-- Zero, with the given sign. -/
def zero (negative : Bool) : Double :=
  ⟨negative, 0, -1074, by decide⟩

instance : Inhabited Double := ⟨zero false⟩

/-- Whether the number is one of the two zeros. -/
def isZero (x : Double) : Bool :=
  x.mantissa == 0

/-- The number with the opposite sign. -/
def neg (x : Double) : Double :=
  { x with negative := !x.negative }

/-- The natural number nearest to `num / den`, the even one of two. -/
def roundQuotient (num den : Nat) : Nat :=
  let q := num / den
  let twice := 2 * (num % den)
  if twice < den then q
  else if den < twice then q + 1
  else q + q % 2

/-- The quotient `num / den` scaled by `2 ^ (-exponent)`, as a numerator and a denominator. -/
def scaled (num den : Nat) (exponent : Int) : Nat × Nat :=
  match exponent with
  | .ofNat e => (num, den * Nat.pow 2 e)
  | .negSucc e => (num * Nat.pow 2 (e + 1), den)

/-- An exponent `e` with `2 ^ e ≤ num / den < 2 ^ (e + 1)`, for a positive quotient. -/
def floorLog2 (num den : Nat) : Int :=
  let guess : Int := (num.log2 : Int) - den.log2
  let (n, d) := scaled num den guess
  if d ≤ n then guess else guess - 1

/-- The double with this sign, mantissa and exponent, if they are canonical. -/
def ofParts? (negative : Bool) (mantissa : Nat) (exponent : Int) : Option Double :=
  if h : CanonicalMagnitude mantissa exponent then some ⟨negative, mantissa, exponent, h⟩ else none

/-- The double nearest to `num / den` with the given sign; `none` if it is too large. -/
def ofQuotient? (negative : Bool) (num den : Nat) : Option Double :=
  if num = 0 then some (zero negative)
  else
    let exponent := max (floorLog2 num den - 52) (-1074)
    let (n, d) := scaled num den exponent
    let mantissa := roundQuotient n d
    if mantissa = Nat.pow 2 53 then ofParts? negative (Nat.pow 2 52) (exponent + 1)
    else ofParts? negative mantissa exponent

/-- The magnitude as a quotient of natural numbers. -/
def magnitude (x : Double) : Nat × Nat :=
  scaled x.mantissa 1 (-x.exponent)

/-- The double nearest to an integer; `none` if it is too large. -/
def ofInt? (n : Int) : Option Double :=
  ofQuotient? (n < 0) n.natAbs 1

/-- The double nearest to an integer, zero if it is too large. -/
def ofInt (n : Int) : Double :=
  (ofInt? n).getD (zero false)

/-- The rounded product; `none` if it is too large. -/
def mul? (x y : Double) : Option Double :=
  let (a, b) := x.magnitude
  let (c, d) := y.magnitude
  ofQuotient? (x.negative != y.negative) (a * c) (b * d)

/-- The rounded quotient by a number that is not zero; `none` if it is too large. -/
def div? (x y : Double) : Option Double :=
  let (a, b) := x.magnitude
  let (c, d) := y.magnitude
  ofQuotient? (x.negative != y.negative) (a * d) (b * c)

/-- The integer that the number is, if it has no fraction. -/
def toInt? (x : Double) : Option Int :=
  let (n, d) := x.magnitude
  if n % d = 0 then
    let magnitude : Int := (n / d : Nat)
    some (if x.negative then -magnitude else magnitude)
  else none

end Double

end Questionnaire
