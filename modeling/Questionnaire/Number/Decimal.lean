import Questionnaire.Number.Double

/-!
# Reading decimals

The double that a decimal text stands for.  The digits are collected in a 64-bit significand
until they no longer fit; the significand is rounded to a double and then scaled by one power of
ten, itself a double.  The result is the nearest double whenever the significand has at most 53
bits and the power is at most `10 ^ 22`; otherwise it may be a neighbour.
-/

namespace Questionnaire

/-- The digits read so far: `significand * 10 ^ exponent`. -/
structure Significand where
  value : Nat := 0
  exponent : Int := 0
  deriving DecidableEq, Repr

namespace Significand

/-- The greatest significand. -/
def limit : Nat := Nat.pow 2 64 - 1

/-- The significand with one more digit, if it fits. -/
def push? (s : Significand) (digit : Nat) : Option Nat :=
  let value := s.value * 10 + digit
  if value ≤ limit then some value else none

/-- Takes the digits before the point.  From the first digit that does not fit, digits only
raise the exponent. -/
def takeWhole (s : Significand) : List Nat → Significand
  | [] => s
  | d :: ds =>
    match s.push? d with
    | some value => takeWhole { s with value } ds
    | none => { s with exponent := s.exponent + (ds.length + 1) }

/-- Takes the digits after the point.  From the first digit that does not fit, digits are
dropped. -/
def takeFraction (s : Significand) : List Nat → Significand
  | [] => s
  | d :: ds =>
    match s.push? d with
    | some value => takeFraction { value, exponent := s.exponent - 1 } ds
    | none => s

end Significand

/-- A decimal numeral as it is written: digits before and after the point, and an exponent. -/
structure DecimalText where
  negative : Bool
  whole : List Nat
  fraction : Option (List Nat)
  exponent : Option (Bool × List Nat)
  deriving DecidableEq, Repr

namespace Double

/-- The double nearest to a power of ten. -/
def powerOfTen (n : Nat) : Double :=
  (ofQuotient? false (Nat.pow 10 n) 1).getD (zero false)

/-- The double scaled by a power of ten.  Exponents below -308 are applied in steps; `steps`
bounds their number. -/
def scaleByTen? (steps : Nat) (x : Double) (exponent : Int) : Option Double :=
  if exponent.natAbs ≤ 308 then
    if 0 ≤ exponent then x.mul? (powerOfTen exponent.natAbs)
    else x.div? (powerOfTen exponent.natAbs)
  else if x.isZero then some x
  else if 0 ≤ exponent then none
  else
    match steps with
    | 0 => some (zero x.negative)
    | steps + 1 =>
      match x.div? (powerOfTen 308) with
      | some y => scaleByTen? steps y (exponent + 308)
      | none => none

/-- The double of a significand; `none` if it is too large. -/
def ofSignificand? (s : Significand) : Option Double :=
  match ofQuotient? false s.value 1 with
  -- Three steps take the greatest significand below the least double.
  | some x => scaleByTen? 3 x s.exponent
  | none => none

/-- The number that digits in base ten stand for. -/
def digitsValue (digits : List Nat) : Nat :=
  digits.foldl (fun n d => n * 10 + d) 0

/-- The greatest exponent that is read as a number. -/
def greatestExponent : Nat := Nat.pow 2 31 - 1

/-- The double of a decimal numeral; `none` if it is too large. -/
def ofDecimal? (text : DecimalText) : Option Double :=
  let whole := Significand.takeWhole {} text.whole
  let s := whole.takeFraction (text.fraction.getD [])
  let magnitude? : Option Double :=
    match text.exponent with
    | none => ofSignificand? s
    | some (down, digits) =>
      let e : Nat := digitsValue digits
      if greatestExponent < e then
        if s.value ≠ 0 ∧ !down then none else some (zero false)
      else ofSignificand? { s with exponent := if down then s.exponent - e else s.exponent + e }
  magnitude?.map fun x => if text.negative then x.neg else x

end Double

end Questionnaire
