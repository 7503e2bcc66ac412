import Questionnaire.Number.Double

/-!
# Shortest decimal digits

The decimal digits that stand for a double are the fewest that are read back as the same double
by a correctly rounding reader, and among those the ones nearest to its value.  For each count of
digits, from one to seventeen, the two neighbours of the value on the grid of decimals with that
many digits are compared with the interval of reals that round to the double; the first grid with
a neighbour inside the interval wins.
-/

namespace Questionnaire

/-- The decimal `digits * 10 ^ exponent`. -/
structure DecimalDigits where
  digits : Nat
  exponent : Int
  deriving DecidableEq, Repr

/-- The same decimal, with ten units of a place written as one of the next. -/
def DecimalDigits.carry (d : DecimalDigits) : DecimalDigits :=
  if d.digits = 10 then ⟨1, d.exponent + 1⟩ else d

namespace Double

/-- The number of decimal digits of a natural number. -/
def digitCount (n : Nat) : Nat :=
  (Nat.toDigits 10 n).length

/-- The exponent `e` with `10 ^ e ≤ num / den < 10 ^ (e + 1)`, for a positive quotient. -/
def floorLog10 (num den : Nat) : Int :=
  if den ≤ num then (digitCount (num / den) : Int) - 1
  else
    -- This is the least natural number above or equal to `den / num`, less one.
    -(digitCount ((den + num - 1) / num - 1) : Int)

/-- The ends of the interval of reals that round to a positive double, in units of a quarter of
the last place of its mantissa. -/
def roundingInterval (x : Double) : Nat × Nat :=
  let below := if x.mantissa = Nat.pow 2 52 ∧ x.exponent ≠ -1074 then 1 else 2
  (4 * x.mantissa - below, 4 * x.mantissa + 2)

/-- Whether `digits * 10 ^ exponent` rounds to the magnitude of `x`; the ends of the interval
belong to it when the mantissa is even. -/
def roundsTo (x : Double) (digits : Nat) (exponent : Int) : Bool :=
  let (low, high) := x.roundingInterval
  -- Both sides are multiplied by the powers of two and ten that make them natural numbers.
  let (d, one) := match exponent with
    | .ofNat e => (digits * Nat.pow 10 e, 1)
    | .negSucc e => (digits, Nat.pow 10 (e + 1))
  let (value, unit) := scaled d one (x.exponent - 2)
  if x.mantissa % 2 = 0 then decide (low * unit ≤ value) && decide (value ≤ high * unit)
  else decide (low * unit < value) && decide (value < high * unit)

/-- The neighbours of the magnitude of `x` among the multiples of `10 ^ exponent`: the one below
or equal, and whether the one above is nearer (`gt`), farther (`lt`) or as near. -/
def neighbour (x : Double) (exponent : Int) : Nat × Ordering :=
  let (num, den) := x.magnitude
  let (n, d) := match exponent with
    | .ofNat e => (num, den * Nat.pow 10 e)
    | .negSucc e => (num * Nat.pow 10 (e + 1), den)
  (n / d, compare (2 * (n % d)) d)

/-- The digits of the grid with the given exponent that are read back as `x`, if there are any:
the nearer of the two neighbours, and the even one if they are equally near. -/
def onGrid? (x : Double) (exponent : Int) : Option DecimalDigits :=
  let (low, side) := x.neighbour exponent
  let inLow := x.roundsTo low exponent
  let inHigh := x.roundsTo (low + 1) exponent
  match inLow, inHigh with
  | true, true =>
    match side with
    | .lt => some ⟨low, exponent⟩
    | .gt => some ⟨low + 1, exponent⟩
    | .eq => some ⟨low + low % 2, exponent⟩
  | true, false => some ⟨low, exponent⟩
  | false, true => some ⟨low + 1, exponent⟩
  | false, false => none

/-- The shortest digits of the magnitude of a double. -/
def shortest (x : Double) : DecimalDigits :=
  if x.isZero then ⟨0, 0⟩
  else
    let (num, den) := x.magnitude
    let lead := floorLog10 num den
    match (List.range 17).findSome? fun (n : Nat) => x.onGrid? (lead - n) with
    | some d => d.carry
    | none => ⟨0, 0⟩

end Double

end Questionnaire
