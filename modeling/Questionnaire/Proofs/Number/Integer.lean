import Mathlib.Tactic.ByContra
import Mathlib.Tactic.Use
import Questionnaire.Number.Double

/-!
# Doubles that are integers

The double nearest to an integer that is itself a double is that double, with one exception: the
integer zero does not say which of the two zeros it was.  The natural numbers of at most 53 bits are
doubles (`toInt?_ofInt`).
-/

namespace Questionnaire

namespace Double

/-- The number, with zero in place of negative zero. -/
def normalize (x : Double) : Double :=
  if x.isZero then zero false else x

theorem isZero_iff {x : Double} :
  x.isZero = true ↔ x.mantissa = 0
  := by
  simp [isZero]

/-! ### Rounding a quotient that needs no rounding -/

theorem roundQuotient_mul (q : Nat) {d : Nat} (hd : 0 < d) :
  roundQuotient (q * d) d = q
  := by
  have hq : q * d / d = q := Nat.mul_div_cancel q hd
  have hr : q * d % d = 0 := Nat.mul_mod_left q d
  simp [roundQuotient, hq, hr, hd]

theorem floorLog2_one {n : Nat} (hn : n ≠ 0) :
  floorLog2 n 1 = n.log2
  := by
  have hlog : (n.log2 : Int) - Nat.log2 1 = Int.ofNat n.log2 := by simp [Nat.log2_def 1]
  have hle : Nat.pow 2 n.log2 ≤ n := Nat.log2_self_le hn
  simp only [floorLog2, hlog, scaled, Nat.one_mul, if_pos hle]
  rfl

theorem log2_mul_two_pow {n : Nat} (hn : n ≠ 0) (k : Nat) :
  (n * Nat.pow 2 k).log2 = n.log2 + k
  := by
  induction k with
  | zero => simp
  | succ k ih =>
    have hpow : n * Nat.pow 2 (k + 1) = 2 * (n * Nat.pow 2 k) := by
      simp only [Nat.pow_eq, Nat.pow_succ]
      rw [Nat.mul_comm 2, Nat.mul_assoc]
    have hne : n * Nat.pow 2 k ≠ 0 := Nat.mul_ne_zero hn (Nat.ne_of_gt (Nat.two_pow_pos k))
    rw [hpow, Nat.log2_two_mul hne, ih]
    rfl

/-- A mantissa of 53 bits has its leading bit set. -/
theorem log2_mantissa {m : Nat} (hlow : Nat.pow 2 52 ≤ m) (hhigh : m < Nat.pow 2 53) :
  m.log2 = 52
  := by
  have hm : m ≠ 0 := Nat.ne_of_gt (Nat.lt_of_lt_of_le (Nat.two_pow_pos 52) hlow)
  exact (Nat.log2_eq_iff hm).mpr ⟨hlow, hhigh⟩

/-- A natural number that is a mantissa of 53 bits in units of `2 ^ exponent` is rounded to that
mantissa and exponent. -/
theorem ofQuotient?_one {negative : Bool} {n m d : Nat} {e : Int} (hm : m < Nat.pow 2 53)
    (hlog : (n.log2 : Int) = 52 + e) (hn : n ≠ 0) (hd : 0 < d)
    (hscaled : scaled n 1 e = (m * d, d)) :
  ofQuotient? negative n 1 = ofParts? negative m e
  := by
  have hexp : max (floorLog2 n 1 - 52) (-1074) = e := by
    rw [floorLog2_one hn, hlog]
    omega
  unfold ofQuotient?
  rw [if_neg hn]
  simp only [hexp, hscaled, roundQuotient_mul m hd]
  rw [if_neg (Nat.ne_of_lt hm)]

/-! ### The integer of a double -/

/-- The magnitude of a double is its mantissa over a power of two, or its mantissa times a power
of two. -/
theorem magnitude_eq (x : Double) :
  (∃ k : Nat, x.exponent = -k ∧ x.magnitude = (x.mantissa, Nat.pow 2 k)) ∨
  (∃ k : Nat, x.exponent = k + 1 ∧ x.magnitude = (x.mantissa * Nat.pow 2 (k + 1), 1))
  := by
  unfold magnitude
  cases x.exponent with
  | negSucc k =>
    left
    use k + 1
    constructor
    · rfl
    · show (x.mantissa, 1 * Nat.pow 2 (k + 1)) = _
      rw [Nat.one_mul]
  | ofNat k =>
    cases k with
    | zero =>
      left
      use 0
      exact ⟨rfl, rfl⟩
    | succ k =>
      right
      use k
      exact ⟨rfl, rfl⟩

/-- Only with the least exponent may a mantissa have its leading bit unset. -/
theorem log2_mantissa_of_exponent {x : Double} (h : x.exponent ≠ -1074) :
  x.mantissa.log2 = 52
  := by
  obtain ⟨hm, -, -, hnormal⟩ := x.canonical
  apply log2_mantissa (hnormal.resolve_right h) hm

/-- A natural number is rounded to the double that has a multiple of it for its mantissa, and takes
the factor back with its exponent. -/
theorem ofQuotient?_of_mantissa {x : Double} {n k : Nat} (hk : x.exponent = -k) (hn : n ≠ 0)
    (hmantissa : x.mantissa = n * Nat.pow 2 k) :
  ofQuotient? x.negative n 1 = some x
  := by
  have hm := x.canonical.1
  have hk53 : k < 53 := by
    have hle : Nat.pow 2 k ≤ x.mantissa := by
      rw [hmantissa]
      exact Nat.le_mul_of_pos_left _ (Nat.pos_of_ne_zero hn)
    exact (Nat.pow_lt_pow_iff_right Nat.one_lt_two).mp (Nat.lt_of_le_of_lt hle hm)
  have hlog : n.log2 + k = 52 := by
    rw [← log2_mul_two_pow hn, ← hmantissa]
    apply log2_mantissa_of_exponent
    omega
  have hscaled : scaled n 1 x.exponent = (x.mantissa * 1, 1) := by
    rw [hk, Nat.mul_one, hmantissa]
    cases k with
    | zero =>
      show (n, 1 * Nat.pow 2 0) = (n * Nat.pow 2 0, 1)
      simp
    | succ k => rfl
  rw [ofQuotient?_one hm (by omega) hn Nat.one_pos hscaled]
  exact dif_pos x.canonical

/-- A multiple of a mantissa by a power of two is rounded to the double with that mantissa, if the
power is that of its exponent. -/
theorem ofQuotient?_mul_two_pow {x : Double} {k : Nat} (hk : x.exponent = k + 1)
    (hx : x.mantissa ≠ 0) :
  ofQuotient? x.negative (x.mantissa * Nat.pow 2 (k + 1)) 1 = some x
  := by
  have hpow : 0 < Nat.pow 2 (k + 1) := Nat.two_pow_pos (k + 1)
  have hn : x.mantissa * Nat.pow 2 (k + 1) ≠ 0 := Nat.mul_ne_zero hx (Nat.ne_of_gt hpow)
  have hlog : ((x.mantissa * Nat.pow 2 (k + 1)).log2 : Int) = 52 + x.exponent := by
    rw [log2_mul_two_pow hx, log2_mantissa_of_exponent (by omega), hk]
    rfl
  have hscaled : scaled (x.mantissa * Nat.pow 2 (k + 1)) 1 x.exponent
      = (x.mantissa * Nat.pow 2 (k + 1), Nat.pow 2 (k + 1)) := by
    rw [hk]
    show (_, 1 * Nat.pow 2 (k + 1)) = _
    rw [Nat.one_mul]
  rw [ofQuotient?_one x.canonical.1 hlog hn hpow hscaled]
  exact dif_pos x.canonical

/-- The natural number that is the magnitude of a double, if it is not zero, is rounded to the
double again. -/
theorem ofQuotient?_magnitude {x : Double} (hx : x.mantissa ≠ 0)
    (hdvd : x.magnitude.1 % x.magnitude.2 = 0) :
  x.magnitude.1 / x.magnitude.2 ≠ 0 ∧
    ofQuotient? x.negative (x.magnitude.1 / x.magnitude.2) 1 = some x
  := by
  obtain ⟨k, hk, hmag⟩ | ⟨k, hk, hmag⟩ := x.magnitude_eq
  · rw [hmag] at hdvd ⊢
    have hmul := (Nat.div_mul_cancel (Nat.dvd_of_mod_eq_zero hdvd)).symm
    have hn : x.mantissa / Nat.pow 2 k ≠ 0 := by
      intro hzero
      rw [hzero, Nat.zero_mul] at hmul
      exact hx hmul
    exact ⟨hn, ofQuotient?_of_mantissa hk hn hmul⟩
  · rw [hmag, Nat.div_one]
    exact ⟨Nat.mul_ne_zero hx (Nat.ne_of_gt (Nat.two_pow_pos (k + 1))),
      ofQuotient?_mul_two_pow hk hx⟩

/-- The double nearest to the integer that a double is. -/
theorem ofInt_of_toInt? {x : Double} {n : Int} (h : x.toInt? = some n) :
  ofInt n = x.normalize
  := by
  have hdvd : x.magnitude.1 % x.magnitude.2 = 0 := by
    by_contra hne
    simp only [toInt?, if_neg hne] at h
    cases h
  simp only [toInt?, if_pos hdvd, Option.some.injEq] at h
  unfold normalize
  by_cases hx : x.mantissa = 0
  · have hzero : x.magnitude.1 / x.magnitude.2 = 0 := by
      obtain ⟨k, -, hmag⟩ | ⟨k, -, hmag⟩ := x.magnitude_eq
      · simp [hmag, hx]
      · simp [hmag, hx]
    have hn : n = 0 := by
      rw [← h, hzero]
      simp
    rw [if_pos (isZero_iff.mpr hx), hn]
    rfl
  · obtain ⟨hne, hround⟩ := ofQuotient?_magnitude hx hdvd
    have hpos : 0 < x.magnitude.1 / x.magnitude.2 := Nat.pos_of_ne_zero hne
    have habs : n.natAbs = x.magnitude.1 / x.magnitude.2 := by
      rw [← h]
      split <;> omega
    have hsign : decide (n < 0) = x.negative := by
      rw [← h]
      cases x.negative
      · simp only [Bool.false_eq_true, if_false, decide_eq_false_iff_not]
        omega
      · simp only [if_true, decide_eq_true_eq]
        omega
    rw [if_neg (fun hz => hx (isZero_iff.mp hz)), ofInt, ofInt?, habs, hsign, hround]
    rfl

theorem toInt?_of_isZero {x : Double} (h : x.isZero = true) :
  x.toInt? = some 0
  := by
  have hm := isZero_iff.mp h
  unfold toInt?
  obtain ⟨k, -, hmag⟩ | ⟨k, -, hmag⟩ := x.magnitude_eq
  · simp [hmag, hm]
  · simp [hmag, hm]

theorem normalize_eq_self {x : Double} (h : x.toInt? ≠ some 0) :
  x.normalize = x
  := by
  unfold normalize
  split
  · rename_i hzero
    cases h (toInt?_of_isZero hzero)
  · rfl

/-! ### Natural numbers that are doubles -/

/-- A positive number of at most 53 bits is a double, whose mantissa has its leading bit in the
first place. -/
theorem exists_toInt?_eq {n : Nat} (hn : n ≠ 0) (h : n < Nat.pow 2 53) :
  ∃ x : Double, x.toInt? = some (n : Int)
  := by
  obtain ⟨k, hk⟩ : ∃ k, n.log2 + k = 52 :=
    ⟨52 - n.log2, Nat.add_sub_of_le (Nat.le_of_lt_succ ((Nat.log2_lt hn).mpr h))⟩
  have hpow : 0 < Nat.pow 2 k := Nat.two_pow_pos k
  have hmantissa : n * Nat.pow 2 k ≠ 0 := Nat.mul_ne_zero hn (Nat.ne_of_gt hpow)
  have hlog : (n * Nat.pow 2 k).log2 = 52 := by rw [log2_mul_two_pow hn, hk]
  obtain ⟨hlow, hhigh⟩ := (Nat.log2_eq_iff hmantissa).mp hlog
  use ⟨false, n * Nat.pow 2 k, -k, hhigh, by omega, by omega, Or.inl hlow⟩
  have hscaled : scaled (n * Nat.pow 2 k) 1 (- -(k : Int)) = (n * Nat.pow 2 k, Nat.pow 2 k) := by
    rw [Int.neg_neg]
    show (n * Nat.pow 2 k, 1 * Nat.pow 2 k) = _
    rw [Nat.one_mul]
  simp only [toInt?, magnitude, hscaled, Nat.mul_mod_left, if_true, Nat.mul_div_cancel n hpow,
    Bool.false_eq_true, if_false]

/-- The double nearest to a natural number of at most 53 bits is the number itself. -/
theorem toInt?_ofInt {n : Nat} (h : n < Nat.pow 2 53) :
  (ofInt n).toInt? = some (n : Int)
  := by
  by_cases hn : n = 0
  · subst hn
    exact toInt?_of_isZero rfl
  · obtain ⟨x, hx⟩ := exists_toInt?_eq hn h
    rw [ofInt_of_toInt? hx, normalize_eq_self (by rw [hx]; simpa using hn), hx]

end Double

end Questionnaire
