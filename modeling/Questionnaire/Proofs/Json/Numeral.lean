import Mathlib.Data.List.TakeDrop
import Mathlib.Data.List.TakeWhile
import Mathlib.Tactic.Use
import Questionnaire.Json.Outline.Text
import Questionnaire.Json.Printer
import Questionnaire.Proofs.Json.Value

/-!
# Numbers in a text

The text of an integer of at most 64 bits is read back.  A number whose text is read back when it
stands alone is read back wherever a text goes on with a character that no number contains.
-/

namespace Questionnaire

namespace Numeral

/-- The integers that a JSON number may hold have 64 bits, with a sign if they are negative. -/
def InRange : Numeral → Prop
  | .int n => -(Nat.pow 2 63) ≤ n ∧ n < Nat.pow 2 64
  | .double _ => True

/-- The text of the number, standing alone, is read as the same number. -/
def ReadsBack (n : Numeral) : Prop :=
  Outline.takeNumber (Json.writeNumeral n) = (Json.token n, some [])

end Numeral

namespace Outline

/-! ### Where a number ends -/

/-- The text does not go on with a character that belongs to a number. -/
def EndsNumber (rest : List Char) : Prop :=
  ∀ c ∈ rest.head?, c.isDigit = false ∧ c ≠ '.' ∧ c ≠ 'e' ∧ c ≠ 'E'

theorem endsNumber_nil :
  EndsNumber []
  := by
  intro c h
  cases h

theorem endsNumber_cons {c : Char} {rest : List Char} :
  EndsNumber (c :: rest) ↔ c.isDigit = false ∧ c ≠ '.' ∧ c ≠ 'e' ∧ c ≠ 'E'
  := by
  simp [EndsNumber]

/-- The digits at the front of a text stay the same when the text goes on with no digit. -/
theorem span_append {cs rest : List Char} (h : EndsNumber rest) :
  (cs ++ rest).span Char.isDigit
    = ((cs.span Char.isDigit).1, (cs.span Char.isDigit).2 ++ rest)
  := by
  simp only [List.span_eq_takeWhile_dropWhile]
  induction cs with
  | nil =>
    cases rest with
    | nil => rfl
    | cons c rest => simp [(endsNumber_cons.mp h).1]
  | cons c cs ih =>
    by_cases hc : c.isDigit = true
    · simp only [Prod.mk.injEq] at ih
      simp [hc, ih.1, ih.2]
    · simp [hc]

theorem takeExponentDigits_append {text : DecimalText} {down : Bool} {cs rest : List Char}
    {t : Token Numeral} (h : takeExponentDigits text down cs = (t, some []))
    (hrest : EndsNumber rest) :
  takeExponentDigits text down (cs ++ rest) = (t, some rest)
  := by
  unfold takeExponentDigits at h ⊢
  rw [span_append hrest]
  split at h
  · simp [brokenNumber] at h
  · rename_i ds r hne hspan
    rw [hspan]
    simp only [Prod.mk.injEq, Option.some.injEq] at h
    obtain ⟨ht, rfl⟩ := h
    simp [ht]

theorem takeExponent_append {text : DecimalText} {cs rest : List Char} {t : Token Numeral}
    (h : takeExponent text cs = (t, some [])) (hrest : EndsNumber rest) :
  takeExponent text (cs ++ rest) = (t, some rest)
  := by
  cases cs with
  | nil =>
    simp only [takeExponent, Prod.mk.injEq] at h
    cases rest with
    | nil => simp [takeExponent, h.1]
    | cons c rest =>
      obtain ⟨-, -, hc, hC⟩ := endsNumber_cons.mp hrest
      simp [takeExponent, hc, hC, h.1]
  | cons c cs =>
    by_cases hc : c = 'e' ∨ c = 'E'
    · simp only [takeExponent, hc, if_true, List.cons_append] at h ⊢
      split at h
      · simpa using takeExponentDigits_append h hrest
      · simpa using takeExponentDigits_append h hrest
      · rename_i hplus hminus
        cases cs with
        | nil => simp [takeExponentDigits, List.span, List.span.loop, brokenNumber] at h
        | cons d cs =>
          rw [List.cons_append]
          split
          · rename_i heq
            cases heq
            cases hplus cs rfl
          · rename_i heq
            cases heq
            cases hminus cs rfl
          · simpa using takeExponentDigits_append h hrest
    · simp [takeExponent, hc] at h

theorem takeFraction_append {negative : Bool} {whole : List Nat} {cs rest : List Char}
    {t : Token Numeral} (h : takeFraction negative whole cs = (t, some []))
    (hrest : EndsNumber rest) :
  takeFraction negative whole (cs ++ rest) = (t, some rest)
  := by
  unfold takeFraction at h
  split at h
  · rename_i cs
    split at h
    · simp [brokenNumber] at h
    · rename_i ds behind hne hspan
      simp only [takeFraction, List.cons_append, span_append hrest, hspan]
      exact takeExponent_append h hrest
  · rename_i hdot
    have happend := takeExponent_append h hrest
    unfold takeFraction
    split
    · rename_i rest' heq
      cases cs with
      | nil =>
        rw [List.nil_append] at heq
        cases (endsNumber_cons.mp (heq ▸ hrest)).2.1 rfl
      | cons c cs =>
        rw [List.cons_append, List.cons.injEq] at heq
        cases hdot cs (by rw [heq.1])
    · exact happend

theorem takeMagnitude_append {negative : Bool} {cs rest : List Char} {t : Token Numeral}
    (h : takeMagnitude negative cs = (t, some [])) (hrest : EndsNumber rest) :
  takeMagnitude negative (cs ++ rest) = (t, some rest)
  := by
  unfold takeMagnitude at h ⊢
  rw [span_append hrest]
  split at h
  · simp [brokenNumber] at h
  · simp at h
  · rename_i whole behind hne hzero hspan
    rw [hspan]
    split
    · rename_i heq
      cases heq
      cases hne rfl
    · rename_i heq
      cases heq
      cases hzero _ _ rfl
    · rename_i heq
      cases heq
      exact takeFraction_append h hrest

theorem takeMagnitude_of_not_isDigit {negative : Bool} {c : Char} {cs : List Char}
    (hc : c.isDigit = false) :
  takeMagnitude negative (c :: cs) = brokenNumber (c :: cs)
  := by
  simp [takeMagnitude, List.span_eq_takeWhile_dropWhile, hc]

theorem takeNumber_of_ne {c : Char} {cs : List Char} (hc : c ≠ '-') :
  takeNumber (c :: cs) = takeMagnitude false (c :: cs)
  := by
  unfold takeNumber
  split
  · rename_i heq
    cases heq
    cases hc rfl
  · rfl

/-- A number starts with its sign or with a digit. -/
theorem exists_cons_of_takeNumber {cs rest : List Char} {t : Token Numeral}
    (h : takeNumber cs = (t, some rest)) :
  ∃ c cs', cs = c :: cs' ∧ (c = '-' ∨ c.isDigit = true)
  := by
  cases cs with
  | nil => cases h
  | cons c cs =>
    use c, cs, rfl
    by_cases hc : c = '-'
    · left
      exact hc
    · right
      by_contra hdigit
      rw [takeNumber_of_ne hc, takeMagnitude_of_not_isDigit (Bool.eq_false_iff.mpr hdigit)] at h
      cases h

/-- A number that ends with the text ends where the text goes on with something else. -/
theorem takeNumber_append {cs rest : List Char} {t : Token Numeral}
    (h : takeNumber cs = (t, some [])) (hrest : EndsNumber rest) :
  takeNumber (cs ++ rest) = (t, some rest)
  := by
  obtain ⟨c, cs, rfl, -⟩ := exists_cons_of_takeNumber h
  by_cases hc : c = '-'
  · rw [hc] at h ⊢
    exact takeMagnitude_append h hrest
  · rw [takeNumber_of_ne hc] at h
    rw [List.cons_append, takeNumber_of_ne hc]
    exact takeMagnitude_append h hrest

/-! ### Integers -/

theorem isDigit_of_mem_natDigits {n : Nat} {c : Char} (hc : c ∈ natDigits n) :
  c.isDigit = true
  := Nat.isDigit_of_mem_toDigits (by decide) (by decide) hc

theorem digitsValue_natDigits (n : Nat) :
  Double.digitsValue (digitValues (natDigits n)) = n
  := by
  have hfold (cs : List Char) (k : Nat) :
      List.foldl (fun n d => n * 10 + d) k (digitValues cs) = Nat.ofDigitChars 10 cs k := by
    simp [digitValues, List.foldl_map, Nat.ofDigitChars_eq_foldl, Nat.mul_comm]
  unfold Double.digitsValue
  rw [hfold]
  exact Nat.ofDigitChars_ten_toDigits

/-- The digits of a number start with zero only if the number is zero. -/
theorem eq_zero_of_head?_natDigits {n : Nat} (h : (natDigits n).head? = some '0') :
  n = 0
  := by
  induction n using Nat.strongRecOn with
  | ind n ih =>
    unfold natDigits at h ih
    rw [Nat.toDigits_eq_if (by decide)] at h
    split at h
    · rename_i hlt
      have hcode : n.digitChar.toNat = '0'.toNat := by
        simp only [List.head?_cons, Option.some.injEq] at h
        rw [h]
      rw [Nat.toNat_digitChar_of_lt_ten hlt] at hcode
      exact Nat.add_left_cancel hcode
    · rename_i hle
      rw [List.head?_append_of_ne_nil _ Nat.toDigits_ne_nil] at h
      have := ih (n / 10) (by omega) h
      omega

theorem natDigits_ne_zero_cons (n : Nat) (d : Char) (ds : List Char) :
  natDigits n ≠ '0' :: d :: ds
  := by
  intro h
  have hn : n = 0 := by
    apply eq_zero_of_head?_natDigits
    rw [h]
    rfl
  rw [hn] at h
  cases h

theorem takeMagnitude_natDigits (negative : Bool) (n : Nat) :
  takeMagnitude negative (natDigits n)
    = (decimalToken ⟨negative, digitValues (natDigits n), none, none⟩, some [])
  := by
  have hspan : (natDigits n).span Char.isDigit = (natDigits n, []) := by
    have hall : ∀ c ∈ natDigits n, c.isDigit = true := fun c => isDigit_of_mem_natDigits
    rw [List.span_eq_takeWhile_dropWhile, List.takeWhile_eq_self_iff.mpr hall,
      List.dropWhile_eq_nil_iff.mpr hall]
  unfold takeMagnitude
  rw [hspan]
  split
  · rename_i heq
    cases Nat.toDigits_ne_nil (congrArg Prod.fst heq)
  · rename_i heq
    cases natDigits_ne_zero_cons n _ _ (congrArg Prod.fst heq)
  · rename_i heq
    cases heq
    rfl

theorem takeNumber_natDigits (n : Nat) :
  takeNumber (natDigits n) = takeMagnitude false (natDigits n)
  := by
  cases h : natDigits n with
  | nil => rfl
  | cons d ds =>
    apply takeNumber_of_ne
    rintro rfl
    have hdigit : '-'.isDigit = true := isDigit_of_mem_natDigits (n := n) (by simp [h])
    cases hdigit

end Outline

/-- The text of an integer in range is read as that integer. -/
theorem Numeral.readsBack_int {n : Int} (h : InRange (.int n)) :
  ReadsBack (.int n)
  := by
  obtain ⟨hlow, hhigh⟩ := h
  show Outline.takeNumber (intDigits n) = (Json.token (.int n), some [])
  cases n with
  | ofNat n =>
    have hn : n < Nat.pow 2 64 := Int.ofNat_lt.mp hhigh
    show Outline.takeNumber (natDigits n) = _
    rw [Outline.takeNumber_natDigits, Outline.takeMagnitude_natDigits]
    simp [Outline.decimalToken, Outline.numeral?, Outline.digitsValue_natDigits, hn, Json.token]
  | negSucc n =>
    have hn : n + 1 ≤ Nat.pow 2 63 := by
      rw [Int.negSucc_eq] at hlow
      omega
    show Outline.takeMagnitude true (natDigits (n + 1)) = _
    rw [Outline.takeMagnitude_natDigits]
    simp [Outline.decimalToken, Outline.numeral?, Outline.digitsValue_natDigits, hn, Json.token,
      Int.negSucc_eq]

end Questionnaire
