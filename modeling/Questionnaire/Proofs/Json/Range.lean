import Questionnaire.Proofs.Json.Numeral

/-!
# The numbers of a text

The integers in the outline of a text have at most 64 bits, since a longer one is taken as a
double.
-/

namespace Questionnaire

namespace Outline

/-- The numbers that a reader may take off the outline are in range. -/
inductive InRange : Outline → Prop where
  | missing : InRange .missing
  | unreadable : InRange .unreadable
  | null (stop : Option Fault) : InRange (.null stop)
  | bool (b : Bool) (stop : Option Fault) : InRange (.bool b stop)
  | number {t : Token Numeral} (h : ∀ n, t.value = .ok n → n.InRange) : InRange (.number t)
  | string (t : Token String) : InRange (.string t)
  | array {elements : List Outline} (fault : Option (Bool × Fault))
    (h : ∀ o ∈ elements, InRange o) : InRange (.array elements fault)
  | object {members : List (Token String × Outline)} (fault : Option (Bool × Fault))
    (stray : Option Outline) (h : ∀ m ∈ members, InRange m.2) :
    InRange (.object members fault stray)

/-- The number of a token, if it has one, is in range. -/
def TokenInRange (t : Token Numeral) : Prop :=
  ∀ n, t.value = .ok n → n.InRange

theorem tokenInRange_error (fault : Fault) (stop : Option Fault) :
  TokenInRange { value := .error fault, stop }
  := by
  intro n hn
  cases hn

theorem numeral?_inRange {text : DecimalText} {n : Numeral} (h : numeral? text = some n) :
  n.InRange
  := by
  simp only [numeral?] at h
  split at h
  · rename_i hwhole
    cases h
    constructor
    · omega
    · exact Int.ofNat_lt.mpr hwhole.2.2.2
  · split at h
    · rename_i hnegative
      obtain ⟨-, -, -, hpos, hle⟩ := hnegative
      cases h
      have hle : (Double.digitsValue text.whole : Int) ≤ Nat.pow 2 63 := Int.ofNat_le.mpr hle
      constructor
      · omega
      · omega
    · cases hdouble : Double.ofDecimal? text with
      | none =>
        rw [hdouble] at h
        cases h
      | some x =>
        rw [hdouble] at h
        cases h
        trivial

theorem decimalToken_inRange (text : DecimalText) :
  TokenInRange (decimalToken text)
  := by
  unfold decimalToken
  split
  · rename_i n hn
    intro m hm
    cases hm
    exact numeral?_inRange hn
  · exact tokenInRange_error _ _

theorem takeExponentDigits_inRange (text : DecimalText) (down : Bool) (cs : List Char) :
  TokenInRange (takeExponentDigits text down cs).1
  := by
  unfold takeExponentDigits
  split
  · exact tokenInRange_error _ _
  · exact decimalToken_inRange _

theorem takeExponent_inRange (text : DecimalText) (cs : List Char) :
  TokenInRange (takeExponent text cs).1
  := by
  unfold takeExponent
  split
  · exact decimalToken_inRange _
  · split
    · split
      · exact takeExponentDigits_inRange _ _ _
      · exact takeExponentDigits_inRange _ _ _
      · exact takeExponentDigits_inRange _ _ _
    · exact decimalToken_inRange _

theorem takeFraction_inRange (negative : Bool) (whole : List Nat) (cs : List Char) :
  TokenInRange (takeFraction negative whole cs).1
  := by
  unfold takeFraction
  split
  · split
    · exact tokenInRange_error _ _
    · exact takeExponent_inRange _ _
  · exact takeExponent_inRange _ _

theorem takeMagnitude_inRange (negative : Bool) (cs : List Char) :
  TokenInRange (takeMagnitude negative cs).1
  := by
  unfold takeMagnitude
  split
  · exact tokenInRange_error _ _
  · exact tokenInRange_error _ _
  · exact takeFraction_inRange _ _ _

/-- A number that is taken off a text is in range. -/
theorem takeNumber_inRange (cs : List Char) :
  TokenInRange (takeNumber cs).1
  := by
  unfold takeNumber
  split
  · exact takeMagnitude_inRange _ _
  · exact takeMagnitude_inRange _ _

theorem ofFault_inRange (fault : Fault) :
  (ofFault fault).InRange
  := by
  cases fault with
  | ended => exact .missing
  | misplaced => exact .unreadable

/-! ### Values -/

/-- A value is in range if its elements or members are. -/
theorem takeValue_inRange {fuel : Nat}
    (helements : ∀ cs, ∀ o ∈ (takeElements fuel cs).elements, o.InRange)
    (hmembers : ∀ afterComma cs, ∀ m ∈ (takeMembers fuel afterComma cs).members, m.2.InRange)
    (cs : List Char) :
  (takeValue (fuel + 1) cs).1.InRange
  := by
  rw [takeValue]
  split
  · exact .missing
  · split_ifs
    · exact .null _
    · exact .bool _ _
    · exact .bool _ _
    · exact .string _
    · split
      · exact .array _ (by simp)
      · exact .array _ (by simp)
      · exact .array _ (helements _)
    · split
      · exact .object _ _ (by simp)
      · exact .object _ _ (by simp)
      · exact .object _ _ (hmembers _ _)
    · exact .number (takeNumber_inRange _)
    · exact .unreadable

theorem takeElements_inRange {fuel : Nat} (hvalue : ∀ cs, (takeValue fuel cs).1.InRange)
    (hmore : ∀ cs, ∀ o ∈ (takeElements fuel cs).elements, o.InRange) (cs : List Char) :
  ∀ o ∈ (takeElements (fuel + 1) cs).elements, o.InRange
  := by
  intro o ho
  have hfirst := hvalue cs
  rw [takeElements] at ho
  generalize takeValue fuel cs = taken at hfirst ho
  obtain ⟨value, behind⟩ := taken
  have hone (h : o ∈ [value]) : o.InRange := by
    rw [List.mem_singleton.mp h]
    exact hfirst
  cases behind with
  | none => exact hone ho
  | some rest =>
    simp only at ho
    split at ho
    · exact hone ho
    · exact hone ho
    · split at ho
      · exact hone ho
      · exact hone ho
      · obtain rfl | ho := List.mem_cons.mp ho
        · exact hfirst
        · exact hmore _ o ho
    · exact hone ho

theorem takeMembers_inRange {fuel : Nat} (hvalue : ∀ cs, (takeValue fuel cs).1.InRange)
    (hmore : ∀ afterComma cs, ∀ m ∈ (takeMembers fuel afterComma cs).members, m.2.InRange)
    (afterComma : Bool) (cs : List Char) :
  ∀ m ∈ (takeMembers (fuel + 1) afterComma cs).members, m.2.InRange
  := by
  intro m hm
  have hone {name : Token String} {o : Outline} (ho : o.InRange) (h : m ∈ [(name, o)]) :
      m.2.InRange := by
    rw [List.mem_singleton.mp h]
    exact ho
  unfold takeMembers at hm
  split at hm
  · split at hm
    · exact hone (ofFault_inRange _) hm
    · split at hm
      · rename_i text _
        have hfirst := hvalue text
        generalize takeValue fuel text = taken at hfirst hm
        obtain ⟨value, behind⟩ := taken
        cases behind with
        | none => exact hone hfirst hm
        | some rest =>
          simp only at hm
          split at hm
          · exact hone hfirst hm
          · exact hone hfirst hm
          · split at hm
            · exact hone hfirst hm
            · exact hone hfirst hm
            · obtain rfl | hm := List.mem_cons.mp hm
              · exact hfirst
              · exact hmore _ _ m hm
          · exact hone hfirst hm
      · exact hone .missing hm
      · exact hone .unreadable hm
  · cases hm

/-- The values that are taken off a text have their numbers in range. -/
theorem taken_inRange (fuel : Nat) :
  (∀ cs, (takeValue fuel cs).1.InRange) ∧
  (∀ cs, ∀ o ∈ (takeElements fuel cs).elements, o.InRange) ∧
  (∀ afterComma cs, ∀ m ∈ (takeMembers fuel afterComma cs).members, m.2.InRange)
  := by
  induction fuel with
  | zero =>
    refine ⟨fun _ => .unreadable, ?_, ?_⟩
    · intro cs o ho
      cases ho
    · intro afterComma cs m hm
      cases hm
  | succ fuel ih =>
    obtain ⟨hvalue, helements, hmembers⟩ := ih
    exact ⟨takeValue_inRange helements hmembers, takeElements_inRange hvalue helements,
      takeMembers_inRange hvalue hmembers⟩

/-- The outline of a text has its numbers in range. -/
theorem ofText_inRange (text : String) :
  (ofText text).1.InRange
  := by
  have h := (taken_inRange (2 * text.toList.length + 2)).1 text.toList
  simp only [ofText]
  split
  · rename_i hvalue
    rw [hvalue] at h
    exact h
  · rename_i hvalue
    rw [hvalue] at h
    exact h

end Outline

end Questionnaire
