import Questionnaire.Proofs.Json.Text
import Questionnaire.Proofs.Json.Yields

/-!
# Documents that are written and read

A reader that reads the outline of a JSON value reads the text of the value, provided that the
text does not nest too deep and that the doubles in it are read as they are written.
-/

namespace Questionnaire

/-- The doubles in the value are read as they are written. -/
def Json.FloatsReadBack (j : Json) : Prop :=
  ∀ x, .double x ∈ j.numerals → Numeral.ReadsBack (.double x)

theorem Json.FloatsReadBack.readsBack {j : Json} (h : j.FloatsReadBack)
    (hrange : ∀ n ∈ j.numerals, n.InRange) :
  ∀ n ∈ j.numerals, n.ReadsBack
  := by
  intro n hn
  cases n with
  | int n => exact Numeral.readsBack_int (hrange _ hn)
  | double x => exact h x hn

namespace Reader

variable {α : Type} {r : Reader α}

/-- The text of a value is read as the document that the outline of the value is read as. -/
theorem Reads.ofText_toText {bound : Nat} {j : Json} {a : α} (h : r.Reads bound j a)
    (hbound : maxNesting < bound) (hdepth : j.depth ≤ maxNesting) (hfloats : j.FloatsReadBack)
    (style : Json.Style) :
  r.ofText (j.toText style) = .ok a
  := by
  have htext := Outline.ofText_toText style (hfloats.readsBack h.inRange)
  unfold ofText ofTextWithin
  rw [htext]
  show (r maxNesting j.outline).bind _ = _
  rw [h.eq_ok hbound hdepth]
  rfl

/-- What a reader gives off an outline it gives off a text. -/
theorem Yields.of_ofText {P : Nat → α → Prop} (h : r.Yields P) {text : String} {a : α}
    (ha : r.ofText text = .ok a) :
  P maxNesting a
  := by
  obtain ⟨b, hb, ha⟩ := exists_of_bind_eq_ok ha
  have hP := h.of_ok (Outline.ofText_inRange text) hb
  split at ha
  · cases ha
    exact hP
  · cases ha

end Reader

end Questionnaire
