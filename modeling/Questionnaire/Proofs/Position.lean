import Mathlib.Data.List.Perm.Basic
import Questionnaire.Collection

/-!
# What stands in a list after a change at one place

An insertion adds one element wherever it is made, and the first element of some kind gives way to
its image.  Up to order the changed list is the new element before the others: those of the list,
or those of the list without the first of the kind.
-/

namespace Questionnaire

/-! ### Insertions -/

theorem map_insertAt {α β : Type} (f : α → β) (position : Option Nat) (x : α) (xs : List α) :
  (insertAt position x xs).map f = insertAt position (f x) (xs.map f)
  := by
  simp [insertAt, List.map_take, List.map_drop]

theorem insertAt_none {α : Type} (x : α) (xs : List α) :
  insertAt none x xs = xs ++ [x]
  := by
  simp [insertAt]

theorem insertAt_perm {α : Type} (position : Option Nat) (x : α) (xs : List α) :
  (insertAt position x xs).Perm (x :: xs)
  := by
  rw [insertAt]
  apply List.perm_middle.trans
  rw [List.take_append_drop]

theorem mem_insertAt {α : Type} {position : Option Nat} {x y : α} {xs : List α} :
  y ∈ insertAt position x xs ↔ y = x ∨ y ∈ xs
  := by
  rw [(insertAt_perm position x xs).mem_iff, List.mem_cons]

/-- An insertion splits the list at the position, or at its end. -/
theorem exists_insertAt_eq {α : Type} (position : Option Nat) (x : α) (xs : List α) :
  ∃ before after, xs = before ++ after ∧ before.length = min (position.getD xs.length) xs.length
    ∧ insertAt position x xs = before ++ x :: after
  := by
  let n := min (position.getD xs.length) xs.length
  use xs.take n, xs.drop n, (List.take_append_drop n xs).symm
  constructor
  · rw [List.length_take]
    apply Nat.min_eq_left (Nat.min_le_right _ _)
  · rfl

/-- What was taken out of a list is put back where it was. -/
theorem insertAt_length {α : Type} (before after : List α) (x : α) :
  insertAt (some before.length) x (before ++ after) = before ++ x :: after
  := by
  simp [insertAt]

/-! ### The first element of a kind -/

variable {α : Type} {p : α → Bool} {f : α → α} {x : α} {xs : List α}

theorem perm_cons_eraseP (h : xs.find? p = some x) :
  xs.Perm (x :: xs.eraseP p)
  := by
  induction xs with
  | nil => cases h
  | cons y ys ih =>
    by_cases hy : p y = true
    · rw [List.find?_cons_of_pos hy, Option.some_inj] at h
      rw [List.eraseP_cons_of_pos hy, h]
    · rw [List.find?_cons_of_neg hy] at h
      rw [List.eraseP_cons_of_neg hy]
      exact ((ih h).cons y).trans (List.Perm.swap x y _)

theorem modifyFirst_perm (h : xs.find? p = some x) :
  (modifyFirst p f xs).Perm (f x :: xs.eraseP p)
  := by
  induction xs with
  | nil => cases h
  | cons y ys ih =>
    rw [modifyFirst]
    by_cases hy : p y = true
    · rw [List.find?_cons_of_pos hy, Option.some_inj] at h
      rw [if_pos hy, List.eraseP_cons_of_pos hy, h]
    · rw [List.find?_cons_of_neg hy] at h
      rw [if_neg hy, List.eraseP_cons_of_neg hy]
      exact ((ih h).cons y).trans (List.Perm.swap (f x) y _)

/-- If the image is of the kind as well, it is the first one afterwards. -/
theorem find?_modifyFirst (h : xs.find? p = some x) (hx : p (f x) = true) :
  (modifyFirst p f xs).find? p = some (f x)
  := by
  induction xs with
  | nil => cases h
  | cons y ys ih =>
    rw [modifyFirst]
    by_cases hy : p y = true
    · rw [List.find?_cons_of_pos hy, Option.some_inj] at h
      rw [if_pos hy, h, List.find?_cons_of_pos hx]
    · rw [List.find?_cons_of_neg hy] at h
      rw [if_neg hy, List.find?_cons_of_neg hy, ih h]

/-- The last element changes if it is the only one of the kind. -/
theorem modifyFirst_concat (h : xs.find? p = none) (hx : p x = true) :
  modifyFirst p f (xs ++ [x]) = xs ++ [f x]
  := by
  induction xs with
  | nil => exact if_pos hx
  | cons y ys ih =>
    rw [List.find?_eq_none, List.forall_mem_cons, ← List.find?_eq_none] at h
    rw [List.cons_append, modifyFirst, if_neg h.1, ih h.2, List.cons_append]

end Questionnaire
