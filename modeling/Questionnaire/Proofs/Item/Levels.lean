import Questionnaire.Proofs.Item.Tree

/-!
# Levels as a queue yields them

The levels of a tree, one behind the other, are the order in which its items leave a queue that
takes up the items in each item behind all others.
-/

namespace Questionnaire

namespace Item

/-- The items of some trees, those in the first behind the rest. -/
def queue : List Item → List Item
  | [] => []
  | x :: rest => x :: queue (rest ++ x.children)
termination_by xs => (xs.flatMap subtree).length
decreasing_by
  rw [List.flatMap_append, List.flatMap_cons, subtree_eq x, List.length_append, List.length_append,
    List.length_cons]
  omega

theorem queue_append (xs ys : List Item) :
  queue (xs ++ ys) = xs ++ queue (ys ++ xs.flatMap children)
  := by
  induction xs generalizing ys with
  | nil => rw [List.flatMap_nil, List.append_nil, List.nil_append, List.nil_append]
  | cons x xs ih =>
    rw [List.cons_append, queue, List.append_assoc, ih, List.append_assoc, List.flatMap_cons,
      List.cons_append]

theorem height_eq (x : Item) :
  x.height = heightOf x.children + 1
  := by
  cases x with
  | single s => rfl
  | group g =>
    obtain ⟨head, selectionMethod, items⟩ := g
    rfl

theorem heightOf_le_iff {xs : List Item} {n : Nat} :
  heightOf xs ≤ n ↔ ∀ x ∈ xs, heightOf x.children < n
  := by
  induction xs with
  | nil => simp [heightOf]
  | cons x xs ih =>
    rw [heightOf, Nat.max_le, ih, height_eq, List.forall_mem_cons]
    rfl

theorem levels_eq_queue {n : Nat} {xs : List Item} (h : heightOf xs ≤ n) :
  levels n xs = queue xs
  := by
  induction n generalizing xs with
  | zero =>
    cases xs with
    | nil => rw [levels, queue]
    | cons x xs =>
      have hx := heightOf_le_iff.mp h x List.mem_cons_self
      exfalso
      apply Nat.not_lt_zero _ hx
  | succ n ih =>
    cases xs with
    | nil => rw [levels, queue]
    | cons x xs =>
      have hbelow : heightOf ((x :: xs).flatMap children) ≤ n := by
        rw [heightOf_le_iff]
        intro z hz
        obtain ⟨y, hy, hz⟩ := List.mem_flatMap.mp hz
        apply heightOf_le_iff.mp _ z hz
        apply Nat.le_of_lt_succ (heightOf_le_iff.mp h y hy)
      have hqueue := queue_append (x :: xs) []
      rw [List.append_nil, List.nil_append] at hqueue
      rw [levels, ih hbelow, hqueue]
      intro hnil
      cases hnil

theorem breadthFirst_eq (x : Item) :
  x.breadthFirst = queue [x]
  := by
  apply levels_eq_queue
  apply Nat.le_of_eq
  exact Nat.max_zero x.height

end Item

end Questionnaire
