import Questionnaire.Collection

/-!
# Dictionaries in order

The dictionary of some pairs is ordered, holds none but these pairs, and is the list of the pairs
itself if that is ordered.
-/

namespace Questionnaire

namespace Dict

variable {α : Type}

theorem mem_of_mem_insert {name : String} {value : α} {d : Dict α} {p : String × α}
    (h : p ∈ insert name value d) :
  p = (name, value) ∨ p ∈ d
  := by
  induction d with
  | nil =>
    left
    exact List.mem_singleton.mp h
  | cons entry rest ih =>
    unfold insert at h
    split at h
    · exact List.mem_cons.mp h
    · split at h
      · obtain rfl | h := List.mem_cons.mp h
        · left
          rfl
        · right
          exact List.mem_cons_of_mem _ h
      · obtain rfl | h := List.mem_cons.mp h
        · right
          exact List.mem_cons_self
        · exact (ih h).imp_right (List.mem_cons_of_mem _)

theorem Ordered.insert {name : String} {value : α} {d : Dict α} (h : d.Ordered) :
  (insert name value d).Ordered
  := by
  induction d with
  | nil => exact List.pairwise_singleton _ _
  | cons entry rest ih =>
    obtain ⟨hentry, hrest⟩ := List.pairwise_cons.mp h
    unfold Dict.insert
    split
    · rename_i hlt
      apply List.pairwise_cons.mpr
      constructor
      · intro p hp
        obtain rfl | hp := List.mem_cons.mp hp
        · exact hlt
        · exact String.lt_trans hlt (hentry p hp)
      · exact h
    · rename_i hnlt
      split
      · rename_i heq
        apply List.pairwise_cons.mpr
        constructor
        · intro p hp
          show name < p.1
          rw [heq]
          exact hentry p hp
        · exact hrest
      · rename_i hne
        apply List.pairwise_cons.mpr
        constructor
        · intro p hp
          obtain rfl | hp := mem_of_mem_insert hp
          · apply Decidable.byContradiction
            intro hngt
            exact hne (String.le_antisymm (String.not_lt.mp hngt) (String.not_lt.mp hnlt))
          · exact hentry p hp
        · exact ih hrest

theorem ordered_ofPairs (pairs : List (String × α)) :
  (ofPairs pairs).Ordered
  := by
  have hfold (d : Dict α) (h : d.Ordered) :
      (pairs.foldl (fun d p => insert p.1 p.2 d) d).Ordered := by
    induction pairs generalizing d with
    | nil => exact h
    | cons p pairs ih => exact ih _ h.insert
  exact hfold [] .nil

theorem mem_of_mem_ofPairs {pairs : List (String × α)} {p : String × α} :
  p ∈ ofPairs pairs → p ∈ pairs
  := by
  have hfold (d : Dict α) (h : p ∈ pairs.foldl (fun d p => insert p.1 p.2 d) d) :
      p ∈ d ∨ p ∈ pairs := by
    induction pairs generalizing d with
    | nil =>
      left
      exact h
    | cons q pairs ih =>
      obtain h | h := ih _ h
      · obtain rfl | h := mem_of_mem_insert h
        · right
          exact List.mem_cons_self
        · left
          exact h
      · right
        exact List.mem_cons_of_mem _ h
  intro h
  exact (hfold [] h).resolve_left List.not_mem_nil

theorem insert_of_forall_lt {name : String} {value : α} {d : Dict α} (h : ∀ p ∈ d, p.1 < name) :
  insert name value d = d ++ [(name, value)]
  := by
  induction d with
  | nil => rfl
  | cons entry rest ih =>
    have hlt : entry.1 < name := h entry List.mem_cons_self
    have hne : name ≠ entry.1 := by
      intro heq
      rw [heq] at hlt
      exact String.lt_irrefl _ hlt
    have hrest := ih fun p hp => h p (List.mem_cons_of_mem _ hp)
    rw [insert, if_neg (String.lt_asymm hlt), if_neg hne, hrest, List.cons_append]

/-- Pairs in the order of their names are a dictionary. -/
theorem ofPairs_eq_self {d : Dict α} (h : d.Ordered) :
  ofPairs d = d
  := by
  have hfold (front back : Dict α) (h : (front ++ back).Ordered) :
      back.foldl (fun d p => insert p.1 p.2 d) front = front ++ back := by
    induction back generalizing front with
    | nil => simp
    | cons p back ih =>
      have hfront : ∀ q ∈ front, q.1 < p.1 := by
        intro q hq
        exact (List.pairwise_append.mp h).2.2 q hq p List.mem_cons_self
      rw [List.foldl_cons, insert_of_forall_lt hfront]
      rw [ih, List.append_assoc, List.singleton_append]
      rw [List.append_assoc, List.singleton_append]
      exact h
  exact hfold [] d h

end Dict

end Questionnaire
