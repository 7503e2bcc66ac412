import Mathlib.Data.List.Chain
import Questionnaire.Proofs.Key.Lineage

/-!
# How the functions on keys fit together

The prefixes of a key lead down to it from a key without a dot, one segment at a time.  They are
the keys that it lies within, and the keys from which it can be rebased; and what is rebased can be
rebased back, or on to a third key, as if it had never been moved.  A key is its parent and its last
segment put together.  All of this holds of every text, also where segments are empty
(`functions_fit`).
-/

namespace Questionnaire

namespace Key

/-! ### Prefixes -/

theorem getLast?_prefixes (key : Key) :
  (prefixes key).getLast? = some key
  := by
  obtain ⟨shorter, hprefixes, -⟩ := exists_prefixes_eq key
  rw [hprefixes, List.getLast?_concat]

/-- The shortest prefix has no parent. -/
theorem exists_head?_prefixes (key : Key) :
  ∃ first, (prefixes key).head? = some first ∧ parent? first = none
  := by
  induction key using inductionOn with
  | top key h =>
    use key
    rw [prefixes_of_parent?_eq_none h]
    exact ⟨rfl, h⟩
  | below key p h ih =>
    obtain ⟨first, hfirst, hparent⟩ := ih
    use first
    rw [prefixes_of_parent? h, List.head?_append, hfirst]
    exact ⟨rfl, hparent⟩

/-- Each prefix is the parent of the next one. -/
theorem isChain_prefixes (key : Key) :
  (prefixes key).IsChain fun p q => parent? q = some p
  := by
  induction key using inductionOn with
  | top key h =>
    rw [prefixes_of_parent?_eq_none h]
    apply List.IsChain.singleton
  | below key p h ih =>
    rw [prefixes_of_parent? h, List.isChain_append]
    refine ⟨ih, List.IsChain.singleton key, ?_⟩
    rw [getLast?_prefixes]
    rintro _ ⟨⟩ _ ⟨⟩
    exact h

/-! ### Rebasing and joining -/

theorem isWithin_iff_exists_rebase? {key a : Key} (b : Key) :
  isWithin key a = true ↔ ∃ moved, rebase? key a b = some moved
  := by
  simp only [rebase?_eq_some_iff, exists_and_left, exists_eq', and_true]

/-- Rebasing back to where the key was gives the key again. -/
theorem rebase?_back {key a b moved : Key} (h : rebase? key a b = some moved) :
  rebase? moved b a = some key
  := by
  rw [rebase?_rebase? h, rebase?_eq_some_iff, rebase_same]
  exact ⟨(rebase?_eq_some_iff.mp h).1, rfl⟩

/-- A key has a parent that is not empty exactly if it is the parent and its last segment put
together. -/
theorem parent?_eq_some_iff_child {key p : Key} (hp : p ≠ "") :
  parent? key = some p ↔ key = child p (leaf key)
  := by
  constructor
  · intro h
    exact (child_leaf h hp).symm
  · intro h
    apply parent?_of_parent _ hp
    rw [h, parent_child_leaf]

/-- The functions on keys fit together, whatever the keys: a key lies within its prefixes, and can
be rebased from these and no others, and back and on from where it was moved; its prefixes lead
down to it from a key without a parent; its last segment holds no dot; and it is made of any parent
that is not empty and its last segment. -/
theorem functions_fit (key a b c : Key) :
  (isWithin key a = true ↔ a ∈ prefixes key)
    ∧ (isWithin key a = true ↔ ∃ moved, rebase? key a b = some moved)
    ∧ (∀ moved, rebase? key a b = some moved →
      isWithin moved b = true ∧ rebase? moved b a = some key
        ∧ rebase? moved b c = rebase? key a c)
    ∧ (prefixes key).getLast? = some key
    ∧ (∃ first, (prefixes key).head? = some first ∧ parent? first = none)
    ∧ (prefixes key).IsChain (fun p q => parent? q = some p)
    ∧ '.' ∉ (leaf key).toList
    ∧ ∀ p, p ≠ "" → (parent? key = some p ↔ key = child p (leaf key))
  := by
  refine ⟨mem_prefixes_iff.symm, isWithin_iff_exists_rebase? b, ?_, getLast?_prefixes key,
    exists_head?_prefixes key, isChain_prefixes key, dot_notMem_leaf key, ?_⟩
  · intro moved h
    obtain ⟨hwithin, rfl⟩ := rebase?_eq_some_iff.mp h
    exact ⟨isWithin_rebase hwithin, rebase?_back h, rebase?_rebase? h c⟩
  · intro p hp
    exact parent?_eq_some_iff_child hp

/-- A key with an empty segment is moved from a prefix that ends with a dot to a key without one,
and back, and from either to the empty key. -/
theorem functions_fit_empty_segment :
  rebase? "a..b" "a." "x" = some "x.b"
    ∧ (isWithin "x.b" "x" = true ∧ rebase? "x.b" "x" "a." = some "a..b"
      ∧ rebase? "x.b" "x" "" = rebase? "a..b" "a." "")
    ∧ "a." ≠ "" ∧ parent? "a..b" = some "a."
  := by
  have hmoved : rebase? "a..b" "a." "x" = some "x.b" := by decide
  have hparent : "a." ≠ "" := by decide
  obtain ⟨-, -, hrebase, -, -, -, -, hjoin⟩ := functions_fit "a..b" "a." "x" ""
  exact ⟨hmoved, hrebase "x.b" hmoved, hparent, (hjoin "a." hparent).mpr (by decide)⟩

end Key

end Questionnaire
