import Mathlib.Data.List.Infix
import Questionnaire.Key

/-!
# Keys taken apart and put together

A key is divided at its last dot, so the last segment of a key holds no dot, and the parent of a
child is the key that the child was put under.  The prefixes of a key are initial segments of it,
the key itself comes last, and of two of them the longer one has the more bytes.
-/

namespace Questionnaire

namespace Key

/-! ### The last dot -/

theorem divide?_eq_none_iff {cs : List Char} :
  divide? cs = none ↔ '.' ∉ cs
  := by
  induction cs with
  | nil => simp [divide?]
  | cons c cs ih =>
    rw [divide?]
    cases hcs : divide? cs with
    | some parts =>
      rw [hcs] at ih
      have hdot : '.' ∈ cs := by
        by_contra h
        cases ih.mpr h
      simp [hdot]
    | none =>
      have hdot : '.' ∉ cs := ih.mp hcs
      by_cases hc : c = '.'
      · simp [hc]
      · simp [hc, Ne.symm hc, hdot]

/-- A list is divided at its last dot. -/
theorem divide?_append {front back : List Char} (h : '.' ∉ back) :
  divide? (front ++ '.' :: back) = some (front, back)
  := by
  induction front with
  | nil => simp [divide?, divide?_eq_none_iff.mpr h]
  | cons c front ih => simp [divide?, ih]

theorem divide?_eq_some {cs front back : List Char} (h : divide? cs = some (front, back)) :
  cs = front ++ '.' :: back ∧ '.' ∉ back
  := by
  induction cs generalizing front with
  | nil => cases h
  | cons c cs ih =>
    rw [divide?] at h
    cases hcs : divide? cs with
    | some parts =>
      obtain ⟨front', back'⟩ := parts
      rw [hcs] at h
      cases h
      obtain ⟨rfl, hback⟩ := ih hcs
      exact ⟨rfl, hback⟩
    | none =>
      rw [hcs] at h
      by_cases hc : c = '.'
      · rw [hc] at h ⊢
        cases h
        exact ⟨rfl, divide?_eq_none_iff.mp hcs⟩
      · simp [hc] at h

/-- The last segment of a key holds no dot. -/
theorem dot_notMem_leaf (key : Key) :
  '.' ∉ (leaf key).toList
  := by
  rw [leaf]
  cases hkey : divide? key.toList with
  | some parts =>
    obtain ⟨front, back⟩ := parts
    rw [String.toList_ofList]
    apply (divide?_eq_some hkey).2
  | none => apply divide?_eq_none_iff.mp hkey

/-- The parent of a child is the key that it was put under. -/
theorem parent_child (key : Key) {name : String} (h : '.' ∉ name.toList) :
  parent (child key name) = key
  := by
  rw [child]
  by_cases hkey : key = ""
  · rw [if_pos hkey, hkey, parent, parent?, divide?_eq_none_iff.mpr h]
    rfl
  · have hlist : (key ++ "." ++ name).toList = key.toList ++ '.' :: name.toList := by simp
    rw [if_neg hkey, parent, parent?, hlist, divide?_append h]
    simp

theorem parent_child_leaf (key other : Key) :
  parent (child key (leaf other)) = key
  := parent_child key (dot_notMem_leaf other)

/-- The last segment of a child is the name that it was given. -/
theorem leaf_child (key : Key) {name : String} (h : '.' ∉ name.toList) :
  leaf (child key name) = name
  := by
  rw [child]
  by_cases hkey : key = ""
  · rw [if_pos hkey, leaf, divide?_eq_none_iff.mpr h]
  · have hlist : (key ++ "." ++ name).toList = key.toList ++ '.' :: name.toList := by simp
    rw [if_neg hkey, leaf, hlist, divide?_append h]
    simp

theorem leaf_child_leaf (key other : Key) :
  leaf (child key (leaf other)) = leaf other
  := leaf_child key (dot_notMem_leaf other)

/-! ### Prefixes -/

/-- The list itself comes last among its initial segments that end at a dot. -/
theorem exists_dottedInits_eq (cs : List Char) :
  ∃ shorter, dottedInits cs = shorter ++ [cs] ∧ ∀ p ∈ shorter, p.length < cs.length
  := by
  induction cs with
  | nil =>
    use []
    simp [dottedInits]
  | cons c cs ih =>
    obtain ⟨shorter, hcs, hlt⟩ := ih
    have hlonger : ∀ p ∈ shorter.map (c :: ·), p.length < (c :: cs).length := by
      intro p hp
      obtain ⟨q, hq, rfl⟩ := List.mem_map.mp hp
      simpa using hlt q hq
    by_cases hc : c = '.'
    · use [] :: shorter.map (c :: ·)
      constructor
      · simp [dottedInits, hc, hcs]
      · intro p hp
        rcases List.mem_cons.mp hp with rfl | hp
        · simp
        · apply hlonger p hp
    · use shorter.map (c :: ·)
      constructor
      · simp [dottedInits, hc, hcs]
      · exact hlonger

theorem prefix_of_mem_dottedInits {p cs : List Char} (h : p ∈ dottedInits cs) :
  p <+: cs
  := by
  induction cs generalizing p with
  | nil =>
    rw [dottedInits, List.mem_singleton] at h
    rw [h]
  | cons c cs ih =>
    have hlonger : ∀ q ∈ (dottedInits cs).map (c :: ·), q <+: c :: cs := by
      intro q hq
      obtain ⟨r, hr, rfl⟩ := List.mem_map.mp hq
      apply (List.prefix_cons_inj c).mpr (ih hr)
    rw [dottedInits] at h
    by_cases hc : c = '.'
    · rw [if_pos hc] at h
      rcases List.mem_cons.mp h with rfl | h
      · apply List.nil_prefix
      · apply hlonger p h
    · rw [if_neg hc] at h
      apply hlonger p h

/-- The key itself comes last among its prefixes. -/
theorem exists_prefixes_eq (key : Key) :
  ∃ shorter, prefixes key = shorter ++ [key] ∧ ∀ p ∈ shorter, p.length < key.length
  := by
  obtain ⟨shorter, hkey, hlt⟩ := exists_dottedInits_eq key.toList
  use shorter.map String.ofList
  constructor
  · simp [prefixes, hkey]
  · intro p hp
    obtain ⟨cs, hcs, rfl⟩ := List.mem_map.mp hp
    rw [String.length_ofList, ← String.length_toList]
    apply hlt cs hcs

theorem prefix_of_mem_prefixes {p key : Key} (h : p ∈ prefixes key) :
  p.toList <+: key.toList
  := by
  obtain ⟨cs, hcs, rfl⟩ := List.mem_map.mp h
  rw [String.toList_ofList]
  apply prefix_of_mem_dottedInits hcs

/-! ### Keys below a key -/

theorem after?_eq_some {key front rest : List Char} (h : after? key front = some rest) :
  key = front ++ rest
  := by
  induction front generalizing key with
  | nil =>
    cases key with
    | nil =>
      cases h
      rfl
    | cons c key =>
      cases h
      rfl
  | cons d front ih =>
    cases key with
    | nil => cases h
    | cons c key =>
      rw [after?] at h
      by_cases hc : c = d
      · rw [if_pos hc] at h
        rw [hc, ih h, List.cons_append]
      · rw [if_neg hc] at h
        cases h

theorem after?_append (front rest : List Char) :
  after? (front ++ rest) front = some rest
  := by
  induction front with
  | nil =>
    cases rest with
    | nil => rfl
    | cons c rest => rfl
  | cons c front ih => simp [after?, ih]

/-- What a key can go on with behind a key that it lies within: nothing, or a dot and more. -/
def Trails : List Char → Prop
  | [] => True
  | c :: _ => c = '.'

theorem eq_of_toList_append_nil {key front : Key} (h : key.toList = front.toList ++ []) :
  key = front
  := by
  apply String.ext
  rw [h, List.append_nil]

theorem ne_of_toList_append_cons {key front : Key} {c : Char} {rest : List Char}
    (h : key.toList = front.toList ++ c :: rest) :
  key ≠ front
  := by
  rintro rfl
  have hlength := congrArg List.length h
  rw [List.length_append, List.length_cons] at hlength
  omega

/-- A key lies within another if it is the other key or goes on with a dot. -/
theorem isWithin_iff_trails {key ancestor : Key} :
  isWithin key ancestor = true ↔ ∃ rest, Trails rest ∧ key.toList = ancestor.toList ++ rest
  := by
  rw [isWithin]
  constructor
  · intro h
    split at h
    · next heq => exact ⟨[], trivial, by rw [heq, List.append_nil]⟩
    · split at h
      · next rest hafter => exact ⟨'.' :: rest, rfl, after?_eq_some hafter⟩
      · cases h
  · rintro ⟨rest, hrest, hkey⟩
    cases rest with
    | nil => rw [if_pos (eq_of_toList_append_nil hkey)]
    | cons c rest =>
      obtain rfl : c = '.' := hrest
      rw [if_neg (ne_of_toList_append_cons hkey), hkey, after?_append]
      rfl

theorem isWithin_iff {key ancestor : Key} :
  isWithin key ancestor = true
    ↔ key = ancestor ∨ ∃ rest, key.toList = ancestor.toList ++ '.' :: rest
  := by
  rw [isWithin_iff_trails]
  constructor
  · rintro ⟨rest, hrest, hkey⟩
    cases rest with
    | nil => exact Or.inl (eq_of_toList_append_nil hkey)
    | cons c rest =>
      obtain rfl : c = '.' := hrest
      exact Or.inr ⟨rest, hkey⟩
  · rintro (rfl | ⟨rest, hkey⟩)
    · exact ⟨[], trivial, (List.append_nil _).symm⟩
    · exact ⟨'.' :: rest, rfl, hkey⟩

theorem prefix_of_isWithin {key ancestor : Key} (h : isWithin key ancestor = true) :
  ancestor.toList <+: key.toList
  := by
  rcases isWithin_iff.mp h with rfl | ⟨rest, hrest⟩
  · apply List.prefix_refl
  · rw [hrest]
    apply List.prefix_append

theorem length_lt_of_isWithin {key ancestor : Key} (h : isWithin key ancestor = true)
    (hne : key ≠ ancestor) :
  ancestor.length < key.length
  := by
  rcases isWithin_iff.mp h with rfl | ⟨rest, hrest⟩
  · exfalso
    apply hne rfl
  · rw [← String.length_toList, ← String.length_toList, hrest, List.length_append,
      List.length_cons]
    omega

/-- Of two initial segments of a key, the longer one has the more bytes. -/
theorem utf8ByteSize_lt_iff {p q key : Key} (hp : p.toList <+: key.toList)
    (hq : q.toList <+: key.toList) :
  p.utf8ByteSize < q.utf8ByteSize ↔ p.length < q.length
  := by
  have longer {p q : Key} (h : p.toList <+: q.toList) :
      (p.utf8ByteSize < q.utf8ByteSize ↔ p.length < q.length)
        ∧ (¬ q.utf8ByteSize < p.utf8ByteSize ∧ ¬ q.length < p.length) := by
    obtain ⟨rest, hrest⟩ := h
    obtain rfl : q = p ++ String.ofList rest := by
      apply String.ext
      rw [← hrest, String.toList_append, String.toList_ofList]
    rw [String.utf8ByteSize_append, String.length_append]
    have hzero : (String.ofList rest).utf8ByteSize = 0 ↔ (String.ofList rest).length = 0 := by
      rw [String.utf8ByteSize_eq_zero_iff, String.length_eq_zero_iff]
    omega
  rcases List.prefix_or_prefix_of_prefix hp hq with h | h
  · exact (longer h).1
  · simp [(longer h).2]

end Key

end Questionnaire
