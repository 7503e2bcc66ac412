import Mathlib.Data.List.Basic
import Questionnaire.Json.Outline
import Questionnaire.Json.Printer

/-!
# The outline of a JSON value

The text of a JSON value has an outline without faults.  This module defines it, along with the
two measures of a value that decide whether its text is read: how deep its containers nest, and
which numbers it holds.
-/

namespace Questionnaire

namespace Json

/-- What holds of the leaves and passes from the parts of a container to the container holds of
every value. -/
theorem inductionOn {P : Json → Prop} (j : Json) (null : P .null) (bool : ∀ b, P (.bool b))
    (number : ∀ n, P (.number n)) (string : ∀ s, P (.string s))
    (array : ∀ elements, (∀ e ∈ elements, P e) → P (.array elements))
    (object : ∀ members, (∀ m ∈ members, P m.2) → P (.object members)) :
  P j
  := by
  apply @Json.rec P (fun es => ∀ e ∈ es, P e) (fun ms => ∀ m ∈ ms, P m.2) (fun m => P m.2)
    null bool number string array object
  · simp
  · intro e es he hes
    exact List.forall_mem_cons.mpr ⟨he, hes⟩
  · simp
  · intro m ms hm hms
    exact List.forall_mem_cons.mpr ⟨hm, hms⟩
  · intro name value h
    exact h

/-! ### Nesting -/

mutual

/-- How many containers nest in a value. -/
def depth : Json → Nat
  | .array elements => depthElements elements + 1
  | .object members => depthMembers members + 1
  | _ => 0

/-- How many containers nest in some elements. -/
def depthElements : List Json → Nat
  | [] => 0
  | value :: rest => max value.depth (depthElements rest)

/-- How many containers nest in the values of some members. -/
def depthMembers : List (String × Json) → Nat
  | [] => 0
  | (_, value) :: rest => max value.depth (depthMembers rest)

end

theorem depthElements_le_iff {elements : List Json} {d : Nat} :
  depthElements elements ≤ d ↔ ∀ e ∈ elements, e.depth ≤ d
  := by
  induction elements with
  | nil => simp [depthElements]
  | cons e es ih => rw [depthElements, Nat.max_le, ih, List.forall_mem_cons]

theorem depthMembers_le_iff {members : List (String × Json)} {d : Nat} :
  depthMembers members ≤ d ↔ ∀ m ∈ members, m.2.depth ≤ d
  := by
  induction members with
  | nil => simp [depthMembers]
  | cons m ms ih =>
    obtain ⟨name, value⟩ := m
    rw [depthMembers, Nat.max_le, ih, List.forall_mem_cons]

theorem depth_array_le_succ {elements : List Json} {d : Nat} :
  (array elements).depth ≤ d + 1 ↔ ∀ e ∈ elements, e.depth ≤ d
  := by
  rw [depth, Nat.add_le_add_iff_right, depthElements_le_iff]

theorem depth_object_le_succ {members : List (String × Json)} {d : Nat} :
  (object members).depth ≤ d + 1 ↔ ∀ m ∈ members, m.2.depth ≤ d
  := by
  rw [depth, Nat.add_le_add_iff_right, depthMembers_le_iff]

/-- The value of a member, if it is written, nests no deeper than `d`. -/
def Member.Within (d : Nat) (m : Member) : Prop :=
  ∀ p ∈ m, p.2.depth ≤ d

theorem Member.within_required {name : String} {value : Json} {d : Nat} :
  (required name value).Within d ↔ value.depth ≤ d
  := by
  simp [Within, required]

theorem Member.within_optional {α : Type} {name : String} {f : α → Json} {value : Option α}
    {d : Nat} :
  (optional name f value).Within d ↔ ∀ a ∈ value, (f a).depth ≤ d
  := by
  cases value with
  | none => simp [Within, optional]
  | some a => simp [Within, optional]

theorem depth_record_le {members : List Member} {d : Nat} (hd : 0 < d)
    (h : ∀ m ∈ members, m.Within (d - 1)) :
  (record members).depth ≤ d
  := by
  obtain ⟨d, rfl⟩ := Nat.exists_eq_add_of_lt hd
  rw [Nat.zero_add] at h ⊢
  apply depth_object_le_succ.mpr
  intro p hp
  obtain ⟨m, hm, rfl⟩ := List.mem_filterMap.mp hp
  exact h _ hm p rfl

theorem depth_record_pos (members : List Member) :
  0 < (record members).depth
  := by
  rw [record, depth]
  exact Nat.succ_pos _

theorem depth_list_le {α : Type} {f : α → Json} {xs : List α} {d : Nat} (hd : 0 < d)
    (h : ∀ x ∈ xs, (f x).depth ≤ d - 1) :
  (list f xs).depth ≤ d
  := by
  obtain ⟨d, rfl⟩ := Nat.exists_eq_add_of_lt hd
  rw [Nat.zero_add] at h ⊢
  apply depth_array_le_succ.mpr
  intro e he
  obtain ⟨x, hx, rfl⟩ := List.mem_map.mp he
  exact h x hx

theorem depth_dict_le {α : Type} {f : α → Json} {dct : Dict α} {d : Nat} (hd : 0 < d)
    (h : ∀ p ∈ dct, (f p.2).depth ≤ d - 1) :
  (dict f dct).depth ≤ d
  := by
  obtain ⟨d, rfl⟩ := Nat.exists_eq_add_of_lt hd
  rw [Nat.zero_add] at h ⊢
  apply depth_object_le_succ.mpr
  intro m hm
  obtain ⟨p, hp, rfl⟩ := List.mem_map.mp hm
  exact h p hp

/-! ### Values that are written alike -/

theorem list_map_eq {α : Type} {f : α → Json} {g : α → α} {xs : List α}
    (h : ∀ x ∈ xs, f (g x) = f x) :
  list f (xs.map g) = list f xs
  := by
  rw [list, List.map_map]
  exact congrArg array (List.map_congr_left h)

theorem Member.optional_map_eq {α : Type} {name : String} {f : α → Json} {g : α → α}
    {value : Option α} (h : ∀ a ∈ value, f (g a) = f a) :
  optional name f (value.map g) = optional name f value
  := by
  cases value with
  | none => rfl
  | some a => simp [optional, h a rfl]

/-! ### Numbers -/

mutual

/-- The numbers in a value. -/
def numerals : Json → List Numeral
  | .number n => [n]
  | .array elements => numeralsElements elements
  | .object members => numeralsMembers members
  | _ => []

/-- The numbers in some elements. -/
def numeralsElements : List Json → List Numeral
  | [] => []
  | value :: rest => value.numerals ++ numeralsElements rest

/-- The numbers in the values of some members. -/
def numeralsMembers : List (String × Json) → List Numeral
  | [] => []
  | (_, value) :: rest => value.numerals ++ numeralsMembers rest

end

theorem mem_numerals_array {elements : List Json} {n : Numeral} :
  n ∈ (array elements).numerals ↔ ∃ e ∈ elements, n ∈ e.numerals
  := by
  rw [numerals]
  induction elements with
  | nil => simp [numeralsElements]
  | cons e es ih => simp [numeralsElements, ih]

theorem mem_numerals_object {members : List (String × Json)} {n : Numeral} :
  n ∈ (object members).numerals ↔ ∃ m ∈ members, n ∈ m.2.numerals
  := by
  rw [numerals]
  induction members with
  | nil => simp [numeralsMembers]
  | cons m ms ih =>
    obtain ⟨name, value⟩ := m
    simp [numeralsMembers, ih]

/-! ### Outlines without faults -/

/-- The token of a value. -/
def token {α : Type} (a : α) : Token α := { value := .ok a, stop := none }

mutual

/-- The outline of the text of a value. -/
def outline : Json → Outline
  | .null => .null none
  | .bool b => .bool b none
  | .number n => .number (token n)
  | .string s => .string (token s)
  | .array elements => .array (outlineElements elements) none
  | .object members => .object (outlineMembers members) none none

/-- The outlines of some elements. -/
def outlineElements : List Json → List Outline
  | [] => []
  | value :: rest => value.outline :: outlineElements rest

/-- The outlines of some members. -/
def outlineMembers : List (String × Json) → List (Token String × Outline)
  | [] => []
  | (name, value) :: rest => (token name, value.outline) :: outlineMembers rest

end

end Json

end Questionnaire
