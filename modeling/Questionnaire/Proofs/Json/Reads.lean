import Questionnaire.Json.Record
import Questionnaire.Proofs.Dict
import Questionnaire.Proofs.Json.Numeral

/-!
# Reading what is written

A reader reads the outline of a JSON value as a document if the value nests no deeper than the
reader may go.  For each way to build a reader there is a lemma that says which JSON values it
reads: lists, dictionaries, names, and the records that are built field by field.
-/

namespace Questionnaire

open Json (outlineElements outlineMembers)

theorem exists_of_bind_eq_ok {ε α β : Type} {x : Except ε α} {f : α → Except ε β} {b : β}
    (h : x.bind f = .ok b) :
  ∃ a, x = .ok a ∧ f a = .ok b
  := by
  cases x with
  | error e => cases h
  | ok a => exact ⟨a, rfl, h⟩

theorem exists_of_map_eq_ok {ε α β : Type} {x : Except ε α} {f : α → β} {b : β}
    (h : x.map f = .ok b) :
  ∃ a, x = .ok a ∧ f a = b
  := by
  cases x with
  | error e => cases h
  | ok a =>
    cases h
    exact ⟨a, rfl, rfl⟩

/-- The numbers of the JSON value are in range, and the reader reads its outline as the document
`a`, on every allowance below `bound` that covers its depth. -/
structure Reader.Reads {α : Type} (r : Reader α) (bound : Nat) (j : Json) (a : α) : Prop where
  inRange : ∀ n ∈ j.numerals, n.InRange
  eq_ok : ∀ {d : Nat}, d < bound → j.depth ≤ d → r d j.outline = .ok a

namespace Reader

variable {α β : Type} {r : Reader α} {bound : Nat} {j : Json} {a : α}

/-- A value without parts is read alike on every allowance. -/
theorem Reads.leaf (hnumerals : ∀ n ∈ j.numerals, n.InRange) (h : ∀ d, r d j.outline = .ok a) :
  r.Reads bound j a
  where
    inRange := hnumerals
    eq_ok := fun _ _ => h _

theorem Reads.mono {smaller : Nat} (h : r.Reads bound j a) (hle : smaller ≤ bound) :
  r.Reads smaller j a
  where
    inRange := h.inRange
    eq_ok := fun hd => h.eq_ok (Nat.lt_of_lt_of_le hd hle)

theorem reads_string (s : String) :
  string.Reads bound (.string s) s
  := by
  apply Reads.leaf
  · intro n hn
    cases hn
  · intro d
    rfl

theorem reads_bool (b : Bool) :
  bool.Reads bound (.bool b) b
  := by
  apply Reads.leaf
  · intro n hn
    cases hn
  · intro d
    rfl

theorem reads_nat32 {n : Nat} (h : n < Nat.pow 2 32) :
  nat32.Reads bound (.int n) n
  := by
  have hn : (n : Int) ≤ Nat.pow 2 32 - 1 := by
    have : (n : Int) < Nat.pow 2 32 := Int.ofNat_lt.mpr h
    omega
  apply Reads.leaf
  · intro m hm
    rw [List.mem_singleton.mp hm]
    constructor
    · omega
    · have hpow : ((Nat.pow 2 32 : Nat) : Int) < Nat.pow 2 64 := by decide
      omega
  · intro d
    show Except.map Int.toNat (if 0 ≤ (n : Int) ∧ (n : Int) ≤ Nat.pow 2 32 - 1 then _ else _) = _
    rw [if_pos ⟨Int.natCast_nonneg n, hn⟩]
    rfl

theorem reads_double_of_double (x : Double) :
  double.Reads bound (.double x) x
  := by
  apply Reads.leaf
  · intro m hm
    rw [List.mem_singleton.mp hm]
    trivial
  · intro d
    rfl

theorem reads_double_of_int {n : Int} (h : Numeral.InRange (.int n)) :
  double.Reads bound (.int n) (Double.ofInt n)
  := by
  apply Reads.leaf
  · intro m hm
    rw [List.mem_singleton.mp hm]
    exact h
  · intro d
    rfl

theorem reads_choice {choices : List (String × α)} {name : String}
    (h : choices.lookup name = some a) :
  (choice choices).Reads bound (.string name) a
  := by
  apply Reads.leaf
  · intro n hn
    cases hn
  · intro d
    show named choices name = _
    simp [named, h]

/-- A value that is not `null` is read where it may be left out. -/
theorem Reads.some (h : r.Reads bound j a) (hj : j ≠ .null) :
  (optional r).Reads bound j (.some a)
  where
    inRange := h.inRange
    eq_ok := by
      intro d hd hdepth
      have hok := h.eq_ok hd hdepth
      cases j with
      | null => cases hj rfl
      | _ =>
        unfold optional
        simp only [Json.outline] at hok ⊢
        rw [hok]
        rfl

/-- A value is read by a reader that goes on with what another one read. -/
theorem Reads.bind {f : α → Except ReadError β} {b : β} (h : r.Reads bound j a) (hf : f a = .ok b) :
  Reader.Reads (fun d o => (r d o).bind f) bound j b
  where
    inRange := h.inRange
    eq_ok := by
      intro d hd hdepth
      show (r d j.outline).bind f = _
      rw [h.eq_ok hd hdepth]
      exact hf

/-! ### Lists and dictionaries -/

theorem each_outlineElements {read : Outline → Except ReadError α} {f : β → Json} {g : β → α}
    {xs : List β} (h : ∀ x ∈ xs, read (f x).outline = .ok (g x)) :
  each read (outlineElements (xs.map f)) = .ok (xs.map g)
  := by
  induction xs with
  | nil => rfl
  | cons x xs ih =>
    rw [List.forall_mem_cons] at h
    simp only [List.map_cons, outlineElements, each, h.1, ih h.2]
    rfl

/-- A list is read if its elements are. -/
theorem reads_list {f : β → Json} {g : β → α} {xs : List β}
    (h : ∀ x ∈ xs, r.Reads bound (f x) (g x)) :
  (list r).Reads bound (.list f xs) (xs.map g)
  where
    inRange := by
      intro n hn
      obtain ⟨e, he, hne⟩ := Json.mem_numerals_array.mp hn
      obtain ⟨x, hx, rfl⟩ := List.mem_map.mp he
      exact (h x hx).inRange n hne
    eq_ok := by
      intro d hd hdepth
      cases d with
      | zero => cases hdepth
      | succ d =>
        have heach : each (r d) (outlineElements (xs.map f)) = .ok (xs.map g) := by
          apply each_outlineElements
          intro x hx
          apply (h x hx).eq_ok (Nat.lt_of_succ_lt hd)
          exact Json.depth_array_le_succ.mp hdepth _ (List.mem_map_of_mem hx)
        show (do let values ← each (r d) (outlineElements (xs.map f)); _) = _
        rw [heach]
        rfl

/-- A list is read as it was written if its elements are. -/
theorem reads_list_self {f : α → Json} {xs : List α} (h : ∀ x ∈ xs, r.Reads bound (f x) x) :
  (list r).Reads bound (.list f xs) xs
  := by
  have hlist := reads_list h
  rw [List.map_id'] at hlist
  exact hlist

theorem eachMember_outlineMembers {read : Outline → Except ReadError α} {f : β → Json} {g : β → α}
    {ms : List (String × β)} (h : ∀ m ∈ ms, read (f m.2).outline = .ok (g m.2)) :
  eachMember read (outlineMembers (ms.map fun m => (m.1, f m.2)))
    = .ok (ms.map fun m => (m.1, g m.2))
  := by
  induction ms with
  | nil => rfl
  | cons m ms ih =>
    rw [List.forall_mem_cons] at h
    simp only [List.map_cons, outlineMembers, eachMember, h.1, ih h.2]
    rfl

/-- A dictionary is read if its values are and its names stand in order. -/
theorem reads_dict {f : β → Json} {g : β → α} {d : Dict β} (hd : d.Ordered)
    (h : ∀ m ∈ d, r.Reads bound (f m.2) (g m.2)) :
  (dict r).Reads bound (.dict f d) (d.map fun m => (m.1, g m.2))
  where
    inRange := by
      intro n hn
      obtain ⟨e, he, hne⟩ := Json.mem_numerals_object.mp hn
      obtain ⟨m, hm, rfl⟩ := List.mem_map.mp he
      exact (h m hm).inRange n hne
    eq_ok := by
      intro depth hdepth hle
      cases depth with
      | zero => cases hle
      | succ depth =>
        have heach : eachMember (r depth) (outlineMembers (d.map fun m => (m.1, f m.2)))
            = .ok (d.map fun m => (m.1, g m.2)) := by
          apply eachMember_outlineMembers
          intro m hm
          apply (h m hm).eq_ok (Nat.lt_of_succ_lt hdepth)
          exact Json.depth_object_le_succ.mp hle _ (List.mem_map_of_mem hm)
        have hordered : Dict.Ordered (d.map fun m => (m.1, g m.2)) := List.pairwise_map.mpr hd
        show (do let entries ← eachMember (r depth) (outlineMembers _); _) = _
        rw [heach]
        show Except.ok (Dict.ofPairs _) = _
        rw [Dict.ofPairs_eq_self hordered]

/-- A dictionary is read as it was written if its values are. -/
theorem reads_dict_self {f : α → Json} {d : Dict α} (hd : d.Ordered)
    (h : ∀ m ∈ d, r.Reads bound (f m.2) m.2) :
  (dict r).Reads bound (.dict f d) d
  := by
  have hdict := reads_dict (g := fun a => a) hd h
  rw [List.map_id'] at hdict
  exact hdict

/-! ### Values that contain values of their kind -/

/-- A reader that uses itself reads what each of its unrollings reads. -/
theorem reads_fix {f : Reader α → Reader α} (h : ∀ n, (unroll f n).Reads n j a) :
  (fix f).Reads bound j a
  where
    inRange := (h 0).inRange
    eq_ok := fun _ hdepth => (h _).eq_ok (Nat.lt_succ_self _) hdepth

/-- An unrolling reads a value if the reader does with the unrollings before it for the values
inside. -/
theorem reads_unroll {f : Reader α → Reader α} (h : ∀ n, (f (unroll f n)).Reads (n + 1) j a)
    (n : Nat) :
  (unroll f n).Reads n j a
  := by
  cases n with
  | zero =>
    constructor
    · exact (h 0).inRange
    · intro d hd
      cases hd
  | succ n => exact h n

end Reader

/-! ### Arbitrary values -/

/-- A JSON value whose objects hold their members in the order of their names, none twice, and
whose numbers are in range. -/
inductive Json.Canonical : Json → Prop where
  | null : Canonical .null
  | bool (b : Bool) : Canonical (.bool b)
  | number {n : Numeral} (h : n.InRange) : Canonical (.number n)
  | string (s : String) : Canonical (.string s)
  | array {elements : List Json} (h : ∀ e ∈ elements, Canonical e) : Canonical (.array elements)
  | object {members : List (String × Json)} (ordered : Dict.Ordered members)
    (h : ∀ m ∈ members, Canonical m.2) : Canonical (.object members)

theorem Json.Canonical.inRange {j : Json} (h : j.Canonical) :
  ∀ n ∈ j.numerals, n.InRange
  := by
  intro n hn
  induction h with
  | null => cases hn
  | bool b => cases hn
  | number h =>
    rw [List.mem_singleton.mp hn]
    exact h
  | string s => cases hn
  | array h ih =>
    obtain ⟨e, he, hne⟩ := mem_numerals_array.mp hn
    exact ih e he hne
  | object ordered h ih =>
    obtain ⟨m, hm, hne⟩ := mem_numerals_object.mp hn
    exact ih m hm hne

namespace Outline

theorem jsonElements_eq_each (d : Nat) (os : List Outline) :
  jsonElements d os = Reader.each (json d) os
  := by
  induction os with
  | nil => rfl
  | cons o os ih =>
    rw [jsonElements, Reader.each, ih]

theorem jsonMembers_eq_eachMember (d : Nat) (os : List (Token String × Outline)) :
  jsonMembers d os = Reader.eachMember (json d) os
  := by
  induction os with
  | nil => rfl
  | cons o os ih =>
    obtain ⟨name, o⟩ := o
    rw [jsonMembers, Reader.eachMember, ih]

theorem jsonElements_outlineElements {elements : List Json} {d : Nat}
    (h : ∀ e ∈ elements, json d e.outline = .ok e) :
  jsonElements d (outlineElements elements) = .ok elements
  := by
  have heach := Reader.each_outlineElements (f := fun e => e) h
  rw [List.map_id'] at heach
  rw [jsonElements_eq_each, heach]

theorem jsonMembers_outlineMembers {members : List (String × Json)} {d : Nat}
    (h : ∀ m ∈ members, json d m.2.outline = .ok m.2) :
  jsonMembers d (outlineMembers members) = .ok members
  := by
  have heach := Reader.eachMember_outlineMembers (f := fun e => e) (g := fun e => e) h
  rw [List.map_id'] at heach
  rw [jsonMembers_eq_eachMember, heach]

/-- The outline of a canonical value is read as the value. -/
theorem json_outline {j : Json} (h : j.Canonical) {d : Nat} (hdepth : j.depth ≤ d) :
  json d j.outline = .ok j
  := by
  induction h generalizing d with
  | null => simp [Json.outline, json]
  | bool b => simp [Json.outline, json]
  | number h => simp [Json.outline, json, Json.token, Token.read, Except.map, Except.mapError]
  | string s => simp [Json.outline, json, Json.token, Token.read, Except.map, Except.mapError]
  | array h ih =>
    cases d with
    | zero => cases hdepth
    | succ d =>
      have hmembers := Json.depth_array_le_succ.mp hdepth
      simp only [Json.outline, json]
      rw [jsonElements_outlineElements fun e he => ih e he (hmembers e he)]
      rfl
  | object ordered h ih =>
    cases d with
    | zero => cases hdepth
    | succ d =>
      have hmembers := Json.depth_object_le_succ.mp hdepth
      simp only [Json.outline, json]
      rw [jsonMembers_outlineMembers fun m hm => ih m hm (hmembers m hm)]
      show Except.ok (Json.object (Dict.ofPairs _)) = _
      rw [Dict.ofPairs_eq_self ordered]

theorem reads_json {bound : Nat} {j : Json} (h : j.Canonical) :
  Reader.Reads json bound j j
  where
    inRange := h.inRange
    eq_ok := fun _ => json_outline h

theorem exists_jsonElements {elements : List Json} {d : Nat}
    (h : ∀ e ∈ elements, ∃ e', json d e.outline = .ok e') :
  ∃ elements', jsonElements d (outlineElements elements) = .ok elements'
  := by
  induction elements with
  | nil => exact ⟨[], rfl⟩
  | cons e es ih =>
    rw [List.forall_mem_cons] at h
    obtain ⟨e', he⟩ := h.1
    obtain ⟨es', hes⟩ := ih h.2
    use e' :: es'
    simp only [outlineElements, jsonElements, he, hes]
    rfl

theorem exists_jsonMembers {members : List (String × Json)} {d : Nat}
    (h : ∀ m ∈ members, ∃ value, json d m.2.outline = .ok value) :
  ∃ members', jsonMembers d (outlineMembers members) = .ok members'
  := by
  induction members with
  | nil => exact ⟨[], rfl⟩
  | cons m ms ih =>
    rw [List.forall_mem_cons] at h
    obtain ⟨value, hvalue⟩ := h.1
    obtain ⟨ms', hms⟩ := ih h.2
    use (m.1, value) :: ms'
    simp only [outlineMembers, jsonMembers, hvalue, hms]
    rfl

/-- Every value is read as JSON of some kind; only the order of its members may change. -/
theorem exists_json_outline (j : Json) {d : Nat} (hdepth : j.depth ≤ d) :
  ∃ j', json d j.outline = .ok j'
  := by
  induction j using Json.inductionOn generalizing d with
  | null => exact ⟨.null, by simp only [Json.outline, json]⟩
  | bool b => exact ⟨.bool b, by simp only [Json.outline, json]⟩
  | number n => exact ⟨.number n, rfl⟩
  | string s => exact ⟨.string s, rfl⟩
  | array elements ih =>
    cases d with
    | zero => cases hdepth
    | succ d =>
      have helements := Json.depth_array_le_succ.mp hdepth
      obtain ⟨elements', hread⟩ := exists_jsonElements fun e he => ih e he (helements e he)
      use .array elements'
      simp only [Json.outline, json, hread]
      rfl
  | object members ih =>
    cases d with
    | zero => cases hdepth
    | succ d =>
      have hmembers := Json.depth_object_le_succ.mp hdepth
      obtain ⟨members', hread⟩ := exists_jsonMembers fun m hm => ih m hm (hmembers m hm)
      use .object (Dict.ofPairs members')
      simp only [Json.outline, json, hread]
      rfl

end Outline

end Questionnaire
