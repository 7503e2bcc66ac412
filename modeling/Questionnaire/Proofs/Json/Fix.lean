import Questionnaire.Json.Record

/-!
# Readers that use themselves

A reader of values that contain values of their own kind is unrolled as often as containers may be
opened.  If every unrolling opens a container before it comes to the values inside, further
unrollings change nothing, and the reader does use itself (`fix_eq`).
-/

namespace Questionnaire

namespace Reader

variable {α : Type} {r r' : Reader α} {f : Reader α → Reader α} {d : Nat}

/-- The readers read the same if they may open fewer than `d` containers. -/
def AgreeBelow (d : Nat) (r r' : Reader α) : Prop := ∀ d' < d, ∀ o, r d' o = r' d' o

/-- A container is opened before the values inside are read. -/
def Guarded (f : Reader α → Reader α) : Prop :=
  ∀ d r r', AgreeBelow d r r' → ∀ o, f r d o = f r' d o

theorem unroll_eq (hf : Guarded f) {m n : Nat} (hm : d < m) (hn : d < n) (o : Outline) :
  unroll f m d o = unroll f n d o
  := by
  induction d using Nat.strongRecOn generalizing m n o with
  | ind d ih =>
    obtain ⟨m, rfl⟩ := Nat.exists_eq_succ_of_ne_zero (Nat.ne_zero_of_lt hm)
    obtain ⟨n, rfl⟩ := Nat.exists_eq_succ_of_ne_zero (Nat.ne_zero_of_lt hn)
    apply hf
    intro d' hd' o'
    apply ih d' hd'
    · apply Nat.lt_of_lt_of_le hd' (Nat.le_of_lt_succ hm)
    · apply Nat.lt_of_lt_of_le hd' (Nat.le_of_lt_succ hn)

/-- A reader that opens a container before it uses itself is a fixed point. -/
theorem fix_eq (hf : Guarded f) :
  fix f = f (fix f)
  := by
  funext d o
  apply hf
  intro d' hd' o'
  apply unroll_eq hf hd' (Nat.lt_succ_self d')

theorem AgreeBelow.list (h : AgreeBelow d r r') :
  AgreeBelow d (list r) (list r')
  := by
  intro d' hd' o
  cases d' with
  | zero => cases o <;> rfl
  | succ d' =>
    have hsame : r d' = r' d' := by
      funext o'
      apply h d' (Nat.lt_of_succ_lt hd')
    cases o with
    | array elements fault => rw [Reader.list, Reader.list, hsame]
    | _ => rfl

end Reader

namespace Fields

variable {α β : Type} {d : Nat}

section

variable (f : Fields α) (member? : String → Option (f.Draft → Reader f.Draft))
  (inOrder : List (f.Draft → Reader f.Draft))

/-- Members are read alike by readers that agree when `d` containers may be opened. -/
theorem readMembers_congr
    (h : ∀ name, (f.member? name).map (fun read draft => read draft d)
      = (member? name).map fun read draft => read draft d)
    (draft : f.Draft) (members : List (Token String × Outline)) :
  f.readMembers d draft members = readMembers { f with member?, inOrder } d draft members
  := by
  induction members generalizing draft with
  | nil => rfl
  | cons m members ih =>
    obtain ⟨token, o⟩ := m
    rw [readMembers, readMembers]
    congr 1
    funext name
    have hname := h name
    cases hread : f.member? name with
    | none =>
      rw [hread] at hname
      simp only [Option.map_eq_none_iff.mp hname.symm, ih]
    | some read =>
      rw [hread] at hname
      obtain ⟨read', hread', hsame⟩ := Option.map_eq_some_iff.mp hname.symm
      simp only [hread', congrFun (congrFun hsame draft) o, ih]

/-- Elements are read alike by readers that agree when `d` containers may be opened. -/
theorem readElements_congr {δ : Type} {reads reads' : List (δ → Reader δ)}
    (h : reads.map (fun read draft => read draft d) = reads'.map fun read draft => read draft d)
    (draft : δ) (elements : List Outline) :
  readElements d draft reads elements = readElements d draft reads' elements
  := by
  induction reads generalizing reads' draft elements with
  | nil =>
    rw [List.map_eq_nil_iff.mp h.symm]
  | cons read reads ih =>
    obtain ⟨read', reads', rfl, hread, hreads⟩ := List.map_eq_cons_iff.mp h.symm
    cases elements with
    | nil => rfl
    | cons o elements =>
      rw [readElements, readElements, congrFun (congrFun hread draft) o]
      congr 1
      funext draft'
      apply ih hreads.symm

/-- A record is read alike by readers of its fields that agree inside the container of the
record. -/
theorem reader_congr
    (hmember : ∀ name, (f.member? name).map (fun read draft => read draft d)
      = (member? name).map fun read draft => read draft d)
    (horder : f.inOrder.map (fun read draft => read draft d)
      = inOrder.map fun read draft => read draft d)
    (o : Outline) :
  f.reader (d + 1) o = reader { f with member?, inOrder } (d + 1) o
  := by
  cases o with
  | object members fault stray => rw [reader, reader, readMembers_congr f member? inOrder hmember]
  | array elements fault => rw [reader, reader, readElements_congr horder]
  | _ => rfl

end

/-- Records are read alike if their last fields are, inside the container of the record. -/
theorem reader_seq_required {f : Fields (α → β)} {name : String} {r r' : Reader α}
    (h : Reader.AgreeBelow d r r') (o : Outline) :
  (f.seq (required name r)).reader d o = (f.seq (required name r')).reader d o
  := by
  cases d with
  | zero => cases o <;> rfl
  | succ d =>
    have hlast : r d = r' d := by
      funext o'
      apply h d (Nat.lt_succ_self d)
    apply reader_congr (f.seq (required name r)) (f.seq (required name r')).member?
      (f.seq (required name r')).inOrder
    · intro other
      simp only [Fields.seq, required, single]
      cases f.member? other with
      | some read => rfl
      | none =>
        by_cases hname : other = name
        · simp only [hname, if_true, Option.map_some, hlast]
        · simp only [hname, if_false, Option.map_none]
    · simp only [Fields.seq, required, single, List.map_append, List.map_cons, List.map_nil, hlast]

end Fields

end Questionnaire
