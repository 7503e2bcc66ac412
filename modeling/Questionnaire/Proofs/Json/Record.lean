import Questionnaire.Proofs.Json.Reads

/-!
# Reading the records that are written

The fields of a record read the members that are written of it.  The description of a record is
put together field by field, and so is the statement about it: a field more reads a member more, if
no earlier field has its name.
-/

namespace Questionnaire

open Json (outlineMembers)

/-- The members that are written. -/
def Json.written (members : List Json.Member) : List (String × Json) := members.filterMap id

theorem Json.written_append (members members' : List Json.Member) :
  written (members ++ members') = written members ++ written members'
  := List.filterMap_append

/-- The member, if it is written, has another name. -/
def Json.Member.Avoids (name : String) (m : Json.Member) : Prop :=
  ∀ p ∈ m, p.1 ≠ name

theorem Json.Member.avoids_required {name other : String} (value : Json) (h : other ≠ name) :
  (Json.Member.required other value).Avoids name
  := by
  intro p hp
  cases hp
  exact h

theorem Json.Member.avoids_optional {name other : String} {α : Type} (toJson : α → Json)
    (v : Option α) (h : other ≠ name) :
  (Json.Member.optional other toJson v).Avoids name
  := by
  intro p hp
  obtain ⟨a, -, rfl⟩ := Option.map_eq_some_iff.mp hp
  exact h

/-- The fields know the names of the members that are written, and put the record `a` together from
them, on every allowance below `bound` that covers their values. -/
structure Fields.Reads {α : Type} (f : Fields α) (bound : Nat) (members : List Json.Member)
    (a : α) : Prop where
  known : ∀ m ∈ Json.written members, (f.member? m.1).isSome = true
  inRange : ∀ m ∈ Json.written members, ∀ n ∈ m.2.numerals, n.InRange
  eq_ok : ∀ {d : Nat}, d < bound → (∀ m ∈ Json.written members, m.2.depth ≤ d) →
    ∃ draft, f.readMembers d f.blank (outlineMembers (Json.written members)) = .ok draft ∧
      ∀ absent, f.finish absent draft = .ok a

namespace Fields

variable {α β γ : Type}

/-! ### Reading members one after the other -/

theorem readMembers_cons {f : Fields α} {d : Nat} {draft : f.Draft} {m : String × Json}
    {ms : List (String × Json)} {read : f.Draft → Reader f.Draft} (h : f.member? m.1 = some read) :
  f.readMembers d draft (outlineMembers (m :: ms))
    = (read draft d m.2.outline).bind fun draft' => f.readMembers d draft' (outlineMembers ms)
  := by
  obtain ⟨name, value⟩ := m
  simp only [outlineMembers, readMembers, Json.token, Token.read, Except.mapError, Bind.bind,
    Except.bind, h]

theorem readMembers_cons_unknown {f : Fields α} {d : Nat} {draft : f.Draft} {m : String × Json}
    {ms : List (String × Json)} (h : f.member? m.1 = none) :
  f.readMembers d draft (outlineMembers (m :: ms))
    = m.2.outline.skip.bind fun _ => f.readMembers d draft (outlineMembers ms)
  := by
  obtain ⟨name, value⟩ := m
  simp only [outlineMembers, readMembers, Json.token, Token.read, Except.mapError, Bind.bind,
    Except.bind, h]

/-- Reading a member succeeds with a draft from which the rest is read. -/
theorem exists_of_readMembers_cons {f : Fields α} {d : Nat} {draft draft' : f.Draft}
    {m : String × Json} {ms : List (String × Json)} {read : f.Draft → Reader f.Draft}
    (hname : f.member? m.1 = some read)
    (h : f.readMembers d draft (outlineMembers (m :: ms)) = .ok draft') :
  ∃ between, read draft d m.2.outline = .ok between ∧
    f.readMembers d between (outlineMembers ms) = .ok draft'
  := by
  rw [readMembers_cons hname] at h
  cases hread : read draft d m.2.outline with
  | error e =>
    rw [hread] at h
    cases h
  | ok between =>
    rw [hread] at h
    exact ⟨between, rfl, h⟩

theorem readMembers_append {f : Fields α} {d : Nat} {draft draft' : f.Draft}
    {ms : List (String × Json)} (ms' : List (String × Json))
    (hknown : ∀ m ∈ ms, (f.member? m.1).isSome = true)
    (h : f.readMembers d draft (outlineMembers ms) = .ok draft') :
  f.readMembers d draft (outlineMembers (ms ++ ms')) = f.readMembers d draft' (outlineMembers ms')
  := by
  induction ms generalizing draft with
  | nil =>
    cases h
    rfl
  | cons m ms ih =>
    rw [List.forall_mem_cons] at hknown
    obtain ⟨read, hname⟩ := Option.isSome_iff_exists.mp hknown.1
    obtain ⟨between, hread, hrest⟩ := exists_of_readMembers_cons hname h
    rw [List.cons_append, readMembers_cons hname, hread]
    exact ih hknown.2 hrest

/-! ### Two records together -/

variable {f : Fields (α → β)} {x : Fields α}

theorem seq_member?_left {name : String} {read : f.Draft → Reader f.Draft}
    (h : f.member? name = some read) :
  (f.seq x).member? name
    = some fun draft depth o => (read draft.1 depth o).map (·, draft.2)
  := by
  simp [Fields.seq, h]

theorem seq_member?_right {name : String} {read : x.Draft → Reader x.Draft}
    (hf : f.member? name = none) (h : x.member? name = some read) :
  (f.seq x).member? name
    = some fun draft depth o => (read draft.2 depth o).map (draft.1, ·)
  := by
  simp [Fields.seq, hf, h]

/-- Members that the first record knows change its part of the draft. -/
theorem seq_readMembers_left {d : Nat} {draft draft' : f.Draft} (other : x.Draft)
    {ms : List (String × Json)} (hknown : ∀ m ∈ ms, (f.member? m.1).isSome = true)
    (h : f.readMembers d draft (outlineMembers ms) = .ok draft') :
  (f.seq x).readMembers d (draft, other) (outlineMembers ms) = .ok (draft', other)
  := by
  induction ms generalizing draft with
  | nil =>
    cases h
    rfl
  | cons m ms ih =>
    rw [List.forall_mem_cons] at hknown
    obtain ⟨read, hname⟩ := Option.isSome_iff_exists.mp hknown.1
    obtain ⟨between, hread, hrest⟩ := exists_of_readMembers_cons hname h
    apply (readMembers_cons (seq_member?_left hname)).trans
    simp only [hread]
    exact ih hknown.2 hrest

/-- Members that only the second record knows change its part of the draft. -/
theorem seq_readMembers_right {d : Nat} (other : f.Draft) {draft draft' : x.Draft}
    {ms : List (String × Json)} (hfresh : ∀ m ∈ ms, f.member? m.1 = none)
    (hknown : ∀ m ∈ ms, (x.member? m.1).isSome = true)
    (h : x.readMembers d draft (outlineMembers ms) = .ok draft') :
  (f.seq x).readMembers d (other, draft) (outlineMembers ms) = .ok (other, draft')
  := by
  induction ms generalizing draft with
  | nil =>
    cases h
    rfl
  | cons m ms ih =>
    rw [List.forall_mem_cons] at hknown hfresh
    obtain ⟨read, hname⟩ := Option.isSome_iff_exists.mp hknown.1
    obtain ⟨between, hread, hrest⟩ := exists_of_readMembers_cons hname h
    apply (readMembers_cons (seq_member?_right hfresh.1 hname)).trans
    simp only [hread]
    exact ih hfresh.2 hknown.2 hrest

namespace Reads

variable {bound : Nat} {members members' : List Json.Member} {g : α → β} {a : α}

theorem pure (a : α) :
  (Fields.pure a).Reads bound [] a
  where
    known := by
      intro m hm
      cases hm
    inRange := by
      intro m hm
      cases hm
    eq_ok := fun _ _ => ⟨(), rfl, fun _ => rfl⟩

/-- Two records together read the members of both, if the first knows none of the second. -/
theorem seq (hf : f.Reads bound members g) (hx : x.Reads bound members' a)
    (hfresh : ∀ m ∈ Json.written members', f.member? m.1 = none) :
  (f.seq x).Reads bound (members ++ members') (g a)
  where
    known := by
      intro m hm
      rw [Json.written_append] at hm
      obtain hm | hm := List.mem_append.mp hm
      · obtain ⟨read, hname⟩ := Option.isSome_iff_exists.mp (hf.known m hm)
        rw [seq_member?_left hname]
        rfl
      · obtain ⟨read, hname⟩ := Option.isSome_iff_exists.mp (hx.known m hm)
        rw [seq_member?_right (hfresh m hm) hname]
        rfl
    inRange := by
      intro m hm
      rw [Json.written_append] at hm
      obtain hm | hm := List.mem_append.mp hm
      · exact hf.inRange m hm
      · exact hx.inRange m hm
    eq_ok := by
      intro d hd hdepth
      rw [Json.written_append] at hdepth ⊢
      rw [List.forall_mem_append] at hdepth
      obtain ⟨draft, hread, hfinish⟩ := hf.eq_ok hd hdepth.1
      obtain ⟨draft', hread', hfinish'⟩ := hx.eq_ok hd hdepth.2
      use (draft, draft')
      constructor
      · apply (readMembers_append _ _ (seq_readMembers_left x.blank hf.known hread)).trans
        · exact seq_readMembers_right draft hfresh hx.known hread'
        · intro m hm
          obtain ⟨read, hname⟩ := Option.isSome_iff_exists.mp (hf.known m hm)
          rw [seq_member?_left hname]
          rfl
      · intro absent
        show (do let g ← f.finish absent draft; let a ← x.finish absent draft'; return g a) = _
        rw [hfinish, hfinish']
        rfl

/-! ### Single fields -/

variable {r : Reader α} {name : String} {value : Json}

theorem single_present {default? : Option α} (h : r.Reads bound value a) :
  (Fields.single name r default?).Reads bound [some (name, value)] a
  where
    known := by
      intro m hm
      rw [List.mem_singleton.mp hm]
      simp [Fields.single]
    inRange := by
      intro m hm
      rw [List.mem_singleton.mp hm]
      exact h.inRange
    eq_ok := by
      intro d hd hdepth
      have hok := h.eq_ok hd (hdepth (name, value) (List.mem_singleton.mpr rfl))
      use some a
      constructor
      · apply (readMembers_cons (if_pos rfl)).trans
        show (Except.map some (r d value.outline)).bind _ = _
        rw [hok]
        rfl
      · intro absent
        rfl

theorem single_absent :
  (Fields.single name r (some a)).Reads bound [none] a
  where
    known := by
      intro m hm
      cases hm
    inRange := by
      intro m hm
      cases hm
    eq_ok := fun _ _ => ⟨none, rfl, fun _ => rfl⟩

/-! ### One field more -/

theorem required (hf : f.Reads bound members g) (name : String) (hr : r.Reads bound value a)
    (hfresh : f.member? name = none := by rfl) :
  (f.seq (Fields.required name r)).Reads bound (members ++ [.required name value]) (g a)
  := by
  apply hf.seq (single_present hr)
  intro m hm
  rw [List.mem_singleton.mp hm]
  exact hfresh

/-- A field with a default reads the member that is always written. -/
theorem withDefault {default : α} (hf : f.Reads bound members g) (name : String)
    (hr : r.Reads bound value a) (hfresh : f.member? name = none := by rfl) :
  (f.seq (Fields.withDefault name r default)).Reads bound (members ++ [.required name value]) (g a)
  := by
  apply hf.seq (single_present hr)
  intro m hm
  rw [List.mem_singleton.mp hm]
  exact hfresh

/-- A field with a default has it if no member is written. -/
theorem withDefault_absent {default : α} (hf : f.Reads bound members g) (name : String)
    (r : Reader α) :
  (f.seq (Fields.withDefault name r default)).Reads bound (members ++ [none]) (g default)
  := by
  apply hf.seq single_absent
  intro m hm
  cases hm

/-- A field that may be absent reads the member that is written when its value is set. -/
theorem optionalMap {f : Fields (Option α → β)} {g : Option α → β} {toJson : γ → Json}
    {normalize : γ → α} (hf : f.Reads bound members g) (name : String) (v : Option γ)
    (hr : ∀ c ∈ v, r.Reads bound (toJson c) (normalize c)) (hnull : ∀ c, toJson c ≠ .null)
    (hfresh : f.member? name = none := by rfl) :
  (f.seq (Fields.optional name r)).Reads bound (members ++ [.optional name toJson v])
    (g (v.map normalize))
  := by
  cases v with
  | none =>
    apply hf.seq single_absent
    intro m hm
    cases hm
  | some c =>
    apply hf.seq (single_present ((hr c rfl).some (hnull c)))
    intro m hm
    rw [List.mem_singleton.mp hm]
    exact hfresh

/-- A field whose values are read as they were written. -/
theorem optional {f : Fields (Option α → β)} {g : Option α → β} {toJson : α → Json}
    (hf : f.Reads bound members g) (name : String) (v : Option α)
    (hr : ∀ a ∈ v, r.Reads bound (toJson a) a) (hnull : ∀ a, toJson a ≠ .null)
    (hfresh : f.member? name = none := by rfl) :
  (f.seq (Fields.optional name r)).Reads bound (members ++ [.optional name toJson v]) (g v)
  := by
  have h := hf.optionalMap name v hr hnull hfresh
  rw [Option.map_id'] at h
  exact h

end Reads

/-- The object of the members is read as the record, with one container more than its fields. -/
theorem reads_reader_succ {f : Fields α} {bound : Nat} {members : List Json.Member} {a : α}
    (h : f.Reads bound members a) :
  f.reader.Reads (bound + 1) (.record members) a
  where
    inRange := by
      intro n hn
      obtain ⟨m, hm, hmn⟩ := Json.mem_numerals_object.mp hn
      exact h.inRange m hm n hmn
    eq_ok := by
      intro d hd hdepth
      cases d with
      | zero => cases hdepth
      | succ d =>
        obtain ⟨draft, hread, hfinish⟩ :=
          h.eq_ok (Nat.lt_of_succ_lt_succ hd) (Json.depth_object_le_succ.mp hdepth)
        show (do let draft ← f.readMembers d f.blank (outlineMembers (Json.written members)); _) = _
        rw [hread]
        exact hfinish _

/-- The object of the members is read as the record. -/
theorem reads_reader {f : Fields α} {bound : Nat} {members : List Json.Member} {a : α}
    (h : f.Reads bound members a) :
  f.reader.Reads bound (.record members) a
  := (reads_reader_succ h).mono (Nat.le_succ bound)

/-! ### A required field that no member has the name of -/

/-- Members that the second record does not know leave its part of the draft alone. -/
theorem snd_of_seq_readMembers {f : Fields (α → β)} {x : Fields α} {d : Nat}
    {ms : List (String × Json)} (hfresh : ∀ m ∈ ms, x.member? m.1 = none)
    {draft draft' : f.Draft × x.Draft}
    (h : (f.seq x).readMembers d draft (outlineMembers ms) = .ok draft') :
  draft'.2 = draft.2
  := by
  induction ms generalizing draft with
  | nil =>
    cases h
    rfl
  | cons m ms ih =>
    rw [List.forall_mem_cons] at hfresh
    cases hname : f.member? m.1 with
    | some read =>
      obtain ⟨between, hread, hrest⟩ := exists_of_readMembers_cons (seq_member?_left hname) h
      obtain ⟨first, -, rfl⟩ := exists_of_map_eq_ok hread
      exact (ih hfresh.2 hrest).trans rfl
    | none =>
      have hunknown : (f.seq x).member? m.1 = none := by
        simp [Fields.seq, hname, hfresh.1]
      obtain ⟨-, -, hrest⟩ :=
        exists_of_bind_eq_ok ((readMembers_cons_unknown hunknown).symm.trans h)
      exact ih hfresh.2 hrest

/-- An object without a required member is not read. -/
theorem reader_ne_ok_of_missing {f : Fields (α → β)} {r : Reader α} {name : String}
    {members : List Json.Member} (h : ∀ m ∈ members, m.Avoids name) (d : Nat) (b : β) :
  (f.seq (required name r)).reader d (Json.record members).outline ≠ .ok b
  := by
  intro hok
  cases d with
  | zero => cases hok
  | succ d =>
    obtain ⟨draft, hread, hok⟩ := exists_of_bind_eq_ok hok
    obtain ⟨-, -, hok⟩ := exists_of_bind_eq_ok hok
    have hfresh : ∀ m ∈ Json.written members, (required name r).member? m.1 = none := by
      intro m hm
      obtain ⟨m', hm', rfl⟩ := List.mem_filterMap.mp hm
      exact if_neg (h _ hm' m rfl)
    have hnone : draft.2 = none := snd_of_seq_readMembers hfresh hread
    obtain ⟨g, -, hok⟩ := exists_of_bind_eq_ok hok
    obtain ⟨a, ha, -⟩ := exists_of_bind_eq_ok hok
    simp only [required, single, hnone] at ha
    cases ha

end Fields

end Questionnaire
