import Questionnaire.Proofs.Item.Format
import Questionnaire.Proofs.Json.Fix
import Questionnaire.Survey.Format

/-!
# The children of an item that is read

An object whose `items` is an array is meant to be a group.  When it is read as a group, it has a
child for every element of the array, in the order of the array.  When it cannot be read as a group,
it is still read as a single item if it can be, and then its children are dropped: one child that
does not read is enough.
-/

namespace Questionnaire

/-! ### Fields that are required -/

theorem Reader.forall₂_of_each {α : Type} {read : Outline → Except ReadError α} {os : List Outline}
    {as : List α} (h : each read os = .ok as) :
  List.Forall₂ (fun o a => read o = .ok a) os as
  := by
  induction os generalizing as with
  | nil =>
    cases h
    apply List.Forall₂.nil
  | cons o os ih =>
    obtain ⟨a, ha, h⟩ := exists_of_bind_eq_ok h
    obtain ⟨rest, hrest, h⟩ := exists_of_bind_eq_ok h
    cases h
    exact List.Forall₂.cons ha (ih hrest)

namespace Fields

variable {α β : Type}

/-- Reading a member reads the field of its name, or skips the member. -/
theorem exists_of_readMembers {f : Fields α} {d : Nat} {draft draft' : f.Draft}
    {token : Token String} {o : Outline} {rest : List (Token String × Outline)}
    (h : f.readMembers d draft ((token, o) :: rest) = .ok draft') :
  ∃ name between, token.value = .ok name ∧ f.readMembers d between rest = .ok draft'
    ∧ ((∃ read, f.member? name = some read ∧ read draft d o = .ok between)
      ∨ f.member? name = none ∧ between = draft)
  := by
  obtain ⟨name, hname, h⟩ := exists_of_bind_eq_ok h
  use name
  split at h
  · rename_i read hread
    obtain ⟨between, hbetween, h⟩ := exists_of_bind_eq_ok h
    exact ⟨between, value_of_read_eq_ok hname, h, Or.inl ⟨read, hread, hbetween⟩⟩
  · rename_i hnone
    obtain ⟨-, -, h⟩ := exists_of_bind_eq_ok h
    exact ⟨draft, value_of_read_eq_ok hname, h, Or.inr ⟨hnone, rfl⟩⟩

variable {f : Fields (α → β)} {name : String} {r : Reader α}

/-- A member of the name of the last field is read into an empty place of the draft; other members
leave the place as it is. -/
theorem required_of_member (hf : f.member? name = none) {other : String}
    {read : (f.seq (required name r)).Draft → Reader (f.seq (required name r)).Draft}
    (hread : (f.seq (required name r)).member? other = some read) {d : Nat} {o : Outline}
    {draft draft' : (f.seq (required name r)).Draft} (h : read draft d o = .ok draft') :
  (other = name ∧ draft.2 = none ∧ ∃ a, r d o = .ok a ∧ draft'.2 = some a)
    ∨ other ≠ name ∧ draft'.2 = draft.2
  := by
  simp only [Fields.seq] at hread
  split at hread
  · rename_i first hfirst
    cases hread
    obtain ⟨between, -, rfl⟩ := exists_of_map_eq_ok h
    right
    refine ⟨?_, rfl⟩
    rintro rfl
    rw [hf] at hfirst
    cases hfirst
  · obtain ⟨second, hsecond, rfl⟩ := Option.map_eq_some_iff.mp hread
    obtain ⟨between, hbetween, rfl⟩ := exists_of_map_eq_ok h
    simp only [required, single] at hsecond
    split at hsecond
    · rename_i hname
      cases hsecond
      left
      simp only at hbetween
      split at hbetween
      · cases hbetween
      · rename_i hnone
        obtain ⟨a, ha, rfl⟩ := exists_of_map_eq_ok hbetween
        exact ⟨hname, hnone, a, ha, rfl⟩
    · cases hsecond

/-- The value of the last field is what its member is read as. -/
theorem required_of_readMembers (hf : f.member? name = none) {d : Nat}
    {members : List (Token String × Outline)}
    {draft draft' : (f.seq (required name r)).Draft}
    (h : (f.seq (required name r)).readMembers d draft members = .ok draft') :
  (∀ a, draft.2 = some a → draft'.2 = some a)
    ∧ ∀ token o, (token, o) ∈ members → token.value = .ok name →
      ∃ a, r d o = .ok a ∧ draft'.2 = some a
  := by
  induction members generalizing draft with
  | nil =>
    cases h
    exact ⟨fun _ ha => ha, nofun⟩
  | cons m members ih =>
    obtain ⟨token, o⟩ := m
    obtain ⟨other, between, htoken, hrest, hmember⟩ := exists_of_readMembers h
    obtain ⟨hkeep, hlater⟩ := ih hrest
    have hstep : (other = name ∧ draft.2 = none ∧ ∃ a, r d o = .ok a ∧ between.2 = some a)
        ∨ other ≠ name ∧ between.2 = draft.2 := by
      obtain ⟨read, hread, hbetween⟩ | ⟨hnone, rfl⟩ := hmember
      · exact required_of_member hf hread hbetween
      · right
        refine ⟨?_, rfl⟩
        rintro rfl
        simp [Fields.seq, hf, required, single] at hnone
    constructor
    · intro a ha
      obtain ⟨-, hnone, -⟩ | ⟨-, hsame⟩ := hstep
      · rw [hnone] at ha
        cases ha
      · apply hkeep
        rw [hsame, ha]
    · intro token' o' hmem hname
      rcases List.mem_cons.mp hmem with ⟨rfl, rfl⟩ | hmem
      · rw [htoken] at hname
        obtain ⟨-, -, a, ha, hbetween⟩ | ⟨hne, -⟩ := hstep
        · exact ⟨a, ha, hkeep a hbetween⟩
        · exfalso
          apply hne (Except.ok.inj hname)
      · apply hlater token' o' hmem hname

end Fields

/-- The elements of an array are read with one container less to go, and none is left out. -/
theorem Reader.forall₂_of_list {α : Type} {r : Reader α} {d : Nat} {elements : List Outline}
    {fault : Option (Bool × Fault)} {as : List α}
    (h : list r d (.array elements fault) = .ok as) :
  List.Forall₂ (fun o a => r (d - 1) o = .ok a) elements as
  := by
  cases d with
  | zero => cases h
  | succ d =>
    obtain ⟨values, hvalues, h⟩ := exists_of_bind_eq_ok h
    obtain ⟨-, -, h⟩ := exists_of_bind_eq_ok h
    cases h
    exact forall₂_of_each hvalues

/-! ### The items of a group -/

/-- A group opens two containers, its own and the array of its items, before an item in it is
read. -/
theorem Item.guarded_readerWith :
  Reader.Guarded readerWith
  := by
  intro depth r r' h o
  have hgroup : (Group.fieldsWith r).reader depth o = (Group.fieldsWith r').reader depth o :=
    Fields.reader_seq_required h.list o
  rw [readerWith, readerWith, hgroup]

/-- The reader of items reads the items in a group by itself. -/
theorem Item.reader_eq :
  reader = readerWith reader
  := Reader.fix_eq guarded_readerWith

/-- What is read of a group apart from its items is put together with them. -/
theorem Group.items_of_finish {absent : String → Misfit}
    {draft : (Group.mk <$> Item.Head.fields
      <*> Fields.optional "selectionMethod" Expression.reader).Draft}
    {make : List Item → Group}
    (h : (Group.mk <$> Item.Head.fields
      <*> Fields.optional "selectionMethod" Expression.reader).finish absent draft = .ok make)
    (items : List Item) :
  (make items).items = items
  := by
  obtain ⟨makeWith, hmakeWith, h⟩ := exists_of_bind_eq_ok h
  obtain ⟨selectionMethod, -, h⟩ := exists_of_bind_eq_ok h
  obtain ⟨head, -, hmakeWith⟩ := exists_of_bind_eq_ok hmakeWith
  cases hmakeWith
  cases h
  rfl

variable {depth : Nat} {members : List (Token String × Outline)} {fault : Option (Bool × Fault)}
  {stray : Option Outline} {token : Token String} {elements : List Outline}
  {arrayFault : Option (Bool × Fault)}

/-- A group that is read has an item for every element of the array `items`, in the order of the
array. -/
theorem Group.items_of_reader (hitems : (token, .array elements arrayFault) ∈ members)
    (hname : token.value = .ok "items") {g : Group}
    (h : Group.fields.reader depth (.object members fault stray) = .ok g) :
  List.Forall₂ (fun o x => Item.reader (depth - 2) o = .ok x) elements g.items
  := by
  cases depth with
  | zero => cases h
  | succ depth =>
    obtain ⟨draft, hdraft, h⟩ := exists_of_bind_eq_ok h
    obtain ⟨-, -, h⟩ := exists_of_bind_eq_ok h
    obtain ⟨make, hmake, h⟩ := exists_of_bind_eq_ok h
    obtain ⟨items, hfinish, h⟩ := exists_of_bind_eq_ok h
    cases h
    obtain ⟨read, hread, hplace⟩ := (Fields.required_of_readMembers
      (f := Group.mk <$> Item.Head.fields <*> .optional "selectionMethod" Expression.reader)
      rfl hdraft).2 token _ hitems hname
    rw [hplace] at hfinish
    cases hfinish
    rw [Group.items_of_finish hmake]
    exact Reader.forall₂_of_list hread

/-- An object with an array `items` that is read as an item is a group with an item for every
element of the array, in the order of the array; or else it does not read as a group but as a single
item, and the elements are dropped. -/
theorem Item.children_of_reader (hitems : (token, .array elements arrayFault) ∈ members)
    (hname : token.value = .ok "items") {x : Item}
    (h : reader depth (.object members fault stray) = .ok x) :
  (∃ g, x = .group g ∧ List.Forall₂ (fun o y => reader (depth - 2) o = .ok y) elements g.items)
    ∨ ∃ s, x = .single s ∧ SingleItem.fields.reader depth (.object members fault stray) = .ok s
      ∧ ∀ g, Group.fields.reader depth (.object members fault stray) ≠ .ok g
  := by
  rw [reader_eq, readerWith, ← Group.fields] at h
  obtain ⟨-, -, h⟩ := exists_of_bind_eq_ok h
  split at h
  · rename_i g hg
    cases h
    left
    exact ⟨g, rfl, Group.items_of_reader hitems hname hg⟩
  · rename_i err herr
    right
    split at h
    · rename_i s hs
      cases h
      refine ⟨s, rfl, hs, ?_⟩
      intro g hg
      rw [herr] at hg
      cases hg
    · cases h

/-- A group of a question and another item. -/
def Json.sampleGroup (last : Json) : Json :=
  .object [("key", .string "survey.g"),
    ("items", .array [.object [("key", .string "survey.g.q")], last])]

/-- A page break that has a key stands in its group after the question. -/
theorem Item.children_of_page_break :
  let last : Json := .object [("key", .string "survey.g.b"), ("type", .string "pageBreak")]
  ∃ g, reader maxNesting (Json.sampleGroup last).outline = .ok (.group g)
    ∧ List.Forall₂ (fun o x => reader (maxNesting - 2) o = .ok x)
      [(Json.object [("key", .string "survey.g.q")]).outline, last.outline] g.items
  := by
  intro last
  have hread : reader maxNesting (Json.sampleGroup last).outline
      = .ok (.group ⟨{ key := "survey.g" }, none, [.single { head := { key := "survey.g.q" } },
        .single { head := { key := "survey.g.b" }, itemType := some "pageBreak" }]⟩) := rfl
  obtain ⟨g, hg, hitems⟩ | ⟨s, hs, -⟩ :=
    Item.children_of_reader (List.mem_cons_of_mem _ List.mem_cons_self) rfl hread
  · cases hg
    exact ⟨_, hread, hitems⟩
  · cases hs

/-- A page break without a key costs the group that it stands in all its items. -/
theorem Survey.children_dropped :
  let last : Json := .object [("type", .string "pageBreak")]
  let survey : Json := .object [("surveyDefinition",
    .object [("key", .string "survey"), ("items", .array [Json.sampleGroup last])])]
  (Survey.reader maxNesting survey.outline).map (fun s => s.root.items)
    = .ok [.single { head := { key := "survey.g" } }]
  := rfl

end Questionnaire
