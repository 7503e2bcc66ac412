import Questionnaire.Json.Record
import Questionnaire.Proofs.Dict
import Questionnaire.Proofs.Json.Range
import Questionnaire.Proofs.Json.Reads

/-!
# What a reader gives

Whatever a reader reads off an outline whose numbers are in range has a property, which may depend
on the number of containers that the reader was allowed.  For each way to build a reader there is a
lemma that says which property its documents have.
-/

namespace Questionnaire

/-- Every document that the reader reads has the property. -/
structure Reader.Yields {α : Type} (r : Reader α) (P : Nat → α → Prop) : Prop where
  of_ok : ∀ {d : Nat} {o : Outline} {a : α}, o.InRange → r d o = .ok a → P d a

theorem value_of_read_eq_ok {α : Type} {t : Token α} {a : α} (h : t.read = .ok a) :
  t.value = .ok a
  := by
  unfold Token.read at h
  cases hvalue : t.value with
  | error fault =>
    rw [hvalue] at h
    cases h
  | ok b =>
    rw [hvalue] at h
    cases h
    rfl

namespace Reader

variable {α β : Type} {r : Reader α} {P Q : Nat → α → Prop}

theorem Yields.mono (h : r.Yields P) (hPQ : ∀ d a, P d a → Q d a) :
  r.Yields Q
  := ⟨fun ho ha => hPQ _ _ (h.of_ok ho ha)⟩

/-- Nothing need be known of some documents. -/
theorem yields_any (r : Reader α) :
  r.Yields fun _ _ => True
  := ⟨fun _ _ => trivial⟩

theorem yields_nat32 :
  nat32.Yields fun _ n => n < Nat.pow 2 32
  := by
  constructor
  intro d o n _ hn
  obtain ⟨i, hi, rfl⟩ := exists_of_map_eq_ok hn
  unfold intWithin at hi
  split at hi
  · obtain ⟨m, -, hm⟩ := exists_of_bind_eq_ok hi
    split at hm
    · split at hm
      · rename_i hwithin
        cases hm
        have hlt : (i.toNat : Int) < Nat.pow 2 32 := by omega
        exact Int.ofNat_lt.mp hlt
      · cases hm
    · cases hm
  · cases hi

theorem yields_optional (h : r.Yields P) :
  (optional r).Yields fun d v => ∀ a ∈ v, P d a
  := by
  constructor
  intro d o v ho hv a ha
  unfold optional at hv
  split at hv
  · cases hv
    cases ha
  · cases hv
  · obtain ⟨b, hb, rfl⟩ := exists_of_map_eq_ok hv
    cases ha
    exact h.of_ok ho hb

theorem forall_of_each {read : Outline → Except ReadError α} {p : α → Prop} {os : List Outline}
    {as : List α} (hread : ∀ o ∈ os, ∀ a, read o = .ok a → p a) (h : each read os = .ok as) :
  ∀ a ∈ as, p a
  := by
  induction os generalizing as with
  | nil =>
    cases h
    intro a ha
    cases ha
  | cons o os ih =>
    rw [List.forall_mem_cons] at hread
    obtain ⟨a, ha, h⟩ := exists_of_bind_eq_ok h
    obtain ⟨rest, hrest, h⟩ := exists_of_bind_eq_ok h
    cases h
    exact List.forall_mem_cons.mpr ⟨hread.1 a ha, ih hread.2 hrest⟩

/-- The elements of a list are read with one container less to go. -/
theorem yields_list (h : r.Yields P) :
  (list r).Yields fun d as => 0 < d ∧ ∀ a ∈ as, P (d - 1) a
  := by
  constructor
  intro d o as ho has
  unfold list at has
  split at has
  · cases has
  · rename_i depth elements fault
    obtain ⟨values, hvalues, has⟩ := exists_of_bind_eq_ok has
    obtain ⟨-, -, has⟩ := exists_of_bind_eq_ok has
    cases has
    cases ho with
    | array _ helements =>
      exact ⟨Nat.succ_pos _, forall_of_each (fun o ho a ha => h.of_ok (helements o ho) ha) hvalues⟩
  · cases has

theorem forall_of_eachMember {read : Outline → Except ReadError α} {p : α → Prop}
    {os : List (Token String × Outline)} {ms : List (String × α)}
    (hread : ∀ m ∈ os, ∀ a, read m.2 = .ok a → p a) (h : eachMember read os = .ok ms) :
  ∀ m ∈ ms, p m.2
  := by
  induction os generalizing ms with
  | nil =>
    cases h
    intro m hm
    cases hm
  | cons o os ih =>
    obtain ⟨token, o⟩ := o
    rw [List.forall_mem_cons] at hread
    obtain ⟨name, -, h⟩ := exists_of_bind_eq_ok h
    obtain ⟨a, ha, h⟩ := exists_of_bind_eq_ok h
    obtain ⟨rest, hrest, h⟩ := exists_of_bind_eq_ok h
    cases h
    exact List.forall_mem_cons.mpr ⟨hread.1 a ha, ih hread.2 hrest⟩

/-- The names of a dictionary stand in order, and its values are read with one container less to
go. -/
theorem yields_dict (h : r.Yields P) :
  (dict r).Yields fun d m => 0 < d ∧ Dict.Ordered m ∧ ∀ p ∈ m, P (d - 1) p.2
  := by
  constructor
  intro d o m ho hm
  unfold dict at hm
  split at hm
  · cases hm
  · rename_i depth members fault stray
    obtain ⟨entries, hentries, hm⟩ := exists_of_bind_eq_ok hm
    obtain ⟨-, -, hm⟩ := exists_of_bind_eq_ok hm
    cases hm
    cases ho with
    | object _ _ hmembers =>
      have hall := forall_of_eachMember (fun m hm a ha => h.of_ok (hmembers m hm) ha) hentries
      exact ⟨Nat.succ_pos _, Dict.ordered_ofPairs _,
        fun p hp => hall p (Dict.mem_of_mem_ofPairs hp)⟩
  · cases hm

/-- What passes from the values inside to the value around them holds of all values. -/
theorem yields_fix {f : Reader α → Reader α} (h : ∀ inner, inner.Yields P → (f inner).Yields P) :
  (fix f).Yields P
  := by
  have hunroll (n : Nat) : (unroll f n).Yields P := by
    induction n with
    | zero =>
      constructor
      intro d o a _ ha
      cases ha
    | succ n ih => exact h _ ih
  constructor
  intro d o a ho ha
  exact (hunroll _).of_ok ho ha

end Reader

/-- What is read as JSON is canonical, and nests no deeper than it was allowed to. -/
theorem Outline.yields_json :
  Reader.Yields json fun d j => j.Canonical ∧ j.depth ≤ d
  := by
  constructor
  intro d o j ho hj
  induction ho generalizing d j with
  | missing => cases hj
  | unreadable => cases hj
  | null stop =>
    cases stop with
    | none =>
      simp only [json] at hj
      cases hj
      exact ⟨.null, Nat.zero_le d⟩
    | some fault => simp [json] at hj
  | bool b stop =>
    cases stop with
    | none =>
      simp only [json] at hj
      cases hj
      exact ⟨.bool b, Nat.zero_le d⟩
    | some fault => simp [json] at hj
  | number h =>
    simp only [json] at hj
    obtain ⟨n, hn, rfl⟩ := exists_of_map_eq_ok hj
    exact ⟨.number (h n (value_of_read_eq_ok hn)), Nat.zero_le d⟩
  | string t =>
    simp only [json] at hj
    obtain ⟨s, -, rfl⟩ := exists_of_map_eq_ok hj
    exact ⟨.string s, Nat.zero_le d⟩
  | @array elements fault h ih =>
    cases d with
    | zero => simp [json] at hj
    | succ d =>
      simp only [json, jsonElements_eq_each] at hj
      obtain ⟨es, hes, hj⟩ := exists_of_bind_eq_ok hj
      obtain ⟨-, -, hj⟩ := exists_of_bind_eq_ok hj
      cases hj
      have hall := Reader.forall_of_each (fun o ho e he => ih o ho he) hes
      exact ⟨.array fun e he => (hall e he).1,
        Json.depth_array_le_succ.mpr fun e he => (hall e he).2⟩
  | @object members fault stray h ih =>
    cases d with
    | zero => simp [json] at hj
    | succ d =>
      simp only [json, jsonMembers_eq_eachMember] at hj
      obtain ⟨ms, hms, hj⟩ := exists_of_bind_eq_ok hj
      obtain ⟨-, -, hj⟩ := exists_of_bind_eq_ok hj
      cases hj
      have hall := Reader.forall_of_eachMember (fun m hm value hvalue => ih m hm hvalue) hms
      have hpairs : ∀ m ∈ Dict.ofPairs ms, m.2.Canonical ∧ m.2.depth ≤ d :=
        fun m hm => hall m (Dict.mem_of_mem_ofPairs hm)
      exact ⟨.object (Dict.ordered_ofPairs ms) fun m hm => (hpairs m hm).1,
        Json.depth_object_le_succ.mpr fun m hm => (hpairs m hm).2⟩

/-! ### Records -/

/-- There is an invariant of the drafts that the blank draft has, that reading a field keeps, and
that gives the finished record the property. -/
def Fields.Yields {α : Type} (f : Fields α) (P : Nat → α → Prop) : Prop :=
  ∃ I : Nat → f.Draft → Prop,
    (∀ d, I d f.blank) ∧
    (∀ name read, f.member? name = some read →
      ∀ d draft o draft', I d draft → o.InRange → read draft d o = .ok draft' → I d draft') ∧
    (∀ read ∈ f.inOrder,
      ∀ d draft o draft', I d draft → o.InRange → read draft d o = .ok draft' → I d draft') ∧
    ∀ d draft absent a, I d draft → f.finish absent draft = .ok a → P d a

namespace Fields

variable {α β : Type} {P Q : Nat → α → Prop}

theorem Yields.pure {a : α} (h : ∀ d, P d a) :
  (Fields.pure a).Yields P
  := by
  refine ⟨fun _ _ => True, fun _ => trivial, ?_, ?_, ?_⟩
  · intro name read hname
    cases hname
  · intro read hread
    cases hread
  · intro d draft absent b _ hb
    cases hb
    exact h d

/-- A field is read as its reader says, or has its default. -/
theorem Yields.single {name : String} {r : Reader α} {default? : Option α} (hr : r.Yields P)
    (hdefault : ∀ a ∈ default?, ∀ d, P d a) :
  (Fields.single name r default?).Yields P
  := by
  refine ⟨fun d (draft : Option α) => ∀ a ∈ draft, P d a, ?_, ?_, ?_, ?_⟩
  · intro d a ha
    cases ha
  · intro other read hread d draft o draft' _ ho hok a ha
    simp only [Fields.single] at hread
    split at hread
    · cases hread
      simp only at hok
      split at hok
      · cases hok
      · obtain ⟨b, hb, rfl⟩ := exists_of_map_eq_ok hok
        cases ha
        exact hr.of_ok ho hb
    · cases hread
  · intro read hread d draft o draft' _ ho hok a ha
    cases List.mem_singleton.mp hread
    obtain ⟨b, hb, rfl⟩ := exists_of_map_eq_ok hok
    cases ha
    exact hr.of_ok ho hb
  · intro d draft absent a hdraft ha
    simp only [Fields.single] at ha
    split at ha
    · cases ha
      exact hdraft a rfl
    · cases ha
      exact hdefault a rfl d
    · cases ha

/-- Two records together give what the function of the first makes of the second. -/
theorem Yields.seq {f : Fields (α → β)} {x : Fields α} {P : Nat → β → Prop} (hx : x.Yields Q)
    (hf : f.Yields fun d g => ∀ a, Q d a → P d (g a)) :
  (f.seq x).Yields P
  := by
  obtain ⟨I, hI, hmember, horder, hfinish⟩ := hf
  obtain ⟨J, hJ, hmember', horder', hfinish'⟩ := hx
  refine ⟨fun d draft => I d draft.1 ∧ J d draft.2, fun d => ⟨hI d, hJ d⟩, ?_, ?_, ?_⟩
  · intro name read hname d draft o draft' hdraft ho hok
    simp only [Fields.seq] at hname
    split at hname
    · rename_i read hread
      cases hname
      obtain ⟨b, hb, rfl⟩ := exists_of_map_eq_ok hok
      exact ⟨hmember name read hread d _ o b hdraft.1 ho hb, hdraft.2⟩
    · obtain ⟨read, hread, rfl⟩ := Option.map_eq_some_iff.mp hname
      obtain ⟨b, hb, rfl⟩ := exists_of_map_eq_ok hok
      exact ⟨hdraft.1, hmember' name read hread d _ o b hdraft.2 ho hb⟩
  · intro read hread d draft o draft' hdraft ho hok
    obtain hread | hread := List.mem_append.mp hread
    · obtain ⟨first, hfirst, rfl⟩ := List.mem_map.mp hread
      obtain ⟨b, hb, rfl⟩ := exists_of_map_eq_ok hok
      exact ⟨horder first hfirst d _ o b hdraft.1 ho hb, hdraft.2⟩
    · obtain ⟨second, hsecond, rfl⟩ := List.mem_map.mp hread
      obtain ⟨b, hb, rfl⟩ := exists_of_map_eq_ok hok
      exact ⟨hdraft.1, horder' second hsecond d _ o b hdraft.2 ho hb⟩
  · intro d draft absent b hdraft hb
    obtain ⟨g, hg, hb⟩ := exists_of_bind_eq_ok hb
    obtain ⟨a, ha, hb⟩ := exists_of_bind_eq_ok hb
    cases hb
    exact hfinish d _ absent g hdraft.1 hg a (hfinish' d _ absent a hdraft.2 ha)

theorem yields_required {name : String} {r : Reader α} (hr : r.Yields P) :
  (required name r).Yields P
  := by
  apply Yields.single hr
  intro a ha
  cases ha

theorem yields_withDefault {name : String} {r : Reader α} {value : α} (hr : r.Yields P)
    (hvalue : ∀ d, P d value) :
  (withDefault name r value).Yields P
  := by
  apply Yields.single hr
  intro a ha d
  cases ha
  exact hvalue d

theorem yields_optional {name : String} {r : Reader α} (hr : r.Yields P) :
  (optional name r).Yields fun d v => ∀ a ∈ v, P d a
  := by
  apply Yields.single (Reader.yields_optional hr)
  intro v hv d a ha
  cases hv
  cases ha

theorem readMembers_keeps {f : Fields α} {I : Nat → f.Draft → Prop} {d : Nat}
    (hmember : ∀ name read, f.member? name = some read →
      ∀ d draft o draft', I d draft → o.InRange → read draft d o = .ok draft' → I d draft')
    {os : List (Token String × Outline)} (hos : ∀ m ∈ os, m.2.InRange) {draft draft' : f.Draft}
    (hdraft : I d draft) (h : f.readMembers d draft os = .ok draft') :
  I d draft'
  := by
  induction os generalizing draft with
  | nil =>
    cases h
    exact hdraft
  | cons o os ih =>
    obtain ⟨token, o⟩ := o
    rw [List.forall_mem_cons] at hos
    obtain ⟨name, -, h⟩ := exists_of_bind_eq_ok h
    split at h
    · rename_i read hread
      obtain ⟨between, hbetween, h⟩ := exists_of_bind_eq_ok h
      exact ih hos.2 (hmember name read hread d draft o between hdraft hos.1 hbetween) h
    · obtain ⟨-, -, h⟩ := exists_of_bind_eq_ok h
      exact ih hos.2 hdraft h

theorem readElements_keeps {δ : Type} {I : Nat → δ → Prop} {d : Nat} {reads : List (δ → Reader δ)}
    (hreads : ∀ read ∈ reads,
      ∀ d draft o draft', I d draft → o.InRange → read draft d o = .ok draft' → I d draft')
    {os : List Outline} (hos : ∀ o ∈ os, o.InRange) {draft draft' : δ} {full : Bool}
    (hdraft : I d draft) (h : readElements d draft reads os = .ok (draft', full)) :
  I d draft'
  := by
  induction reads generalizing draft os with
  | nil =>
    cases os with
    | nil =>
      cases h
      exact hdraft
    | cons o os => cases h
  | cons read reads ih =>
    cases os with
    | nil =>
      cases h
      exact hdraft
    | cons o os =>
      rw [List.forall_mem_cons] at hreads hos
      obtain ⟨between, hbetween, h⟩ := exists_of_bind_eq_ok h
      exact ih hreads.2 hos.2 (hreads.1 d draft o between hdraft hos.1 hbetween) h

/-- A record is read with one container less to go for its fields. -/
theorem yields_reader {f : Fields α} (h : f.Yields P) :
  f.reader.Yields fun d a => 0 < d ∧ P (d - 1) a
  := by
  obtain ⟨I, hI, hmember, horder, hfinish⟩ := h
  constructor
  intro d o a ho ha
  unfold reader at ha
  split at ha
  · cases ha
  · rename_i depth members fault stray
    obtain ⟨draft, hdraft, ha⟩ := exists_of_bind_eq_ok ha
    obtain ⟨-, -, ha⟩ := exists_of_bind_eq_ok ha
    cases ho with
    | object _ _ hmembers =>
      have hkeep := readMembers_keeps hmember hmembers (hI depth) hdraft
      exact ⟨Nat.succ_pos _, hfinish depth draft _ a hkeep ha⟩
  · cases ha
  · rename_i depth elements fault
    obtain ⟨⟨draft, full⟩, hdraft, ha⟩ := exists_of_bind_eq_ok ha
    have hfinal : f.finish (fun _ => .tooFewElements) draft = .ok a := by
      cases full with
      | true =>
        change (Outline.closeFull fault).bind (fun _ => f.finish _ draft) = _ at ha
        obtain ⟨-, -, hfinal⟩ := exists_of_bind_eq_ok ha
        exact hfinal
      | false =>
        change (Outline.close fault).bind (fun _ => f.finish _ draft) = _ at ha
        obtain ⟨-, -, hfinal⟩ := exists_of_bind_eq_ok ha
        exact hfinal
    cases ho with
    | array _ helements =>
      have hkeep := readElements_keeps horder helements (hI depth) hdraft
      exact ⟨Nat.succ_pos _, hfinish depth draft _ a hkeep hfinal⟩
  · cases ha

/-- What the fields of a record give for one container less, the record gives. -/
theorem yields_reader_succ {f : Fields α} (h : f.Yields fun d a => P (d + 1) a) :
  f.reader.Yields P
  := by
  apply (yields_reader h).mono
  rintro d a ⟨hd, ha⟩
  rwa [Nat.sub_add_cancel hd] at ha

end Fields

end Questionnaire
