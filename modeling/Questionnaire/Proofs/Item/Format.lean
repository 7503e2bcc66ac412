import Questionnaire.Item.Format
import Questionnaire.Proofs.Component.Format
import Questionnaire.Proofs.Item.Tree

/-!
# Reading items that are written

An item is read as it was written, except that negative zero among the numbers of its expressions
is read as zero.  A single item is not mistaken for a group, since a group is not read without its
items and no member of a single item is called so.
-/

namespace Questionnaire

/-! ### Parts of items -/

theorem Severity.reads (s : Severity) (bound : Nat) :
  reader.Reads bound s.toJson s
  := by
  apply Reader.reads_choice
  cases s <;> rfl

theorem ConfidentialMode.reads (m : ConfidentialMode) (bound : Nat) :
  reader.Reads bound m.toJson m
  := by
  apply Reader.reads_choice
  cases m <;> rfl

namespace Validation

/-- The validation, with zero in place of negative zero. -/
def normalize (v : Validation) : Validation :=
  { v with rule := v.rule.normalize }

theorem reads (v : Validation) (bound : Nat) :
  fields.reader.Reads bound v.toJson v.normalize
  := by
  apply Fields.reads_reader
  exact (((Fields.Reads.pure Validation.mk).required "key" (Reader.reads_string v.key)).required
    "type" (v.severity.reads bound)).required "rule" (v.rule.reads bound)

theorem toJson_normalize (v : Validation) :
  v.normalize.toJson = v.toJson
  := by
  simp only [toJson, normalize, Expression.toJson_normalize]

theorem yields :
  fields.reader.Yields fun d v => v.toJson.depth ≤ d
  := by
  apply Fields.yields_reader_succ
  apply Fields.Yields.seq (Fields.yields_required Expression.yields)
  apply Fields.Yields.seq (Fields.yields_required (Reader.yields_any _))
  apply Fields.Yields.seq (Fields.yields_required (Reader.yields_any _))
  apply Fields.Yields.pure
  intro d key _ severity _ rule hrule
  apply Json.depth_record_le (Nat.succ_pos d)
  simp only [List.forall_mem_cons, Json.Member.within_required]
  exact ⟨Nat.zero_le d, Nat.zero_le d, hrule, nofun⟩

end Validation

namespace Item.Head

/-- The head, with zero in place of negative zero in its condition. -/
def normalize (h : Head) : Head :=
  { h with condition := h.condition.map Expression.normalize }

/-- The metadata stand in the order of their names. -/
def WellFormed (h : Head) : Prop :=
  ∀ metadata ∈ h.metadata, Dict.Ordered metadata

end Item.Head

/-- Texts by name are read as they were written if the names stand in order. -/
theorem Json.reads_texts {texts : Dict String} (h : texts.Ordered) (bound : Nat) :
  (Reader.dict .string).Reads bound (.texts texts) texts
  := Reader.reads_dict_self h fun m _ => Reader.reads_string m.2

theorem Json.depth_texts_le {texts : Dict String} {d : Nat} (hd : 0 < d) :
  (Json.texts texts).depth ≤ d
  := depth_dict_le hd fun _ _ => Nat.zero_le _

theorem Json.double_ne_null (x : Double) :
  double x ≠ .null
  := by
  intro h
  cases h

namespace Item.Head

theorem reads {h : Head} (hwf : h.WellFormed) (bound : Nat) :
  fields.Reads bound h.members h.normalize
  := by
  have hkeys (ks : List Key) : (Reader.list .string).Reads bound (.list .string ks) ks :=
    Reader.reads_list_self fun k _ => Reader.reads_string k
  exact (((((Fields.Reads.pure Head.mk).required "key" (Reader.reads_string h.key)).optional
    "metadata" h.metadata (fun m hm => Json.reads_texts (hwf m hm) bound) nofun).optional
    "follows" h.follows (fun ks _ => hkeys ks) nofun).optionalMap "condition" h.condition
    (fun e _ => e.reads bound) Expression.toJson_ne_null).optional "priority" h.priority
    (fun x _ => Reader.reads_double_of_double x) Json.double_ne_null

theorem members_normalize (h : Head) :
  h.normalize.members = h.members
  := by
  simp only [members, normalize,
    Json.Member.optional_map_eq fun e _ => Expression.toJson_normalize e]

theorem yields :
  fields.Yields fun d h => h.WellFormed ∧ ∀ m ∈ h.members, m.Within d
  := by
  apply Fields.Yields.seq (Fields.yields_optional (Reader.yields_any _))
  apply Fields.Yields.seq (Fields.yields_optional Expression.yields)
  apply Fields.Yields.seq (Fields.yields_optional (Reader.yields_list (Reader.yields_any _)))
  apply Fields.Yields.seq (Fields.yields_optional (Reader.yields_dict (Reader.yields_any _)))
  apply Fields.Yields.seq (Fields.yields_required (Reader.yields_any _))
  apply Fields.Yields.pure
  intro d key _ metadata hmetadata follows hfollows condition hcondition priority _
  constructor
  · intro m hm
    exact (hmetadata m hm).2.1
  · simp only [members, List.forall_mem_cons, Json.Member.within_required,
      Json.Member.within_optional]
    refine ⟨Nat.zero_le d, ?_, ?_, hcondition, fun _ _ => Nat.zero_le d, nofun⟩
    · intro m hm
      exact Json.depth_texts_le (hmetadata m hm).1
    · intro ks hks
      exact Json.depth_list_le (hfollows ks hks).1 fun _ _ => Nat.zero_le _

end Item.Head

/-! ### Single items -/

namespace SingleItem

/-- The item, with zero in place of negative zero among the numbers of its expressions. -/
def normalize (s : SingleItem) : SingleItem :=
  { s with
    head := s.head.normalize
    components := s.components.map Component.normalize
    validations := s.validations.map (·.map Validation.normalize) }

/-- The metadata and the components of the item are well formed. -/
def WellFormed (s : SingleItem) : Prop :=
  s.head.WellFormed ∧ ∀ c ∈ s.components, c.WellFormed

theorem reads {s : SingleItem} (h : s.WellFormed) (bound : Nat) :
  fields.reader.Reads bound s.toJson s.normalize
  := by
  apply Fields.reads_reader
  exact (((((Fields.Reads.pure SingleItem.mk).seq (Item.Head.reads h.1 bound)
    (fun _ _ => rfl)).optional "type" s.itemType (fun t _ => Reader.reads_string t)
    nofun).optionalMap "components" s.components (fun c hc => (h.2 c hc).reads bound)
    Component.toJson_ne_null).optionalMap "validations" s.validations
    (fun vs _ => Reader.reads_list fun v _ => v.reads bound) nofun).optional "confidentialMode"
    s.confidentialMode (fun m _ => m.reads bound) nofun

theorem toJson_normalize (s : SingleItem) :
  s.normalize.toJson = s.toJson
  := by
  have hvalidations : ∀ vs ∈ s.validations, Json.list Validation.toJson
      (vs.map Validation.normalize) = Json.list Validation.toJson vs :=
    fun vs _ => Json.list_map_eq fun v _ => v.toJson_normalize
  simp only [toJson, normalize, Item.Head.members_normalize,
    Json.Member.optional_map_eq fun c _ => Component.toJson_normalize c,
    Json.Member.optional_map_eq hvalidations]

theorem yields :
  fields.reader.Yields fun d s => s.WellFormed ∧ s.toJson.depth ≤ d
  := by
  apply Fields.yields_reader_succ
  apply Fields.Yields.seq (Fields.yields_optional (Reader.yields_any _))
  apply Fields.Yields.seq (Fields.yields_optional (Reader.yields_list Validation.yields))
  apply Fields.Yields.seq (Fields.yields_optional Component.yields)
  apply Fields.Yields.seq (Fields.yields_optional (Reader.yields_any _))
  apply Fields.Yields.seq Item.Head.yields
  apply Fields.Yields.pure
  intro d head hhead itemType _ components hcomponents validations hvalidations mode _
  constructor
  · exact ⟨hhead.1, fun c hc => (hcomponents c hc).1⟩
  · apply Json.depth_record_le (Nat.succ_pos d)
    refine List.forall_mem_append.mpr ⟨hhead.2, ?_⟩
    simp only [List.forall_mem_cons, Json.Member.within_optional]
    refine ⟨fun _ _ => Nat.zero_le d, fun c hc => (hcomponents c hc).2, ?_,
      fun _ _ => Nat.zero_le d, nofun⟩
    intro vs hvs
    exact Json.depth_list_le (hvalidations vs hvs).1 (hvalidations vs hvs).2

end SingleItem

/-! ### Groups and items -/

mutual

/-- The group, with zero in place of negative zero among the numbers of its expressions. -/
def Group.normalize : Group → Group
  | ⟨head, selectionMethod, items⟩ =>
    ⟨head.normalize, selectionMethod.map Expression.normalize, Item.normalizeAll items⟩

/-- The item, with zero in place of negative zero among the numbers of its expressions. -/
def Item.normalize : Item → Item
  | .group g => .group g.normalize
  | .single s => .single s.normalize

/-- The items, with zero in place of negative zero. -/
def Item.normalizeAll : List Item → List Item
  | [] => []
  | x :: rest => x.normalize :: Item.normalizeAll rest

end

theorem Item.normalizeAll_eq_map (items : List Item) :
  normalizeAll items = items.map normalize
  := by
  induction items with
  | nil => rfl
  | cons x rest ih => rw [normalizeAll, ih, List.map_cons]

theorem Item.toJsonAll_eq_map (items : List Item) :
  toJsonAll items = items.map toJson
  := by
  induction items with
  | nil => rfl
  | cons x rest ih => rw [toJsonAll, ih, List.map_cons]

/-- The metadata and the components of the item, and of the items inside it, are well formed. -/
inductive Item.WellFormed : Item → Prop where
  | group {head : Head} {items : List Item} (h : head.WellFormed)
    (selectionMethod : Option Expression) (hitems : ∀ x ∈ items, WellFormed x) :
    WellFormed (.group ⟨head, selectionMethod, items⟩)
  | single {s : SingleItem} (h : s.WellFormed) : WellFormed (.single s)

/-- The group is well formed as an item. -/
def Group.WellFormed (g : Group) : Prop := (Item.group g).WellFormed

theorem Group.toJson_mk (head : Item.Head) (selectionMethod : Option Expression)
    (items : List Item) :
  toJson ⟨head, selectionMethod, items⟩
    = .record (head.members ++ [
      .optional "selectionMethod" Expression.toJson selectionMethod,
      .required "items" (.list Item.toJson items)])
  := by
  rw [toJson, Item.toJsonAll_eq_map]
  rfl

theorem Group.toJson_depth_pos (g : Group) :
  0 < g.toJson.depth
  := by
  obtain ⟨head, selectionMethod, items⟩ := g
  rw [toJson_mk]
  exact Json.depth_record_pos _

/-- A group is read if its items are. -/
theorem Group.reads_with {inner : Reader Item} {bound : Nat} {head : Item.Head}
    (h : head.WellFormed) (selectionMethod : Option Expression) {items : List Item}
    (hitems : ∀ x ∈ items, inner.Reads bound x.toJson x.normalize) :
  (fieldsWith inner).reader.Reads (bound + 1) (toJson ⟨head, selectionMethod, items⟩)
    (normalize ⟨head, selectionMethod, items⟩)
  := by
  rw [toJson_mk, normalize, Item.normalizeAll_eq_map]
  apply Fields.reads_reader_succ
  exact (((Fields.Reads.pure Group.mk).seq (Item.Head.reads h bound) (fun _ _ => rfl)).optionalMap
    "selectionMethod" selectionMethod (fun e _ => e.reads bound)
    Expression.toJson_ne_null).required "items" (Reader.reads_list hitems)

/-- A single item is not read as a group. -/
theorem Group.reader_ne_ok_of_single (inner : Reader Item) (s : SingleItem) (d : Nat) (g : Group) :
  (fieldsWith inner).reader d s.toJson.outline ≠ .ok g
  := by
  apply Fields.reader_ne_ok_of_missing
  simp only [Item.Head.members, List.cons_append, List.nil_append, List.forall_mem_cons]
  refine ⟨Json.Member.avoids_required _ (by decide), Json.Member.avoids_optional _ _ (by decide),
    Json.Member.avoids_optional _ _ (by decide), Json.Member.avoids_optional _ _ (by decide),
    Json.Member.avoids_optional _ _ (by decide), Json.Member.avoids_optional _ _ (by decide),
    Json.Member.avoids_optional _ _ (by decide), Json.Member.avoids_optional _ _ (by decide),
    Json.Member.avoids_optional _ _ (by decide), nofun⟩

namespace Item

/-- An item is read if the items inside it are. -/
theorem reads_group {inner : Reader Item} {bound : Nat} {g g' : Group}
    (h : (Group.fieldsWith inner).reader.Reads bound g.toJson g') :
  (readerWith inner).Reads bound (toJson (.group g)) (.group g')
  where
    inRange := by
      rw [toJson]
      exact h.inRange
    eq_ok := by
      intro d hd hdepth
      rw [toJson] at hdepth ⊢
      obtain ⟨j, hj⟩ := Outline.exists_json_outline g.toJson hdepth
      unfold readerWith
      rw [hj, h.eq_ok hd hdepth]
      rfl

theorem reads_single (inner : Reader Item) {bound : Nat} {s : SingleItem} (h : s.WellFormed) :
  (readerWith inner).Reads bound (toJson (.single s)) (.single s.normalize)
  where
    inRange := by
      rw [toJson]
      exact (SingleItem.reads h bound).inRange
    eq_ok := by
      intro d hd hdepth
      rw [toJson] at hdepth ⊢
      obtain ⟨j, hj⟩ := Outline.exists_json_outline s.toJson hdepth
      unfold readerWith
      rw [hj, (SingleItem.reads h bound).eq_ok hd hdepth]
      cases hgroup : (Group.fieldsWith inner).reader d s.toJson.outline with
      | ok g => cases Group.reader_ne_ok_of_single inner s d g hgroup
      | error e => rfl

/-- An item is read as it was written, but for the sign of zero. -/
theorem WellFormed.reads {x : Item} (h : x.WellFormed) (bound : Nat) :
  reader.Reads bound x.toJson x.normalize
  := by
  apply Reader.reads_fix
  intro n
  induction h generalizing n with
  | @group head items h selectionMethod hitems ih =>
    apply Reader.reads_unroll
    intro n
    rw [normalize]
    exact reads_group (Group.reads_with h selectionMethod fun x hx => ih x hx n)
  | @single s h =>
    apply Reader.reads_unroll
    intro n
    rw [normalize]
    exact reads_single _ h

theorem toJson_group (g : Group) :
  (group g).toJson = g.toJson
  := by
  rw [toJson]

theorem toJson_single (s : SingleItem) :
  (single s).toJson = s.toJson
  := by
  rw [toJson]

/-- The sign of zero is not written. -/
theorem toJson_normalize (x : Item) :
  x.normalize.toJson = x.toJson
  := by
  induction x using Item.induct with
  | single s =>
    rw [normalize, toJson_single, toJson_single, s.toJson_normalize]
  | group head selectionMethod items ih =>
    rw [normalize, toJson_group, toJson_group, Group.normalize, normalizeAll_eq_map,
      Group.toJson_mk, Group.toJson_mk, head.members_normalize, Json.list_map_eq ih,
      Json.Member.optional_map_eq fun e _ => e.toJson_normalize]

end Item

theorem Group.toJson_normalize (g : Group) :
  g.normalize.toJson = g.toJson
  := by
  have h := (Item.group g).toJson_normalize
  rwa [Item.normalize, Item.toJson_group, Item.toJson_group] at h

/-- What is read as a group is well formed, and nests no deeper than it was allowed to, if that
holds of its items. -/
theorem Group.yields_with {inner : Reader Item}
    (h : inner.Yields fun d x => x.WellFormed ∧ x.toJson.depth ≤ d) :
  (fieldsWith inner).reader.Yields fun d g => g.WellFormed ∧ g.toJson.depth ≤ d
  := by
  apply Fields.yields_reader_succ
  apply Fields.Yields.seq (Fields.yields_required (Reader.yields_list h))
  apply Fields.Yields.seq (Fields.yields_optional Expression.yields)
  apply Fields.Yields.seq Item.Head.yields
  apply Fields.Yields.pure
  intro d head hhead selectionMethod hmethod items hitems
  constructor
  · exact .group hhead.1 selectionMethod fun x hx => (hitems.2 x hx).1
  · rw [toJson_mk]
    apply Json.depth_record_le (Nat.succ_pos d)
    refine List.forall_mem_append.mpr ⟨hhead.2, ?_⟩
    simp only [List.forall_mem_cons, Json.Member.within_required, Json.Member.within_optional]
    exact ⟨hmethod, Json.depth_list_le hitems.1 fun x hx => (hitems.2 x hx).2, nofun⟩

/-- What is read as an item is well formed, and nests no deeper, when it is written, than it was
allowed to. -/
theorem Item.yields :
  reader.Yields fun d x => x.WellFormed ∧ x.toJson.depth ≤ d
  := by
  apply Reader.yields_fix
  intro inner h
  constructor
  intro d o x ho hx
  obtain ⟨-, -, hx⟩ := exists_of_bind_eq_ok hx
  cases hgroup : (Group.fieldsWith inner).reader d o with
  | ok g =>
    rw [hgroup] at hx
    cases hx
    rw [toJson_group]
    exact (Group.yields_with h).of_ok ho hgroup
  | error e =>
    rw [hgroup] at hx
    cases hsingle : SingleItem.fields.reader d o with
    | ok s =>
      rw [hsingle] at hx
      cases hx
      rw [toJson_single]
      obtain ⟨hs, hdepth⟩ := SingleItem.yields.of_ok ho hsingle
      exact ⟨.single hs, hdepth⟩
    | error e =>
      rw [hsingle] at hx
      cases hx

/-- A group is read as it was written, but for the sign of zero. -/
theorem Group.WellFormed.reads {g : Group} (h : g.WellFormed) (bound : Nat) :
  fields.reader.Reads bound g.toJson g.normalize
  := by
  obtain ⟨head, selectionMethod, items⟩ := g
  cases h with
  | group hhead _ hitems =>
    apply (Group.reads_with hhead selectionMethod fun x hx => (hitems x hx).reads bound).mono
    exact Nat.le_succ bound

theorem Group.yields :
  fields.reader.Yields fun d g => g.WellFormed ∧ g.toJson.depth ≤ d
  := yields_with Item.yields

end Questionnaire
