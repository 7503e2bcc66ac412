import Questionnaire.Expression.Format
import Questionnaire.Proofs.Json.Record
import Questionnaire.Proofs.Json.Yields
import Questionnaire.Proofs.Number.Integer

/-!
# Reading expressions that are written

An expression is read as it was written, except that negative zero is read as zero.
-/

namespace Questionnaire

/-! ### Negative zero -/

mutual

/-- The expression, with zero in place of negative zero. -/
def Expression.normalize : Expression → Expression
  | ⟨name, returnType, arguments⟩ => ⟨name, returnType, Argument.normalizeAll arguments⟩

/-- The argument, with zero in place of negative zero. -/
def Argument.normalize : Argument → Argument
  | .text s => .text s
  | .number x => .number x.normalize
  | .expression e => .expression e.normalize

/-- The arguments, with zero in place of negative zero. -/
def Argument.normalizeAll : List Argument → List Argument
  | [] => []
  | a :: rest => a.normalize :: Argument.normalizeAll rest

end

theorem Argument.normalizeAll_eq_map (arguments : List Argument) :
  normalizeAll arguments = arguments.map normalize
  := by
  induction arguments with
  | nil => rfl
  | cons a rest ih => rw [normalizeAll, ih, List.map_cons]

theorem Argument.toJsonAll_eq_map (arguments : List Argument) :
  toJsonAll arguments = arguments.map toJson
  := by
  induction arguments with
  | nil => rfl
  | cons a rest ih => rw [toJsonAll, ih, List.map_cons]

/-- What passes from the expressions among the arguments to the expression around them holds of
every expression. -/
theorem Expression.inductionOn {P : Expression → Prop} (e : Expression)
    (apply : ∀ name returnType arguments, (∀ e, .expression e ∈ arguments → P e) →
      P ⟨name, returnType, arguments⟩) :
  P e
  := by
  apply @Expression.rec P (fun a => ∀ e, a = .expression e → P e)
    (fun as => ∀ e, .expression e ∈ as → P e) apply
  · intro s e he
    cases he
  · intro x e he
    cases he
  · intro e he e' heq
    cases heq
    exact he
  · intro e he
    cases he
  · intro a as ha has e he
    obtain rfl | he := List.mem_cons.mp he
    · exact ha e rfl
    · exact has e he

/-! ### Numbers -/

namespace Argument

/-- The number of an argument is read as it was written, but for the sign of zero. -/
theorem reads_numberToJson (x : Double) (bound : Nat) :
  Reader.double.Reads bound (numberToJson x) x.normalize
  := by
  unfold numberToJson
  cases hint : x.toInt? with
  | some n =>
    simp only
    split
    · rename_i habs
      rw [← Double.ofInt_of_toInt? hint]
      apply Reader.reads_double_of_int
      constructor
      · omega
      · have hpow : ((Nat.pow 2 63 : Nat) : Int) < Nat.pow 2 64 := by decide
        omega
    · rename_i habs
      rw [Double.normalize_eq_self]
      · exact Reader.reads_double_of_double x
      · rw [hint]
        intro h
        cases h
        exact habs (by decide)
  | none =>
    rw [Double.normalize_eq_self]
    · exact Reader.reads_double_of_double x
    · rw [hint]
      nofun

theorem numberToJson_depth (x : Double) :
  (numberToJson x).depth = 0
  := by
  unfold numberToJson
  split
  · split <;> rfl
  · rfl

theorem numberToJson_ne_null (x : Double) :
  numberToJson x ≠ .null
  := by
  unfold numberToJson
  split
  · split <;> nofun
  · nofun

end Argument

theorem Argument.numberToJson_normalize (x : Double) :
  numberToJson x.normalize = numberToJson x
  := by
  unfold Double.normalize
  split
  · rename_i hzero
    simp [numberToJson, Double.toInt?_of_isZero hzero,
      Double.toInt?_of_isZero (x := Double.zero false) rfl]
  · rfl

/-! ### Reading what is written -/

theorem ReturnType.lookup_name (t : ReturnType) :
  names.lookup t.name = some t
  := by
  cases t <;> rfl

theorem ReturnType.reads (t : ReturnType) (bound : Nat) :
  (Reader.choice names).Reads bound t.toJson t
  := Reader.reads_choice t.lookup_name

theorem Expression.toJson_nil (name : String) (returnType : Option ReturnType) :
  toJson ⟨name, returnType, []⟩
    = .record [.required "name" (.string name),
      .optional "returnType" ReturnType.toJson returnType, none]
  := by
  unfold toJson
  rfl

theorem Expression.toJson_cons (name : String) (returnType : Option ReturnType) (a : Argument)
    (rest : List Argument) :
  toJson ⟨name, returnType, a :: rest⟩
    = .record [.required "name" (.string name),
      .optional "returnType" ReturnType.toJson returnType,
      .required "data" (.list Argument.toJson (a :: rest))]
  := by
  unfold toJson
  simp only [Argument.toJsonAll_eq_map]
  rfl

theorem Expression.toJson_ne_null (e : Expression) :
  e.toJson ≠ .null
  := by
  obtain ⟨name, returnType, arguments⟩ := e
  cases arguments with
  | nil =>
    rw [toJson_nil]
    nofun
  | cons a rest =>
    rw [toJson_cons]
    nofun

theorem Argument.toJson_ne_null (a : Argument) :
  a.toJson ≠ .null
  := by
  cases a <;> (rw [toJson]; nofun)

/-- The sign of zero is not written. -/
theorem Expression.toJson_normalize (e : Expression) :
  e.normalize.toJson = e.toJson
  := by
  induction e using inductionOn with
  | apply name returnType arguments ih =>
    rw [normalize, Argument.normalizeAll_eq_map]
    cases arguments with
    | nil => rfl
    | cons a rest =>
      rw [List.map_cons, toJson_cons, toJson_cons, ← List.map_cons, Json.list_map_eq]
      intro b hb
      cases b with
      | text s => rfl
      | number x => simp only [Argument.normalize, Argument.toJson, Argument.numberToJson_normalize]
      | expression e => simp only [Argument.normalize, Argument.toJson, ih e hb]

theorem Argument.toJson_normalize (a : Argument) :
  a.normalize.toJson = a.toJson
  := by
  cases a with
  | text s => rfl
  | number x => simp only [normalize, toJson, numberToJson_normalize]
  | expression e => simp only [normalize, toJson, e.toJson_normalize]

/-- The members of an argument are read as its parts. -/
theorem Argument.reads_parts {inner : Reader Expression} {bound : Nat} (tag : String)
    (text : Option String) (number : Option Double) (expression : Option Expression)
    (h : ∀ e ∈ expression, inner.Reads bound e.toJson e.normalize) :
  (parts inner).reader.Reads bound
    (.record [.optional "dtype" .string (some tag), .optional "str" .string text,
      .optional "num" numberToJson number, .optional "exp" Expression.toJson expression])
    ⟨some tag, text, number.map Double.normalize, expression.map Expression.normalize⟩
  := by
  apply Fields.reads_reader
  exact ((((Fields.Reads.pure Parts.mk).optional "dtype" (some tag)
    (fun s _ => Reader.reads_string s) nofun).optional "str" text
    (fun s _ => Reader.reads_string s) nofun).optionalMap "num" number (fun x _ => reads_numberToJson x bound)
    numberToJson_ne_null).optionalMap "exp" expression h Expression.toJson_ne_null

/-- An argument is read if the expression that it may be is. -/
theorem Argument.reads_with {inner : Reader Expression} {bound : Nat} (a : Argument)
    (h : ∀ e, a = .expression e → inner.Reads bound e.toJson e.normalize) :
  (readerWith inner).Reads bound a.toJson a.normalize
  := by
  cases a with
  | text s =>
    apply (@reads_parts inner bound "str" (some s) none none nofun).bind
    rfl
  | number x =>
    apply (@reads_parts inner bound "num" none (some x) none nofun).bind
    rfl
  | expression e =>
    apply (reads_parts "exp" none none (some e) ?_).bind
    · rfl
    · intro e' he
      cases he
      exact h e rfl

namespace Expression

/-- An expression is read if the expressions among its arguments are. -/
theorem reads_with {inner : Reader Expression} {bound : Nat} (name : String)
    (returnType : Option ReturnType) (arguments : List Argument)
    (h : ∀ e, .expression e ∈ arguments → inner.Reads bound e.toJson e.normalize) :
  (fieldsWith inner).reader.Reads (bound + 1) (toJson ⟨name, returnType, arguments⟩)
    (normalize ⟨name, returnType, arguments⟩)
  := by
  have hhead := ((@Fields.Reads.pure _ bound Expression.mk).required "name"
    (Reader.reads_string name)).optional "returnType" returnType (fun t _ => t.reads bound) nofun
  cases arguments with
  | nil =>
    rw [toJson_nil]
    exact Fields.reads_reader_succ (hhead.withDefault_absent "data" _)
  | cons a rest =>
    rw [toJson_cons, normalize, Argument.normalizeAll_eq_map]
    apply Fields.reads_reader_succ
    apply hhead.withDefault "data"
    apply Reader.reads_list
    intro b hb
    apply b.reads_with
    rintro e rfl
    exact h e hb

/-- An expression is read as it was written, but for the sign of zero. -/
theorem reads (e : Expression) (bound : Nat) :
  reader.Reads bound e.toJson e.normalize
  := by
  apply Reader.reads_fix
  intro n
  induction e using inductionOn generalizing n with
  | apply name returnType arguments ih =>
    apply Reader.reads_unroll
    intro n
    exact reads_with name returnType arguments fun e he => ih e he n

end Expression

/-- An argument is read as it was written, but for the sign of zero. -/
theorem Argument.reads (a : Argument) (bound : Nat) :
  reader.Reads bound a.toJson a.normalize
  := a.reads_with fun e _ => e.reads bound

/-! ### How deep what is read nests -/

theorem Argument.yields_parts {inner : Reader Expression}
    (h : inner.Yields fun d e => e.toJson.depth ≤ d) :
  (parts inner).Yields fun d p => ∀ e ∈ p.expression, e.toJson.depth ≤ d
  := by
  apply Fields.Yields.seq (Fields.yields_optional h)
  apply Fields.Yields.seq (Fields.yields_optional (Reader.yields_any _))
  apply Fields.Yields.seq (Fields.yields_optional (Reader.yields_any _))
  apply Fields.Yields.seq (Fields.yields_optional (Reader.yields_any _))
  apply Fields.Yields.pure
  intro d tag _ text _ number _ expression hexpression
  exact hexpression

theorem Argument.eq_of_ofParts {p : Parts} {a : Argument} (h : ofParts p = .ok a) :
  (∃ s, a = .text s) ∨ (∃ x, a = .number x) ∨ ∃ e ∈ p.expression, a = .expression e
  := by
  simp only [ofParts] at h
  split at h
  · cases htext : p.text with
    | none =>
      rw [htext] at h
      cases h
    | some s =>
      rw [htext] at h
      cases h
      exact .inl ⟨s, rfl⟩
  · cases hnumber : p.number with
    | none =>
      rw [hnumber] at h
      cases h
    | some x =>
      rw [hnumber] at h
      cases h
      exact .inr (.inl ⟨x, rfl⟩)
  · cases hexpression : p.expression with
    | none =>
      rw [hexpression] at h
      cases h
    | some e =>
      rw [hexpression] at h
      cases h
      exact .inr (.inr ⟨e, rfl, rfl⟩)
  · cases h

theorem Argument.yields_with {inner : Reader Expression}
    (h : inner.Yields fun d e => e.toJson.depth ≤ d) :
  (readerWith inner).Yields fun d a => a.toJson.depth ≤ d
  := by
  constructor
  intro d o a ho ha
  obtain ⟨p, hp, hparts⟩ := exists_of_bind_eq_ok ha
  obtain ⟨hd, hexpression⟩ := (Fields.yields_reader (yields_parts h)).of_ok ho hp
  obtain ⟨d, rfl⟩ := Nat.exists_eq_add_one_of_ne_zero (Nat.ne_of_gt hd)
  obtain ⟨s, rfl⟩ | ⟨x, rfl⟩ | ⟨e, he, rfl⟩ := eq_of_ofParts hparts
  · apply Json.depth_object_le_succ.mpr
    simp [Json.depth]
  · apply Json.depth_object_le_succ.mpr
    simp [Json.depth, numberToJson_depth]
  · apply Json.depth_object_le_succ.mpr
    simpa [Json.depth] using hexpression e he

theorem Expression.toJson_depth_le {name : String} {returnType : Option ReturnType}
    {arguments : List Argument} {d : Nat} (h : ∀ a ∈ arguments, a.toJson.depth < d) :
  (toJson ⟨name, returnType, arguments⟩).depth ≤ d + 1
  := by
  have htype : (Json.Member.optional "returnType" ReturnType.toJson returnType).Within d :=
    Json.Member.within_optional.mpr fun _ _ => Nat.zero_le d
  cases arguments with
  | nil =>
    rw [toJson_nil]
    apply Json.depth_record_le (Nat.succ_pos d)
    simp only [List.forall_mem_cons]
    refine ⟨Json.Member.within_required.mpr (Nat.zero_le d), htype, nofun, nofun⟩
  | cons a rest =>
    rw [toJson_cons]
    apply Json.depth_record_le (Nat.succ_pos d)
    simp only [List.forall_mem_cons]
    refine ⟨Json.Member.within_required.mpr (Nat.zero_le d), htype, ?_, nofun⟩
    apply Json.Member.within_required.mpr
    have hd : 0 < d := Nat.zero_lt_of_lt (h a List.mem_cons_self)
    exact Json.depth_list_le hd fun b hb => Nat.le_sub_one_of_lt (h b hb)

theorem Expression.yields_with {inner : Reader Expression}
    (h : inner.Yields fun d e => e.toJson.depth ≤ d) :
  (fieldsWith inner).Yields fun d e => e.toJson.depth ≤ d + 1
  := by
  have harguments : (Reader.list (Argument.readerWith inner)).Yields
      fun d as => ∀ a ∈ as, a.toJson.depth < d := by
    apply (Reader.yields_list (Argument.yields_with h)).mono
    rintro d as ⟨hd, has⟩ a ha
    exact Nat.lt_of_le_sub_one hd (has a ha)
  apply Fields.Yields.seq (Fields.yields_withDefault harguments (by simp))
  apply Fields.Yields.seq (Fields.yields_optional (Reader.yields_any _))
  apply Fields.Yields.seq (Fields.yields_required (Reader.yields_any _))
  apply Fields.Yields.pure
  intro d name _ returnType _ arguments harguments
  exact toJson_depth_le harguments

/-- What is read as an expression nests no deeper, when it is written, than it was allowed to. -/
theorem Expression.yields :
  reader.Yields fun d e => e.toJson.depth ≤ d
  := by
  apply Reader.yields_fix
  intro inner h
  exact Fields.yields_reader_succ (yields_with h)

theorem Argument.yields :
  reader.Yields fun d a => a.toJson.depth ≤ d
  := yields_with Expression.yields

end Questionnaire
