import Mathlib.Data.List.Forall2
import Questionnaire.Proofs.Json.Numeral

/-!
# Reading the text of a JSON value

The text of a JSON value, on one line or on several, has the outline of the value, provided that
the text of each number in it is read back.
-/

namespace Questionnaire

namespace Outline

open Json (Style escape token)

/-! ### Strings -/

/-- The piece of a string that the text of a character is read as. -/
def pieceOf (c : Char) : Piece :=
  match escape c with
  | ['\\', 'u', _, _, _, _] => .unit c.toNat
  | _ => .char c

theorem unitCode?_hexDigit {n : Nat} (hn : n < 32) :
  unitCode? '0' '0' (Json.hexDigit (n / 16)) (Json.hexDigit (n % 16)) = some n
  := by
  revert n
  decide

/-- The text of a character is one piece. -/
theorem takePieces_escape (c : Char) (rest : List Char) :
  takePieces (escape c ++ rest) = (pieceOf c :: (takePieces rest).1, (takePieces rest).2)
  := by
  unfold pieceOf escape
  split
  · rename_i h
    simp [takePieces, escaped?, h]
  split
  · rename_i h
    simp [takePieces, escaped?, h]
  split
  · rename_i h
    simp [takePieces, escaped?, h]
  split
  · rename_i h
    simp [takePieces, escaped?, h]
  split
  · rename_i h
    simp [takePieces, escaped?, h]
  split
  · rename_i h
    simp [takePieces, escaped?, h]
  split
  · rename_i h
    simp [takePieces, escaped?, h]
  split
  · rename_i h
    simp [takePieces, unitCode?_hexDigit h]
  · rename_i hquote hbackslash _ _ _ _ _ h
    rw [List.singleton_append, takePieces]
    · simp [h]
    all_goals
      intros
      contradiction

theorem takePieces_flatMap_escape (cs rest : List Char) :
  takePieces (cs.flatMap escape ++ '"' :: rest) = (cs.map pieceOf, .ok rest)
  := by
  induction cs with
  | nil => simp [takePieces]
  | cons c cs ih =>
    rw [List.flatMap_cons, List.append_assoc, takePieces_escape, ih]
    rfl

theorem pieceOf_eq (c : Char) :
  pieceOf c = .char c ∨ pieceOf c = .unit c.toNat ∧ c.toNat < 32
  := by
  unfold pieceOf
  split
  · rename_i h
    right
    constructor
    · rfl
    · unfold escape at h
      split_ifs at h
      all_goals
        first
        | assumption
        | cases h
  · left
    rfl

/-- A unit below the surrogates is a character of its own. -/
theorem join_unit {code : Nat} (hcode : code < 32) (pieces : List Piece) :
  join none (.unit code :: pieces) = (join none pieces).map (Char.ofNat code :: ·)
  := by
  have hleading : isLeading code = false := by
    simp [isLeading]
    omega
  have htrailing : isTrailing code = false := by
    simp [isTrailing]
    omega
  cases pieces with
  | nil => simp [join, hleading, htrailing]
  | cons piece pieces =>
    cases piece with
    | char c => simp [join, hleading, htrailing]
    | unit next => simp [join, hleading, htrailing]

theorem join_map_pieceOf (cs : List Char) :
  join none (cs.map pieceOf) = .ok cs
  := by
  induction cs with
  | nil => rfl
  | cons c cs ih =>
    rw [List.map_cons]
    obtain hc | ⟨hc, hcode⟩ := pieceOf_eq c
    · rw [hc, join, ih]
      rfl
    · rw [hc, join_unit hcode, ih]
      simp [Except.map]

/-- The text of a string, behind its opening quote, is read as the string. -/
theorem takeString_escape (s : String) (rest : List Char) :
  takeString (s.toList.flatMap escape ++ '"' :: rest) = (token s, some rest)
  := by
  unfold takeString
  rw [takePieces_flatMap_escape]
  simp [faultOf, valueOf, join_map_pieceOf, token, Except.map]

/-! ### Blanks -/

theorem skipBlanks_cons {c : Char} (cs : List Char) (hc : isBlank c = false) :
  skipBlanks (c :: cs) = c :: cs
  := by
  simp [skipBlanks, hc]

theorem skipBlanks_blank {c : Char} (cs : List Char) (hc : isBlank c = true) :
  skipBlanks (c :: cs) = skipBlanks cs
  := by
  simp [skipBlanks, hc]

/-- The break of a line is blank. -/
theorem skipBlanks_lineBreak (style : Style) (level : Nat) (cs : List Char) :
  skipBlanks (style.lineBreak level ++ cs) = skipBlanks cs
  := by
  cases style with
  | compact => rfl
  | pretty =>
    unfold Style.lineBreak
    rw [List.cons_append, skipBlanks_blank _ (by decide)]
    induction 2 * level with
    | zero => rfl
    | succ n ih =>
      rw [List.replicate_succ, List.cons_append, skipBlanks_blank _ (by decide), ih]

theorem endsNumber_lineBreak_append {style : Style} {level : Nat} {cs : List Char}
    (h : EndsNumber cs) :
  EndsNumber (style.lineBreak level ++ cs)
  := by
  cases style with
  | compact => exact h
  | pretty => exact endsNumber_cons.mpr (by decide)

/-- Blanks in front of a value are passed over. -/
theorem takeValue_skipBlanks {fuel : Nat} {cs cs' : List Char}
    (h : skipBlanks cs = skipBlanks cs') :
  takeValue fuel cs = takeValue fuel cs'
  := by
  cases fuel with
  | zero => simp [takeValue]
  | succ fuel => simp only [takeValue, h]

/-! ### Parts of a container -/

/-- The text starts with a character that is neither blank nor the end of a container. -/
def Starts (cs : List Char) : Prop :=
  ∃ c cs', cs = c :: cs' ∧ isBlank c = false ∧ c ≠ ']' ∧ c ≠ '\x7d'

theorem Starts.intercalate {part : List Char} (h : Starts part) (sep : List Char)
    (parts : List (List Char)) :
  Starts (List.intercalate sep (part :: parts))
  := by
  obtain ⟨c, cs, rfl, hc⟩ := h
  cases parts with
  | nil => exact ⟨c, cs, List.intercalate_singleton, hc⟩
  | cons part' parts =>
    rw [List.intercalate_cons_cons]
    exact ⟨c, _, rfl, hc⟩

/-- The text is taken as the value, whatever follows it. -/
structure TextOf (cs : List Char) (o : Outline) : Prop where
  starts : Starts cs
  taken : ∀ (fuel : Nat) {rest : List Char}, 2 * cs.length ≤ fuel → EndsNumber rest →
    takeValue fuel (cs ++ rest) = (o, some rest)

theorem takeElements_last {fuel : Nat} {cs behind rest : List Char} {o : Outline}
    (hvalue : takeValue fuel cs = (o, some behind)) (hend : skipBlanks behind = ']' :: rest) :
  takeElements (fuel + 1) cs = { elements := [o], rest := some rest }
  := by
  simp [takeElements, hvalue, hend]

theorem takeElements_more {fuel : Nat} {c : Char} {cs behind more rest : List Char} {o : Outline}
    (hvalue : takeValue fuel cs = (o, some behind)) (hcomma : skipBlanks behind = ',' :: more)
    (hmore : skipBlanks more = c :: rest) (hc : c ≠ ']') :
  takeElements (fuel + 1) cs
    = { takeElements fuel (c :: rest) with
        elements := o :: (takeElements fuel (c :: rest)).elements }
  := by
  simp [takeElements, hvalue, hcomma, hmore, hc]

/-- The elements of an array are taken one after the other up to the bracket. -/
theorem takeElements_intercalate (style : Style) (level : Nat) {parts : List (List Char)}
    {outlines : List Outline} (h : List.Forall₂ TextOf parts outlines) (hne : parts ≠ [])
    (fuel : Nat) {behind rest : List Char} (hbehind : skipBlanks behind = ']' :: rest)
    (hends : EndsNumber behind)
    (hfuel : 2 * (List.intercalate (',' :: style.lineBreak level) parts).length + 3 ≤ fuel) :
  takeElements fuel (List.intercalate (',' :: style.lineBreak level) parts ++ behind)
    = { elements := outlines, rest := some rest }
  := by
  induction h generalizing fuel with
  | nil => cases hne rfl
  | @cons part o parts outlines hpart hparts ih =>
    cases fuel with
    | zero => omega
    | succ fuel =>
      cases hparts with
      | nil =>
        rw [List.intercalate_singleton] at hfuel ⊢
        exact takeElements_last (hpart.taken fuel (by omega) hends) hbehind
      | @cons part' o' parts outlines hpart' hparts =>
        obtain ⟨c, cs, hstart, hblank, hc, -⟩ := hpart'.starts.intercalate
          (',' :: style.lineBreak level) parts
        rw [List.intercalate_cons_cons] at hfuel ⊢
        simp only [List.length_append, List.length_cons] at hfuel
        simp only [List.append_assoc, List.cons_append]
        have hcomma : EndsNumber (',' :: (style.lineBreak level ++
            (List.intercalate (',' :: style.lineBreak level) (part' :: parts) ++ behind))) :=
          endsNumber_cons.mpr (by decide)
        have hvalue := hpart.taken fuel (by omega) hcomma
        have hmore : skipBlanks (style.lineBreak level ++
            (List.intercalate (',' :: style.lineBreak level) (part' :: parts) ++ behind))
            = c :: (cs ++ behind) := by
          rw [skipBlanks_lineBreak, hstart, List.cons_append, skipBlanks_cons _ hblank]
        rw [takeElements_more hvalue (skipBlanks_cons _ (by decide)) hmore hc, ← List.cons_append,
          ← hstart, ih (by simp) _ (by omega)]

/-- The text is the text of a member: a name, a colon, and the text of a value. -/
inductive MemberTextOf (style : Style) : List Char → Token String × Outline → Prop where
  | intro (name : String) {cs : List Char} {o : Outline} (h : TextOf cs o) :
    MemberTextOf style (Json.writeString name ++ style.colon ++ cs) (token name, o)

theorem MemberTextOf.exists_cons {style : Style} {cs : List Char} {m : Token String × Outline}
    (h : MemberTextOf style cs m) :
  ∃ cs', cs = '"' :: cs'
  := by
  obtain ⟨name, -⟩ := h
  exact ⟨_, rfl⟩

theorem MemberTextOf.starts {style : Style} {cs : List Char} {m : Token String × Outline}
    (h : MemberTextOf style cs m) :
  Starts cs
  := by
  obtain ⟨cs', rfl⟩ := h.exists_cons
  exact ⟨'"', cs', rfl, by decide⟩

/-- A member is its name, its colon and its value. -/
theorem MemberTextOf.taken {style : Style} {cs : List Char} {m : Token String × Outline}
    (h : MemberTextOf style ('"' :: cs) m) (fuel : Nat) {rest : List Char}
    (hfuel : 2 * cs.length ≤ fuel) (hrest : EndsNumber rest) :
  ∃ behind text, takeString (cs ++ rest) = (m.1, some behind) ∧
    skipBlanks behind = ':' :: text ∧ takeValue fuel text = (m.2, some rest)
  := by
  generalize htext : '"' :: cs = full at h
  obtain ⟨name, hvalue⟩ := h
  rename_i value o
  simp only [Json.writeString, List.cons_append, List.cons.injEq, true_and] at htext
  have hlength : value.length ≤ cs.length := by
    rw [htext]
    simp only [List.length_append]
    omega
  have htake := hvalue.taken fuel (by omega) hrest
  have hstring : takeString (cs ++ rest) = (token name, some (style.colon ++ (value ++ rest))) := by
    rw [htext]
    simp only [List.append_assoc, List.cons_append, List.nil_append]
    exact takeString_escape name _
  cases style with
  | compact => exact ⟨_, _, hstring, skipBlanks_cons _ (by decide), htake⟩
  | pretty =>
    have hskip : takeValue fuel (' ' :: (value ++ rest)) = (o, some rest) := by
      rw [takeValue_skipBlanks (skipBlanks_blank _ (by decide)), htake]
    exact ⟨_, _, hstring, skipBlanks_cons _ (by decide), hskip⟩

theorem takeMembers_last {fuel : Nat} {afterComma : Bool} {cs behind text behind' rest : List Char}
    {name : Token String} {o : Outline} (hname : takeString cs = (name, some behind))
    (hcolon : skipBlanks behind = ':' :: text) (hvalue : takeValue fuel text = (o, some behind'))
    (hend : skipBlanks behind' = '\x7d' :: rest) :
  takeMembers (fuel + 1) afterComma ('"' :: cs) = { members := [(name, o)], rest := some rest }
  := by
  simp [takeMembers, hname, hcolon, hvalue, hend]

theorem takeMembers_more {fuel : Nat} {afterComma : Bool} {c : Char}
    {cs behind text behind' more rest : List Char} {name : Token String} {o : Outline}
    (hname : takeString cs = (name, some behind)) (hcolon : skipBlanks behind = ':' :: text)
    (hvalue : takeValue fuel text = (o, some behind')) (hcomma : skipBlanks behind' = ',' :: more)
    (hmore : skipBlanks more = c :: rest) (hc : c ≠ '\x7d') :
  takeMembers (fuel + 1) afterComma ('"' :: cs)
    = { takeMembers fuel true (c :: rest) with
        members := (name, o) :: (takeMembers fuel true (c :: rest)).members }
  := by
  simp [takeMembers, hname, hcolon, hvalue, hcomma, hmore, hc]

/-- The members of an object are taken one after the other up to the brace. -/
theorem takeMembers_intercalate {style : Style} (level : Nat) {parts : List (List Char)}
    {members : List (Token String × Outline)}
    (h : List.Forall₂ (MemberTextOf style) parts members) (hne : parts ≠ []) (fuel : Nat)
    (afterComma : Bool) {behind rest : List Char} (hbehind : skipBlanks behind = '\x7d' :: rest)
    (hends : EndsNumber behind)
    (hfuel : 2 * (List.intercalate (',' :: style.lineBreak level) parts).length + 3 ≤ fuel) :
  takeMembers fuel afterComma (List.intercalate (',' :: style.lineBreak level) parts ++ behind)
    = { members, rest := some rest }
  := by
  induction h generalizing fuel afterComma with
  | nil => cases hne rfl
  | @cons part m parts members hpart hparts ih =>
    obtain ⟨cs, rfl⟩ := hpart.exists_cons
    cases fuel with
    | zero => omega
    | succ fuel =>
      cases hparts with
      | nil =>
        rw [List.intercalate_singleton] at hfuel ⊢
        rw [List.length_cons] at hfuel
        obtain ⟨_, _, hname, hcolon, hvalue⟩ := hpart.taken fuel (by omega) hends
        exact takeMembers_last hname hcolon hvalue hbehind
      | @cons part' m' parts members hpart' hparts =>
        obtain ⟨c, cs', hstart, hblank, -, hc⟩ := hpart'.starts.intercalate
          (',' :: style.lineBreak level) parts
        rw [List.intercalate_cons_cons] at hfuel ⊢
        simp only [List.length_append, List.length_cons] at hfuel
        simp only [List.append_assoc, List.cons_append]
        have hcomma : EndsNumber (',' :: (style.lineBreak level ++
            (List.intercalate (',' :: style.lineBreak level) (part' :: parts) ++ behind))) :=
          endsNumber_cons.mpr (by decide)
        obtain ⟨_, _, hname, hcolon, hvalue⟩ := hpart.taken fuel (by omega) hcomma
        have hmore : skipBlanks (style.lineBreak level ++
            (List.intercalate (',' :: style.lineBreak level) (part' :: parts) ++ behind))
            = c :: (cs' ++ behind) := by
          rw [skipBlanks_lineBreak, hstart, List.cons_append, skipBlanks_cons _ hblank]
        rw [takeMembers_more hname hcolon hvalue (skipBlanks_cons _ (by decide)) hmore hc,
          ← List.cons_append, ← hstart, ih (by simp) _ _ (by omega)]

/-! ### Values -/

theorem takeValue_array {fuel : Nat} {c : Char} {cs rest : List Char}
    (h : skipBlanks cs = c :: rest) (hc : c ≠ ']') :
  takeValue (fuel + 1) ('[' :: cs)
    = (.array (takeElements fuel (c :: rest)).elements (takeElements fuel (c :: rest)).fault,
      (takeElements fuel (c :: rest)).rest)
  := by
  simp [takeValue, skipBlanks_cons cs (show isBlank '[' = false by decide), h, hc]

theorem takeValue_object {fuel : Nat} {c : Char} {cs rest : List Char}
    (h : skipBlanks cs = c :: rest) (hc : c ≠ '\x7d') :
  takeValue (fuel + 1) ('\x7b' :: cs)
    = (.object (takeMembers fuel false (c :: rest)).members
        (takeMembers fuel false (c :: rest)).fault (takeMembers fuel false (c :: rest)).stray,
      (takeMembers fuel false (c :: rest)).rest)
  := by
  simp [takeValue, skipBlanks_cons cs (show isBlank '\x7b' = false by decide), h, hc]

/-- The break behind the last part of a container ends a number and is passed over. -/
theorem closing (style : Style) (level : Nat) {c : Char} (hc : c = ']' ∨ c = '\x7d')
    (rest : List Char) :
  skipBlanks (style.lineBreak level ++ c :: rest) = c :: rest ∧
    EndsNumber (style.lineBreak level ++ c :: rest)
  := by
  constructor
  · rw [skipBlanks_lineBreak]
    obtain rfl | rfl := hc
    · exact skipBlanks_cons _ (by decide)
    · exact skipBlanks_cons _ (by decide)
  · apply endsNumber_lineBreak_append
    obtain rfl | rfl := hc
    · exact endsNumber_cons.mpr (by decide)
    · exact endsNumber_cons.mpr (by decide)

/-- The text of an array is made of the texts of its elements. -/
theorem TextOf.array {style : Style} {level : Nat} {parts : List (List Char)}
    {outlines : List Outline} (h : List.Forall₂ TextOf parts outlines) :
  TextOf (style.enclose level '[' ']' parts) (.array outlines none)
  := by
  cases h with
  | nil =>
    constructor
    · exact ⟨'[', [']'], rfl, by decide⟩
    · intro fuel rest hfuel _
      cases fuel with
      | zero => cases hfuel
      | succ fuel => rfl
  | @cons part o parts outlines hpart hparts =>
    constructor
    · exact ⟨'[', _, rfl, by decide⟩
    · intro fuel rest hfuel _
      simp only [Style.enclose, List.length_append, List.length_cons, List.length_nil] at hfuel
      cases fuel with
      | zero => omega
      | succ fuel =>
        obtain ⟨hbehind, hends⟩ := closing style level (.inl (Eq.refl ']')) rest
        obtain ⟨c, cs, hstart, hblank, hc, -⟩ := hpart.starts.intercalate
          (',' :: style.lineBreak (level + 1)) parts
        have htaken := takeElements_intercalate style (level + 1)
          (List.Forall₂.cons hpart hparts) (by simp) fuel hbehind hends (by omega)
        have hfirst : skipBlanks (style.lineBreak (level + 1) ++
            (List.intercalate (',' :: style.lineBreak (level + 1)) (part :: parts) ++
              (style.lineBreak level ++ ']' :: rest)))
            = c :: (cs ++ (style.lineBreak level ++ ']' :: rest)) := by
          rw [skipBlanks_lineBreak, hstart, List.cons_append, skipBlanks_cons _ hblank]
        simp only [Style.enclose, List.append_assoc, List.cons_append, List.nil_append]
        rw [takeValue_array hfirst hc, ← List.cons_append, ← hstart, htaken]

/-- The text of an object is made of the texts of its members. -/
theorem TextOf.object {style : Style} {level : Nat} {parts : List (List Char)}
    {members : List (Token String × Outline)}
    (h : List.Forall₂ (MemberTextOf style) parts members) :
  TextOf (style.enclose level '\x7b' '\x7d' parts) (.object members none none)
  := by
  cases h with
  | nil =>
    constructor
    · exact ⟨'\x7b', ['\x7d'], rfl, by decide⟩
    · intro fuel rest hfuel _
      cases fuel with
      | zero => cases hfuel
      | succ fuel => rfl
  | @cons part m parts members hpart hparts =>
    constructor
    · exact ⟨'\x7b', _, rfl, by decide⟩
    · intro fuel rest hfuel _
      simp only [Style.enclose, List.length_append, List.length_cons, List.length_nil] at hfuel
      cases fuel with
      | zero => omega
      | succ fuel =>
        obtain ⟨hbehind, hends⟩ := closing style level (.inr (Eq.refl '\x7d')) rest
        obtain ⟨c, cs, hstart, hblank, -, hc⟩ := hpart.starts.intercalate
          (',' :: style.lineBreak (level + 1)) parts
        have htaken := takeMembers_intercalate (level + 1) (List.Forall₂.cons hpart hparts)
          (by simp) fuel false hbehind hends (by omega)
        have hfirst : skipBlanks (style.lineBreak (level + 1) ++
            (List.intercalate (',' :: style.lineBreak (level + 1)) (part :: parts) ++
              (style.lineBreak level ++ '\x7d' :: rest)))
            = c :: (cs ++ (style.lineBreak level ++ '\x7d' :: rest)) := by
          rw [skipBlanks_lineBreak, hstart, List.cons_append, skipBlanks_cons _ hblank]
        simp only [Style.enclose, List.append_assoc, List.cons_append, List.nil_append]
        rw [takeValue_object hfirst hc, ← List.cons_append, ← hstart, htaken]

theorem TextOf.string (s : String) :
  TextOf (Json.writeString s) (.string (token s))
  := by
  constructor
  · exact ⟨'"', _, rfl, by decide⟩
  · intro fuel rest hfuel _
    cases fuel with
    | zero => simp [Json.writeString] at hfuel
    | succ fuel =>
      have hstring := takeString_escape s rest
      simp only [Json.writeString, List.append_assoc, List.cons_append, List.nil_append]
      simp [takeValue, skipBlanks_cons _ (show isBlank '"' = false by decide), hstring]

/-- A word and what follows it are taken apart. -/
theorem takeWord_append (word rest : List Char) :
  takeWord word (word ++ rest) = .ok rest
  := by
  induction word with
  | nil => rfl
  | cons c word ih => simp [takeWord, ih]

theorem TextOf.literal {c : Char} {word : List Char} {o : Option Fault → Outline}
    (hstarts : Starts (c :: word))
    (htake : ∀ fuel rest, takeValue (fuel + 1) (c :: rest) = takeLiteral o word rest) :
  TextOf (c :: word) (o none)
  := by
  constructor
  · exact hstarts
  · intro fuel rest hfuel _
    cases fuel with
    | zero => cases hfuel
    | succ fuel =>
      rw [List.cons_append, htake, takeLiteral, takeWord_append]
      rfl

/-- A character that starts a number starts no other value. -/
theorem takeValue_number {c : Char} (hc : c = '-' ∨ c.isDigit = true) (fuel : Nat)
    (cs : List Char) :
  Starts (c :: cs) ∧ takeValue (fuel + 1) (c :: cs)
    = (.number (takeNumber (c :: cs)).1, (takeNumber (c :: cs)).2)
  := by
  have hne (d : Char) (hd : d ≠ '-' ∧ d.isDigit = false) : c ≠ d := by
    rintro rfl
    obtain hc | hc := hc
    · exact hd.1 hc
    · rw [hd.2] at hc
      cases hc
  have hblank : isBlank c = false := by
    simp [isBlank, hne ' ' (by decide), hne '\n' (by decide), hne '\t' (by decide),
      hne '\r' (by decide)]
  constructor
  · exact ⟨c, cs, rfl, hblank, hne ']' (by decide), hne '\x7d' (by decide)⟩
  · simp [takeValue, skipBlanks_cons _ hblank, hne 'n' (by decide), hne 't' (by decide),
      hne 'f' (by decide), hne '"' (by decide), hne '[' (by decide), hne '\x7b' (by decide), hc]

theorem TextOf.number {n : Numeral} (h : n.ReadsBack) :
  TextOf (Json.writeNumeral n) (.number (token n))
  := by
  obtain ⟨c, cs, htext, hc⟩ := exists_cons_of_takeNumber h
  constructor
  · rw [htext]
    exact (takeValue_number hc 0 cs).1
  · intro fuel rest hfuel hrest
    have hnumber := takeNumber_append h hrest
    rw [htext] at hfuel hnumber ⊢
    cases fuel with
    | zero => cases hfuel
    | succ fuel =>
      rw [List.cons_append] at hnumber ⊢
      rw [(takeValue_number hc fuel (cs ++ rest)).2, hnumber]

/-- The text of a value is taken as the value. -/
theorem textOf_write (style : Style) {j : Json} (h : ∀ n ∈ j.numerals, n.ReadsBack) (level : Nat) :
  TextOf (j.write style level) j.outline
  := by
  induction j using Json.inductionOn generalizing level with
  | null => exact TextOf.literal (o := .null) ⟨_, _, rfl, by decide⟩ (fun _ _ => rfl)
  | bool b =>
    cases b with
    | true => exact TextOf.literal (o := .bool true) ⟨_, _, rfl, by decide⟩ (fun _ _ => rfl)
    | false => exact TextOf.literal (o := .bool false) ⟨_, _, rfl, by decide⟩ (fun _ _ => rfl)
  | number n => exact TextOf.number (h n (by simp [Json.numerals]))
  | string s => exact TextOf.string s
  | array elements ih =>
    apply TextOf.array
    replace h : ∀ e ∈ elements, ∀ n ∈ e.numerals, n.ReadsBack := by
      intro e he n hn
      exact h n (Json.mem_numerals_array.mpr ⟨e, he, hn⟩)
    induction elements with
    | nil => exact .nil
    | cons e es ihes =>
      rw [List.forall_mem_cons] at h ih
      exact .cons (ih.1 h.1 (level + 1)) (ihes ih.2 h.2)
  | object members ih =>
    apply TextOf.object
    replace h : ∀ m ∈ members, ∀ n ∈ m.2.numerals, n.ReadsBack := by
      intro m hm n hn
      exact h n (Json.mem_numerals_object.mpr ⟨m, hm, hn⟩)
    induction members with
    | nil => exact .nil
    | cons m ms ihms =>
      obtain ⟨name, value⟩ := m
      rw [List.forall_mem_cons] at h ih
      exact .cons (.intro name (ih.1 h.1 (level + 1))) (ihms ih.2 h.2)

/-- The outline of the text of a value is that of the value, and nothing follows it. -/
theorem ofText_toText (style : Style) {j : Json} (h : ∀ n ∈ j.numerals, n.ReadsBack) :
  ofText (j.toText style) = (j.outline, none)
  := by
  have htaken := (textOf_write style h 0).taken _
    (Nat.le_add_right (2 * (j.write style 0).length) 2) endsNumber_nil
  rw [List.append_nil] at htaken
  simp [ofText, Json.toText, htaken, skipBlanks]

end Outline

end Questionnaire
