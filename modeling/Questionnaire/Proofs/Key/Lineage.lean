import Questionnaire.Proofs.Key

/-!
# Keys and the keys above them

A key lies within itself and within whatever its parent lies within, and in no other key.  So what
holds of a key is shown by induction from its parent to the key (`inductionOn`).

* The prefixes of a key are the keys that it lies within, and two of them lie one within the other.
* The prefixes that are longer than one of them lead from it down to the key (`Descends`).
* Rebasing a key moves it along with its parent, and what is rebased from one child of a key to
  another does not lie within the first.
-/

namespace Questionnaire

namespace Key

/-! ### Parents -/

theorem parent?_eq_none_iff {key : Key} :
  parent? key = none ↔ '.' ∉ key.toList
  := by
  rw [parent?, Option.map_eq_none_iff, divide?_eq_none_iff]

/-- A key with a parent is the parent, a dot, and the last segment of the key. -/
theorem toList_of_parent? {key p : Key} (h : parent? key = some p) :
  key.toList = p.toList ++ '.' :: (leaf key).toList
  := by
  rw [parent?] at h
  obtain ⟨⟨front, back⟩, hparts, rfl⟩ := Option.map_eq_some_iff.mp h
  rw [leaf, hparts, String.toList_ofList, String.toList_ofList]
  apply (divide?_eq_some hparts).1

/-- A key is divided at a dot with no dot behind it. -/
theorem parent?_of_toList {key p : Key} {back : List Char}
    (h : key.toList = p.toList ++ '.' :: back) (hback : '.' ∉ back) :
  parent? key = some p
  := by
  rw [parent?, h, divide?_append hback, Option.map_some, String.ofList_toList]

theorem parent?_of_parent {key p : Key} (h : parent key = p) (hp : p ≠ "") :
  parent? key = some p
  := by
  rw [parent] at h
  cases hkey : parent? key with
  | none =>
    rw [hkey] at h
    exfalso
    apply hp h.symm
  | some q =>
    rw [hkey] at h
    rw [← h]
    rfl

theorem length_lt_of_parent? {key p : Key} (h : parent? key = some p) :
  p.length < key.length
  := by
  rw [← String.length_toList, ← String.length_toList, toList_of_parent? h, List.length_append,
    List.length_cons]
  omega

/-- A property holds of every key if it holds of keys without a parent, and of a key when it holds
of its parent. -/
@[elab_as_elim]
theorem inductionOn {P : Key → Prop} (top : ∀ key, parent? key = none → P key)
    (below : ∀ key p, parent? key = some p → P p → P key) (key : Key) :
  P key
  := by
  cases h : parent? key with
  | none => apply top key h
  | some p =>
    have hlt := length_lt_of_parent? h
    apply below key p h
    apply inductionOn top below p
termination_by key.length

/-! ### Keys within keys -/

theorem isWithin_refl (key : Key) :
  isWithin key key = true
  := by
  apply isWithin_iff.mpr
  left
  rfl

/-- A key without a parent lies within itself only. -/
theorem isWithin_of_parent?_eq_none {key : Key} (h : parent? key = none) {a : Key} :
  isWithin key a = true ↔ key = a
  := by
  rw [isWithin_iff, or_iff_left_iff_imp]
  rintro ⟨rest, hrest⟩
  exfalso
  rw [parent?_eq_none_iff, hrest] at h
  apply h
  simp

/-- A key lies within itself and within what its parent lies within. -/
theorem isWithin_of_parent? {key p : Key} (h : parent? key = some p) {a : Key} :
  isWithin key a = true ↔ key = a ∨ isWithin p a = true
  := by
  have hkey := toList_of_parent? h
  rw [isWithin_iff, isWithin_iff]
  apply or_congr_right
  constructor
  · rintro ⟨rest, hrest⟩
    cases hdivide : divide? rest with
    | none =>
      left
      have hparent := parent?_of_toList hrest (divide?_eq_none_iff.mp hdivide)
      rw [h] at hparent
      exact Option.some.inj hparent
    | some parts =>
      obtain ⟨front, back⟩ := parts
      obtain ⟨rfl, hback⟩ := divide?_eq_some hdivide
      right
      use front
      have hlist : key.toList
          = (String.ofList (a.toList ++ '.' :: front)).toList ++ '.' :: back := by
        rw [hrest, String.toList_ofList]
        simp
      have hparent := parent?_of_toList hlist hback
      rw [h] at hparent
      rw [Option.some.inj hparent, String.toList_ofList]
  · rintro (rfl | ⟨rest, hrest⟩)
    · use (leaf key).toList
    · use rest ++ '.' :: (leaf key).toList
      rw [hkey, hrest]
      simp

theorem isWithin_trans {a b c : Key} (hab : isWithin a b = true) (hbc : isWithin b c = true) :
  isWithin a c = true
  := by
  induction a using inductionOn with
  | top a ha =>
    rw [(isWithin_of_parent?_eq_none ha).mp hab]
    exact hbc
  | below a p ha ih =>
    rcases (isWithin_of_parent? ha).mp hab with rfl | hp
    · exact hbc
    · apply (isWithin_of_parent? ha).mpr
      right
      apply ih hp

theorem isWithin_parent? {key p : Key} (h : parent? key = some p) :
  isWithin key p = true
  := by
  apply (isWithin_of_parent? h).mpr
  right
  apply isWithin_refl

/-- A key that lies within another one has a parent. -/
theorem parent?_of_isWithin {key a : Key} (h : isWithin key a = true) (hne : key ≠ a) :
  parent? key = some (parent key)
  := by
  rw [parent]
  cases hparent : parent? key with
  | none => apply absurd ((isWithin_of_parent?_eq_none hparent).mp h) hne
  | some p => rfl

/-- The parent of a key lies within what the key lies within, unless that is the key itself. -/
theorem isWithin_parent {key a : Key} (h : isWithin key a = true) (hne : key ≠ a) :
  isWithin (parent key) a = true
  := ((isWithin_of_parent? (parent?_of_isWithin h hne)).mp h).resolve_left hne

theorem isWithin_antisymm {a b : Key} (hab : isWithin a b = true) (hba : isWithin b a = true) :
  a = b
  := by
  by_contra hne
  have hlt := length_lt_of_isWithin hab hne
  have hlt' := length_lt_of_isWithin hba (Ne.symm hne)
  omega

/-- Of two keys that a key lies within, the longer one lies within the other. -/
theorem isWithin_of_length_le {key a b : Key} (ha : isWithin key a = true)
    (hb : isWithin key b = true) (hle : a.length ≤ b.length) :
  isWithin b a = true
  := by
  induction key using inductionOn with
  | top key hkey =>
    rw [isWithin_of_parent?_eq_none hkey] at hb
    rwa [← hb]
  | below key p hkey ih =>
    rcases (isWithin_of_parent? hkey).mp hb with rfl | hpb
    · exact ha
    · rcases (isWithin_of_parent? hkey).mp ha with rfl | hpa
      · exfalso
        have hlt := length_lt_of_parent? hkey
        have hle' := (prefix_of_isWithin hpb).length_le
        rw [String.length_toList, String.length_toList] at hle'
        omega
      · apply ih hpa hpb

/-- Two keys that a key lies within are the same if they have the same parent. -/
theorem eq_of_parent?_eq {key a b p : Key} (ha : isWithin key a = true)
    (hb : isWithin key b = true) (hap : parent? a = some p) (hbp : parent? b = some p) :
  a = b
  := by
  have hle {a b : Key} (ha : isWithin key a = true) (hb : isWithin key b = true)
      (hap : parent? a = some p) (hbp : parent? b = some p) (hle : a.length ≤ b.length) :
      a = b := by
    rcases (isWithin_of_parent? hbp).mp (isWithin_of_length_le ha hb hle) with rfl | hwithin
    · rfl
    · exfalso
      have hlt := length_lt_of_parent? hap
      rw [isWithin_antisymm hwithin (isWithin_parent? hap)] at hlt
      omega
  rcases Nat.le_total a.length b.length with h | h
  · apply hle ha hb hap hbp h
  · exact (hle hb ha hbp hap h).symm

/-! ### Prefixes -/

theorem dottedInits_of_dot_notMem {cs : List Char} (h : '.' ∉ cs) :
  dottedInits cs = [cs]
  := by
  induction cs with
  | nil => rfl
  | cons c cs ih =>
    rw [List.mem_cons, not_or] at h
    rw [dottedInits, ih h.2, if_neg (Ne.symm h.1)]
    rfl

/-- What a list has before a dot has its initial segments first among those of the list. -/
theorem dottedInits_append (front rest : List Char) :
  dottedInits (front ++ '.' :: rest)
    = dottedInits front ++ (dottedInits rest).map fun cs => front ++ '.' :: cs
  := by
  induction front with
  | nil => simp [dottedInits]
  | cons c front ih =>
    rw [List.cons_append, dottedInits, ih, dottedInits, List.map_append, List.map_map]
    by_cases hc : c = '.'
    · simp [hc, Function.comp_def]
    · simp [hc, Function.comp_def]

theorem prefixes_of_parent?_eq_none {key : Key} (h : parent? key = none) :
  prefixes key = [key]
  := by
  rw [parent?_eq_none_iff] at h
  rw [prefixes, dottedInits_of_dot_notMem h, List.map_singleton, String.ofList_toList]

/-- The prefixes of a key are those of its parent and the key. -/
theorem prefixes_of_parent? {key p : Key} (h : parent? key = some p) :
  prefixes key = prefixes p ++ [key]
  := by
  have hkey := toList_of_parent? h
  rw [prefixes, hkey, dottedInits_append, dottedInits_of_dot_notMem (dot_notMem_leaf key),
    List.map_singleton, ← hkey, List.map_append, List.map_singleton, String.ofList_toList]
  rfl

/-- The prefixes of a key are the keys that it lies within. -/
theorem mem_prefixes_iff {key p : Key} :
  p ∈ prefixes key ↔ isWithin key p = true
  := by
  induction key using inductionOn with
  | top key h =>
    rw [prefixes_of_parent?_eq_none h, isWithin_of_parent?_eq_none h, List.mem_singleton, eq_comm]
  | below key q h ih =>
    rw [prefixes_of_parent? h, isWithin_of_parent? h, List.mem_append, List.mem_singleton, ih,
      or_comm, eq_comm]

/-- The keys that lead from the first key down to the last, one segment at a time. -/
inductive Descends : Key → List Key → Key → Prop where
  | done (key : Key) : Descends key [] key
  | step {a b p : Key} {keys : List Key} (h : parent? p = some a) (rest : Descends p keys b) :
    Descends a (p :: keys) b

theorem Descends.concat {a b p : Key} {keys : List Key} (h : Descends a keys p)
    (hb : parent? b = some p) :
  Descends a (keys ++ [b]) b
  := by
  induction h with
  | done p => apply Descends.step hb (Descends.done b)
  | step hp _ ih => apply Descends.step hp (ih hb)

theorem Descends.isWithin {a b : Key} {keys : List Key} (h : Descends a keys b) :
  isWithin b a = true
  := by
  induction h with
  | done key => apply isWithin_refl
  | step hp _ ih => apply isWithin_trans ih (isWithin_parent? hp)

/-- The prefixes of a key that are longer than one of them lead from it down to the key. -/
theorem descends_prefixes {key a : Key} (h : Key.isWithin key a = true) :
  Descends a ((prefixes key).filter fun p => a.length < p.length) key
  := by
  have hself (key : Key) : (prefixes key).filter (fun p => key.length < p.length) = [] := by
    rw [List.filter_eq_nil_iff]
    intro p hp
    have hle := (prefix_of_mem_prefixes hp).length_le
    rw [String.length_toList, String.length_toList] at hle
    simpa using hle
  induction key using inductionOn with
  | top key hkey =>
    rw [isWithin_of_parent?_eq_none hkey] at h
    rw [← h, hself]
    apply Descends.done
  | below key p hkey ih =>
    rcases (isWithin_of_parent? hkey).mp h with rfl | hp
    · rw [hself]
      apply Descends.done
    · have hlt : a.length < key.length := by
        have hle := (prefix_of_isWithin hp).length_le
        rw [String.length_toList, String.length_toList] at hle
        have hlt := length_lt_of_parent? hkey
        omega
      rw [prefixes_of_parent? hkey, List.filter_append, List.filter_cons_of_pos (by simpa using hlt),
        List.filter_nil]
      apply (ih hp).concat hkey

/-- A key is put together again from its parent and its last segment, unless the parent is empty.
-/
theorem child_leaf {key p : Key} (h : parent? key = some p) (hp : p ≠ "") :
  child p (leaf key) = key
  := by
  rw [child, if_neg hp]
  apply String.ext
  rw [toList_of_parent? h]
  simp

/-! ### Rebasing -/

/-- What a key has behind the old key is put behind the new one. -/
theorem rebase?_of_toList {key old : Key} {rest : List Char} (hrest : Trails rest)
    (h : key.toList = old.toList ++ rest) (new : Key) :
  rebase? key old new = some (new ++ String.ofList rest)
  := by
  rw [rebase?]
  cases rest with
  | nil => rw [if_pos (eq_of_toList_append_nil h), String.ofList_nil, String.append_empty]
  | cons c rest =>
    obtain rfl : c = '.' := hrest
    rw [if_neg (ne_of_toList_append_cons h), h, after?_append]
    rfl

theorem rebase_of_toList {key old : Key} {rest : List Char} (hrest : Trails rest)
    (h : key.toList = old.toList ++ rest) (new : Key) :
  rebase old new key = new ++ String.ofList rest
  := by
  rw [rebase, rebase?_of_toList hrest h, Option.getD_some]

theorem toList_rebase {key old : Key} {rest : List Char} (hrest : Trails rest)
    (h : key.toList = old.toList ++ rest) (new : Key) :
  (rebase old new key).toList = new.toList ++ rest
  := by
  rw [rebase_of_toList hrest h, String.toList_append, String.toList_ofList]

/-- The keys that can be rebased are those that lie within the old key. -/
theorem rebase?_eq_some_iff {key old new moved : Key} :
  rebase? key old new = some moved ↔ isWithin key old = true ∧ rebase old new key = moved
  := by
  constructor
  · intro h
    have hwithin : isWithin key old = true := by
      rw [isWithin_iff_trails]
      rw [rebase?] at h
      split at h
      · next heq => exact ⟨[], trivial, by rw [heq, List.append_nil]⟩
      · split at h
        · next rest hafter => exact ⟨'.' :: rest, rfl, after?_eq_some hafter⟩
        · cases h
    exact ⟨hwithin, by rw [rebase, h, Option.getD_some]⟩
  · rintro ⟨hwithin, rfl⟩
    obtain ⟨rest, hrest, hkey⟩ := isWithin_iff_trails.mp hwithin
    rw [rebase_of_toList hrest hkey, rebase?_of_toList hrest hkey]

theorem rebase_of_not_isWithin {old new key : Key} (h : ¬ isWithin key old = true) :
  rebase old new key = key
  := by
  cases hmoved : rebase? key old new with
  | none => rw [rebase, hmoved, Option.getD_none]
  | some moved => exact absurd (rebase?_eq_some_iff.mp hmoved).1 h

theorem rebase_self (old new : Key) :
  rebase old new old = new
  := by
  rw [rebase, rebase?, if_pos rfl, Option.getD_some]

/-- Nothing is rebased from a key to itself. -/
theorem rebase_same (old : Key) :
  rebase old old = id
  := by
  funext key
  by_cases h : isWithin key old = true
  · obtain ⟨rest, hrest, hkey⟩ := isWithin_iff_trails.mp h
    apply String.ext
    rw [toList_rebase hrest hkey, id, hkey]
  · apply rebase_of_not_isWithin h

/-- A key that is rebased to `b` goes on from there as from where it was. -/
theorem rebase?_rebase? {a b key moved : Key} (h : rebase? key a b = some moved) (c : Key) :
  rebase? moved b c = rebase? key a c
  := by
  obtain ⟨hwithin, rfl⟩ := rebase?_eq_some_iff.mp h
  obtain ⟨rest, hrest, hkey⟩ := isWithin_iff_trails.mp hwithin
  rw [rebase?_of_toList hrest (toList_rebase hrest hkey b), rebase?_of_toList hrest hkey]

/-- A key that does not lie within `b` is rebased to `b` and on from there as if at once. -/
theorem rebase_rebase {a b c key : Key} (h : ¬ isWithin key b = true) :
  rebase b c (rebase a b key) = rebase a c key
  := by
  by_cases ha : isWithin key a = true
  · obtain ⟨rest, hrest, hkey⟩ := isWithin_iff_trails.mp ha
    rw [rebase_of_toList hrest (toList_rebase hrest hkey b), rebase_of_toList hrest hkey]
  · rw [rebase_of_not_isWithin ha, rebase_of_not_isWithin ha, rebase_of_not_isWithin h]

/-- A key that is not the old one is rebased with its parent. -/
theorem rebase_of_parent? {old new key p : Key} (h : parent? key = some p)
    (hp : isWithin p old = true) :
  rebase old new key = rebase old new p ++ "." ++ leaf key
  := by
  obtain ⟨rest, hrest, hold⟩ := isWithin_iff_trails.mp hp
  have hlonger : Trails (rest ++ '.' :: (leaf key).toList) := by
    cases rest with
    | nil => rfl
    | cons c rest => exact hrest
  have hkey : key.toList = old.toList ++ (rest ++ '.' :: (leaf key).toList) := by
    rw [toList_of_parent? h, hold, List.append_assoc]
  rw [rebase_of_toList hlonger hkey, rebase_of_toList hrest hold]
  apply String.ext
  simp

/-- A key that is rebased lies within the new key. -/
theorem isWithin_rebase {old new key : Key} (h : isWithin key old = true) :
  isWithin (rebase old new key) new = true
  := by
  obtain ⟨rest, hrest, hkey⟩ := isWithin_iff_trails.mp h
  exact isWithin_iff_trails.mpr ⟨rest, hrest, toList_rebase hrest hkey new⟩

/-- Different keys within a key are rebased to different keys. -/
theorem eq_of_rebase_eq {old new a b : Key} (ha : isWithin a old = true)
    (hb : isWithin b old = true) (h : rebase old new a = rebase old new b) :
  a = b
  := by
  obtain ⟨front, hfront, ha⟩ := isWithin_iff_trails.mp ha
  obtain ⟨back, hback, hb⟩ := isWithin_iff_trails.mp hb
  rw [rebase_of_toList hfront ha, rebase_of_toList hback hb] at h
  have hlist := congrArg String.toList h
  simp only [String.toList_append, String.toList_ofList, List.append_cancel_left_eq] at hlist
  apply String.ext
  rw [ha, hb, hlist]

theorem rebase_ne_empty {old new key : Key} (hnew : new ≠ "") (h : isWithin key old = true) :
  rebase old new key ≠ ""
  := by
  intro hempty
  apply hnew
  have hwithin : isWithin (rebase old new key) new = true := isWithin_rebase h
  have hle := (prefix_of_isWithin hwithin).length_le
  rw [hempty] at hle
  simpa using hle

/-- What is rebased from one child of a key to another does not lie within the first. -/
theorem not_isWithin_rebase {old new p : Key} (hold : parent? old = some p)
    (hnew : parent? new = some p) (hne : old ≠ new) (key : Key) :
  ¬ isWithin (rebase old new key) old = true
  := by
  by_cases hkey : isWithin key old = true
  · intro h
    apply hne
    apply eq_of_parent?_eq h (isWithin_rebase hkey) hold hnew
  · rw [rebase_of_not_isWithin hkey]
    exact hkey

end Key

end Questionnaire
