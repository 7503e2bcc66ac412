import Mathlib.Data.List.Basic
import Questionnaire.Files.Basic

/-!
# Parts of paths

The names in a path, but for the single dots, are its parts.  With what the path starts from, the
parts are its components, and paths with the same components are the same path, whatever slashes
and dots they are written with.

* Behind a directory, a relative path adds its names (`names_join`), and so its parts
  (`components_join`).
* A text without a slash is one name (`names_of_notMem`), and with an extension it is that of a file
  (`isName_append`).
-/

namespace Questionnaire

namespace Path

/-- The names in a path that lead somewhere, which are all but the single dots. -/
def parts (p : Path) : List String := (names p).filter (· ≠ ".")

/-- What a path starts from: the top if it is absolute, and otherwise the directory that it is seen
from, which a dot in front of all other names stands for. -/
def start (p : Path) : List String :=
  if isAbsolute p then ["/"] else if (names p).head? = some "." then ["."] else []

/-- The components of a path. -/
def components (p : Path) : List String := start p ++ parts p

/-! ### Absolute paths -/

variable {p left right : Path}

theorem isAbsolute_iff :
  isAbsolute p = true ↔ p.toList.head? = some '/'
  := by
  rw [isAbsolute, String.front?_eq, beq_iff_eq]

theorem join_of_isAbsolute (h : isAbsolute right = true) :
  join left right = right
  := if_pos h

/-- A path that starts with a slash has one in it. -/
theorem not_isAbsolute_of_notMem (h : '/' ∉ p.toList) :
  isAbsolute p = false
  := by
  rw [Bool.eq_false_iff, ne_eq, isAbsolute_iff]
  intro hhead
  apply h (List.mem_of_mem_head? hhead)

/-- A path that ends open is empty or ends with a slash. -/
theorem endsOpen_cases (h : endsOpen p = true) :
  p = "" ∨ ∃ q : Path, p = q ++ "/"
  := by
  rw [endsOpen] at h
  rcases hlast : p.toList.getLast? with _ | c
  · left
    rw [List.getLast?_eq_none_iff] at hlast
    rwa [← String.toList_inj]
  · right
    rw [hlast] at h
    obtain rfl : c = '/' := beq_iff_eq.mp h
    obtain ⟨cs, hcs⟩ := List.getLast?_eq_some_iff.mp hlast
    use String.ofList cs
    rw [← String.toList_inj, hcs, String.toList_append, String.toList_ofList]
    rfl

/-- A relative path stands behind the directory, with one slash in between at least, unless the
directory is empty. -/
theorem join_cases (left : Path) (h : isAbsolute right = false) :
  left = "" ∧ join left right = right
    ∨ left ≠ "" ∧ ∃ front : Path, (left = front ∨ left = front ++ "/")
      ∧ join left right = front ++ "/" ++ right
  := by
  rw [join, h]
  rcases hopen : endsOpen left with _ | _
  · right
    refine ⟨?_, left, Or.inl rfl, rfl⟩
    rintro rfl
    exact absurd hopen (by decide)
  · obtain rfl | ⟨front, rfl⟩ := endsOpen_cases hopen
    · left
      exact ⟨rfl, String.empty_append⟩
    · right
      refine ⟨?_, front, Or.inr rfl, rfl⟩
      intro hempty
      exact absurd (String.append_eq_empty_iff.mp hempty).2 (by decide)

/-! ### Names -/

theorem names_append (front back : Path) :
  names (front ++ "/" ++ back) = names front ++ names back
  := by
  have hsplit : (front ++ "/" ++ back).toList = front.toList ++ '/' :: back.toList := by
    rw [String.toList_append, String.toList_append, List.append_assoc]
    rfl
  rw [names, hsplit, List.splitOn_append_cons_self, List.map_append, List.filter_append]
  rfl

theorem names_empty :
  names "" = []
  := by decide

/-- A text without a slash is one name. -/
theorem names_of_notMem (h : '/' ∉ p.toList) (hp : p ≠ "") :
  names p = [p]
  := by
  rw [names, List.splitOn_eq_singleton h, List.map_singleton, String.ofList_toList]
  exact List.filter_cons_of_pos (by simpa using hp)

/-- A relative path adds its names to those of the directory. -/
theorem names_join (h : isAbsolute right = false) :
  names (join left right) = names left ++ names right
  := by
  obtain ⟨rfl, hjoin⟩ | ⟨-, front, hfront, hjoin⟩ := join_cases left h
  · rw [hjoin, names_empty, List.nil_append]
  · have hnames : names left = names front := by
      obtain rfl | rfl := hfront
      · rfl
      · rw [← String.append_empty (s := front ++ "/"), names_append, names_empty, List.append_nil]
    rw [hjoin, names_append, hnames]

/-- A relative path that is not empty has a name. -/
theorem names_ne_nil (h : isAbsolute p = false) (hp : p ≠ "") :
  names p ≠ []
  := by
  rcases hchars : p.toList with _ | ⟨c, cs⟩
  · exfalso
    apply hp
    rwa [← String.toList_inj]
  · have hc : c ≠ '/' := by
      rintro rfl
      rw [Bool.eq_false_iff] at h
      apply h
      rw [isAbsolute_iff, hchars, List.head?_cons]
    obtain ⟨word, words, hwords⟩ := List.exists_cons_of_ne_nil (List.splitOn_ne_nil '/' cs)
    rw [names, hchars, List.splitOn_cons_eq_if_modifyHead, hwords, if_neg (by simpa using hc),
      List.modifyHead_cons, List.map_cons, List.filter_cons_of_pos (by simp)]
    apply List.cons_ne_nil

/-! ### Components -/

theorem parts_join (h : isAbsolute right = false) :
  parts (join left right) = parts left ++ parts right
  := by
  rw [parts, names_join h, List.filter_append]
  rfl

theorem isAbsolute_join (h : isAbsolute right = false) :
  isAbsolute (join left right) = isAbsolute left
  := by
  obtain ⟨rfl, hjoin⟩ | ⟨hleft, front, hfront, hjoin⟩ := join_cases left h
  · rw [hjoin, h]
    decide
  · rw [Bool.eq_iff_iff, isAbsolute_iff, isAbsolute_iff, hjoin]
    obtain rfl | rfl := hfront
    · rcases hchars : left.toList with _ | ⟨c, cs⟩
      · exfalso
        apply hleft
        rwa [← String.toList_inj]
      · simp [hchars]
    · rcases hchars : front.toList with _ | ⟨c, cs⟩
      · simp [hchars]
      · simp [hchars]

/-- Different texts give different paths in a relative directory. -/
theorem join_injective (hleft : isAbsolute left = false) :
  Function.Injective (join left)
  := by
  intro right right' heq
  have habsolute (right : Path) : isAbsolute (join left right) = isAbsolute right := by
    cases hright : isAbsolute right with
    | false => rw [isAbsolute_join hright, hleft]
    | true => rw [join_of_isAbsolute hright, hright]
  have hsame : isAbsolute right = isAbsolute right' := by
    rw [← habsolute right, heq, habsolute right']
  rw [join, join, ← hsame] at heq
  split at heq
  · exact heq
  · split at heq
    · exact (String.append_right_inj left).mp heq
    · exact (String.append_right_inj (left ++ "/")).mp heq

/-- A relative path starts where the directory starts. -/
theorem start_join (h : isAbsolute right = false) (hleft : left ≠ "") :
  start (join left right) = start left
  := by
  rw [start, start, isAbsolute_join h, names_join h]
  rcases habsolute : isAbsolute left with _ | _
  · rw [List.head?_append_of_ne_nil _ (names_ne_nil habsolute hleft)]
  · rfl

/-- A relative path adds its parts to the components of the directory. -/
theorem components_join (h : isAbsolute right = false) (hleft : left ≠ "") :
  components (join left right) = components left ++ parts right
  := by
  rw [components, components, start_join h hleft, parts_join h, List.append_assoc]

/-- The components of an absolute path. -/
theorem components_of_isAbsolute (h : isAbsolute p = true) :
  components p = "/" :: parts p
  := by
  rw [components, start, if_pos h]
  rfl

/-- The components of a relative path that does not start with a dot. -/
theorem components_of_head?_ne (h : isAbsolute p = false) (hdot : (names p).head? ≠ some ".") :
  components p = parts p
  := by
  rw [components, start, h, if_neg Bool.false_ne_true, if_neg hdot]
  rfl

/-- A relative path that does not start with a dot adds its components to those of any
directory. -/
theorem components_join_of_head?_ne (left : Path) (h : isAbsolute right = false)
    (hdot : (names right).head? ≠ some ".") :
  components (join left right) = components left ++ components right
  := by
  rw [components_of_head?_ne h hdot]
  by_cases hleft : left = ""
  · subst hleft
    obtain ⟨-, hjoin⟩ | ⟨hne, -⟩ := join_cases "" h
    · rw [hjoin, components_of_head?_ne h hdot]
      have hempty : components "" = [] := by decide
      rw [hempty, List.nil_append]
    · exact absurd rfl hne
  · exact components_join h hleft

/-! ### Single names -/

/-- The text is a single name, which stands neither for the directory that it is seen from nor for
the one above. -/
structure IsName (name : String) : Prop where
  slash_notMem : '/' ∉ name.toList
  ne_empty : name ≠ ""
  ne_dot : name ≠ "."
  ne_dots : name ≠ ".."

namespace IsName

variable {name : String} (h : IsName name)

include h

theorem isAbsolute_eq :
  isAbsolute name = false
  := not_isAbsolute_of_notMem h.slash_notMem

theorem names_eq :
  names name = [name]
  := names_of_notMem h.slash_notMem h.ne_empty

theorem parts_eq :
  parts name = [name]
  := by
  rw [parts, h.names_eq]
  exact List.filter_cons_of_pos (by simpa using h.ne_dot)

theorem head?_names_ne :
  (names name).head? ≠ some "."
  := by
  rw [h.names_eq, List.head?_cons]
  intro hdot
  apply h.ne_dot (Option.some.inj hdot)

theorem components_eq :
  components name = [name]
  := by
  rw [components_of_head?_ne h.isAbsolute_eq h.head?_names_ne, h.parts_eq]

theorem head?_names_join_ne {path : Path} (hpath : isAbsolute path = false) :
  (names (join name path)).head? ≠ some "."
  := by
  rw [names_join hpath, h.names_eq, List.singleton_append, List.head?_cons]
  intro hdot
  apply h.ne_dot (Option.some.inj hdot)

/-- The components of a path that is seen from a directory with a single name. -/
theorem components_join_eq (path : Path) :
  components (join name path) = (if isAbsolute path then "/" else name) :: parts path
  := by
  rcases hpath : isAbsolute path with _ | _
  · rw [components_join hpath h.ne_empty, h.components_eq]
    rfl
  · rw [join_of_isAbsolute hpath, components_of_isAbsolute hpath]
    rfl

end IsName

/-- A text without a slash is a single name with an extension. -/
theorem isName_append {base : String} (h : '/' ∉ base.toList) :
  IsName (base ++ ".json")
  := by
  have hlast : (base ++ ".json").toList.getLast? = some 'n' := by
    rw [String.toList_append, List.getLast?_append]
    rfl
  have hne {name : String} (hname : name.toList.getLast? ≠ some 'n') : base ++ ".json" ≠ name := by
    rintro rfl
    apply hname hlast
  constructor
  · rw [String.toList_append, List.mem_append]
    rintro (hbase | hextension)
    · apply h hbase
    · exact absurd hextension (by decide)
  · apply hne (by decide)
  · apply hne (by decide)
  · apply hne (by decide)

end Path

end Questionnaire
