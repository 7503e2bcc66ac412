import Questionnaire.Component.Basic
import Questionnaire.Edit.Error

/-!
# Adding components

A component is added below a group.  Among the children of a group no key may come twice; children
without a key do not count.  A group inside another is addressed by the keys that lead to it.
-/

namespace Questionnaire

namespace Component

/-- The component of a role and a key, a group without children or no group. -/
def create (role : String) (key : Option Key) (isGroup : Bool) : Component :=
  if isGroup then group role key else leaf role key

/-- Whether a child of the component has the key. -/
def hasChild (c : Component) (key : Key) : Bool := (c.child? key).isSome

/-- The component with `child` among its children, at the given position or at the end. -/
def insertChild (c : Component) (child : Component) (position : Option Nat) :
    Except EditError Component :=
  match c.items with
  | none => .error (.componentNotAGroup c.label)
  | some items =>
    let inserted := { c with items := some (insertAt position child items) }
    match child.key? with
    | none => .ok inserted
    | some key =>
      if c.hasChild key then .error (.duplicateComponentKey c.label key) else .ok inserted

/-! ### Free numbers -/

/-- Whether a component has a key whose digits stand for `n` or a greater number. -/
def isNumberedFrom (n : Nat) (c : Component) : Bool :=
  c.key?.any fun key => n ≤ Nat.ofDigitChars 10 key.toList 0

theorem isNumberedFrom_of_key? {c : Component} {m : Nat} (h : c.key? = some m.repr) (n : Nat) :
  c.isNumberedFrom n = decide (n ≤ m)
  := by
  rw [isNumberedFrom, h, Option.any_some, Nat.toList_repr, Nat.ofDigitChars_ten_toDigits]

theorem isNumberedFrom_of_succ {c : Component} {n : Nat} (h : c.isNumberedFrom (n + 1) = true) :
  c.isNumberedFrom n = true
  := by
  rw [isNumberedFrom] at h ⊢
  cases hkey : c.key? with
  | none =>
    rw [hkey] at h
    cases h
  | some key =>
    rw [hkey, Option.any_some, decide_eq_true_eq] at h
    rw [Option.any_some, decide_eq_true_eq]
    exact Nat.le_of_succ_le h

/-- Behind a number that is the key of a child, fewer children are numbered than from it on. -/
theorem countP_isNumberedFrom_lt {c : Component} {n : Nat} (h : c.hasChild n.repr = true) :
  c.children.countP (isNumberedFrom (n + 1)) < c.children.countP (isNumberedFrom n)
  := by
  obtain ⟨d, hd⟩ := Option.isSome_iff_exists.mp h
  obtain ⟨before, after, hsplit⟩ := List.append_of_mem (List.mem_of_find?_eq_some hd)
  have hkey : d.key? = some n.repr := by simpa using List.find?_some hd
  have hle (cs : List Component) :
      cs.countP (isNumberedFrom (n + 1)) ≤ cs.countP (isNumberedFrom n) :=
    List.countP_mono_left fun _ _ => isNumberedFrom_of_succ
  have hbefore := hle before
  have hafter := hle after
  rw [hsplit, List.countP_append, List.countP_append, List.countP_cons, List.countP_cons,
    isNumberedFrom_of_key? hkey, isNumberedFrom_of_key? hkey, if_neg (by simp), if_pos (by simp)]
  omega

/-- The least number from `n` on that is not the key of a child.  Each number that is one leaves
fewer children to meet, so the search ends. -/
def freeKeyFrom (c : Component) (n : Nat) : Key :=
  if h : c.hasChild n.repr = true then c.freeKeyFrom (n + 1) else n.repr
termination_by c.children.countP (isNumberedFrom n)
decreasing_by exact countP_isNumberedFrom_lt h

/-- The least number that is not the key of a child. -/
def freeKey (c : Component) : Key := c.freeKeyFrom 0

/-! ### Groups at a path -/

/-- The component that the keys lead to from `c`. -/
def descendant? : List Key → Component → Option Component
  | [], c => some c
  | key :: path, c => (c.child? key).bind (descendant? path)

/-- The component with the one that the keys lead to replaced. -/
def replaceDescendant (new : Component) : List Key → Component → Component
  | [], _ => new
  | key :: path, c => c.modifyChild key (replaceDescendant new path)

/-- The group at a dotted path, or the component itself without a path. -/
def groupAt (c : Component) (path : Option Key) : Except EditError Component :=
  match path with
  | none => if c.isGroup then .ok c else .error (.componentNotAGroup "root")
  | some path =>
    match descendant? (Key.segments path) c with
    | none => .error (.componentNotFound path)
    | some group => if group.isGroup then .ok group else .error (.componentNotAGroup path)

/-- The component with `child` added to the group at a path. -/
def insertAtPath (c : Component) (child : Component) (path : Option Key)
    (position : Option Nat) : Except EditError Component := do
  let group ← c.groupAt path
  let group ← group.insertChild child position
  return replaceDescendant group ((path.map Key.segments).getD []) c

/-- The component `c` with `title` in place of its title, or in front of its other children if it
has none. -/
def setTitle (c title : Component) : Component :=
  let items := c.children
  let isTitle := fun d : Component => d.role == "title"
  { c with
    items := some (if items.any isTitle then modifyFirst isTitle (fun _ => title) items
      else title :: items) }

end Component

end Questionnaire
