import Mathlib
import Questionnaire.Proofs.Item.Serve

/-!
# Components that are given a number

A new component without a key gets the least number that no component beside it has as its key.
Among the numbers up to that of the children there is one, since different numbers are written
differently (`isLeast_le_length`).  As the number is free, the group does not refuse the component,
whatever keys its children have (`serve_addNewResponse_of_groupAt`).
-/

namespace Questionnaire

namespace Component

variable {c d group grown child old new : Component} {path : List Key}

/-! ### The least free number -/

/-- The numbers that are not the key of a child. -/
def freeNumbers (c : Component) : Set Nat := {n | n.repr ∉ keysOf c.children}

theorem mem_freeNumbers {n : Nat} :
  n ∈ c.freeNumbers ↔ ¬c.hasChild n.repr = true
  := by
  rw [hasChild_iff]
  rfl

/-- The search finds the least free number from the one on at which it starts. -/
theorem exists_freeKeyFrom_eq (c : Component) (n : Nat) :
  ∃ m, c.freeKeyFrom n = m.repr ∧ IsLeast {k | n ≤ k ∧ k ∈ c.freeNumbers} m
  := by
  fun_induction freeKeyFrom c n with
  | case1 n htaken ih =>
    obtain ⟨m, hm, ⟨hle, hfree⟩, hleast⟩ := ih
    refine ⟨m, hm, ⟨Nat.le_of_succ_le hle, hfree⟩, ?_⟩
    rintro k ⟨hk, hkfree⟩
    have hne : n ≠ k := by
      rintro rfl
      exact mem_freeNumbers.mp hkfree htaken
    exact hleast ⟨Nat.lt_of_le_of_ne hk hne, hkfree⟩
  | case2 n hfree =>
    refine ⟨n, rfl, ⟨Nat.le_refl n, mem_freeNumbers.mpr hfree⟩, ?_⟩
    rintro k ⟨hk, -⟩
    exact hk

theorem exists_freeKey_eq (c : Component) :
  ∃ n, c.freeKey = n.repr ∧ IsLeast c.freeNumbers n
  := by
  obtain ⟨n, hn, ⟨-, hfree⟩, hleast⟩ := c.exists_freeKeyFrom_eq 0
  exact ⟨n, hn, hfree, fun m hm => hleast ⟨Nat.zero_le m, hm⟩⟩

/-- The numbers below the least free one are the keys of as many children. -/
theorem isLeast_le_length {n : Nat} (h : IsLeast c.freeNumbers n) :
  n ≤ c.children.length
  := by
  have hnodup : ((List.range n).map Nat.repr).Nodup := by
    apply List.nodup_range.map
    intro i j
    apply Nat.repr_injective
  have htaken : (List.range n).map Nat.repr ⊆ keysOf c.children := by
    intro key hkey
    obtain ⟨m, hm, rfl⟩ := List.mem_map.mp hkey
    by_contra hfree
    exact absurd (h.2 hfree) (Nat.not_le_of_lt (List.mem_range.mp hm))
  calc n = ((List.range n).map Nat.repr).length := by rw [List.length_map, List.length_range]
    _ ≤ (keysOf c.children).length := (hnodup.subperm htaken).length_le
    _ ≤ c.children.length := List.length_filterMap_le ..

/-! ### Groups that change in their place -/

theorem child?_modifyChild {key : Key} {f : Component → Component} (hd : c.child? key = some d)
    (hkey : (f d).key? = some key) :
  (c.modifyChild key f).child? key = some (f d)
  := by
  obtain ⟨head, _ | items⟩ := c
  · cases hd
  · exact find?_modifyFirst hd (beq_iff_eq.mpr hkey)

theorem key?_replaceDescendant (hkey : new.key? = old.key?)
    (hpath : c.descendant? path = some old) :
  (replaceDescendant new path c).key? = c.key?
  := by
  cases path with
  | nil =>
    cases hpath
    exact hkey
  | cons key path => rfl

/-- The path that led to a component leads to the one that takes its place under its key. -/
theorem descendant?_replaceDescendant (hkey : new.key? = old.key?)
    (hpath : c.descendant? path = some old) :
  (replaceDescendant new path c).descendant? path = some new
  := by
  induction path generalizing c with
  | nil => rfl
  | cons key path ih =>
    obtain ⟨d, hd, hrest⟩ := Option.bind_eq_some_iff.mp hpath
    have hdkey : d.key? = some key := by simpa using List.find?_some hd
    rw [replaceDescendant, descendant?, child?_modifyChild hd, Option.bind_some, ih hrest]
    rw [key?_replaceDescendant hkey hrest, hdkey]

/-- A group is found at its path after a change that leaves it a group with its key. -/
theorem groupAt_replaceDescendant {path : Option Key} (h : c.groupAt path = .ok group)
    (hkey : grown.key? = group.key?) (hgrown : grown.isGroup = true) :
  (replaceDescendant grown ((path.map Key.segments).getD []) c).groupAt path = .ok grown
  := by
  rw [groupAt_eq_ok_iff]
  exact ⟨descendant?_replaceDescendant hkey (descendant?_of_groupAt h), hgrown⟩

/-- A component is added to the group at a path if the group does not refuse it. -/
theorem insertAtPath_of_groupAt {path : Option Key} {position : Option Nat}
    (h : c.groupAt path = .ok group) (hgrown : group.insertChild child position = .ok grown) :
  c.insertAtPath child path position
    = .ok (replaceDescendant grown ((path.map Key.segments).getD []) c)
  := by
  rw [insertAtPath, h]
  change (group.insertChild child position).bind _ = _
  rw [hgrown]
  rfl

end Component

namespace Item

open Component (keysOf)

/-! ### New components without a key -/

/-- A new component that is no response group and has no key is added to every group, whatever the
keys in it: under the least free number, which is at most the number of children, and at the
position or behind all children, which stay in their order. -/
theorem serve_addNewResponse_of_groupAt {s : SingleItem} {path : Option Key} {group : Component}
    {role : String} (hrole : role ≠ "responseGroup")
    (hgroup : (s.components.getD .root).groupAt path = .ok group) (isGroup : Bool)
    (position : Option Nat) :
  ∃ n before after root, IsLeast {n : Nat | n.repr ∉ keysOf group.children} n
    ∧ n ≤ group.children.length
    ∧ (Component.create role (some n.repr) isGroup).key? = some n.repr
    ∧ group.items = some (before ++ after)
    ∧ before.length = min (position.getD group.children.length) group.children.length
    ∧ (Item.single s).serve (.addNewResponse role none isGroup path position)
      = (.ok (.component (.create role (some n.repr) isGroup)),
        .single { s with components := some root })
    ∧ root.groupAt path = .ok { group with
        items := some (before ++ .create role (some n.repr) isGroup :: after) }
  := by
  obtain ⟨n, hkey, hleast⟩ := group.exists_freeKey_eq
  obtain ⟨items, hitems⟩ := Option.isSome_iff_exists.mp (Component.groupAt_eq_ok_iff.mp hgroup).2
  have hchildren : group.children = items := by rw [Component.children, hitems, Option.getD_some]
  let new := Component.create role (some n.repr) isGroup
  have hnew : new.key? = some n.repr := by
    cases isGroup with
    | _ => rfl
  obtain ⟨before, after, hsplit, hlength, hinsert⟩ := exists_insertAt_eq position new items
  let grown := { group with items := some (before ++ new :: after) }
  have hgrown : group.insertChild new position = .ok grown := by
    rw [Component.insertChild_eq_ok_iff]
    refine ⟨items, hitems, ?_, by rw [hinsert]⟩
    rw [hnew]
    rintro _ ⟨⟩
    exact hleast.1
  have hgrownKey : grown.key? = group.key? := rfl
  refine ⟨n, before, after, _, hleast, Component.isLeast_le_length hleast, hnew, ?_, ?_, ?_,
    Component.groupAt_replaceDescendant hgroup hgrownKey rfl⟩
  · rw [hitems, hsplit]
  · rw [hchildren, hlength]
  · have hadd : (s.components.getD .root).insertAtPath (.create role (some n.repr) isGroup) path
        position = .ok _ := Component.insertAtPath_of_groupAt hgroup hgrown
    rw [serve_eq_editRoot rfl, editRoot, hgroup]
    simp only [Except.bind, if_neg hrole, Option.getD_none, hkey, hadd]
    rfl

/-- A question whose response group holds two numbered components, one with another key and one
without any. -/
def numbered : SingleItem where
  head := { key := "s.q" }
  components := some { Component.root with
    items := some [{ Component.group "responseGroup" (some "rg") with
      items := some [.leaf "input" (some "2"), .leaf "text" none, .leaf "input" (some "0"),
        .leaf "input" (some "01")] }] }

/-- The first number that is free in the response group is one. -/
theorem serve_addNewResponse_numbered :
  "input" ≠ "responseGroup"
    ∧ (∃ group, (numbered.components.getD .root).groupAt (some "rg") = .ok group)
    ∧ ((Item.single numbered).serve (.addNewResponse "input" none false (some "rg") (some 9))).1
      = .ok (.component (.leaf "input" (some "1")))
  := by
  have hrole : "input" ≠ "responseGroup" := by decide
  have hgroup : (numbered.components.getD .root).groupAt (some "rg") = .ok _ := rfl
  obtain ⟨n, before, after, root, ⟨hfree, hleast⟩, -, -, -, -, hserve, -⟩ :=
    serve_addNewResponse_of_groupAt hrole hgroup false (some 9)
  have hone : n = 1 := by
    apply Nat.le_antisymm (hleast _)
    · apply Nat.one_le_iff_ne_zero.mpr
      rintro rfl
      exact hfree (by decide)
    · show "1" ∉ _
      decide
  rw [hserve, hone]
  exact ⟨hrole, ⟨_, rfl⟩, rfl⟩

end Item

end Questionnaire
