import Questionnaire.Component.Edit
import Questionnaire.Proofs.Component.Format
import Questionnaire.Proofs.Position

/-!
# Component keys that address one component

A dotted path leads from a component to the first child with the first key of the path, and on from
there.  Where no two children of a component carry the same key there is no other child to go to
(`candidates_eq`).

Adding a component keeps keys apart, whatever the path and the position, since a key in use is
refused (`KeepsApart.insertAtPath`).  A new title is not compared with the components beside it:
the keys stay apart exactly when no other child has the key of the title (`nodup_setTitle_iff`).
-/

namespace Questionnaire

namespace Component

/-! ### Keys of siblings -/

/-- The keys of some components; those without a key do not count. -/
def keysOf (cs : List Component) : List Key := cs.filterMap key?

theorem mem_keysOf {cs : List Component} {key : Key} :
  key ∈ keysOf cs ↔ ∃ c ∈ cs, c.key? = some key
  := List.mem_filterMap

theorem keysOf_cons (c : Component) (cs : List Component) :
  keysOf (c :: cs) = c.key?.toList ++ keysOf cs
  := by
  rw [keysOf, List.filterMap_cons]
  cases c.key? with
  | none => rfl
  | some key => rfl

theorem nodup_keysOf_cons {c : Component} {cs : List Component} :
  (keysOf (c :: cs)).Nodup ↔ (∀ key ∈ c.key?, key ∉ keysOf cs) ∧ (keysOf cs).Nodup
  := by
  rw [keysOf_cons]
  cases c.key? with
  | none =>
    rw [Option.toList_none, List.nil_append]
    exact ⟨fun h => ⟨nofun, h⟩, And.right⟩
  | some key =>
    rw [Option.toList_some, List.singleton_append, List.nodup_cons]
    simp only [Option.mem_some_iff, forall_eq']

theorem hasChild_iff {c : Component} {key : Key} :
  c.hasChild key = true ↔ key ∈ keysOf c.children
  := by
  simp only [hasChild, child?, List.find?_isSome, beq_iff_eq, mem_keysOf]

/-! ### Distinct keys at every depth -/

mutual

/-- A component and the components inside it. -/
def subtree : Component → List Component
  | ⟨head, none⟩ => [⟨head, none⟩]
  | ⟨head, some items⟩ => ⟨head, some items⟩ :: subtreeOf items

/-- Some components and the components inside them. -/
def subtreeOf : List Component → List Component
  | [] => []
  | c :: rest => c.subtree ++ subtreeOf rest

end

theorem subtreeOf_eq (cs : List Component) :
  subtreeOf cs = cs.flatMap subtree
  := by
  induction cs with
  | nil => rfl
  | cons c cs ih => rw [subtreeOf, ih, List.flatMap_cons]

theorem subtree_eq (c : Component) :
  c.subtree = c :: c.children.flatMap subtree
  := by
  obtain ⟨head, _ | items⟩ := c
  · rfl
  · rw [subtree, subtreeOf_eq]
    rfl

/-- No component in `c`, `c` among them, has two children with the same key. -/
def DistinctKeys (c : Component) : Prop :=
  ∀ d ∈ c.subtree, (keysOf d.children).Nodup

/-- No component inside one of the children of `c` has two children with the same key. -/
def DistinctBelow (c : Component) : Prop :=
  ∀ d ∈ c.children, d.DistinctKeys

instance (c : Component) : Decidable c.DistinctKeys :=
  inferInstanceAs (Decidable (∀ d ∈ c.subtree, (keysOf d.children).Nodup))

theorem distinctKeys_iff {c : Component} :
  c.DistinctKeys ↔ (keysOf c.children).Nodup ∧ c.DistinctBelow
  := by
  rw [DistinctKeys, subtree_eq, List.forall_mem_cons]
  simp only [List.mem_flatMap, forall_exists_index, and_imp]
  exact and_congr_right fun _ => ⟨fun h d hd e he => h e d hd he, fun h e d hd he => h d hd e he⟩

theorem distinctKeys_of_children_eq_nil {c : Component} (h : c.children = []) :
  c.DistinctKeys
  := by
  rw [distinctKeys_iff, DistinctBelow, h]
  exact ⟨List.nodup_nil, nofun⟩

/-! ### Paths -/

/-- The components that the keys lead to, where each child with the key may be the next. -/
def candidates : List Key → Component → List Component
  | [], c => [c]
  | key :: path, c => (c.children.filter fun d => d.key? == some key).flatMap (candidates path)

/-- Among children with distinct keys, only the first with a key has the key. -/
theorem filter_key_eq {key : Key} {cs : List Component} (h : (keysOf cs).Nodup) :
  cs.filter (fun d => d.key? == some key) = (cs.find? fun d => d.key? == some key).toList
  := by
  induction cs with
  | nil => rfl
  | cons c cs ih =>
    obtain ⟨hc, hcs⟩ := nodup_keysOf_cons.mp h
    rw [List.filter_cons, List.find?_cons]
    by_cases hkey : c.key? = some key
    · have hnone : cs.filter (fun d => d.key? == some key) = [] := by
        rw [List.filter_eq_nil_iff]
        intro d hd hdkey
        apply hc key hkey
        exact mem_keysOf.mpr ⟨d, hd, beq_iff_eq.mp hdkey⟩
      rw [beq_iff_eq.mpr hkey, if_pos rfl, hnone]
      rfl
    · rw [beq_eq_false_iff_ne.mpr hkey, if_neg Bool.false_ne_true, ih hcs]

/-- Where keys are distinct, a path has no other candidate than the component it leads to. -/
theorem candidates_eq {c : Component} (h : c.DistinctKeys) (path : List Key) :
  c.candidates path = (c.descendant? path).toList
  := by
  induction path generalizing c with
  | nil => rfl
  | cons key path ih =>
    obtain ⟨hnodup, hbelow⟩ := distinctKeys_iff.mp h
    rw [candidates, filter_key_eq hnodup, descendant?, child?]
    cases hchild : c.children.find? fun d => d.key? == some key with
    | none => rfl
    | some d =>
      rw [Option.toList_some, List.flatMap_singleton, Option.bind_some]
      exact ih (hbelow d (List.mem_of_find?_eq_some hchild))

/-! ### Adding a component -/

/-- A child is added to a group in which none has its key. -/
theorem insertChild_eq_ok_iff {c c' child : Component} {position : Option Nat} :
  c.insertChild child position = .ok c' ↔ ∃ items, c.items = some items
    ∧ (∀ key ∈ child.key?, key ∉ keysOf c.children)
    ∧ c' = { c with items := some (insertAt position child items) }
  := by
  rw [insertChild]
  cases hitems : c.items with
  | none =>
    constructor
    · rintro ⟨⟩
    · rintro ⟨_, ⟨⟩, -⟩
  | some items =>
    cases hkey : child.key? with
    | none =>
      constructor
      · rintro ⟨⟩
        exact ⟨items, rfl, nofun, rfl⟩
      · rintro ⟨_, ⟨⟩, -, rfl⟩
        rfl
    | some key =>
      dsimp only
      split
      · next hchild =>
        constructor
        · rintro ⟨⟩
        · rintro ⟨_, -, hfree, -⟩
          exact absurd (hasChild_iff.mp hchild) (hfree key rfl)
      · next hchild =>
        constructor
        · rintro ⟨⟩
          refine ⟨items, rfl, ?_, rfl⟩
          rintro _ ⟨⟩ hmem
          exact hchild (hasChild_iff.mpr hmem)
        · rintro ⟨_, ⟨⟩, -, rfl⟩
          rfl

/-- The group at a path is the component that its segments lead to, if that is a group. -/
theorem groupAt_eq_ok_iff {c group : Component} {path : Option Key} :
  c.groupAt path = .ok group
    ↔ c.descendant? ((path.map Key.segments).getD []) = some group ∧ group.isGroup = true
  := by
  have hcheck (d : Component) (err : EditError) :
      (if d.isGroup then Except.ok d else .error err) = .ok group
        ↔ d = group ∧ group.isGroup = true := by
    constructor
    · intro h
      split at h
      · next hgroup =>
        cases h
        exact ⟨rfl, hgroup⟩
      · cases h
    · rintro ⟨rfl, hgroup⟩
      rw [if_pos hgroup]
  cases path with
  | none => exact (hcheck c _).trans (and_congr_left' Option.some_inj.symm)
  | some path =>
    rw [groupAt, Option.map_some, Option.getD_some]
    cases descendant? (Key.segments path) c with
    | none => exact ⟨nofun, nofun⟩
    | some d => exact (hcheck d _).trans (and_congr_left' Option.some_inj.symm)

theorem descendant?_of_groupAt {c group : Component} {path : Option Key}
    (h : c.groupAt path = .ok group) :
  c.descendant? ((path.map Key.segments).getD []) = some group
  := (groupAt_eq_ok_iff.mp h).1

section Addition

variable {c d child new : Component} {items : List Component} {key : Key} {position : Option Nat}

/-- A child is refused if the group has one with its key. -/
theorem insertChild_of_mem (hitems : c.items = some items) (hkey : child.key? = some key)
    (hmem : key ∈ keysOf items) :
  c.insertChild child position = .error (.duplicateComponentKey c.label key)
  := by
  have hchild : c.hasChild key = true := by
    rw [hasChild_iff, children, hitems]
    exact hmem
  simp only [insertChild, hitems, hkey, if_pos hchild]

theorem insertAtPath_none (hgroup : c.isGroup = true) :
  c.insertAtPath child none position = c.insertChild child position
  := by
  rw [insertAtPath, groupAt, if_pos hgroup]
  change (c.insertChild child position).bind _ = _
  cases c.insertChild child position with
  | _ => rfl

/-- The key of the last child leads to it, if no other child has the key. -/
theorem insertAtPath_concat (hsegments : Key.segments key = [key]) (hkey : d.key? = some key)
    (hfree : key ∉ keysOf items) (hnew : d.insertChild child position = .ok new) :
  insertAtPath { c with items := some (items ++ [d]) } child (some key) position
    = .ok { c with items := some (items ++ [new]) }
  := by
  have hnone : items.find? (fun e => e.key? == some key) = none := by
    rw [List.find?_eq_none]
    intro e he hekey
    apply hfree
    exact mem_keysOf.mpr ⟨e, he, beq_iff_eq.mp hekey⟩
  have hd : (d.key? == some key) = true := beq_iff_eq.mpr hkey
  have hgroup : groupAt { c with items := some (items ++ [d]) } (some key) = .ok d := by
    obtain ⟨children, hchildren, -⟩ := insertChild_eq_ok_iff.mp hnew
    have hchild : child? { c with items := some (items ++ [d]) } key = some d := by
      change (items ++ [d]).find? _ = _
      rw [List.find?_append, hnone, Option.none_or]
      exact List.find?_cons_of_pos hd
    simp only [groupAt, hsegments, descendant?, hchild, Option.bind_some, isGroup, hchildren,
      Option.isSome_some, if_true]
  have hreplace : replaceDescendant new [key] { c with items := some (items ++ [d]) }
      = { c with items := some (items ++ [new]) } := by
    rw [replaceDescendant, modifyChild, Option.map_some, modifyFirst_concat hnone hd]
    rfl
  rw [insertAtPath, hgroup]
  change (d.insertChild child position).bind _ = _
  rw [hnew, Option.map_some, Option.getD_some, hsegments]
  exact congrArg Except.ok hreplace

end Addition

theorem nodup_keysOf_of_perm {cs others : List Component} {c : Component}
    (h : cs.Perm (c :: others)) :
  (keysOf cs).Nodup ↔ (∀ key ∈ c.key?, key ∉ keysOf others) ∧ (keysOf others).Nodup
  := by
  rw [← nodup_keysOf_cons]
  exact (h.filterMap key?).nodup_iff

/-- The component `new` can stand in place of `old` without a key coming twice: it has the key of
`old`, and its children have distinct keys if those of `old` have, at every depth. -/
structure KeepsApart (old new : Component) : Prop where
  key?_eq : new.key? = old.key?
  nodup_iff : (keysOf new.children).Nodup ↔ (keysOf old.children).Nodup
  below : old.DistinctBelow → new.DistinctBelow

namespace KeepsApart

variable {c d old new child : Component} {key : Key} {f : Component → Component}

theorem distinctKeys (h : KeepsApart old new) (hold : old.DistinctKeys) :
  new.DistinctKeys
  := by
  obtain ⟨hnodup, hbelow⟩ := distinctKeys_iff.mp hold
  exact distinctKeys_iff.mpr ⟨h.nodup_iff.mpr hnodup, h.below hbelow⟩

theorem refl (c : Component) :
  KeepsApart c c
  := ⟨rfl, Iff.rfl, id⟩

/-- A child is added only if none has its key. -/
theorem insertChild {position : Option Nat} (hchild : child.DistinctKeys)
    (h : c.insertChild child position = .ok new) :
  KeepsApart c new
  := by
  obtain ⟨items, hitems, hfree, rfl⟩ := insertChild_eq_ok_iff.mp h
  have hperm : (insertAt position child items).Perm (child :: c.children) := by
    rw [children, hitems]
    apply insertAt_perm
  refine ⟨rfl, ?_, ?_⟩
  · exact (nodup_keysOf_of_perm hperm).trans (and_iff_right hfree)
  · intro hbelow d hd
    exact (List.forall_mem_cons.mpr ⟨hchild, hbelow⟩) d (hperm.mem_iff.mp hd)

/-- A child changes in its place. -/
theorem modifyChild (hd : c.child? key = some d) (h : KeepsApart d (f d)) :
  KeepsApart c (c.modifyChild key f)
  := by
  obtain ⟨head, _ | items⟩ := c
  · cases hd
  have hbefore : items.Perm (d :: items.eraseP fun e => e.key? == some key) := perm_cons_eraseP hd
  have hafter : (modifyFirst (fun e => e.key? == some key) f items).Perm
      (f d :: items.eraseP fun e => e.key? == some key) := modifyFirst_perm hd
  refine ⟨rfl, ?_, ?_⟩
  · apply (nodup_keysOf_of_perm hafter).trans
    rw [h.key?_eq]
    exact (nodup_keysOf_of_perm hbefore).symm
  · intro hbelow e he
    have hothers : ∀ e ∈ d :: items.eraseP fun e => e.key? == some key, e.DistinctKeys :=
      fun e he => hbelow e (hbefore.mem_iff.mpr he)
    rcases List.mem_cons.mp (hafter.mem_iff.mp he) with rfl | he
    · exact h.distinctKeys (hothers d List.mem_cons_self)
    · exact hothers e (List.mem_cons_of_mem d he)

/-- A component changes in the place that a path leads to. -/
theorem replaceDescendant {path : List Key} (hpath : c.descendant? path = some old)
    (h : KeepsApart old new) :
  KeepsApart c (Component.replaceDescendant new path c)
  := by
  induction path generalizing c with
  | nil =>
    cases hpath
    exact h
  | cons key path ih =>
    obtain ⟨d, hd, hrest⟩ := Option.bind_eq_some_iff.mp hpath
    exact modifyChild hd (ih hrest)

/-- A component is added to the group at a path. -/
theorem insertAtPath {path : Option Key} {position : Option Nat} (hchild : child.DistinctKeys)
    (h : c.insertAtPath child path position = .ok new) :
  KeepsApart c new
  := by
  obtain ⟨group, hgroup, h⟩ := exists_of_bind_eq_ok h
  obtain ⟨grown, hgrown, h⟩ := exists_of_bind_eq_ok h
  cases h
  exact replaceDescendant (descendant?_of_groupAt hgroup) (insertChild hchild hgrown)

end KeepsApart

/-! ### Titles -/

/-- No child but the title has the key of the new title. -/
def TitleFree (c title : Component) : Prop :=
  ∀ key ∈ title.key?, key ∉ keysOf (c.children.eraseP fun d => d.role == "title")

instance (c title : Component) : Decidable (c.TitleFree title) :=
  inferInstanceAs (Decidable (∀ key ∈ title.key?, _))

variable {c title : Component}

/-- The new title stands in place of the old one, or before the other children. -/
theorem children_setTitle_perm (c title : Component) :
  (c.setTitle title).children.Perm
    (title :: c.children.eraseP fun d => d.role == "title")
  := by
  change List.Perm (if _ then _ else _) _
  split
  · next hany =>
    have hsome := List.find?_isSome.mpr (List.any_eq_true.mp hany)
    obtain ⟨old, hold⟩ := Option.isSome_iff_exists.mp hsome
    exact modifyFirst_perm hold
  · next hnone =>
    rw [List.eraseP_of_forall_not]
    intro d hd hrole
    exact hnone (List.any_eq_true.mpr ⟨d, hd, hrole⟩)

theorem distinctBelow_setTitle (hc : c.DistinctBelow) (htitle : title.DistinctKeys) :
  (c.setTitle title).DistinctBelow
  := by
  intro d hd
  rcases List.mem_cons.mp ((children_setTitle_perm c title).mem_iff.mp hd) with rfl | hd
  · exact htitle
  · exact hc d (List.mem_of_mem_eraseP hd)

/-- The keys of the children stay distinct under a new title exactly when it has none of them. -/
theorem nodup_setTitle_iff (hc : (keysOf c.children).Nodup) :
  (keysOf (c.setTitle title).children).Nodup ↔ c.TitleFree title
  := by
  apply (nodup_keysOf_of_perm (children_setTitle_perm c title)).trans
  apply and_iff_left
  exact List.Nodup.sublist (List.eraseP_sublist.filterMap key?) hc

end Component

end Questionnaire
