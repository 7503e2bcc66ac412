import Questionnaire.Item.Edit
import Questionnaire.Proofs.Component.Keys
import Questionnaire.Proofs.Edit.Run

/-!
# Requests to an item editor

Some requests assign a field of the item, and never fail.  The others make something of its root
component, as `Item.editRoot` says once for all of them (`serve_eq_editRoot`).

A request that fails leaves every field alone, with one exception: a single item that has no
components has got its root component by then (`item_of_error`).  This happens to the requests that
look for a component at a path, and to no other.
-/

namespace Questionnaire

namespace Item

/-! ### The root component -/

/-- The root component of an item: a group has none, and a single item may have none. -/
def root? : Item → Option Component
  | .group _ => none
  | .single s => s.components

/-- A single item without components. -/
def Rootless : Item → Prop
  | .group _ => False
  | .single s => s.components = none

/-- The item, with a root component if it is a single item. -/
def ensureRoot : Item → Item :=
  mapSingle fun s => { s with components := some (s.components.getD .root) }

/-- The result of an edit that makes of the root component what `f` says, and the item after it.
If `f` fails, the root component stays, or is the new one if there was none. -/
def editRoot {α : Type} (f : Component → Except EditError (α × Component)) :
    Item → Except EditError α × Item
  | .group g => (.error (.componentNotFound "root"), .group g)
  | .single s =>
    match f (s.components.getD .root) with
    | .error err => (.error err, ensureRoot (.single s))
    | .ok (a, root) => (.ok a, .single { s with components := some root })

theorem run_rootComponent_bind {α : Type} (next : Component → Edit α) (s : SingleItem) :
  (rootComponent >>= next).run (.single s)
    = (next (s.components.getD .root)).run (ensureRoot (.single s))
  := run_bind_of_ok rfl

theorem run_assignRoot (r : Except EditError Component) (c : Component) (s : SingleItem) :
  (liftM r >>= fun root => setRootComponent root >>= fun _ => pure c : Edit Component).run
      (ensureRoot (.single s))
    = match r with
      | .error err => (.error err, ensureRoot (.single s))
      | .ok root => (.ok c, .single { s with components := some root })
  := by
  cases r with
  | _ => rfl

theorem run_addDisplay (c : Component) (position : Option Nat) (x : Item) :
  (addDisplay c position).run x
    = x.editRoot fun root => (root.insertChild c position).map fun new => (c, new)
  := by
  cases x with
  | group g => rfl
  | single s =>
    rw [addDisplay, run_rootComponent_bind, run_assignRoot, editRoot]
    cases (s.components.getD .root).insertChild c position with
    | _ => rfl

theorem run_addResponse (c : Component) (path : Option Key) (position : Option Nat) (x : Item) :
  (addResponse c path position).run x
    = x.editRoot fun root => (root.insertAtPath c path position).map fun new => (c, new)
  := by
  cases x with
  | group g => rfl
  | single s =>
    rw [addResponse, run_rootComponent_bind, run_assignRoot, editRoot]
    cases (s.components.getD .root).insertAtPath c path position with
    | _ => rfl

theorem run_addNewResponse (role : String) (key : Option Key) (isGroup : Bool)
    (path : Option Key) (position : Option Nat) (x : Item) :
  (addNewResponse role key isGroup path position).run x
    = x.editRoot fun root => (root.groupAt path).bind fun group =>
        let free := if role = "responseGroup" then Key.responseGroup else group.freeKey
        let c := .create role (some (key.getD free)) isGroup
        (root.insertAtPath c path position).map fun new => (c, new)
  := by
  cases x with
  | group g => rfl
  | single s =>
    rw [addNewResponse, run_rootComponent_bind, editRoot]
    cases hgroup : (s.components.getD .root).groupAt path with
    | error err => exact run_bind_of_error (run_liftM _ _)
    | ok group =>
      rw [run_bind_of_ok (run_liftM _ _), run_addResponse]
      rfl

/-! ### What requests ask for -/

namespace Request

/-- The path at which a request looks for a component. -/
def path? : Request → Option Key
  | .addNewResponse _ _ _ path _ => path
  | .addResponse _ path _ => path
  | _ => none

/-- The component that a request brings along. -/
def component? : Request → Option Component
  | .setTitle title => some title
  | .addDisplay c _ => some c
  | .addResponse c _ _ => some c
  | _ => none

/-- What a request makes of the root component, if it is about components: the answer and the
root component after it, or the reason why it fails. -/
def onRoot? : Request → Option (Component → Except EditError (Answer × Component))
  | .setTitle title => some fun root => .ok (.done, root.setTitle title)
  | .addDisplay c position => some fun root =>
    (root.insertChild c position).map fun new => (.component c, new)
  | .addNewResponse role name isGroup path position => some fun root =>
    (root.groupAt path).bind fun group =>
      let free := if role = "responseGroup" then Key.responseGroup else group.freeKey
      let c := .create role (some (name.getD free)) isGroup
      (root.insertAtPath c path position).map fun new => (.component c, new)
  | .addResponse c path position => some fun root =>
    (root.insertAtPath c path position).map fun new => (.component c, new)
  | _ => none

end Request

variable {x : Item} {r : Request}

theorem map_editRoot {α β : Type} (g : α → β)
    (f : Component → Except EditError (α × Component)) (x : Item) :
  ((x.editRoot f).1.map g, (x.editRoot f).2)
    = x.editRoot fun root => (f root).map fun result => (g result.1, result.2)
  := by
  cases x with
  | group _ => rfl
  | single s =>
    rw [editRoot, editRoot]
    cases f (s.components.getD .root) with
    | _ => rfl

theorem map_answer (r : Except EditError Component) (c : Component) :
  ((r.map fun new => (c, new)).map fun result => (Answer.component result.1, result.2))
    = r.map fun new => (Answer.component c, new)
  := by
  cases r with
  | _ => rfl

/-- A request about components makes of the root component what `Request.onRoot?` says. -/
theorem serve_eq_editRoot {f : Component → Except EditError (Answer × Component)}
    (h : r.onRoot? = some f) (x : Item) :
  x.serve r = x.editRoot f
  := by
  cases r with
  | setTitle title =>
    cases h
    cases x with
    | _ => rfl
  | addDisplay c position =>
    cases h
    rw [serve, respond, run_map, run_addDisplay, map_editRoot]
    simp only [map_answer]
  | addResponse c path position =>
    cases h
    rw [serve, respond, run_map, run_addResponse, map_editRoot]
    simp only [map_answer]
  | addNewResponse role key isGroup path position =>
    cases h
    rw [serve, respond, run_map, run_addNewResponse, map_editRoot]
    congr 1
    funext root
    cases root.groupAt path with
    | error err => rfl
    | ok group => exact map_answer _ _
  | _ => cases h

/-- A request that is not about components succeeds, and leaves the components alone. -/
theorem serve_of_onRoot?_eq_none (h : r.onRoot? = none) (x : Item) :
  ∃ a y, x.serve r = (.ok a, y) ∧ y.root? = x.root?
  := by
  cases r with
  | setTitle | addDisplay | addNewResponse | addResponse => cases h
  | _ => cases x with
    | _ => exact ⟨_, _, rfl, rfl⟩

/-! ### Items with a root component -/

section Root

theorem ensureRoot_eq_self_iff :
  x.ensureRoot = x ↔ ¬x.Rootless
  := by
  cases x with
  | group g => exact ⟨fun _ => id, fun _ => rfl⟩
  | single s =>
    obtain ⟨head, itemType, components, validations, mode⟩ := s
    cases components with
    | none => exact ⟨nofun, fun h => absurd rfl h⟩
    | some root => exact ⟨fun _ => nofun, fun _ => rfl⟩

variable {root new : Component}

/-- The single item with another root component; a group stays as it is. -/
def withRoot (root : Component) : Item → Item :=
  mapSingle fun s => { s with components := some root }

theorem root?_withRoot (hroot : x.root? = some root) (new : Component) :
  (x.withRoot new).root? = some new
  := by
  cases x with
  | group g => cases hroot
  | single s => rfl

theorem withRoot_withRoot (root new : Component) (x : Item) :
  (x.withRoot root).withRoot new = x.withRoot new
  := by
  cases x with
  | _ => rfl

variable {α : Type} {f : Component → Except EditError (α × Component)}

/-- An edit that fails on a root component that is there changes nothing. -/
theorem editRoot_of_error {err : EditError} (hroot : x.root? = some root)
    (h : f root = .error err) :
  x.editRoot f = (.error err, x)
  := by
  cases x with
  | group g => cases hroot
  | single s =>
    have hsome : s.components = some root := hroot
    have hkept : ensureRoot (.single s) = .single s := by
      rw [ensureRoot_eq_self_iff, Rootless, hsome]
      apply Option.some_ne_none
    rw [editRoot, hkept, hsome, Option.getD_some, h]

theorem editRoot_of_ok {a : α} (hroot : x.root? = some root) (h : f root = .ok (a, new)) :
  x.editRoot f = (.ok a, x.withRoot new)
  := by
  cases x with
  | group g => cases hroot
  | single s =>
    have hsome : s.components = some root := hroot
    rw [editRoot, hsome, Option.getD_some, h]
    rfl

end Root

/-! ### Requests that fail -/

theorem root_descendant?_segments (path : Key) :
  Component.root.descendant? (Key.segments path) = none
  := by
  cases hpath : Key.segments path with
  | nil =>
    rw [Key.segments, List.map_eq_nil_iff] at hpath
    exact absurd hpath (List.splitOn_ne_nil '.' path.toList)
  | cons key rest => rfl

theorem root_groupAt (path : Key) :
  Component.root.groupAt (some path) = .error (.componentNotFound path)
  := by
  rw [Component.groupAt, root_descendant?_segments]

theorem root_insertAtPath (c : Component) (path : Key) (position : Option Nat) :
  Component.root.insertAtPath c (some path) position = .error (.componentNotFound path)
  := by
  rw [Component.insertAtPath, root_groupAt]
  rfl

theorem root_insertChild (c : Component) (position : Option Nat) :
  ∃ new, Component.root.insertChild c position = .ok new
  := by
  refine ⟨_, Component.insertChild_eq_ok_iff.mpr ⟨[], rfl, ?_, rfl⟩⟩
  exact fun key _ => List.not_mem_nil

theorem root_insertAtPath_none (c : Component) (position : Option Nat) :
  ∃ new, Component.root.insertAtPath c none position = .ok new
  := by
  rw [Component.insertAtPath_none rfl]
  apply root_insertChild

/-- On the new root component, which has no children, only a path can lead nowhere. -/
theorem onRoot?_root {f : Component → Except EditError (Answer × Component)} {err : EditError}
    (hf : r.onRoot? = some f) (herr : f .root = .error err) :
  ∃ path, r.path? = some path ∧ err = .componentNotFound path
  := by
  cases r with
  | setTitle title =>
    cases hf
    cases herr
  | addDisplay c position =>
    cases hf
    obtain ⟨new, hnew⟩ := root_insertChild c position
    simp only [hnew] at herr
    cases herr
  | addResponse c path position =>
    cases hf
    cases path with
    | none =>
      obtain ⟨new, hnew⟩ := root_insertAtPath_none c position
      simp only [hnew] at herr
      cases herr
    | some path =>
      simp only [root_insertAtPath] at herr
      cases herr
      exact ⟨path, rfl, rfl⟩
  | addNewResponse role key isGroup path position =>
    cases hf
    cases path with
    | none =>
      obtain ⟨c, hc⟩ : ∃ c, (Component.root.insertAtPath c none position).map
          (fun new => (Answer.component c, new)) = .error err := ⟨_, herr⟩
      obtain ⟨new, hnew⟩ := root_insertAtPath_none c position
      rw [hnew] at hc
      cases hc
    | some path =>
      simp only [root_groupAt] at herr
      cases herr
      exact ⟨path, rfl, rfl⟩
  | _ => cases hf

/-- An edit of the root component that fails leaves a single item with a root component. -/
theorem editRoot_error {f : Component → Except EditError (Answer × Component)} {err : EditError}
    (herr : (x.editRoot f).1 = .error err) :
  (x.editRoot f).2 = x.ensureRoot ∧ (x.Rootless → f .root = .error err)
  := by
  cases x with
  | group g => exact ⟨rfl, False.elim⟩
  | single s =>
    rw [editRoot] at herr ⊢
    cases hroot : f (s.components.getD .root) with
    | ok result =>
      rw [hroot] at herr
      cases herr
    | error err' =>
      rw [hroot] at herr
      cases herr
      refine ⟨rfl, ?_⟩
      intro hnone
      rw [Rootless] at hnone
      rw [hnone] at hroot
      exact hroot

/-- A request that fails leaves the item as it was, unless it is a single item without components:
such an item keeps the root component that it was given before a path led nowhere in it. -/
theorem item_of_error {err : EditError} (herr : (x.serve r).1 = .error err) :
  (x.serve r).2 = x.ensureRoot ∧ ((x.serve r).2 = x ↔ ¬x.Rootless)
    ∧ (x.Rootless → ∃ path, r.path? = some path ∧ err = .componentNotFound path)
  := by
  cases hr : r.onRoot? with
  | none =>
    obtain ⟨a, y, hserve, -⟩ := serve_of_onRoot?_eq_none hr x
    rw [hserve] at herr
    cases herr
  | some f =>
    rw [serve_eq_editRoot hr x] at herr ⊢
    obtain ⟨hitem, hrootless⟩ := editRoot_error herr
    rw [hitem]
    exact ⟨rfl, ensureRoot_eq_self_iff, fun h => onRoot?_root hr (hrootless h)⟩

/-- A question with one component, a text. -/
def labelled : Item :=
  .single {
    head := { key := "s.q" }
    components := some { Component.root with items := some [.leaf "text" (some "a")] } }

/-- A component is refused for its key, and the question stays as it was. -/
theorem item_of_error_duplicate :
  (labelled.serve (.addDisplay (.leaf "text" (some "a")) none)).1
      = .error (.duplicateComponentKey "root" "a")
    ∧ (labelled.serve (.addDisplay (.leaf "text" (some "a")) none)).2 = labelled
  := by
  have herr : (labelled.serve (.addDisplay (.leaf "text" (some "a")) none)).1
      = .error (.duplicateComponentKey "root" "a") := rfl
  exact ⟨herr, (item_of_error herr).2.1.mpr nofun⟩

/-- A single item as a document may have it, without components. -/
def bare : Item := .single { head := { key := "s.q" } }

/-- A response to a group that is not there is refused, as a failure after which work can go on,
but the item has got a root component. -/
theorem changed_by_missing_group :
  (bare.serve (.addNewResponse "input" none false (some "rg") none)).1
      = .error (.componentNotFound "rg")
    ∧ (EditError.componentNotFound "rg").isFatal = false
    ∧ (bare.serve (.addNewResponse "input" none false (some "rg") none)).2 ≠ bare
  := ⟨rfl, rfl, nofun⟩

end Item

end Questionnaire
