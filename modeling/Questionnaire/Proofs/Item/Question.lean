import Mathlib.Data.List.Induction
import Questionnaire.Item.Question
import Questionnaire.Proofs.Item.Serve

/-!
# Questions and their response group

A question gets its response group in two steps: first the group, without anything in it, and then
the content, which is added to the group by its key.  The first step fails if the key is taken.  The
second one cannot fail after the first, and leads to the new group and no other, as no other child
of the root component has the key.  So a question has either got its response group with the content
in it, or nothing has changed.

Titles have no key, and a component whose key is taken is refused.  So no key comes twice among the
children of the root component, whatever is asked of the editor (`exists_hasParts_serveAll`).
-/

namespace Questionnaire

/-- The response group that holds `content`. -/
def Component.responseGroupOf (content : Component) : Component :=
  { group "responseGroup" (some Key.responseGroup) with items := some [content] }

namespace Question

open Component (keysOf responseGroupOf)

variable {x : Item} {items : List Component}

/-! ### The response group -/

/-- The response group is refused if a component has its key. -/
theorem run_setResponseGroup_of_mem
    (hroot : x.root? = some { Component.root with items := some items })
    (hmem : Key.responseGroup ∈ keysOf items) (content : Component) :
  (setResponseGroup content).run x
    = (.error (.duplicateComponentKey "root" Key.responseGroup), x)
  := by
  apply run_bind_of_error
  rw [Item.run_addNewResponse]
  apply Item.editRoot_of_error hroot
  change (Component.insertAtPath _ (.group "responseGroup" (some Key.responseGroup)) none _).map _
    = _
  rw [Component.insertAtPath_none rfl, Component.insertChild_of_mem rfl rfl hmem]
  rfl

/-- Otherwise it becomes the last component, with the content in it. -/
theorem run_setResponseGroup_of_notMem
    (hroot : x.root? = some { Component.root with items := some items })
    (hfree : Key.responseGroup ∉ keysOf items) (content : Component) :
  (setResponseGroup content).run x
    = (.ok content,
      x.withRoot { Component.root with items := some (items ++ [responseGroupOf content]) })
  := by
  let root := { Component.root with items := some items }
  let group := Component.group "responseGroup" (some Key.responseGroup)
  let grown := { Component.root with items := some (items ++ [group]) }
  have hgroup : root.insertAtPath group none none = .ok grown := by
    rw [Component.insertAtPath_none rfl, Component.insertChild_eq_ok_iff]
    refine ⟨items, rfl, ?_, ?_⟩
    · rintro _ ⟨⟩
      exact hfree
    · rw [insertAt_none]
  have hadd : (Item.addNewResponse "responseGroup" (some Key.responseGroup) true none none).run x
      = (.ok group, x.withRoot grown) := by
    rw [Item.run_addNewResponse]
    apply Item.editRoot_of_ok hroot
    change (root.insertAtPath group none none).map _ = _
    rw [hgroup]
    rfl
  have hcontent : group.insertChild content none = .ok (responseGroupOf content) := by
    rw [Component.insertChild_eq_ok_iff]
    exact ⟨[], rfl, fun _ _ => List.not_mem_nil, rfl⟩
  have hput : (grown.insertAtPath content (some Key.responseGroup) none).map (content, ·)
      = .ok (content,
        { Component.root with items := some (items ++ [responseGroupOf content]) }) := by
    rw [Component.insertAtPath_concat rfl rfl hfree hcontent]
    rfl
  rw [setResponseGroup, run_bind_of_ok hadd, Item.run_addResponse,
    Item.editRoot_of_ok (Item.root?_withRoot hroot grown) hput, Item.withRoot_withRoot]

/-! ### What all requests keep -/

/-- The components of a question, among which no key comes twice. -/
structure HasParts (x : Item) (items : List Component) : Prop where
  root : x.root? = some { Component.root with items := some items }
  nodup : (keysOf items).Nodup

theorem hasParts_create (parent : Key) (name : String) (mode : Option ConfidentialMode)
    (metadata : Option (Dict String)) :
  HasParts (create parent name mode metadata) []
  := ⟨rfl, List.nodup_nil⟩

theorem HasParts.serve_addDisplay (h : HasParts x items) (c : Component) (position : Option Nat) :
  ∃ new, HasParts (serve x (.addDisplay c position)).2 new
  := by
  have hserve : serve x (.addDisplay c position) = x.serve (.addDisplay c position) := rfl
  rw [hserve, Item.serve_eq_editRoot rfl]
  let root := { Component.root with items := some items }
  cases hinsert : root.insertChild c position with
  | error err =>
    use items
    have herr : (root.insertChild c position).map (Item.Answer.component c, ·) = .error err := by
      rw [hinsert]
      rfl
    rw [Item.editRoot_of_error h.root herr]
    exact h
  | ok new =>
    have hok : (root.insertChild c position).map (Item.Answer.component c, ·)
        = .ok (.component c, new) := by
      rw [hinsert]
      rfl
    rw [Item.editRoot_of_ok h.root hok]
    obtain ⟨_, ⟨⟩, hfree, rfl⟩ := Component.insertChild_eq_ok_iff.mp hinsert
    use insertAt position c items, Item.root?_withRoot h.root _
    exact (Component.nodup_keysOf_of_perm (insertAt_perm position c items)).mpr ⟨hfree, h.nodup⟩

/-- A title may take the place of a component with a key, but has no key itself. -/
theorem HasParts.serve_setTitle (h : HasParts x items) (content : TitleContent)
    (description : Option PlainTexts) (className : Option String) :
  ∃ new, HasParts (serve x (.setTitle content description className)).2 new
  := by
  let root := { Component.root with items := some items }
  let title := Component.title content description className
  have hserve : serve x (.setTitle content description className) = x.serve (.setTitle title) := rfl
  rw [hserve, Item.serve_eq_editRoot rfl, Item.editRoot_of_ok h.root rfl]
  use (root.setTitle title).children, Item.root?_withRoot h.root _
  apply (Component.nodup_setTitle_iff (c := root) h.nodup).mpr
  intro key hkey
  have hnone : title.key? = none := by
    cases content with
    | _ => rfl
  rw [hnone] at hkey
  cases hkey

/-- Whatever is asked of the editor, and whether it fails or not, no key comes twice afterwards. -/
theorem HasParts.serve (h : HasParts x items) (r : Request) :
  ∃ new, HasParts (serve x r).2 new
  := by
  cases r with
  | key => exact ⟨items, h⟩
  | item => exact ⟨items, h⟩
  | setTitle content description className => exact h.serve_setTitle content description className
  | setCondition condition =>
    cases x with
    | group g => cases h.root
    | single s => exact ⟨items, h.root, h.nodup⟩
  | addDisplay c position => exact h.serve_addDisplay c position
  | requireResponse =>
    cases x with
    | group g => cases h.root
    | single s => exact ⟨items, h.root, h.nodup⟩
  | setResponseGroup content =>
    rw [Question.serve, respond, run_map]
    by_cases hmem : Key.responseGroup ∈ keysOf items
    · rw [run_setResponseGroup_of_mem h.root hmem]
      exact ⟨items, h⟩
    · rw [run_setResponseGroup_of_notMem h.root hmem]
      use items ++ [responseGroupOf content], Item.root?_withRoot h.root _
      rw [Component.nodup_keysOf_of_perm (List.perm_append_singleton _ items)]
      refine ⟨?_, h.nodup⟩
      rintro _ ⟨⟩
      exact hmem

/-- The question after some requests, whether they succeed or fail. -/
def serveAll (x : Item) (rs : List Request) : Item := rs.foldl (fun x r => (Question.serve x r).2) x

theorem exists_hasParts_serveAll (h : HasParts x items) (rs : List Request) :
  ∃ new, HasParts (serveAll x rs) new
  := by
  induction rs using List.reverseRecOn with
  | nil => exact ⟨items, h⟩
  | append_singleton rs r ih =>
    obtain ⟨new, hnew⟩ := ih
    rw [serveAll, List.foldl_concat]
    exact hnew.serve r

/-- In a new question, whatever is asked of its editor, no key comes twice among the components; and
then its response group is refused without any change if a component has its key, and otherwise
becomes the last component, with nothing in it but the content. -/
theorem serve_setResponseGroup_of_create (parent : Key) (name : String)
    (mode : Option ConfidentialMode) (metadata : Option (Dict String)) (rs : List Request) :
  let x := serveAll (create parent name mode metadata) rs
  ∃ items, x.root? = some { Component.root with items := some items } ∧ (keysOf items).Nodup
    ∧ ∀ content, Question.serve x (.setResponseGroup content)
      = if Key.responseGroup ∈ keysOf items
        then (.error (.duplicateComponentKey "root" Key.responseGroup), x)
        else (.ok (.component content), x.withRoot
          { Component.root with items := some (items ++ [responseGroupOf content]) })
  := by
  intro x
  obtain ⟨items, hroot, hnodup⟩ :=
    exists_hasParts_serveAll (hasParts_create parent name mode metadata) rs
  use items, hroot, hnodup
  intro content
  rw [Question.serve, respond, run_map]
  split
  · next hmem =>
    rw [run_setResponseGroup_of_mem hroot hmem]
    rfl
  · next hfree =>
    rw [run_setResponseGroup_of_notMem hroot hfree]
    rfl

/-- A text takes the key of response groups, and a title the place of the text. -/
example :
  let text := Component.leaf "title" (some "rg")
  let response := Component.leaf "input" (some "1")
  let x := create "s" "q" none none
  let y := serveAll x [.addDisplay text none]
  let z := serveAll y [.setTitle (.text []) none none]
  (Question.serve y (.setResponseGroup response)).1.toOption.isNone
    ∧ (Question.serve z (.setResponseGroup response)).1.toOption.isSome
  := by decide

end Question

end Questionnaire
