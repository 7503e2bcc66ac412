import Questionnaire.Proofs.Editor.Move
import Questionnaire.Proofs.Editor.Open

/-!
# Requests to an editor

What an editor answers is what its survey answers: every request has an answer that depends on the
survey alone, and agrees with it.
-/

namespace Questionnaire

open NodeTree

namespace Survey

open Editor (Request Answer Setting)

/-- The answer of a survey to a request, and the survey after it. -/
def respond (s : Survey) : Request → Except EditError (Answer × Survey)
  | .key => return (.key s.key, s)
  | .contains key => return (.truth (s.contains key), s)
  | .find key => (fun x => (.item x, s)) <$> s.locate key
  | .survey => return (.survey s, s)
  | .text style => return (.text (s.toJson.toText style), s)
  | .set setting => return (.done, Setting.apply s setting)
  | .add kind name parent position =>
    (fun p => (.item p.1, p.2)) <$> s.add kind name parent position
  | .addExisting x parent position => (.item x, ·) <$> s.addExisting x parent position
  | .update x => (.done, ·) <$> s.update x
  | .rename old new references => (.done, ·) <$> s.rename old new references
  | .remove key => (fun p => (.item p.1, p.2)) <$> s.remove key
  | .move key destination => (fun p => (.item p.1, p.2)) <$> s.move key destination

/-- The answers of a survey to some requests, one after the other, and the survey after the last.  A
request that fails leaves the survey as it was. -/
def respondAll (s : Survey) : List Request → List (Except EditError Answer) × Survey
  | [] => ([], s)
  | r :: rs =>
    match s.respond r with
    | .error err => (.error err :: (s.respondAll rs).1, (s.respondAll rs).2)
    | .ok (answer, s') => (.ok answer :: (s'.respondAll rs).1, (s'.respondAll rs).2)

/-- When the first of some requests is answered, the others go to the survey after it. -/
theorem exists_of_respondAll_cons {s s' : Survey} {r : Request} {rs : List Request} {a : Answer}
    {as : List (Except EditError Answer)} (h : s.respondAll (r :: rs) = (.ok a :: as, s')) :
  ∃ s₁, s.respond r = .ok (a, s₁) ∧ s₁.respondAll rs = (as, s')
  := by
  rw [respondAll] at h
  cases hrespond : s.respond r with
  | error err =>
    rw [hrespond] at h
    cases h
  | ok p =>
    rw [hrespond] at h
    cases h
    use p.2, rfl

end Survey

namespace Editor

theorem Setting.apply_root (s : Survey) (setting : Setting) (root : Group) :
  setting.apply { s with root } = { setting.apply s with root }
  := by
  cases setting with
  | _ => rfl

namespace Laid

variable {e : Editor} {t : NodeTree}

/-- The index knows the keys of the survey. -/
theorem contains_eq (h : e.Laid t) (key : Key) :
  e.contains key = e.survey.contains key
  := by
  rw [Bool.eq_iff_iff, contains, Survey.contains_eq_true_iff, h.survey_keys,
    Option.isSome_iff_exists, List.mem_map]
  constructor
  · rintro ⟨id, hid⟩
    use id, ((h.index_iff key id).mp hid).1, ((h.index_iff key id).mp hid).2
  · rintro ⟨id, hid, hkey⟩
    use id, (h.index_iff key id).mpr ⟨hid, hkey⟩

/-- Changing a setting agrees with changing it in the survey. -/
theorem set (h : e.Laid t) (setting : Setting) :
  Agrees e ((Editor.set setting).run e) (.ok ((), Setting.apply e.survey setting))
  := by
  have hlaid : ({ e with document := Setting.apply e.document setting } : Editor).Laid t :=
    ⟨⟨h.top_eq, h.holds.congr (Nat.le_refl _) (fun _ _ => rfl) fun _ _ => rfl, h.nodup, h.stored,
      h.root_group, h.index_iff⟩, h.nested⟩
  have hsurvey : ({ e with document := Setting.apply e.document setting } : Editor).survey
      = Setting.apply e.survey setting := by
    apply (hlaid.survey_eq_of_item h.group_root.symm).trans
    apply (Setting.apply_root e.document setting e.survey.root).symm.trans
    rw [← h.survey_eq_of_item h.group_root.symm]
  have hok := Agrees.ok (e := e) () hlaid
  rw [hsurvey] at hok
  exact hok

/-- Finding an item agrees with finding it in the survey. -/
theorem find (h : e.Laid t) (key : Key) :
  e.findItem key = e.survey.locate key
  := by
  rw [findItem]
  obtain ⟨err, hloc, hloc'⟩ | ⟨u, hu, hloc, hloc'⟩ := (h.finds_locate key).cases
  · rw [hloc, hloc']
    rfl
  · rw [hloc, hloc', ← h.materialize hu]
    rfl

/-- What an editor answers agrees with what its survey answers. -/
theorem serve (h : e.Laid t) (r : Request) :
  Agrees e (e.serve r) (e.survey.respond r)
  := by
  rw [Editor.serve]
  cases r with
  | key =>
    have hok := Agrees.ok (e := e) (Answer.key e.key) h
    rw [Survey.respond, h.survey_key]
    exact hok
  | contains key =>
    have hok := Agrees.ok (e := e) (Answer.truth (e.contains key)) h
    rw [Survey.respond, ← h.contains_eq]
    exact hok
  | find key =>
    rw [Survey.respond, ← h.find, ← bind_pure_comp]
    apply Agrees.get
    apply Agrees.lift
    intro x _
    exact Agrees.ok (Answer.item x) h
  | survey => exact Agrees.ok (Answer.survey e.survey) h
  | text style => exact Agrees.ok (Answer.text (e.survey.toJson.toText style)) h
  | set setting =>
    rw [Editor.respond, bind_pure_comp]
    exact (h.set setting).map fun _ => Answer.done
  | add kind name parent position => exact (h.add kind name parent position).map Answer.item
  | addExisting x parent position =>
    have hmap := (h.addExisting x parent position).map Answer.item
    rw [← comp_map] at hmap
    exact hmap
  | update x =>
    have hmap := (h.update x).map fun _ => Answer.done
    rw [← comp_map] at hmap
    rw [Editor.respond, bind_pure_comp]
    exact hmap
  | rename old new references =>
    have hmap := (h.rename old new references).map fun _ => Answer.done
    rw [← comp_map] at hmap
    rw [Editor.respond, bind_pure_comp]
    exact hmap
  | remove key => exact (h.remove key).map Answer.item
  | move key destination => exact (h.move key destination).map Answer.item

end Laid

end Editor

end Questionnaire
