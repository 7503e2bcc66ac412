import Questionnaire.Proofs.Json.Reads
import Questionnaire.Survey.Edit

/-!
# Edits of a survey that succeed

An item that is found can be removed, if it is not the root.  It can get another key in the same
group or be moved to another group, if the keys of its subtree are free.
-/

namespace Questionnaire

namespace Survey

variable {s : Survey} {x : Item} {key : Key}

theorem locate_key (s : Survey) :
  s.locate s.key = .ok (.group s.root)
  := if_pos rfl

theorem remove_eq_ok (hlocate : s.locate key = .ok x) (hroot : key ≠ s.key) :
  s.remove key = .ok (x, s.mapRoot (·.erase key))
  := by
  rw [remove, hlocate]
  simp only [bind, Except.bind, hroot, if_false]
  rfl

/-- An item can be given the key that it has, and nothing changes. -/
theorem rename_self (hlocate : s.locate key = .ok x) (references : References) :
  s.rename key key references = .ok s
  := by
  rw [rename, hlocate]
  simp only [bind, Except.bind, if_true]
  rfl

/-- An item can be given another key. -/
theorem rename_eq_ok (hlocate : s.locate key = .ok x) {new : Key} (hne : key ≠ new)
    (hparent : key ≠ s.key → Key.parent? new = some (Key.parent key))
    (hcheck : s.checkRekey x new = .ok ()) (references : References) :
  s.rename key new references = .ok
    (match references with
    | .follow => (s.modifyItem key (·.rekey new)).redirect key new
    | .keep => s.modifyItem key (·.rekey new))
  := by
  have hguard : ¬ (key ≠ s.key ∧ Key.parent? new ≠ some (Key.parent key)) := by
    rintro ⟨hroot, hother⟩
    apply hother (hparent hroot)
  rw [rename, hlocate]
  simp only [bind, Except.bind, hne, if_false, hguard, hcheck]
  cases references with
  | _ => rfl

/-- When an item has been given another key, it was found, the key is that of an item of the same
group, and all keys were free. -/
theorem exists_of_rename_eq_ok {s' : Survey} {old new : Key} {references : References}
    (h : s.rename old new references = .ok s') (hne : old ≠ new) :
  ∃ x, s.locate old = .ok x ∧ (old ≠ s.key → Key.parent? new = some (Key.parent old))
    ∧ s.checkRekey x new = .ok ()
    ∧ (references = .follow → s' = (s.modifyItem old (·.rekey new)).redirect old new)
    ∧ (references = .keep → s' = s.modifyItem old (·.rekey new))
  := by
  obtain ⟨x, hlocate, h⟩ := exists_of_bind_eq_ok h
  rw [if_neg hne] at h
  by_cases hguard : old ≠ s.key ∧ Key.parent? new ≠ some (Key.parent old)
  · rw [if_pos hguard] at h
    cases h
  · rw [if_neg hguard] at h
    obtain ⟨_, hcheck, h⟩ := exists_of_bind_eq_ok h
    refine ⟨x, hlocate, not_and_not_right.mp hguard, hcheck, ?_, ?_⟩
    · rintro rfl
      cases h
      rfl
    · rintro rfl
      cases h
      rfl

/-- An item can be moved to a group that does not stand below it. -/
theorem move_eq_ok (hlocate : s.locate key = .ok x) {destination new : Key} {g : Group}
    (hgroup : s.locate destination = .ok (.group g)) (houtside : g.key ∉ x.keys)
    (hnew : Key.child g.key (Key.leaf key) = new) (hcheck : s.checkRekey x new = .ok ()) :
  s.move key destination = .ok ((x.rekey new).redirect key new,
    (s.mapRoot fun root => (root.erase key).mapItemsAt g.key (insertAt none (x.rekey new))).redirect
      key new)
  := by
  have hkey : (Item.group g).key = g.key := rfl
  rw [move, hlocate, hgroup]
  simp only [bind, Except.bind, hkey, houtside, if_false, Item.isGroup, Bool.not_true,
    Bool.false_eq_true, hnew, hcheck]
  rfl

end Survey

end Questionnaire
