import Questionnaire.Proofs.Editor.Reachable
import Questionnaire.Proofs.Json.Reads

/-!
# The key of a survey that is edited

The key of a survey is that of its root.  Additions, updates, removals and moves leave the root its
key, also an update of the root itself; of all requests, only those that rename the root change it
(`Survey.key_of_respond`).  So an editor has the key that the requests it has answered lead to.
-/

namespace Questionnaire

/-! ### Groups -/

namespace Group

theorem key_mapGroups {f : Group → Group} (h : ∀ g, (f g).key = g.key) (g : Group) :
  (g.mapGroups f).key = g.key
  := Item.key_mapGroups h (.group g)

@[simp]
theorem key_mapItemsAt (key : Key) (f : List Item → List Item) (g : Group) :
  (g.mapItemsAt key f).key = g.key
  := by
  apply key_mapGroups
  intro g
  split
  · rfl
  · rfl

@[simp]
theorem key_erase (key : Key) (g : Group) :
  (g.erase key).key = g.key
  := by
  apply key_mapGroups
  intro g
  rfl

@[simp]
theorem key_replace (key : Key) (f : Item → Item) (g : Group) :
  (g.replace key f).key = g.key
  := by
  apply key_mapGroups
  intro g
  rfl

@[simp]
theorem key_redirect (old new : Key) (g : Group) :
  (g.redirect old new).key = g.key
  := by
  obtain ⟨head, selectionMethod, items⟩ := g
  rfl

end Group

/-! ### Edits of a survey -/

open Editor (Answer Request Setting)

/-- The key that a survey has after a request that is answered. -/
def Editor.Request.rootKey (key : Key) : Request → Key
  | .rename old new _ => if old = key then new else key
  | _ => key

namespace Survey

variable {s s' : Survey} {key : Key}

@[simp]
theorem key_redirect (old new : Key) (s : Survey) :
  (s.redirect old new).key = s.key
  := Group.key_redirect old new s.root

theorem key_apply (setting : Setting) (s : Survey) :
  (setting.apply s).key = s.key
  := by
  cases setting with
  | _ => rfl

/-- Modifying the root gives the survey the key of what the root becomes. -/
theorem key_modifyItem_root (s : Survey) {f : Item → Item}
    (hgroup : (f (.group s.root)).isGroup = true) :
  (s.modifyItem s.key f).key = (f (.group s.root)).key
  := by
  rw [modifyItem, if_pos rfl]
  cases hf : f (.group s.root) with
  | single x =>
    rw [hf] at hgroup
    cases hgroup
  | group root => rfl

/-- Modifying another item does not change the key of the survey. -/
theorem key_modifyItem_of_ne (f : Item → Item) (hne : key ≠ s.key) :
  (s.modifyItem key f).key = s.key
  := by
  rw [modifyItem, if_neg hne]
  apply Group.key_replace

theorem key_insert {x : Item} {parent : Key} {position : Option Nat}
    (h : s.insert x parent position = .ok s') :
  s'.key = s.key
  := by
  obtain ⟨-, -, h⟩ := exists_of_bind_eq_ok h
  cases h
  apply Group.key_mapItemsAt

theorem key_addExisting {x : Item} {parent : Key} {position : Option Nat}
    (h : s.addExisting x parent position = .ok s') :
  s'.key = s.key
  := by
  obtain ⟨group, -, h⟩ := exists_of_bind_eq_ok h
  exact key_insert h

theorem key_add {kind : Item.Kind} {name : String} {parent : Option Key} {position : Option Nat}
    {x : Item} (h : s.add kind name parent position = .ok (x, s')) :
  s'.key = s.key
  := by
  obtain ⟨group, -, h⟩ := exists_of_bind_eq_ok h
  obtain ⟨after, hinsert, h⟩ := exists_of_bind_eq_ok h
  cases h
  exact key_insert hinsert

/-- An update of the root leaves it its key, since it is the key of the update. -/
theorem key_update {x : Item} (h : s.update x = .ok s') :
  s'.key = s.key
  := by
  obtain ⟨old, hold, h⟩ := exists_of_bind_eq_ok h
  obtain ⟨-, -, h⟩ := exists_of_bind_eq_ok h
  obtain ⟨-, -, h⟩ := exists_of_bind_eq_ok h
  cases h
  by_cases hkey : x.key = s.key
  · rw [updated, if_pos hkey] at hold
    split at hold
    · next hgroup =>
      rw [hkey, key_modifyItem_root, Item.key_merge, hkey]
      rw [Item.isGroup_merge, hgroup]
    · cases hold
  · exact key_modifyItem_of_ne _ hkey

/-- Renaming the root gives the survey the new key, and renaming another item leaves it its key. -/
theorem key_rename {old new : Key} {references : References}
    (h : s.rename old new references = .ok s') :
  s'.key = if old = s.key then new else s.key
  := by
  obtain ⟨x, -, h⟩ := exists_of_bind_eq_ok h
  by_cases hsame : old = new
  · rw [if_pos hsame] at h
    cases h
    split
    · next hroot => rw [← hroot, hsame]
    · rfl
  · have hmodify : (s.modifyItem old (·.rekey new)).key = if old = s.key then new else s.key := by
      split
      · next hroot =>
        rw [hroot, key_modifyItem_root, Item.key_rekey]
        rfl
      · next hroot => exact key_modifyItem_of_ne _ hroot
    rw [if_neg hsame] at h
    by_cases hguard : old ≠ s.key ∧ Key.parent? new ≠ some (Key.parent old)
    · simp only [if_pos hguard] at h
      cases h
    · simp only [if_neg hguard] at h
      obtain ⟨-, -, h⟩ := exists_of_bind_eq_ok h
      cases references with
      | follow =>
        cases h
        rw [key_redirect, hmodify]
      | keep =>
        cases h
        exact hmodify

theorem key_remove {x : Item} (h : s.remove key = .ok (x, s')) :
  s'.key = s.key
  := by
  obtain ⟨y, -, h⟩ := exists_of_bind_eq_ok h
  by_cases hroot : key = s.key
  · simp only [if_pos hroot] at h
    cases h
  · simp only [if_neg hroot] at h
    cases h
    apply Group.key_erase

theorem key_move {destination : Key} {x : Item} (h : s.move key destination = .ok (x, s')) :
  s'.key = s.key
  := by
  obtain ⟨y, -, h⟩ := exists_of_bind_eq_ok h
  obtain ⟨group, -, h⟩ := exists_of_bind_eq_ok h
  by_cases hinside : group.key ∈ y.keys
  · simp only [if_pos hinside] at h
    cases h
  · by_cases hgroup : (!group.isGroup) = true
    · simp only [if_neg hinside, if_pos hgroup] at h
      cases h
    · simp only [if_neg hinside, if_neg hgroup] at h
      obtain ⟨-, -, h⟩ := exists_of_bind_eq_ok h
      cases h
      rw [key_redirect]
      apply (Group.key_mapItemsAt _ _ _).trans (Group.key_erase key s.root)

/-- Of all requests only the renaming of the root changes the key of a survey. -/
theorem key_of_respond {r : Request} {a : Answer} (h : s.respond r = .ok (a, s')) :
  s'.key = r.rootKey s.key
  := by
  cases r with
  | key =>
    cases h
    rfl
  | contains key =>
    cases h
    rfl
  | find key =>
    obtain ⟨x, -, h⟩ := exists_of_map_eq_ok h
    cases h
    rfl
  | survey =>
    cases h
    rfl
  | text style =>
    cases h
    rfl
  | set setting =>
    cases h
    apply key_apply
  | add kind name parent position =>
    obtain ⟨⟨x, s''⟩, hadd, h⟩ := exists_of_map_eq_ok h
    cases h
    exact key_add hadd
  | addExisting x parent position =>
    obtain ⟨s'', hadd, h⟩ := exists_of_map_eq_ok h
    cases h
    exact key_addExisting hadd
  | update x =>
    obtain ⟨s'', hupdate, h⟩ := exists_of_map_eq_ok h
    cases h
    exact key_update hupdate
  | rename old new references =>
    obtain ⟨s'', hrename, h⟩ := exists_of_map_eq_ok h
    cases h
    exact key_rename hrename
  | remove key =>
    obtain ⟨⟨x, s''⟩, hremove, h⟩ := exists_of_map_eq_ok h
    cases h
    exact key_remove hremove
  | move key destination =>
    obtain ⟨⟨x, s''⟩, hmove, h⟩ := exists_of_map_eq_ok h
    cases h
    exact key_move hmove

end Survey

/-! ### Requests to an editor -/

namespace Editor

variable {e : Editor}

/-- A request changes the key of the survey only if it is answered and renames the root. -/
theorem Reachable.key_serve (h : Reachable e) (r : Request) :
  (e.serve r).2.survey.key
    = match (e.serve r).1 with
      | .ok _ => r.rootKey e.survey.key
      | .error _ => e.survey.key
  := by
  obtain ⟨t, ht⟩ := h.laid
  obtain ⟨err, hserve, -⟩ | ⟨a, e', -, -, hserve, hrespond⟩ := (ht.serve r).cases
  · rw [hserve]
  · rw [hserve]
    exact Survey.key_of_respond hrespond

end Editor

end Questionnaire
