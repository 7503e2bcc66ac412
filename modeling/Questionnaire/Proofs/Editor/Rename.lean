import Questionnaire.Proofs.Editor.Rekey

/-!
# Renamed items

Renaming an item carries out a plan for its subtree where it stands, and agrees with renaming it in
the survey.
-/

namespace Questionnaire

open NodeTree

namespace Editor

namespace Laid

variable {e : Editor} {t u : NodeTree}

/-- The keys of an item and those of its nodes. -/
theorem mem_keys_item_iff (h : e.Laid t) (hu : Within u t) {id : NodeId} (hid : id ∈ t.ids) :
  (e.node id).key ∈ (u.item e.own).keys ↔ id ∈ u.ids
  := by
  rw [(h.fits.within hu).keys_item, List.mem_map]
  constructor
  · rintro ⟨i, hi, hsame⟩
    rwa [← h.eq_of_key_eq (hu.ids_subset hi) hid hsame]
  · intro hid'
    use id, hid'
    rfl

/-- The arena and the survey find the same keys free for a subtree. -/
theorem checkRekey_eq (h : e.Laid t) (hu : Within u t) (new : Key) :
  e.checkFree ((e.rekeyPlan u.top new).map (·.2)) ((e.rekeyPlan u.top new).map (·.1))
    = e.survey.checkRekey (u.item e.own) new
  := by
  obtain ⟨keys, hplan, hkeys, -, -⟩ := h.exists_plan hu new
  have hperm : (breadthFirst [u]).Perm u.ids := by
    simpa using breadthFirst_perm [u]
  rw [hplan, List.map_map, List.map_map, Survey.checkRekey, ← hkeys]
  apply h.checkFree_eq
  intro id hid
  rw [h.mem_keys_item_iff hu hid, ← hperm.mem_iff]
  simp

/-- When the check succeeds, the plan gives the nodes of the subtree different keys that no other
node has. -/
theorem exists_free_plan (h : e.Laid t) (hu : Within u t) {new : Key}
    (hcheck : e.survey.checkRekey (u.item e.own) new = .ok ()) :
  ∃ keys : NodeId → Key,
    e.rekeyPlan u.top new = (breadthFirst [u]).map (fun id => (id, keys id))
      ∧ ((breadthFirst [u]).map keys).Nodup
      ∧ (∀ id ∈ t.ids, id ∉ u.ids → (e.node id).key ∉ (breadthFirst [u]).map keys)
      ∧ keys u.top = new
      ∧ ∀ id us, Within (.node id us) u → ∀ v ∈ us,
        keys v.top = Key.child (keys id) (Key.leaf (e.node v.top).key)
  := by
  obtain ⟨keys, hplan, hkeys, htop, hbelow⟩ := h.exists_plan hu new
  rw [Survey.checkRekey, ← hkeys, checkFree_eq_ok_iff] at hcheck
  use keys, hplan, hcheck.1
  refine ⟨?_, htop, hbelow⟩
  intro id hid hnot hkey
  apply hcheck.2 _ hkey
  rw [Survey.keysWithout, List.mem_filter, decide_eq_true_eq, h.mem_keys_item_iff hu hid,
    h.survey_keys]
  exact ⟨List.mem_map_of_mem hid, hnot⟩

/-- The arena is laid out again when a subtree gets a free key where it stands, and its survey has
the item of the subtree under that key. -/
theorem rekeyed (h : e.Laid t) (hu : Within u t) {new : Key}
    (htop : ∀ parent, (e.node u.top).parent = some parent → Key.parent new = (e.node parent).key)
    (hcheck : e.survey.checkRekey (u.item e.own) new = .ok ()) :
  (e.applyPlan (e.rekeyPlan u.top new)).Laid t
    ∧ (e.applyPlan (e.rekeyPlan u.top new)).survey
      = e.survey.modifyItem (e.node u.top).key (·.rekey new)
    ∧ Rekeyed e (e.applyPlan (e.rekeyPlan u.top new)) u new
  := by
  obtain ⟨keys, hplan, hkeys, hfree, rfl, hbelow⟩ := h.exists_free_plan hu hcheck
  obtain ⟨hlaid, hdocument, hitem, hrekeyed⟩ :=
    h.rekey hu hkeys hfree hbelow (fun id hid _ => h.nested id hid) htop
  rw [← hplan] at hlaid hdocument hitem hrekeyed
  refine ⟨hlaid, ?_, hrekeyed⟩
  apply h.survey_eq_modifyItem_of_same hlaid hdocument hu hrekeyed.outside hitem

/-- Giving a subtree another key where it stands agrees with doing so in the survey. -/
theorem rekeySubtree (h : e.Laid t) (hu : Within u t) {old new : Key} (references : References)
    (hold : (e.node u.top).key = old)
    (htop : ∀ parent, (e.node u.top).parent = some parent → Key.parent new = (e.node parent).key) :
  Agrees e
    ((do
      Editor.rekeySubtree u.top new
      match references with
      | .follow => modify fun e => e.redirect old new
      | .keep => return : Action Unit).run e)
    (((), ·) <$> (do
      e.survey.checkRekey (u.item e.own) new
      let renamed := e.survey.modifyItem old (·.rekey new)
      match references with
      | .follow => return renamed.redirect old new
      | .keep => return renamed))
  := by
  rw [map_bind, ← h.checkRekey_eq hu]
  unfold Editor.rekeySubtree
  simp only [bind_assoc]
  apply Agrees.get
  apply Agrees.lift
  intro _ hcheck
  rw [h.checkRekey_eq hu] at hcheck
  obtain ⟨hlaid, hsurvey, -⟩ := h.rekeyed hu htop hcheck
  rw [hold] at hsurvey
  cases references with
  | keep =>
    have hok := Agrees.ok (e := e) () hlaid
    rw [hsurvey] at hok
    exact hok
  | follow =>
    obtain ⟨hredirected, hsurvey', -⟩ := hlaid.redirect old new
    have hok := Agrees.ok (e := e) () hredirected
    rw [hsurvey', hsurvey] at hok
    exact hok

/-- Renaming an item agrees with renaming it in the survey. -/
theorem rename (h : e.Laid t) (old new : Key) (references : References) :
  Agrees e ((Editor.rename old new references).run e)
    (((), ·) <$> e.survey.rename old new references)
  := by
  rw [Survey.rename, map_bind]
  unfold Editor.rename
  apply Agrees.get
  apply Agrees.find (h.finds_locate old)
  intro u hu hfound
  have hkey : (e.node u.top).key = old := h.key_of_locate hfound
  by_cases hsame : old = new
  · simp only [hsame, if_true]
    exact Agrees.ok () h
  · simp only [hsame, if_false]
    cases hparent : (e.node u.top).parent with
    | none =>
      have hroot : old = e.survey.key := by
        rw [← hkey, h.key_eq_survey_key_iff hu.top_mem, ← h.parent_eq_none_iff hu.top_mem]
        exact hparent
      have hguard : ¬ (old ≠ e.survey.key ∧ Key.parent? new ≠ some (Key.parent old)) := by
        rintro ⟨hne, -⟩
        apply hne hroot
      rw [if_neg hguard]
      apply h.rekeySubtree hu references hkey
      rw [hparent]
      rintro _ ⟨⟩
    | some parent =>
      have hparentKey : (e.node parent).key = Key.parent old := by
        rw [← hkey]
        exact (h.nested _ hu.top_mem parent hparent).symm
      have hroot : ¬ old = e.survey.key := by
        rw [← hkey, h.key_eq_survey_key_iff hu.top_mem, ← h.parent_eq_none_iff hu.top_mem, hparent]
        rintro ⟨⟩
      simp only [hparentKey, hroot, ne_eq, not_false_eq_true, true_and]
      by_cases hguard : Key.parent? new = some (Key.parent old)
      · rw [if_neg (not_not.mpr hguard), if_neg (not_not.mpr hguard)]
        apply h.rekeySubtree hu references hkey
        intro q hq
        rw [hparent] at hq
        cases hq
        rw [hparentKey, Key.parent, hguard]
        rfl
      · rw [if_pos hguard, if_pos hguard]
        apply Agrees.error

end Laid

end Editor

end Questionnaire
