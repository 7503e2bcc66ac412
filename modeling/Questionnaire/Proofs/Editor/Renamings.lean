import Questionnaire.Proofs.Editor.Relabel
import Questionnaire.Proofs.Editor.SurveyKey
import Questionnaire.Proofs.Survey.Congruence

/-!
# Renamings one after the other

Renaming an item to `b` and then to `c` is renaming it to `c` at once, if before the first renaming
no reference leads to `b` or below it.  For otherwise the second renaming would carry references
that the item did not have.  In particular, renaming the item back restores the survey.
-/

namespace Questionnaire

open NodeTree

/-- The keys that an item gets by two renamings are those that it gets by one to the last key. -/
theorem Item.Rekeys.comp {x : Item} {b c : Key} {k₁ k₂ k r : Key → Key} (h₁ : x.Rekeys b k₁)
    (h₂ : (x.relabel k₁ r).Rekeys c k₂) (h : x.Rekeys c k) :
  ∀ key ∈ x.keys, (k₂ ∘ k₁) key = k key
  := by
  have htop := h₂.top
  rw [Item.key_relabel] at htop
  apply Item.Rekeys.eq_of_mem (htop.trans h.top.symm) _ h.below
  intro g hg y hy
  have hgroup : group (g.relabel k₁ r) ∈ (x.relabel k₁ r).subtree := by
    rw [subtree_relabel]
    apply List.mem_map_of_mem hg
  have hitem : y.relabel k₁ r ∈ (g.relabel k₁ r).items := by
    rw [Group.items_relabel]
    apply List.mem_map_of_mem hy
  have hbelow := h₂.below _ hgroup _ hitem
  have hgkey : (g.relabel k₁ r).key = k₁ g.key := key_relabel k₁ r (group g)
  rw [key_relabel, hgkey] at hbelow
  rw [Function.comp_apply, Function.comp_apply, hbelow, h₁.below g hg y hy, Key.leaf_child_leaf]

namespace Editor

namespace Laid

variable {e e' : Editor} {t t' : NodeTree} {a b c : Key} {s'' : Survey}

/-- What a renaming of an item to another key finds, and what it makes of the survey. -/
theorem exists_of_rename (h : e.Laid t) {s : Survey} (hroot : a ≠ e.survey.key) (hne : a ≠ b)
    (hok : e.survey.rename a b .follow = .ok s) :
  ∃ x g k, e.survey.locate a = .ok x ∧ e.survey.HasGroup g ∧ x ∈ g.items
    ∧ Key.parent? b = some g.key ∧ b ∉ e.survey.keys ∧ x.Rekeys b k
    ∧ s = e.survey.relabel k (Key.rebase a b)
  := by
  obtain ⟨x, hx, hplace⟩ := (h.rename_isOk_iff hroot .follow).mp ⟨s, hok⟩
  obtain ⟨⟨g, hg, hxg, hparent⟩, hfree⟩ := hplace.resolve_left hne
  obtain ⟨-, hrelabel, -⟩ := h.survey_of_rename hok
  obtain ⟨y, k, hy, hk, hs⟩ := hrelabel fun hsame => hne hsame.1
  rw [hx, Except.ok.injEq] at hy
  subst hy
  use x, g, k, hx, hg, hxg, hparent, Survey.contains_eq_false_iff.mp hfree, hk
  apply hs

/-- In the subtree of an item, only the item has a key with the parent of its own. -/
theorem eq_of_mem_keys (h : e.Laid t) {x : Item} {g : Group} (hroot : a ≠ e.survey.key)
    (hx : e.survey.locate a = .ok x) (hg : e.survey.HasGroup g) (hxg : x ∈ g.items)
    (hparent : Key.parent? c = some g.key) (hmem : c ∈ x.keys) :
  a = c
  := by
  obtain ⟨-, rfl, hwithin⟩ := h.locate_eq_ok_iff.mp hx
  rw [h.survey_key] at hroot
  have hgkeyed := h.wellKeyed.root.of_mem hg
  have hxkeyed := hgkeyed.of_mem (Item.subtree_subset_of_mem_children hxg x.mem_subtree_self)
  have hxparent := Key.parent?_of_isWithin hwithin hroot
  rw [hgkeyed.nested g (Item.mem_subtree_self _) x hxg] at hxparent
  have hbelow := hxkeyed.isWithin (hgkeyed.key_ne_empty hxg) hmem
  apply Key.eq_of_parent?_eq hbelow (Key.isWithin_refl c) hxparent hparent

/-- If an item can be renamed twice, it can be renamed to the last key at once. -/
theorem rename_isOk_of_renamings (h : e.Laid t) (h' : e'.Laid t') (hroot : a ≠ e.survey.key)
    (hne : a ≠ b) (hab : e.survey.rename a b .follow = .ok e'.survey)
    (hbc : e'.survey.rename b c .follow = .ok s'') :
  ∃ s, e.survey.rename a c .follow = .ok s
  := by
  obtain ⟨x, g, k, hx, hg, hxg, hparent, hfree, hk, hs'⟩ := h.exists_of_rename hroot hne hab
  have hroot' : b ≠ e'.survey.key := by
    rw [Survey.key_rename hab, if_neg hroot]
    rintro rfl
    apply hfree (Survey.mem_keys_iff.mpr ⟨_, Item.mem_subtree_self _, rfl⟩)
  apply (h.rename_isOk_iff hroot .follow).mpr
  use x, hx
  by_cases hsame : b = c
  · subst hsame
    right
    use ⟨g, hg, hxg, hparent⟩, Survey.contains_eq_false_iff.mpr hfree
  · obtain ⟨y, g', -, hy, hg', hyg, hparent', hfree', -⟩ := h'.exists_of_rename hroot' hsame hbc
    have hgkey : g'.key = g.key := by
      obtain ⟨-, hykey, -⟩ := h'.locate_eq_ok_iff.mp hy
      rw [← h'.wellKeyed.root.nested g' hg' y hyg, hykey, Key.parent, hparent, Option.getD_some]
    rw [hgkey] at hparent'
    by_cases hc : c ∈ x.keys
    · left
      apply h.eq_of_mem_keys hroot hx hg hxg hparent' hc
    · right
      use ⟨g, hg, hxg, hparent'⟩, Survey.contains_eq_false_iff.mpr ?_
      intro hmem
      have hmem' := List.mem_map_of_mem (f := k) hmem
      rw [hk.other c hc, ← Survey.keys_relabel k (Key.rebase a b), ← hs'] at hmem'
      apply hfree' hmem'

/-- Two renamings make of the survey what one to the last key makes of it. -/
theorem rename_eq_of_renamings (h : e.Laid t) (h' : e'.Laid t') (hroot : a ≠ e.survey.key)
    (hne : a ≠ b) (hfresh : ∀ key ∈ e.survey.references, ¬ Key.isWithin key b = true)
    (hab : e.survey.rename a b .follow = .ok e'.survey)
    (hbc : e'.survey.rename b c .follow = .ok s'') :
  e.survey.rename a c .follow = .ok s''
  := by
  obtain ⟨s, hac⟩ := h.rename_isOk_of_renamings h' hroot hne hab hbc
  obtain ⟨x, g, k₁, hx, hg, hxg, hparent, hfree, hk₁, hs'⟩ := h.exists_of_rename hroot hne hab
  obtain ⟨hmem, rfl, hwithin⟩ := h.locate_eq_ok_iff.mp hx
  have hxne := (h.wellKeyed.root.of_mem hg).key_ne_empty hxg
  obtain ⟨-, hrelabel, -⟩ := h.survey_of_rename hac
  obtain ⟨x', k, hx', hk, hs⟩ := hrelabel fun hsame => hxne hsame.2
  rw [hx, Except.ok.injEq] at hx'
  subst hx'
  obtain ⟨-, hrelabel', -⟩ := h'.survey_of_rename hbc
  obtain ⟨y, k₂, hy, hk₂, hs''⟩ := hrelabel' (by
    rintro ⟨-, rfl⟩
    cases hparent)
  have hsame : y = x.relabel k₁ (Key.rebase x.key b) := by
    obtain ⟨hymem, hykey, -⟩ := h'.locate_eq_ok_iff.mp hy
    have hmem' := Survey.mem_subtree_relabel hmem k₁ (Key.rebase x.key b)
    rw [← hs'] at hmem'
    apply h'.wellKeyed.root.eq_of_key_eq hymem hmem'
    rw [hykey, Item.key_relabel, hk₁.top]
  subst hsame
  rw [hac, hs, hs'', hs', Survey.relabel_relabel]
  congr 1
  apply Survey.relabel_congr
  · intro key hkey
    by_cases hinside : key ∈ x.keys
    · apply (hk₁.comp hk₂ hk key hinside).symm
    · rw [hk.other key hinside, Function.comp_apply, hk₁.other key hinside, hk₂.other]
      rw [Item.keys_relabel]
      intro hmoved
      obtain ⟨key', hkey', hsame⟩ := List.mem_map.mp hmoved
      have hnodup := h'.survey_nodup
      rw [hs', Survey.keys_relabel] at hnodup
      have hmemkey' : key' ∈ e.survey.keys := by
        rw [Survey.keys, ← Item.keys_group]
        apply ((Item.subtree_sublist hmem).map Item.key).subset hkey'
      have hkeys := List.inj_on_of_nodup_map hnodup hmemkey' hkey
        (hsame.trans (hk₁.other key hinside).symm)
      rw [hkeys] at hkey'
      apply hinside hkey'
  · intro key hkey
    apply (Key.rebase_rebase (hfresh key hkey)).symm

end Laid

/-- If an item other than the root is renamed to another key, and no reference led to that key or
below it, renaming the item once more makes of the survey what renaming it to the last key at once
makes of it, which succeeds.  If that is the key that the item had, it restores the survey. -/
theorem Reachable.composes_of_renamings {e e' : Editor} (h : Reachable e) {a b c : Key}
    (hroot : a ≠ e.key) (hne : b ≠ a)
    (hfresh : ∀ key ∈ e.survey.references, ¬ Key.isWithin key b = true) {x y : Answer}
    (hrun : Run e [.rename a b .follow, .rename b c .follow] [.ok x, .ok y] e') :
  (∃ e'', e.serve (.rename a c .follow) = (.ok .done, e'') ∧ e''.survey = e'.survey)
    ∧ (c = a → e'.survey = e.survey)
  := by
  obtain ⟨t, ht⟩ := h.laid
  rw [← ht.survey_key] at hroot
  obtain ⟨s, hfirst, hrest⟩ := Survey.exists_of_respondAll_cons (hrun.respondAll_eq h)
  obtain ⟨s', hsecond, hnone⟩ := Survey.exists_of_respondAll_cons hrest
  obtain rfl : s' = e'.survey := congrArg Prod.snd hnone
  have hagrees := ht.serve (.rename a b .follow)
  rw [hfirst] at hagrees
  obtain ⟨e₁, t₁, ht₁, -, rfl⟩ := hagrees.of_ok
  obtain ⟨s₁, hab, heq₁⟩ := exists_of_map_eq_ok hfirst
  obtain ⟨s₂, hbc, heq₂⟩ := exists_of_map_eq_ok hsecond
  obtain ⟨-, rfl⟩ := Prod.mk.inj heq₁
  obtain ⟨-, rfl⟩ := Prod.mk.inj heq₂
  have hac := ht.rename_eq_of_renamings ht₁ hroot hne.symm hfresh hab hbc
  constructor
  · have hagrees' := ht.serve (.rename a c .follow)
    rw [Survey.respond, hac] at hagrees'
    obtain ⟨e'', -, -, hserve, hsurvey⟩ := hagrees'.of_ok
    use e'', hserve, hsurvey
  · rintro rfl
    obtain ⟨x, hx, -⟩ := exists_of_bind_eq_ok hab
    rw [Survey.rename_self hx, Except.ok.injEq] at hac
    apply hac.symm

/-- A group to whose question an item refers is renamed twice, and gets the key and the references
that it would have got at once. -/
theorem composes_of_renamings_group :
  let e := (sample.serve (.rename "survey.g" "survey.h" .follow)).2
  let r := e.serve (.rename "survey.h" "survey.k" .follow)
  "survey.k.q" ∈ r.2.survey.references
    ∧ ∃ e', sample.serve (.rename "survey.g" "survey.k" .follow) = (.ok .done, e')
      ∧ e'.survey = r.2.survey
  := by
  intro e r
  have hreachable : Reachable sample := ((Reachable.new.served _).served _).served _
  have hfirst : (sample.serve (.rename "survey.g" "survey.h" .follow)).1 = .ok .done := rfl
  have hsecond : ((sample.serve (.rename "survey.g" "survey.h" .follow)).2.serve
      (.rename "survey.h" "survey.k" .follow)).1 = .ok .done := rfl
  have hrun : Run sample
      [.rename "survey.g" "survey.h" .follow, .rename "survey.h" "survey.k" .follow] _ r.2 :=
    .served (.served (.done _))
  rw [hfirst, hsecond] at hrun
  use by decide
  apply (hreachable.composes_of_renamings (by decide) (by decide) (by decide) hrun).1

end Editor

end Questionnaire
