import Questionnaire.Proofs.Survey.Relabel

/-!
# Relabellings that agree

A survey is relabelled by two maps, of which it matters only what they do to its keys and to its
references: maps that agree on these relabel it alike (`Survey.relabel_congr`).  The same is shown
for each part of the document in turn, from the texts of an expression to the rules of a survey.
-/

namespace Questionnaire

/-! ### Texts that are mapped alike -/

theorem Expression.mapTexts_congr {f g : String → String} {e : Expression}
    (h : ∀ text ∈ e.texts, f text = g text) :
  e.mapTexts f = e.mapTexts g
  := by
  induction e using inductionOn with
  | apply name returnType arguments ih =>
    rw [texts, Argument.textsOf_eq] at h
    rw [mapTexts, mapTexts, Argument.mapTextsOf_eq, Argument.mapTextsOf_eq]
    congr 1
    apply List.map_congr_left
    intro a ha
    have hargument : ∀ text ∈ a.texts, f text = g text := by
      intro text htext
      apply h text (List.mem_flatMap_of_mem ha htext)
    cases a with
    | text s => exact congrArg Argument.text (hargument s List.mem_cons_self)
    | number x => rfl
    | expression e => exact congrArg Argument.expression (ih e ha hargument)

/-! ### Expressions that are replaced alike -/

/-- Lists that may be missing are mapped alike by maps that agree on what is in them. -/
theorem map_map_congr {α β : Type} {f g : α → β} {xs : Option (List α)}
    (h : ∀ x ∈ xs.getD [], f x = g x) :
  xs.map (·.map f) = xs.map (·.map g)
  := by
  cases xs with
  | none => rfl
  | some xs => exact congrArg some (List.map_congr_left h)

theorem map_congr_toList {α β : Type} {f g : α → β} {x : Option α} (h : ∀ a ∈ x.toList, f a = g a) :
  x.map f = x.map g
  := by
  apply Option.map_congr
  intro a ha
  apply h a (Option.mem_toList.mpr ha)

variable {f g : Expression → Expression}

theorem Argument.mapExpression_congr {a : Argument} (h : ∀ e ∈ a.expression?, f e = g e) :
  a.mapExpression f = a.mapExpression g
  := by
  cases a with
  | text s => rfl
  | number x => rfl
  | expression e => exact congrArg expression (h e rfl)

theorem LocalizedText.mapExpressions_congr {t : LocalizedText} (h : ∀ e ∈ t.expressions, f e = g e) :
  t.mapExpressions f = t.mapExpressions g
  := by
  rw [mapExpressions, mapExpressions]
  congr 1
  apply List.map_congr_left
  intro a ha
  apply Argument.mapExpression_congr
  intro e he
  apply h e (List.mem_filterMap.mpr ⟨a, ha, he⟩)

theorem map_mapExpressions_congr {texts : Option (List LocalizedText)}
    (h : ∀ t ∈ texts.getD [], ∀ e ∈ t.expressions, f e = g e) :
  texts.map (·.map (LocalizedText.mapExpressions f))
    = texts.map (·.map (LocalizedText.mapExpressions g))
  := map_map_congr fun t ht => LocalizedText.mapExpressions_congr (h t ht)

namespace Component

theorem Head.mapExpressions_congr {h : Head} (hsame : ∀ e ∈ h.expressions, f e = g e) :
  h.mapExpressions f = h.mapExpressions g
  := by
  simp only [expressions, List.forall_mem_append, List.forall_mem_flatMap] at hsame
  obtain ⟨⟨⟨⟨hdisplayed, hdisabled⟩, horder⟩, hcontent⟩, hdescription⟩ := hsame
  rw [mapExpressions, mapExpressions, map_congr_toList hdisplayed, map_congr_toList hdisabled,
    map_congr_toList horder, map_mapExpressions_congr hcontent,
    map_mapExpressions_congr hdescription]

theorem mapExpressions_congr {c : Component} (h : ∀ e ∈ c.expressions, f e = g e) :
  c.mapExpressions f = c.mapExpressions g
  := by
  induction c using inductionOn with
  | mk head items ih =>
    cases items with
    | none =>
      rw [mapExpressions, mapExpressions, Head.mapExpressions_congr h]
    | some cs =>
      rw [expressions, expressionsOf_eq, List.forall_mem_append, List.forall_mem_flatMap] at h
      rw [mapExpressions, mapExpressions, Head.mapExpressions_congr h.1, mapExpressionsOf_eq,
        mapExpressionsOf_eq]
      congr 2
      apply List.map_congr_left
      intro c hc
      apply ih cs rfl c hc (h.2 c hc)

end Component

theorem SingleItem.mapExpressions_congr {s : SingleItem} (h : ∀ e ∈ s.expressions, f e = g e) :
  s.mapExpressions f = s.mapExpressions g
  := by
  rw [expressions, List.forall_mem_append, List.forall_mem_append, List.forall_mem_map] at h
  obtain ⟨⟨hcondition, hrules⟩, hcomponents⟩ := h
  have hvalidations : s.validations.map (·.map fun v => { v with rule := f v.rule })
      = s.validations.map (·.map fun v => { v with rule := g v.rule }) := by
    apply map_map_congr
    intro v hv
    rw [hrules v hv]
  have hroot : s.components.map (Component.mapExpressions f)
      = s.components.map (Component.mapExpressions g) := by
    apply Option.map_congr
    intro c hc
    apply Component.mapExpressions_congr
    rw [hc] at hcomponents
    apply hcomponents
  rw [mapExpressions, mapExpressions, Item.Head.mapExpressions, Item.Head.mapExpressions,
    map_congr_toList hcondition, hvalidations, hroot]

theorem SurveyContext.mapExpressions_congr {c : SurveyContext} (h : ∀ e ∈ c.expressions, f e = g e) :
  c.mapExpressions f = c.mapExpressions g
  := by
  rw [expressions, List.forall_mem_append, List.forall_mem_append] at h
  obtain ⟨⟨hmode, hprevious⟩, hflags⟩ := h
  have hargument : c.mode.map (Argument.mapExpression f) = c.mode.map (Argument.mapExpression g) := by
    apply Option.map_congr
    intro a ha
    apply Argument.mapExpression_congr
    intro e he
    apply hmode e
    rw [Option.mem_toList, Option.bind_eq_some_iff]
    use a, ha, he
  rw [mapExpressions, mapExpressions, hargument, map_map_congr hprevious, map_congr_toList hflags]

theorem Survey.mapRules_congr {s : Survey} (h : ∀ e ∈ s.ruleExpressions, f e = g e) :
  s.mapRules f = s.mapRules g
  := by
  rw [ruleExpressions, List.forall_mem_append] at h
  obtain ⟨hprefill, hcontext⟩ := h
  have hrules : s.contextRules.map (SurveyContext.mapExpressions f)
      = s.contextRules.map (SurveyContext.mapExpressions g) := by
    apply Option.map_congr
    intro c hc
    apply SurveyContext.mapExpressions_congr
    rw [hc] at hcontext
    apply hcontext
  rw [mapRules, mapRules, map_map_congr hprefill, hrules]

/-! ### Items and surveys that are relabelled alike -/

variable {k k' r r' : Key → Key}

/-- The texts of expressions are mapped alike by maps that agree on them. -/
theorem mapTexts_congr_of_references {expressions : List Expression}
    (h : ∀ key ∈ expressions.flatMap Expression.texts, r key = r' key) :
  ∀ e ∈ expressions, e.mapTexts r = e.mapTexts r'
  := by
  intro e he
  apply Expression.mapTexts_congr
  intro text htext
  apply h text (List.mem_flatMap_of_mem he htext)

theorem Item.Head.relabel_congr {h : Head} (hkey : k h.key = k' h.key)
    (hfollows : ∀ key ∈ h.follows.getD [], r key = r' key)
    (hcondition : ∀ e ∈ h.condition.toList, f e = g e) :
  (h.mapExpressions f).relabel k r = (h.mapExpressions g).relabel k' r'
  := by
  rw [mapExpressions, mapExpressions, relabel, relabel, mapFollows, mapFollows,
    map_map_congr hfollows, map_congr_toList hcondition, hkey]

/-- An item is relabelled alike by maps that agree on the keys and the references in its subtree. -/
theorem Item.relabel_congr {x : Item} (hkeys : ∀ key ∈ x.keys, k key = k' key)
    (hreferences : ∀ key ∈ x.subtree.flatMap references, r key = r' key) :
  x.relabel k r = x.relabel k' r'
  := by
  induction x using induct with
  | single s =>
    rw [subtree_single, List.flatMap_singleton, references, List.forall_mem_append] at hreferences
    obtain ⟨htexts, hfollows⟩ := hreferences
    have hexpressions := mapTexts_congr_of_references htexts
    have hs := SingleItem.mapExpressions_congr hexpressions
    rw [expressions, SingleItem.expressions, List.forall_mem_append, List.forall_mem_append]
      at hexpressions
    have hhead := Head.relabel_congr (hkeys _ (single s).key_mem_keys) hfollows hexpressions.1.1
    rw [relabel_single, relabel_single, hs]
    simp only [head] at hhead
    rw [hhead]
  | group head selectionMethod items ih =>
    rw [subtree_group, List.flatMap_cons, List.forall_mem_append, references,
      List.forall_mem_append, List.flatMap_assoc] at hreferences
    obtain ⟨⟨htexts, hfollows⟩, hitems⟩ := hreferences
    rw [List.forall_mem_flatMap] at hitems
    have hexpressions := mapTexts_congr_of_references htexts
    rw [expressions, Group.expressions, List.forall_mem_append] at hexpressions
    rw [keys_eq, List.forall_mem_cons, List.forall_mem_flatMap] at hkeys
    have hsame : items.map (relabel k r) = items.map (relabel k' r') := by
      apply List.map_congr_left
      intro y hy
      apply ih y hy (hkeys.2 y hy) (hitems y hy)
    have hhead := Head.relabel_congr hkeys.1 hfollows hexpressions.1
    rw [relabel_group, relabel_group, hsame, map_congr_toList hexpressions.2]
    simp only [Item.head] at hhead
    rw [hhead]

/-- A survey is relabelled alike by maps that agree on its keys and its references. -/
theorem Survey.relabel_congr {s : Survey} (hkeys : ∀ key ∈ s.keys, k key = k' key)
    (hreferences : ∀ key ∈ s.references, r key = r' key) :
  s.relabel k r = s.relabel k' r'
  := by
  rw [references, List.forall_mem_append] at hreferences
  obtain ⟨hrules, hitems⟩ := hreferences
  rw [keys, ← Item.keys_group] at hkeys
  have hroot : s.root.relabel k r = s.root.relabel k' r' :=
    Item.group.inj (Item.relabel_congr hkeys hitems)
  rw [relabel, relabel, mapRoot, mapRoot, hroot]
  apply mapRules_congr
  apply mapTexts_congr_of_references hrules

end Questionnaire
