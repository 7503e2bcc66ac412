import Questionnaire.Proofs.Key.Lineage
import Questionnaire.Proofs.Survey.Edit
import Questionnaire.Proofs.Survey.Placement
import Questionnaire.Proofs.Survey.References

/-!
# Surveys under other keys

A survey is relabelled by two maps: one gives every item its key, the other is applied once to every
reference, that is, to every text in an expression and every entry of `follows`.  Nothing else
changes: not the tree of items and not their order, nor any other field.

Relabelling twice is relabelling by the composites (`Survey.relabel_relabel`), and giving the item
of a key another one in its place, with the keys below following, is relabelling by a map that is
determined on the keys of the survey (`Item.Rekeys`).
-/

namespace Questionnaire

/-! ### Expressions that are replaced twice -/

variable (f g : Expression → Expression)

theorem Argument.mapExpression_id :
  mapExpression id = id
  := by
  funext a
  cases a with
  | _ => rfl

theorem Argument.mapExpression_mapExpression (a : Argument) :
  (a.mapExpression f).mapExpression g = a.mapExpression (g ∘ f)
  := by
  cases a with
  | _ => rfl

theorem LocalizedText.mapExpressions_id :
  mapExpressions id = id
  := by
  funext t
  simp [mapExpressions, Argument.mapExpression_id]

theorem LocalizedText.mapExpressions_mapExpressions (t : LocalizedText) :
  (t.mapExpressions f).mapExpressions g = t.mapExpressions (g ∘ f)
  := by
  simp [mapExpressions, Argument.mapExpression_mapExpression]

namespace Component

theorem Head.mapExpressions_id (h : Head) :
  h.mapExpressions id = h
  := by
  simp [mapExpressions, LocalizedText.mapExpressions_id]

theorem Head.mapExpressions_mapExpressions (h : Head) :
  (h.mapExpressions f).mapExpressions g = h.mapExpressions (g ∘ f)
  := by
  simp [mapExpressions, LocalizedText.mapExpressions_mapExpressions, Function.comp_def]

theorem mapExpressions_id :
  mapExpressions id = id
  := by
  funext c
  induction c using inductionOn with
  | mk head items ih =>
    cases items with
    | none => rw [mapExpressions, Head.mapExpressions_id, id]
    | some cs =>
      rw [mapExpressions, Head.mapExpressions_id, mapExpressionsOf_eq,
        List.map_congr_left (ih cs rfl), List.map_id, id]

theorem mapExpressions_mapExpressions (c : Component) :
  (c.mapExpressions f).mapExpressions g = c.mapExpressions (g ∘ f)
  := by
  induction c using inductionOn with
  | mk head items ih =>
    cases items with
    | none => rw [mapExpressions, mapExpressions, mapExpressions, Head.mapExpressions_mapExpressions]
    | some cs =>
      rw [mapExpressions, mapExpressions, mapExpressions, Head.mapExpressions_mapExpressions,
        mapExpressionsOf_eq, mapExpressionsOf_eq, mapExpressionsOf_eq, List.map_map]
      congr 2
      apply List.map_congr_left
      exact ih cs rfl

end Component

namespace SingleItem

theorem mapExpressions_id (s : SingleItem) :
  s.mapExpressions id = s
  := by
  simp [mapExpressions, Item.Head.mapExpressions, Component.mapExpressions_id]

theorem mapExpressions_mapExpressions (s : SingleItem) :
  (s.mapExpressions f).mapExpressions g = s.mapExpressions (g ∘ f)
  := by
  simp [mapExpressions, Item.Head.mapExpressions, Component.mapExpressions_mapExpressions,
    Function.comp_def]

end SingleItem

theorem SurveyContext.mapExpressions_id :
  mapExpressions id = id
  := by
  funext c
  simp [mapExpressions, Argument.mapExpression_id]

theorem SurveyContext.mapExpressions_mapExpressions (c : SurveyContext) :
  (c.mapExpressions f).mapExpressions g = c.mapExpressions (g ∘ f)
  := by
  simp [mapExpressions, Argument.mapExpression_mapExpression, Function.comp_def]

namespace Survey

theorem mapRules_id (s : Survey) :
  s.mapRules id = s
  := by
  simp [mapRules, SurveyContext.mapExpressions_id]

theorem mapRules_mapRules (s : Survey) :
  (s.mapRules f).mapRules g = s.mapRules (g ∘ f)
  := by
  simp [mapRules, SurveyContext.mapExpressions_mapExpressions, Function.comp_def]

end Survey

/-! ### Relabelling -/

/-- The head with its key changed by `k`, and the keys that it follows by `r`. -/
def Item.Head.relabel (k r : Key → Key) (h : Head) : Head := { h.mapFollows r with key := k h.key }

/-- The item with the keys in its subtree changed by `k`, and the references by `r`. -/
def Item.relabel (k r : Key → Key) : Item → Item :=
  mapEach (Head.relabel k r) (Expression.mapTexts r)

/-- The group with its key and those below it changed by `k`, and the references by `r`. -/
def Group.relabel (k r : Key → Key) : Group → Group :=
  mapEach (Item.Head.relabel k r) (Expression.mapTexts r)

/-- The survey with the keys of its items and its root changed by `k`, and the references in them
and in its rules by `r`. -/
def Survey.relabel (k r : Key → Key) (s : Survey) : Survey :=
  (s.mapRoot (Group.relabel k r)).mapRules (Expression.mapTexts r)

namespace Item

@[simp]
theorem relabel_group (k r : Key → Key) (head : Head) (selectionMethod : Option Expression)
    (items : List Item) :
  (group ⟨head, selectionMethod, items⟩).relabel k r
    = group ⟨(head.mapExpressions (Expression.mapTexts r)).relabel k r,
        selectionMethod.map (Expression.mapTexts r), items.map (relabel k r)⟩
  := mapEach_group _ _ head selectionMethod items

@[simp]
theorem key_relabel (k r : Key → Key) (x : Item) :
  (x.relabel k r).key = k x.key
  := by
  cases x with
  | single s => rfl
  | group g =>
    obtain ⟨head, selectionMethod, items⟩ := g
    rw [relabel_group]
    rfl

theorem group_relabel (k r : Key → Key) (g : Group) :
  (group g).relabel k r = group (g.relabel k r)
  := rfl

/-- Relabelling keeps the items of a subtree in their order. -/
theorem subtree_relabel (k r : Key → Key) (x : Item) :
  (x.relabel k r).subtree = x.subtree.map (relabel k r)
  := by
  induction x using induct with
  | single s =>
    rw [subtree_single, List.map_singleton]
    apply subtree_single
  | group head selectionMethod items ih =>
    rw [relabel_group, subtree_group, subtree_group, List.map_cons, relabel_group, List.flatMap_map,
      List.map_flatMap]
    congr 1
    apply List.flatMap_congr
    exact ih

theorem keys_relabel (k r : Key → Key) (x : Item) :
  (x.relabel k r).keys = x.keys.map k
  := by
  rw [keys, keys, subtree_relabel, List.map_map, List.map_map]
  apply List.map_congr_left
  intro y _
  exact key_relabel k r y

theorem redirect_eq_relabel (old new : Key) :
  redirect old new = relabel id (Key.rebase old new)
  := rfl

theorem Head.relabel_relabel (k₁ r₁ k₂ r₂ : Key → Key) (h : Head) :
  (((h.mapExpressions f).relabel k₁ r₁).mapExpressions g).relabel k₂ r₂
    = (h.mapExpressions (g ∘ f)).relabel (k₂ ∘ k₁) (r₂ ∘ r₁)
  := by
  simp [relabel, mapFollows, mapExpressions]

theorem Head.relabel_id (k : Key → Key) (h : Head) :
  (h.mapExpressions id).relabel k id = { h with key := k h.key }
  := by
  simp [relabel, mapFollows, mapExpressions]

theorem relabel_single (k r : Key → Key) (s : SingleItem) :
  (single s).relabel k r
    = single {
        s.mapExpressions (Expression.mapTexts r) with
        head := (s.head.mapExpressions (Expression.mapTexts r)).relabel k r }
  := rfl

/-- Relabelling twice is relabelling by the composites. -/
theorem relabel_relabel (k₁ r₁ k₂ r₂ : Key → Key) (x : Item) :
  (x.relabel k₁ r₁).relabel k₂ r₂ = x.relabel (k₂ ∘ k₁) (r₂ ∘ r₁)
  := by
  induction x using induct with
  | single s =>
    have hs := s.mapExpressions_mapExpressions (Expression.mapTexts r₁) (Expression.mapTexts r₂)
    rw [relabel_single, relabel_single, relabel_single, Head.relabel_relabel,
      ← Expression.mapTexts_comp, ← hs]
    rfl
  | group head selectionMethod items ih =>
    rw [relabel_group, relabel_group, relabel_group, Head.relabel_relabel, Option.map_map,
      Expression.mapTexts_comp, List.map_map]
    congr 2
    apply List.map_congr_left
    exact ih

/-- Relabelling changes nothing if it keeps the keys and the references. -/
theorem relabel_id (x : Item) :
  x.relabel id id = x
  := by
  induction x using induct with
  | single s =>
    rw [relabel_single, Expression.mapTexts_id, SingleItem.mapExpressions_id, Head.relabel_id]
    rfl
  | group head selectionMethod items ih =>
    rw [relabel_group, Expression.mapTexts_id, Option.map_id, List.map_congr_left ih, List.map_id',
      Head.relabel_id]
    rfl

end Item

/-- The items of a group are relabelled with it. -/
theorem Group.items_relabel (k r : Key → Key) (g : Group) :
  (g.relabel k r).items = g.items.map (Item.relabel k r)
  := by
  obtain ⟨head, selectionMethod, items⟩ := g
  have hgroup := Item.relabel_group k r head selectionMethod items
  exact congrArg Item.children hgroup

namespace Survey

theorem redirect_eq_relabel (old new : Key) :
  redirect old new = relabel id (Key.rebase old new)
  := rfl

/-- Relabelling twice is relabelling by the composites. -/
theorem relabel_relabel (k₁ r₁ k₂ r₂ : Key → Key) (s : Survey) :
  (s.relabel k₁ r₁).relabel k₂ r₂ = s.relabel (k₂ ∘ k₁) (r₂ ∘ r₁)
  := by
  have hroot : (s.root.relabel k₁ r₁).relabel k₂ r₂ = s.root.relabel (k₂ ∘ k₁) (r₂ ∘ r₁) :=
    Item.group.inj (Item.relabel_relabel k₁ r₁ k₂ r₂ (.group s.root))
  have hboth : (s.mapRoot (Group.relabel k₁ r₁)).mapRoot (Group.relabel k₂ r₂)
      = s.mapRoot (Group.relabel (k₂ ∘ k₁) (r₂ ∘ r₁)) := by
    rw [mapRoot, mapRoot, mapRoot, hroot]
  rw [relabel, relabel, relabel, ← hboth, ← Expression.mapTexts_comp, ← mapRules_mapRules]
  rfl

theorem keys_relabel (k r : Key → Key) (s : Survey) :
  (s.relabel k r).keys = s.keys.map k
  := by
  rw [keys, keys, ← Item.keys_group, ← Item.keys_group, ← Item.keys_relabel k r]
  rfl

/-- The root and the items of a survey are relabelled with it. -/
theorem mem_subtree_relabel {s : Survey} {x : Item} (h : x ∈ (Item.group s.root).subtree)
    (k r : Key → Key) :
  x.relabel k r ∈ (Item.group (s.relabel k r).root).subtree
  := by
  have hroot : Item.group (s.relabel k r).root = (Item.group s.root).relabel k r := rfl
  rw [hroot, Item.subtree_relabel]
  apply List.mem_map_of_mem h

/-- The groups of a survey are relabelled with it. -/
theorem HasGroup.relabel {s : Survey} {g : Group} (h : s.HasGroup g) (k r : Key → Key) :
  (s.relabel k r).HasGroup (g.relabel k r)
  := mem_subtree_relabel h k r

theorem relabel_id (s : Survey) :
  s.relabel id id = s
  := by
  have hroot : s.root.relabel id id = s.root := Item.group.inj (Item.relabel_id (.group s.root))
  rw [relabel, Expression.mapTexts_id, mapRules_id, mapRoot, hroot]

end Survey

/-! ### References that are relabelled -/

theorem Item.expressions_relabel (k r : Key → Key) (x : Item) :
  (x.relabel k r).expressions = x.expressions.map (Expression.mapTexts r)
  := by
  cases x with
  | single s => exact SingleItem.expressions_mapExpressions _ s
  | group g =>
    obtain ⟨head, selectionMethod, items⟩ := g
    rw [relabel_group, expressions, expressions, Group.expressions, Group.expressions,
      List.map_append, Option.toList_map]
    congr 1
    exact Option.toList_map

theorem Item.follows_relabel (k r : Key → Key) (x : Item) :
  (x.relabel k r).head.follows.getD [] = (x.head.follows.getD []).map r
  := by
  have hfollows : (x.relabel k r).head.follows = x.head.follows.map (·.map r) := by
    cases x with
    | single s => rfl
    | group g =>
      obtain ⟨head, selectionMethod, items⟩ := g
      rw [relabel_group]
      rfl
  rw [hfollows]
  cases x.head.follows with
  | none => rfl
  | some keys => rfl

/-- The references in an item are changed, each once, and stay in their order. -/
theorem Item.references_relabel (k r : Key → Key) (x : Item) :
  (x.relabel k r).references = x.references.map r
  := by
  rw [references, references, expressions_relabel, follows_relabel, flatMap_texts_mapTexts,
    List.map_append]

theorem Survey.ruleReferences_relabel (k r : Key → Key) (s : Survey) :
  (s.relabel k r).ruleReferences = s.ruleReferences.map r
  := ruleReferences_mapRules r _

/-- The references in a survey are changed, each once, and stay in their order. -/
theorem Survey.references_relabel (k r : Key → Key) (s : Survey) :
  (s.relabel k r).references = s.references.map r
  := by
  have hroot : Item.group (s.relabel k r).root = (Item.group s.root).relabel k r := rfl
  rw [references, references, hroot, ruleReferences_relabel, Item.subtree_relabel, List.map_append,
    List.flatMap_map, List.map_flatMap]
  congr 1
  apply List.flatMap_congr
  intro x _
  exact Item.references_relabel k r x

/-- Redirecting rebases all references in a survey. -/
theorem Survey.references_redirect (old new : Key) (s : Survey) :
  (s.redirect old new).references = s.references.map (Key.rebase old new)
  := references_relabel id _ s

/-- Redirecting rebases the references in an item. -/
theorem Item.references_redirectOwn (old new : Key) (x : Item) :
  (x.redirectOwn old new).references = x.references.map (Key.rebase old new)
  := by
  rw [← references_relabel id]
  cases x with
  | single s => rfl
  | group g =>
    obtain ⟨head, selectionMethod, items⟩ := g
    rw [relabel_group]
    rfl

/-! ### Keys that follow from a new one -/

/-- By `k` the item `x` gets the key `new`, the items below it get the keys that follow from those
of their groups, with the last segments they have, and no other key changes. -/
structure Item.Rekeys (x : Item) (new : Key) (k : Key → Key) : Prop where
  top : k x.key = new
  below : ∀ g, group g ∈ x.subtree → ∀ y ∈ g.items, k y.key = Key.child (k g.key) (Key.leaf y.key)
  other : ∀ key, key ∉ x.keys → k key = key

namespace Item.Rekeys

variable {x : Item} {new : Key} {k k' : Key → Key}

/-- The keys that items get are determined by the new key of the first. -/
theorem eq_of_mem (htop : k x.key = k' x.key)
    (h : ∀ g, group g ∈ x.subtree → ∀ y ∈ g.items, k y.key = Key.child (k g.key) (Key.leaf y.key))
    (h' : ∀ g, group g ∈ x.subtree → ∀ y ∈ g.items,
      k' y.key = Key.child (k' g.key) (Key.leaf y.key)) :
  ∀ key ∈ x.keys, k key = k' key
  := by
  induction x using induct with
  | single s =>
    rw [keys, subtree_single, List.map_singleton, List.forall_mem_singleton]
    exact htop
  | group head selectionMethod items ih =>
    have hself := mem_subtree_self (group ⟨head, selectionMethod, items⟩)
    rw [keys_eq, List.forall_mem_cons]
    refine ⟨htop, ?_⟩
    intro key hkey
    obtain ⟨y, hy, hkey⟩ := List.mem_flatMap.mp hkey
    have hbelow : y.subtree ⊆ (group ⟨head, selectionMethod, items⟩).subtree :=
      subtree_subset_of_mem_children hy
    apply ih y hy _ (fun g hg => h g (hbelow hg)) (fun g hg => h' g (hbelow hg)) key hkey
    rw [h _ hself y hy, h' _ hself y hy]
    exact congrArg (Key.child · _) htop

theorem unique (h : x.Rekeys new k) (h' : x.Rekeys new k') :
  k = k'
  := by
  funext key
  by_cases hkey : key ∈ x.keys
  · exact eq_of_mem (h.top.trans h'.top.symm) h.below h'.below key hkey
  · rw [h.other key hkey, h'.other key hkey]

end Item.Rekeys

/-! ### Renamings -/

/-- What a renaming makes of references. -/
def References.carry (old new : Key) : References → Key → Key
  | .follow => Key.rebase old new
  | .keep => id

theorem References.carry_same (references : References) (key : Key) :
  references.carry key key = id
  := by
  cases references with
  | follow => exact Key.rebase_same key
  | keep => rfl

/-- A renaming to another key gives the item the key in its place, and carries the references. -/
theorem Survey.exists_relabel_of_rename {s s' : Survey} {old new : Key} {references : References}
    (h : s.rename old new references = .ok s') (hne : old ≠ new) :
  ∃ x, s.locate old = .ok x ∧ (old ≠ s.key → Key.parent? new = some (Key.parent old))
    ∧ s.checkRekey x new = .ok ()
    ∧ s' = (s.modifyItem old (·.rekey new)).relabel id (references.carry old new)
  := by
  obtain ⟨x, hlocate, hparent, hcheck, hfollow, hkeep⟩ := exists_of_rename_eq_ok h hne
  refine ⟨x, hlocate, hparent, hcheck, ?_⟩
  cases references with
  | follow => exact hfollow rfl
  | keep => exact (hkeep rfl).trans (relabel_id _).symm

end Questionnaire
