import Questionnaire.Proofs.Editor.Ancestry
import Questionnaire.Proofs.Editor.Reachable

/-!
# Finding items by their keys

An editor follows the prefixes of a key down its index, and checks parents on the way.  In a survey
with a key, this finds the item that a search of the whole survey finds, depth first, without regard
to keys other than the one sought; and when there is no such item, the search says at which of the
prefixes it ends.
-/

namespace Questionnaire

open NodeTree

namespace Editor

namespace Laid

variable {e : Editor} {t u : NodeTree}

/-! ### The search of the whole survey -/

theorem mem_descendants_iff (h : e.Laid t) {x : Item} :
  x ∈ e.survey.root.descendants ↔ ∃ u, Within u t ∧ u.top ≠ e.root ∧ u.item e.own = x
  := by
  have hdescendants : e.survey.root.descendants
      = t.children.flatMap fun v => (v.item e.own).subtree := by
    have hsubtree := (t.item e.own).subtree_eq
    rw [h.fits.children_item, List.flatMap_map, ← h.group_root, Item.subtree] at hsubtree
    exact (List.cons.inj hsubtree).2
  rw [hdescendants, List.mem_flatMap, ← h.top_eq]
  constructor
  · rintro ⟨v, hv, hx⟩
    have hwithin := (Within.self t).of_mem_children hv
    obtain ⟨u, hu, rfl⟩ := (mem_subtree_item_iff (h.fits.within hwithin)).mp hx
    refine ⟨u, hu.trans hwithin, ?_, rfl⟩
    intro htop
    apply top_notMem_children h.nodup hv
    rw [← htop]
    exact hu.top_mem
  · rintro ⟨u, hu, hne, rfl⟩
    cases hu with
    | self => exact absurd rfl hne
    | @deeper v id ts hv hu =>
      have hwithin : Within v (.node id ts) := Within.deeper hv (Within.self v)
      use v, hv
      apply (mem_subtree_item_iff (h.fits.within hwithin)).mpr
      use u

/-- The search of the whole survey finds the item of the node that has the key and is not the
root. -/
theorem find?_eq_some_iff (h : e.Laid t) {key : Key} {x : Item} :
  e.survey.find? key = some x
    ↔ ∃ u, Within u t ∧ u.top ≠ e.root ∧ (e.node u.top).key = key ∧ u.item e.own = x
  := by
  have hfound {x : Item} (hx : e.survey.find? key = some x) :
      ∃ u, Within u t ∧ u.top ≠ e.root ∧ (e.node u.top).key = key ∧ u.item e.own = x := by
    obtain ⟨u, hu, hne, rfl⟩ := h.mem_descendants_iff.mp (List.mem_of_find?_eq_some hx)
    have hkey := List.find?_some (p := fun y : Item => y.key == key) hx
    rw [key_item] at hkey
    exact ⟨u, hu, hne, eq_of_beq hkey, rfl⟩
  constructor
  · exact hfound
  · rintro ⟨u, hu, hne, hkey, rfl⟩
    have hsome : (e.survey.find? key).isSome := by
      rw [Survey.find?, Group.findBelow?, List.find?_isSome]
      use u.item e.own, h.mem_descendants_iff.mpr ⟨u, hu, hne, rfl⟩
      rw [key_item, ← hkey]
      apply beq_self_eq_true
    obtain ⟨y, hy⟩ := Option.isSome_iff_exists.mp hsome
    obtain ⟨v, hv, -, hvkey, rfl⟩ := hfound hy
    rw [hy, h.eq_of_top_eq hv hu (h.eq_of_key_eq hv.top_mem hu.top_mem (hvkey.trans hkey.symm))]

theorem contains_iff (h : e.Laid t) {key : Key} :
  e.survey.contains key = true ↔ ∃ u, Within u t ∧ (e.node u.top).key = key
  := by
  rw [Survey.contains_eq_true_iff, h.survey_keys, List.mem_map]
  constructor
  · rintro ⟨id, hid, hkey⟩
    obtain ⟨us, hus⟩ := exists_within hid
    use .node id us, hus, hkey
  · rintro ⟨u, hu, hkey⟩
    use u.top, hu.top_mem

/-! ### The search along the prefixes -/

/-- A search for a key ends at the node with the longest key that the key lies properly within. -/
structure Ends (e : Editor) (t : NodeTree) (key : Key) (u : NodeTree) : Prop where
  within : Within u t
  ne : (e.node u.top).key ≠ key
  isWithin : Key.isWithin key (e.node u.top).key = true
  longest : ∀ v, Within v t → Key.isWithin key (e.node v.top).key = true →
    Key.isWithin (e.node u.top).key (e.node v.top).key = true

/-- The error of a search for a key that ends at a node: a single item has no items in it. -/
def errorAt (e : Editor) (key : Key) (u : NodeTree) : EditError :=
  if (e.own u.top).isGroup then .itemNotFound key else .notAGroup (e.node u.top).key

section

variable (h : e.Laid t) (hroot : e.key ≠ "")

include h hroot

/-- A search ends at a node if none of the nodes that it lists has the next key. -/
theorem ends_of_next (hu : Within u t) {key next : Key}
    (hnext : Key.parent? next = some (e.node u.top).key) (hwithin : Key.isWithin key next = true)
    (hnone : ∀ v ∈ u.children, (e.node v.top).key ≠ next) :
  Ends e t key u
  := by
  have habove : Key.isWithin key (e.node u.top).key = true :=
    Key.isWithin_trans hwithin (Key.isWithin_parent? hnext)
  refine ⟨hu, ?_, habove, ?_⟩
  · rintro rfl
    have hlt := Key.length_lt_of_parent? hnext
    rw [Key.isWithin_antisymm hwithin (Key.isWithin_parent? hnext)] at hlt
    apply Nat.lt_irrefl _ hlt
  · intro v hv hkey
    rcases Nat.le_total (e.node v.top).key.length (e.node u.top).key.length with hle | hle
    · apply Key.isWithin_of_length_le hkey habove hle
    · have hmem := (h.isWithin_iff_mem hroot hu hv.top_mem).mp
        (Key.isWithin_of_length_le habove hkey hle)
      obtain ⟨i, us⟩ := u
      rw [ids_node, List.mem_cons] at hmem
      rcases hmem with htop | hmem
      · rw [top, htop]
        apply Key.isWithin_refl
      · obtain ⟨w, hw, hmem⟩ := List.mem_flatMap.mp hmem
        exfalso
        apply hnone w hw
        have hwkey := h.isWithin_of_mem hroot (hu.of_mem hw) hmem
        apply Key.eq_of_parent?_eq (Key.isWithin_trans hkey hwkey) hwithin
          (h.parent?_key hroot hu hw) hnext

/-- Following the keys that lead down to a key, a search finds the node of the key, or ends. -/
theorem along_cases (hu : Within u t) {key : Key} {keys : List Key}
    (hkeys : Key.Descends (e.node u.top).key keys key) :
  (∃ v, Within v t ∧ (e.node v.top).key = key ∧ e.along key keys u.top = .ok v.top)
    ∨ ∃ v, Ends e t key v ∧ e.along key keys u.top = .error (errorAt e key v)
  := by
  induction keys generalizing u with
  | nil =>
    left
    cases hkeys with
    | done => exact ⟨u, hu, rfl, rfl⟩
  | cons next keys ih =>
    cases hkeys with
    | step hnext hrest =>
      by_cases hchild : ∃ v ∈ u.children, (e.node v.top).key = next
      · obtain ⟨v, hv, rfl⟩ := hchild
        rw [h.along_cons hu hv]
        apply ih (hu.of_mem_children hv) hrest
      · right
        simp only [not_exists, not_and] at hchild
        use u, h.ends_of_next hroot hu hnext hrest.isWithin hchild
        rw [along, errorAt, own]
        cases hgroup : (e.node u.top).item.isGroup with
        | false => rfl
        | true =>
          simp only [Bool.not_true, Bool.false_eq_true, if_false, if_true]
          cases hget : e.index.get? next with
          | none => rfl
          | some id =>
            have hparent : (e.node id).parent ≠ some u.top := by
              intro hparent
              obtain ⟨v, hv, rfl, hkey⟩ := (h.child_iff hu).mp ⟨hget, hparent⟩
              apply hchild v hv hkey
            simp only [hparent, if_false]

/-- The editor finds the item of the node with a key, or its search ends at a node, or the key lies
within that of no node. -/
theorem findItem_cases (key : Key) :
  (∃ v, Within v t ∧ (e.node v.top).key = key ∧ e.findItem key = .ok (v.item e.own))
    ∨ (∃ v, Ends e t key v ∧ e.findItem key = .error (errorAt e key v))
    ∨ (∀ v, Within v t → ¬ Key.isWithin key (e.node v.top).key = true)
      ∧ e.findItem key = .error (.itemNotFound key)
  := by
  rw [findItem, locate]
  by_cases hkey : key = e.key
  · left
    rw [if_pos hkey, ← h.top_eq]
    use t, Within.self t
    rw [hkey, Editor.key, h.top_eq, ← h.materialize (Within.self t), h.top_eq]
    exact ⟨rfl, rfl⟩
  · rw [if_neg hkey]
    by_cases hwithin : Key.isWithin key e.key = true
    · rw [if_pos hwithin, below_eq hwithin]
      have hdescends := Key.descends_prefixes hwithin
      rw [Editor.key, ← h.top_eq] at hdescends ⊢
      obtain ⟨v, hv, hvkey, hfound⟩ | ⟨v, hends, hfound⟩ :=
        h.along_cases hroot (Within.self t) hdescends
      · left
        use v, hv, hvkey
        rw [hfound, ← h.materialize hv]
        rfl
      · right
        left
        use v, hends
        rw [hfound]
        rfl
    · right
      right
      rw [if_neg hwithin]
      refine ⟨?_, rfl⟩
      intro v hv hvkey
      apply hwithin
      rw [Editor.key, ← h.top_eq]
      apply Key.isWithin_trans hvkey (h.isWithin_of_mem hroot (Within.self t) hv.top_mem)

end

/-- No node has the key of a search that ends at a node. -/
theorem Ends.key_ne {key : Key} (hends : Ends e t key u) {v : NodeTree} (hv : Within v t) :
  (e.node v.top).key ≠ key
  := by
  rintro rfl
  apply hends.ne
  apply Key.isWithin_antisymm (hends.longest v hv (Key.isWithin_refl _)) hends.isWithin

end Laid

end Editor

/-! ### What a search says of a survey -/

/-- The longest of the prefixes of a key that an item of the survey, or its root, has for its key;
the key itself does not count. -/
structure Survey.Deepest (s : Survey) (key p : Key) : Prop where
  mem : p ∈ Key.prefixes key
  ne : p ≠ key
  contains : s.contains p = true
  longest : ∀ q ∈ Key.prefixes key, q ≠ key → s.contains q = true → q.length ≤ p.length

namespace Editor

variable {e : Editor} {t u : NodeTree}

/-- The node that a search ends at has the longest key among those above the one sought. -/
theorem Laid.deepest_iff_of_ends (h : e.Laid t) {key : Key} (hends : Laid.Ends e t key u)
    {p : Key} :
  e.survey.Deepest key p ↔ p = (e.node u.top).key
  := by
  have hself : (e.node u.top).key ∈ Key.prefixes key
      ∧ e.survey.contains (e.node u.top).key = true := by
    rw [Key.mem_prefixes_iff, h.contains_iff]
    exact ⟨hends.isWithin, u, hends.within, rfl⟩
  constructor
  · intro hp
    obtain ⟨v, hv, hkey⟩ := h.contains_iff.mp hp.contains
    have hmem := Key.mem_prefixes_iff.mp hp.mem
    rw [← hkey] at hmem ⊢
    apply Key.isWithin_antisymm _ (hends.longest v hv hmem)
    apply Key.isWithin_of_length_le hends.isWithin hmem
    rw [hkey]
    apply hp.longest _ hself.1 hends.ne hself.2
  · rintro rfl
    refine ⟨hself.1, hends.ne, hself.2, ?_⟩
    intro q hq _ hcontains
    obtain ⟨v, hv, rfl⟩ := h.contains_iff.mp hcontains
    have hle := Key.prefix_of_isWithin (hends.longest v hv (Key.mem_prefixes_iff.mp hq))
    simpa only [String.length_toList] using hle.length_le

namespace Laid

theorem find?_eq_none (h : e.Laid t) {key : Key} (hnone : ∀ u, Within u t → (e.node u.top).key ≠ key) :
  e.survey.find? key = none
  := by
  rw [Option.eq_none_iff_forall_ne_some]
  intro x hx
  obtain ⟨u, hu, -, hkey, -⟩ := h.find?_eq_some_iff.mp hx
  apply hnone u hu hkey

theorem findItem_root (h : e.Laid t) :
  e.findItem e.key = .ok (.group e.survey.root)
  := by
  rw [h.find, Survey.locate, if_pos h.survey_key.symm]

section

variable (h : e.Laid t) (hroot : e.key ≠ "") {key : Key}

include h hroot

/-- A key other than that of the root is found when the search of the whole survey finds it. -/
theorem findItem_eq_ok_iff (hkey : key ≠ e.key) {x : Item} :
  e.findItem key = .ok x ↔ e.survey.find? key = some x
  := by
  obtain ⟨v, hv, rfl, hfound⟩ | ⟨v, hends, hfound⟩ | ⟨hnone, hfound⟩ := h.findItem_cases hroot key
  · have hsearch : e.survey.find? (e.node v.top).key = some (v.item e.own) := by
      apply h.find?_eq_some_iff.mpr
      refine ⟨v, hv, ?_, rfl, rfl⟩
      intro htop
      apply hkey
      rw [Editor.key, htop]
    rw [hfound, hsearch, Option.some.injEq, Except.ok.injEq]
  · rw [hfound, h.find?_eq_none fun u hu => hends.key_ne hu]
    simp
  · rw [hfound, h.find?_eq_none]
    · simp
    · rintro u hu rfl
      apply hnone u hu (Key.isWithin_refl _)

/-- When nothing is found, the error reports the longest prefix of the key that is the key of an
item, if that is a single item, and otherwise the key. -/
theorem findItem_error {err : EditError} (herr : e.findItem key = .error err) :
  (∃ p s, e.survey.Deepest key p ∧ e.survey.find? p = some (.single s) ∧ err = .notAGroup p)
    ∨ (¬ ∃ p s, e.survey.Deepest key p ∧ e.survey.find? p = some (.single s))
      ∧ err = .itemNotFound key
  := by
  obtain ⟨v, hv, rfl, hfound⟩ | ⟨v, hends, hfound⟩ | ⟨hnone, hfound⟩ := h.findItem_cases hroot key
  · rw [hfound] at herr
    cases herr
  · rw [hfound] at herr
    cases herr
    rw [errorAt]
    cases hgroup : (e.own v.top).isGroup with
    | true =>
      right
      refine ⟨?_, rfl⟩
      rintro ⟨p, s, hp, hs⟩
      rw [h.deepest_iff_of_ends hends] at hp
      obtain ⟨u, hu, -, hukey, hitem⟩ := h.find?_eq_some_iff.mp hs
      rw [hp] at hukey
      rw [← h.eq_of_key_eq hu.top_mem hends.within.top_mem hukey, ← isGroup_item, hitem] at hgroup
      cases hgroup
    | false =>
      left
      have hsingle := isGroup_item e.own v
      rw [hgroup] at hsingle
      cases hitem : v.item e.own with
      | group g =>
        rw [hitem] at hsingle
        cases hsingle
      | single s =>
        use (e.node v.top).key, s, (h.deepest_iff_of_ends hends).mpr rfl
        refine ⟨h.find?_eq_some_iff.mpr ⟨v, hends.within, ?_, rfl, hitem⟩, rfl⟩
        intro htop
        rw [htop, h.root_group] at hgroup
        cases hgroup
  · rw [hfound] at herr
    cases herr
    right
    refine ⟨?_, rfl⟩
    rintro ⟨p, s, hp, -⟩
    obtain ⟨u, hu, hukey⟩ := h.contains_iff.mp hp.contains
    apply hnone u hu
    rw [hukey]
    apply Key.mem_prefixes_iff.mp hp.mem

end

end Laid

/-- In a survey with a key, the editor finds the root under its key, and under any other key what
the search of the whole survey finds.  When it finds nothing, it reports the longest prefix of the
key that is the key of an item, if that is a single item, and otherwise the key. -/
theorem Reachable.findItem_eq (h : Reachable e) (hroot : e.key ≠ "") (key : Key) :
  (key = e.key → e.findItem key = .ok (.group e.survey.root))
    ∧ (key ≠ e.key → ∀ x, e.findItem key = .ok x ↔ e.survey.find? key = some x)
    ∧ ∀ err, e.findItem key = .error err →
      (∃ p s, e.survey.Deepest key p ∧ e.survey.find? p = some (.single s) ∧ err = .notAGroup p)
        ∨ (¬ ∃ p s, e.survey.Deepest key p ∧ e.survey.find? p = some (.single s))
          ∧ err = .itemNotFound key
  := by
  obtain ⟨t, ht⟩ := h.laid
  refine ⟨?_, ?_, ?_⟩
  · rintro rfl
    exact ht.findItem_root
  · intro hkey x
    exact ht.findItem_eq_ok_iff hroot hkey
  · intro err herr
    exact ht.findItem_error hroot herr

/-- A key below a single item is reported at the single item. -/
theorem findItem_below_single :
  let e := (Editor.new.serve (.add { isGroup := false } "q" none none)).2
  e.key ≠ "" ∧ e.findItem "survey.q.x" = .error (.notAGroup "survey.q")
    ∧ e.survey.Deepest "survey.q.x" "survey.q"
  := by
  have hkey : (Editor.new.serve (.add { isGroup := false } "q" none none)).2.key ≠ "" := by decide
  have herr : (Editor.new.serve (.add { isGroup := false } "q" none none)).2.findItem "survey.q.x"
      = .error (.notAGroup "survey.q") := rfl
  obtain ⟨p, s, hp, -, ⟨⟩⟩ | ⟨-, ⟨⟩⟩ :=
    (Reachable.findItem_eq (Reachable.new.served _) hkey "survey.q.x").2.2 _ herr
  exact ⟨hkey, herr, hp⟩

end Editor

end Questionnaire
