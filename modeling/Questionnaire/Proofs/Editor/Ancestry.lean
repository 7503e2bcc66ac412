import Questionnaire.Proofs.Editor.Open
import Questionnaire.Proofs.Editor.Rename

/-!
# Keys and the tree of nodes

In a layout whose root has a key, the keys follow the tree: no key is empty, the parent of the key
of a node is the key of its parent, and the key of one node lies within that of another if and only
if the first node stands in the tree below the second.

If the key of the root is empty, the keys follow the tree down to the nodes whose keys lie within
it.  Below the root there may be other nodes, whose keys start without a dot.
-/

namespace Questionnaire

open NodeTree

namespace Editor

namespace Laid

variable {e : Editor} {t u v : NodeTree}

/-- The key of a node that another lists has the key of the other for its parent, unless that is
empty. -/
theorem parent?_key_of_ne (h : e.Laid t) (hu : Within u t) (hv : v ∈ u.children)
    (hne : (e.node u.top).key ≠ "") :
  Key.parent? (e.node v.top).key = some (e.node u.top).key
  := by
  apply Key.parent?_of_parent _ hne
  apply h.nested v.top (hu.of_mem_children hv).top_mem
  exact ((h.holds.within hu).of_mem_children hv).parent_top

/-- Below a node with a key, every node has a key, which lies within that of the node. -/
theorem isWithin_of_mem_of_ne (h : e.Laid t) (hu : Within u t) (hne : (e.node u.top).key ≠ "")
    {id : NodeId} (hid : id ∈ u.ids) :
  (e.node id).key ≠ "" ∧ Key.isWithin (e.node id).key (e.node u.top).key = true
  := by
  induction u using induct with
  | node i us ih =>
    rw [ids_node, List.mem_cons] at hid
    rcases hid with rfl | hid
    · exact ⟨hne, Key.isWithin_refl _⟩
    · obtain ⟨v, hv, hid⟩ := List.mem_flatMap.mp hid
      have hparent := h.parent?_key_of_ne hu hv hne
      have hvne : (e.node v.top).key ≠ "" := by
        intro hempty
        rw [hempty] at hparent
        cases hparent
      obtain ⟨hidne, hwithin⟩ := ih v hv (hu.of_mem hv) hvne hid
      exact ⟨hidne, Key.isWithin_trans hwithin (Key.isWithin_parent? hparent)⟩

/-- If a node has a key that lies within that of the root, so do all nodes above it. -/
theorem isWithin_root_of_mem (h : e.Laid t) (hu : Within u t) {id : NodeId} (hid : id ∈ u.ids)
    (hwithin : Key.isWithin (e.node id).key e.key = true) :
  Key.isWithin (e.node u.top).key e.key = true
  := by
  by_cases hroot : e.key = ""
  · by_cases hne : (e.node u.top).key = ""
    · rw [hne, hroot]
      apply Key.isWithin_refl
    · apply Key.isWithin_of_length_le hwithin (h.isWithin_of_mem_of_ne hu hne hid).2
      rw [hroot]
      apply Nat.zero_le
  · rw [key, ← h.top_eq] at hroot ⊢
    exact (h.isWithin_of_mem_of_ne (Within.self t) hroot hu.top_mem).2

/-- The key of a node that another lists has the key of the other for its parent, if it lies within
the key of the root. -/
theorem parent?_key_of_isWithin (h : e.Laid t) (hu : Within u t) (hv : v ∈ u.children)
    (hwithin : Key.isWithin (e.node v.top).key e.key = true) :
  Key.parent? (e.node v.top).key = some (e.node u.top).key
  := by
  have hmem : v.top ∈ t.ids := (hu.of_mem_children hv).top_mem
  have hparent := ((h.holds.within hu).of_mem_children hv).parent_top
  have hnested := h.nested v.top hmem u.top hparent
  cases hkey : Key.parent? (e.node v.top).key with
  | some p =>
    rw [Key.parent, hkey] at hnested
    rw [← hnested]
    rfl
  | none =>
    rw [Key.isWithin_of_parent?_eq_none hkey] at hwithin
    rw [(h.parent_eq_none_iff hmem).mpr (h.eq_of_key_eq hmem h.root_mem hwithin)] at hparent
    cases hparent

variable (h : e.Laid t) (hroot : e.key ≠ "")

include h hroot

theorem key_ne_empty {id : NodeId} (hid : id ∈ t.ids) :
  (e.node id).key ≠ ""
  := by
  rw [key, ← h.top_eq] at hroot
  exact (h.isWithin_of_mem_of_ne (Within.self t) hroot hid).1

/-- The key of a node that another lists has the key of the other for its parent. -/
theorem parent?_key (hu : Within u t) (hv : v ∈ u.children) :
  Key.parent? (e.node v.top).key = some (e.node u.top).key
  := h.parent?_key_of_ne hu hv (h.key_ne_empty hroot hu.top_mem)

theorem isWithin_of_mem (hu : Within u t) {id : NodeId} (hid : id ∈ u.ids) :
  Key.isWithin (e.node id).key (e.node u.top).key = true
  := (h.isWithin_of_mem_of_ne hu (h.key_ne_empty hroot hu.top_mem) hid).2

/-- The key of a node lies within that of another if and only if the node stands below the other. -/
theorem isWithin_iff_mem (hu : Within u t) {id : NodeId} (hid : id ∈ t.ids) :
  Key.isWithin (e.node id).key (e.node u.top).key = true ↔ id ∈ u.ids
  := by
  constructor
  · intro hwithin
    have hmem := (h.mem_keys_item_iff (Within.self t) hid).mpr hid
    have htop : Key.isWithin (t.item e.own).key (e.node u.top).key = true →
        (t.item e.own).key = (e.node u.top).key := by
      intro hroot'
      apply Key.isWithin_antisymm hroot'
      rw [key_item]
      apply h.isWithin_of_mem hroot (Within.self t) hu.top_mem
    have hkeyed := h.wellKeyed.root
    rw [h.group_root] at hkeyed
    obtain ⟨y, hy, hykey, hmem⟩ := hkeyed.exists_of_isWithin hmem hwithin htop
    obtain ⟨v, hv, rfl⟩ := (mem_subtree_item_iff h.fits).mp hy
    rw [key_item] at hykey
    rw [h.eq_of_top_eq hv hu (h.eq_of_key_eq hv.top_mem hu.top_mem hykey)] at hmem
    apply (h.mem_keys_item_iff hu hid).mp hmem
  · apply h.isWithin_of_mem hroot hu

end Laid

end Editor

end Questionnaire
