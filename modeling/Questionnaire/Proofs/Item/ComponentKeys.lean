import Mathlib.Data.List.Induction
import Questionnaire.Proofs.Item.Serve

/-!
# Distinct component keys along a run of requests

Whatever requests are made to the editor of a new single item, the failing ones among them, no
component group below the root component ever has two children with the same key, if the components
that the requests bring along have none.

The root component itself is safe from all requests but one: a title is set without regard to the
keys beside it.  The keys of the item are distinct throughout a run exactly when every title, at
the time it is set, has a key that no other child of the root component has
(`distinctKeys_of_create`).  While they are, a path has one candidate at most.
-/

namespace Questionnaire

namespace Item

/-! ### Keys in an item -/

/-- No component of the item has two children with the same key. -/
def DistinctKeys (x : Item) : Prop := ∀ root ∈ x.root?, root.DistinctKeys

/-- No child of the root component but the title has the key of the new title. -/
def TitleFree (x : Item) (title : Component) : Prop := ∀ root ∈ x.root?, root.TitleFree title

/-- The item has a root component, and no component below it has two children with the same key. -/
def DistinctBelow (x : Item) : Prop := ∃ root, x.root? = some root ∧ root.DistinctBelow

instance (x : Item) : Decidable x.DistinctKeys :=
  inferInstanceAs (Decidable (∀ root ∈ x.root?, root.DistinctKeys))

instance (x : Item) (title : Component) : Decidable (x.TitleFree title) :=
  inferInstanceAs (Decidable (∀ root ∈ x.root?, root.TitleFree title))

variable {x : Item} {r : Request} {root new title : Component}

theorem distinctKeys_iff_of_root (h : x.root? = some root) :
  x.DistinctKeys ↔ root.DistinctKeys
  := by
  simp only [DistinctKeys, h, Option.mem_some_iff, forall_eq']

theorem titleFree_iff_of_root (h : x.root? = some root) :
  x.TitleFree title ↔ root.TitleFree title
  := by
  simp only [TitleFree, h, Option.mem_some_iff, forall_eq']

/-- The component that a request brings along has distinct keys. -/
def Request.DistinctKeys (r : Request) : Prop := ∀ c ∈ r.component?, c.DistinctKeys

instance (r : Request) : Decidable r.DistinctKeys :=
  inferInstanceAs (Decidable (∀ c ∈ r.component?, c.DistinctKeys))

/-! ### One request -/

/-- A request other than for a title keeps keys apart in the root component. -/
theorem keepsApart_onRoot? {f : Component → Except EditError (Answer × Component)} {a : Answer}
    (hf : r.onRoot? = some f) (hnew : f root = .ok (a, new)) (hr : r.DistinctKeys)
    (htitle : ∀ title, r ≠ .setTitle title) :
  root.KeepsApart new
  := by
  cases r with
  | setTitle title => exact absurd rfl (htitle title)
  | addDisplay c position =>
    cases hf
    obtain ⟨grown, hgrown, heq⟩ := exists_of_map_eq_ok hnew
    cases heq
    exact Component.KeepsApart.insertChild (hr c rfl) hgrown
  | addResponse c path position =>
    cases hf
    obtain ⟨grown, hgrown, heq⟩ := exists_of_map_eq_ok hnew
    cases heq
    exact Component.KeepsApart.insertAtPath (hr c rfl) hgrown
  | addNewResponse role key isGroup path position =>
    cases hf
    obtain ⟨group, -, hnew⟩ := exists_of_bind_eq_ok hnew
    obtain ⟨grown, hgrown, heq⟩ := exists_of_map_eq_ok hnew
    cases heq
    have hchild : ∀ key, (Component.create role key isGroup).DistinctKeys := by
      intro key
      apply Component.distinctKeys_of_children_eq_nil
      cases isGroup with
      | _ => rfl
    exact Component.KeepsApart.insertAtPath (hchild _) hgrown
  | _ => cases hf

/-- What a request makes of the root component: a title is set, or keys are kept apart. -/
theorem root?_serve (hroot : x.root? = some root) (hr : r.DistinctKeys) :
  ∃ new, (x.serve r).2.root? = some new
    ∧ ((∃ title, r = .setTitle title ∧ new = root.setTitle title)
      ∨ (∀ title, r ≠ .setTitle title) ∧ root.KeepsApart new)
  := by
  by_cases htitle : ∃ title, r = .setTitle title
  · obtain ⟨title, rfl⟩ := htitle
    refine ⟨root.setTitle title, ?_, Or.inl ⟨title, rfl, rfl⟩⟩
    rw [serve_eq_editRoot rfl, editRoot_of_ok hroot rfl]
    exact root?_withRoot hroot _
  · have htitle := not_exists.mp htitle
    cases hf : r.onRoot? with
    | none =>
      obtain ⟨a, y, hserve, hy⟩ := serve_of_onRoot?_eq_none hf x
      rw [hserve]
      exact ⟨root, hy.trans hroot, Or.inr ⟨htitle, .refl root⟩⟩
    | some f =>
      rw [serve_eq_editRoot hf]
      cases hnew : f root with
      | error err =>
        rw [editRoot_of_error hroot hnew]
        exact ⟨root, hroot, Or.inr ⟨htitle, .refl root⟩⟩
      | ok result =>
        rw [editRoot_of_ok hroot hnew]
        refine ⟨result.2, root?_withRoot hroot _, Or.inr ⟨htitle, ?_⟩⟩
        exact keepsApart_onRoot? hf hnew hr htitle

theorem distinctBelow_serve (hx : x.DistinctBelow) (hr : r.DistinctKeys) :
  (x.serve r).2.DistinctBelow
  := by
  obtain ⟨root, hroot, hbelow⟩ := hx
  obtain ⟨new, hnew, ⟨title, rfl, rfl⟩ | ⟨-, hapart⟩⟩ := root?_serve hroot hr
  · exact ⟨_, hnew, Component.distinctBelow_setTitle hbelow (hr title rfl)⟩
  · exact ⟨_, hnew, hapart.below hbelow⟩

/-- Distinct keys stay distinct unless a title takes the key of another child. -/
theorem distinctKeys_serve_iff (hx : x.DistinctBelow) (hkeys : x.DistinctKeys)
    (hr : r.DistinctKeys) :
  (x.serve r).2.DistinctKeys ↔ ∀ title, r = .setTitle title → x.TitleFree title
  := by
  obtain ⟨root, hroot, hbelow⟩ := hx
  rw [distinctKeys_iff_of_root hroot] at hkeys
  obtain ⟨new, hnew, ⟨title, rfl, rfl⟩ | ⟨htitle, hapart⟩⟩ := root?_serve hroot hr
  · have hnodup : (Component.keysOf (root.setTitle title).children).Nodup
        ↔ root.TitleFree title :=
      Component.nodup_setTitle_iff (Component.distinctKeys_iff.mp hkeys).1
    have hbelow := Component.distinctBelow_setTitle hbelow (hr title rfl)
    rw [distinctKeys_iff_of_root hnew, Component.distinctKeys_iff, and_iff_left hbelow, hnodup,
      ← titleFree_iff_of_root hroot]
    constructor
    · rintro hfree _ ⟨⟩
      exact hfree
    · intro hfree
      exact hfree title rfl
  · rw [distinctKeys_iff_of_root hnew]
    constructor
    · intro _ title heq
      exact absurd heq (htitle title)
    · intro _
      exact hapart.distinctKeys hkeys

/-! ### A run of requests -/

/-- The item after some requests, whether they succeed or fail. -/
def serveAll (x : Item) (rs : List Request) : Item := rs.foldl (fun x r => (x.serve r).2) x

theorem serveAll_concat (x : Item) (rs : List Request) (r : Request) :
  x.serveAll (rs ++ [r]) = ((x.serveAll rs).serve r).2
  := List.foldl_concat _ _ _ _

variable {rs : List Request}

theorem distinctBelow_serveAll (hx : x.DistinctBelow) (hrs : ∀ r ∈ rs, r.DistinctKeys) :
  (x.serveAll rs).DistinctBelow
  := by
  induction rs using List.reverseRecOn with
  | nil => exact hx
  | append_singleton rs r ih =>
    obtain ⟨hrs, hr⟩ := List.forall_mem_append.mp hrs
    rw [serveAll_concat]
    exact distinctBelow_serve (ih hrs) (hr r List.mem_cons_self)

/-- Keys are distinct all along a run exactly when no title takes the key of another child. -/
theorem distinctKeys_serveAll_iff (hx : x.DistinctBelow) (hkeys : x.DistinctKeys)
    (hrs : ∀ r ∈ rs, r.DistinctKeys) :
  (∀ before, before <+: rs → (x.serveAll before).DistinctKeys)
    ↔ ∀ before title, before ++ [.setTitle title] <+: rs → (x.serveAll before).TitleFree title
  := by
  induction rs using List.reverseRecOn with
  | nil =>
    constructor
    · intro _ before title hbefore
      exact absurd (List.prefix_nil.mp hbefore) (List.concat_ne_nil _ _)
    · intro _ before hbefore
      rw [List.prefix_nil.mp hbefore]
      exact hkeys
  | append_singleton rs r ih =>
    obtain ⟨hrs, hr⟩ := List.forall_mem_append.mp hrs
    have hstep (hrun : (x.serveAll rs).DistinctKeys) :=
      distinctKeys_serve_iff (distinctBelow_serveAll hx hrs) hrun (hr r List.mem_cons_self)
    rw [← serveAll_concat] at hstep
    constructor
    · intro hall before title hbefore
      have hearlier : ∀ before, before <+: rs → (x.serveAll before).DistinctKeys :=
        fun before h => hall before (h.trans (List.prefix_append rs [r]))
      rcases List.prefix_concat_iff.mp hbefore with heq | hbefore
      · obtain ⟨rfl, hlast⟩ := List.append_inj' heq rfl
        cases hlast
        exact (hstep (hearlier before List.prefix_rfl)).mp (hall _ List.prefix_rfl) title rfl
      · exact (ih hrs).mp hearlier before title hbefore
    · intro hall before hbefore
      have hearlier := (ih hrs).mpr fun before title h =>
        hall before title (h.trans (List.prefix_append rs [r]))
      rcases List.prefix_concat_iff.mp hbefore with rfl | hbefore
      · apply (hstep (hearlier rs List.prefix_rfl)).mpr
        rintro title rfl
        exact hall rs title List.prefix_rfl
      · exact hearlier before hbefore

/-- All along a run of requests to the editor of a new single item, component groups below the root
component have distinct keys, and the root component has exactly when no title takes the key of
another child.  Where all keys are distinct, the component that a path leads to is the only
candidate. -/
theorem distinctKeys_of_create (itemType : Option String) (key : Key)
    (hrs : ∀ r ∈ rs, r.DistinctKeys) :
  (∃ root, ((create ⟨false, itemType⟩ key).serveAll rs).root? = some root ∧ root.DistinctBelow
      ∧ (root.DistinctKeys → ∀ path, root.candidates path = (root.descendant? path).toList))
    ∧ ((∀ before, before <+: rs → ((create ⟨false, itemType⟩ key).serveAll before).DistinctKeys)
      ↔ ∀ before title, before ++ [.setTitle title] <+: rs →
        ((create ⟨false, itemType⟩ key).serveAll before).TitleFree title)
  := by
  have hnew : Component.root.DistinctKeys := Component.distinctKeys_of_children_eq_nil rfl
  have hbelow : (create ⟨false, itemType⟩ key).DistinctBelow := ⟨.root, rfl, nofun⟩
  have hkeys : (create ⟨false, itemType⟩ key).DistinctKeys := by
    rintro _ ⟨⟩
    exact hnew
  obtain ⟨root, hroot, hrootBelow⟩ := distinctBelow_serveAll hbelow hrs
  refine ⟨⟨root, hroot, hrootBelow, ?_⟩, distinctKeys_serveAll_iff hbelow hkeys hrs⟩
  intro hroot path
  exact Component.candidates_eq hroot path

/-- A response group, and a response in it. -/
def responseRequests : List Request :=
  [.addNewResponse "responseGroup" none true none none,
    .addResponse (.leaf "input" (some "a")) (some "rg") none]

/-- A title may have a key that a component below another child of the root component has. -/
theorem distinctKeys_of_response :
  (∀ r ∈ responseRequests ++ [.setTitle (.leaf "title" (some "a"))], r.DistinctKeys)
    ∧ ((create ⟨false, none⟩ "s.q").serveAll
      (responseRequests ++ [.setTitle (.leaf "title" (some "a"))])).DistinctKeys
  := by
  have hrs : ∀ r ∈ responseRequests ++ [.setTitle (.leaf "title" (some "a"))], r.DistinctKeys := by
    decide
  refine ⟨hrs, (distinctKeys_of_create none "s.q" hrs).2.mpr ?_ _ List.prefix_rfl⟩
  intro before title hbefore
  rcases List.prefix_concat_iff.mp hbefore with heq | hbefore
  · obtain ⟨rfl, hlast⟩ := List.append_inj' heq rfl
    cases hlast
    decide
  · have hmem : Request.setTitle title ∈ responseRequests := hbefore.subset (by simp)
    simp [responseRequests] at hmem

/-- A title takes the key of a text, and two components have it. -/
theorem ambiguous_key_of_title :
  (∀ r ∈ [.addDisplay (.leaf "text" (some "a")) none, .setTitle (.leaf "title" (some "a"))],
      Request.DistinctKeys r)
    ∧ ¬((create ⟨false, none⟩ "s.q").serveAll [.addDisplay (.leaf "text" (some "a")) none,
      .setTitle (.leaf "title" (some "a"))]).DistinctKeys
  := by
  decide

end Item

end Questionnaire
