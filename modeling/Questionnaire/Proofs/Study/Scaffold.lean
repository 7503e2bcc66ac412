import Mathlib.Order.Bounds.Defs
import Questionnaire.Proofs.Edit.Run
import Questionnaire.Proofs.Editor.Find
import Questionnaire.Proofs.Survey.Duplicates
import Questionnaire.Proofs.Survey.Edit
import Questionnaire.Study.Scaffold

/-!
# Scaffolds that steps lead to

A scaffold can be started with any key and any texts.  Whatever steps it then serves, additions of
items and page breaks and any requests to its editor, failing ones among them, its editor remains
one that requests lead to.  So no key comes twice in its survey, and the survey can be finished as
it stands.

The search for a page break ends with the first draw that gives a free key, and has no end if there
is none (`freePageBreakFrom_eq_some_iff`).
-/

namespace Questionnaire

/-! ### Surveys without items -/

/-- The survey has the key and no items. -/
structure Survey.Bare (s : Survey) (key : Key) : Prop where
  key_eq : s.key = key
  items_eq : s.root.items = []

namespace Survey.Bare

variable {s : Survey} {key : Key}

theorem empty (key : Key) :
  (Survey.empty key).Bare key
  := ⟨rfl, rfl⟩

theorem checkRekey (h : s.Bare key) (new : Key) :
  s.checkRekey (.group s.root) new = .ok ()
  := by
  have hkeys : (Item.rekey new (.group s.root)).breadthFirst.map Item.key = [new] := by
    obtain ⟨texts, ⟨head, selectionMethod, items⟩⟩ := s
    cases h.items_eq
    rfl
  rw [Survey.checkRekey, hkeys, checkFree_eq_ok_iff]
  refine ⟨List.nodup_singleton new, ?_⟩
  intro key _ htaken
  rw [keysWithout, List.mem_filter, decide_eq_true_eq, Item.keys_group] at htaken
  apply htaken.2 htaken.1

theorem modifyItem_rekey (h : s.Bare key) (new : Key) :
  (s.modifyItem key (·.rekey new)).Bare new
  := by
  obtain ⟨texts, ⟨head, selectionMethod, items⟩⟩ := s
  obtain ⟨hkey, hitems⟩ := h
  cases hitems
  rw [modifyItem, if_pos hkey.symm]
  exact ⟨rfl, rfl⟩

theorem redirect (h : s.Bare key) (old new : Key) :
  (s.redirect old new).Bare key
  := by
  obtain ⟨texts, ⟨head, selectionMethod, items⟩⟩ := s
  obtain ⟨hkey, hitems⟩ := h
  cases hitems
  exact ⟨hkey, rfl⟩

/-- The root of a survey without items can get any key. -/
theorem rename (h : s.Bare key) (new : Key) (references : References) :
  ∃ s', s.rename key new references = .ok s' ∧ s'.Bare new
  := by
  have hlocate := s.locate_key
  rw [h.key_eq] at hlocate
  by_cases hsame : key = new
  · subst hsame
    exact ⟨s, rename_self hlocate references, h⟩
  · have hroot : key ≠ s.key → Key.parent? new = some (Key.parent key) := by
      intro hne
      exact absurd h.key_eq.symm hne
    refine ⟨_, rename_eq_ok hlocate hsame hroot (h.checkRekey new) references, ?_⟩
    cases references with
    | follow => exact (h.modifyItem_rekey new).redirect key new
    | keep => exact h.modifyItem_rekey new

theorem apply (h : s.Bare key) (setting : Editor.Setting) :
  (setting.apply s).Bare key
  := by
  cases setting with
  | _ => exact ⟨h.key_eq, h.items_eq⟩

/-- The root of a survey without items can get any selection method. -/
theorem update (h : s.Bare key) (selectionMethod : Option Expression) :
  ∃ s', s.update ((Item.group s.root).setSelectionMethod selectionMethod) = .ok s' ∧ s'.Bare key
  := by
  obtain ⟨texts, ⟨head, _, items⟩⟩ := s
  obtain ⟨hkey, hitems⟩ := h
  cases hitems
  rw [Survey.update, updated, if_pos]
  · refine ⟨_, rfl, ?_⟩
    rw [modifyItem, if_pos]
    · exact ⟨hkey, rfl⟩
    · rfl
  · rfl

end Survey.Bare

/-! ### Starting a scaffold -/

namespace Editor

/-- The editor is one that requests lead to, and its survey has the key and no items. -/
def Bare (e : Editor) (key : Key) : Prop := e.Reachable ∧ e.survey.Bare key

namespace Bare

variable {e : Editor} {key : Key}

theorem new :
  Editor.new.Bare Survey.defaultKey
  := ⟨.new, Survey.Bare.empty Survey.defaultKey⟩

/-- An edit that answers a request leads to what the request leads to. -/
theorem exists_of_agrees {f : Action Unit} {r : Request} {s : Survey} (he : e.Reachable)
    (hrespond : respond r = (fun _ => .done) <$> f) (hagrees : Agrees e (f.run e) (.ok ((), s)))
    (hs : s.Bare key) :
  ∃ e', e'.Bare key ∧ f.run e = (.ok (), e')
  := by
  obtain ⟨e', _, _, hrun, rfl⟩ := hagrees.of_ok
  have he' := he.served r
  rw [serve, hrespond, run_map, hrun] at he'
  exact ⟨e', ⟨he', hs⟩, hrun⟩

theorem rename (h : e.Bare key) (new : Key) (references : References) :
  ∃ e', e'.Bare new ∧ (Editor.rename key new references).run e = (.ok (), e')
  := by
  obtain ⟨he, hbare⟩ := h
  obtain ⟨t, ht⟩ := he.laid
  obtain ⟨s', hrename, hbare'⟩ := hbare.rename new references
  have hagrees := ht.rename key new references
  rw [hrename] at hagrees
  exact exists_of_agrees (r := .rename key new references) he (bind_pure_comp _ _) hagrees hbare'

theorem set (h : e.Bare key) (setting : Setting) :
  ∃ e', e'.Bare key ∧ (Editor.set setting).run e = (.ok (), e')
  := by
  obtain ⟨he, hbare⟩ := h
  obtain ⟨t, ht⟩ := he.laid
  exact exists_of_agrees (r := .set setting) he (bind_pure_comp _ _) (ht.set setting)
    (hbare.apply setting)

/-- The root is found, and it can get any selection method. -/
theorem update (h : e.Bare key) (selectionMethod : Option Expression) :
  ∃ root e', e'.Bare key ∧ e.findItem key = .ok root
    ∧ (Editor.update (root.setSelectionMethod selectionMethod)).run e = (.ok (), e')
  := by
  obtain ⟨he, hbare⟩ := h
  obtain ⟨t, ht⟩ := he.laid
  have hfind := ht.findItem_root
  rw [← ht.survey_key, hbare.key_eq] at hfind
  obtain ⟨s', hupdate, hbare'⟩ := hbare.update selectionMethod
  have hagrees := ht.update ((Item.group e.survey.root).setSelectionMethod selectionMethod)
  rw [hupdate] at hagrees
  obtain ⟨e', hbare'', hrun⟩ := exists_of_agrees
    (r := .update ((Item.group e.survey.root).setSelectionMethod selectionMethod)) he
    (bind_pure_comp _ _) hagrees hbare'
  exact ⟨_, e', hbare'', hfind, hrun⟩

end Bare

end Editor

namespace Scaffold

/-- A scaffold can be started with anything.  It has its key, and so has its survey, which has no
items. -/
theorem exists_create_bare (p : ScaffoldProps) :
  ∃ e : Editor, e.Bare p.key ∧ create p = .ok ⟨p.key, e⟩
  := by
  obtain ⟨e, h, hrename⟩ := Editor.Bare.new.rename p.key .follow
  obtain ⟨e, h, hname⟩ := h.set (.name (LocalizedText.ofPairs p.name))
  obtain ⟨e, h, hdescription⟩ := h.set (.description (LocalizedText.ofPairs p.description))
  obtain ⟨e, h, hduration⟩ := h.set (.typicalDuration (LocalizedText.ofPairs p.duration))
  obtain ⟨e, h, havailable⟩ := h.set (.availableFor p.availableFor)
  obtain ⟨e, h, hlogin⟩ := h.set (.requiresLogin p.requiresLogin)
  obtain ⟨root, e', h', hfind, hupdate⟩ := h.update (some (.named "sequential"))
  have hprepare : (prepare p).run Editor.new = (.ok (), e') := by
    rw [prepare, run_bind_of_ok hrename, run_bind_of_ok hname, run_bind_of_ok hdescription,
      run_bind_of_ok hduration, run_bind_of_ok havailable, run_bind_of_ok hlogin,
      run_bind_of_ok (run_get e), hfind, run_bind_of_ok (run_liftM _ e)]
    exact hupdate
  use e', h'
  rw [create, hprepare]

theorem exists_create (p : ScaffoldProps) :
  ∃ s, create p = .ok s
  := by
  obtain ⟨e, -, hcreate⟩ := exists_create_bare p
  exact ⟨_, hcreate⟩

/-! ### Steps -/

/-- A step of a scaffold. -/
inductive Request where
  | addItem (x : Item) (pageBreak : Bool) (draw : Nat → String)
  | addPageBreak (draw : Nat → String)
  | addTo (x : Item) (parent : Key)
  /-- A request to the editor. -/
  | edit (r : Editor.Request)

/-- The answer to a step. -/
def respond : Request → Edit Editor.Answer
  | .addItem x pageBreak draw => do
    addItem x pageBreak draw
    return .done
  | .addPageBreak draw => do
    addPageBreak draw
    return .done
  | .addTo x parent => do
    addTo x parent
    return .done
  | .edit r => edit (Editor.respond r)

/-- The answer to a step, and the scaffold after it.  There is none if a page break is asked for and
no token gives a free key. -/
def serve (s : Scaffold) (r : Request) : Option (Except EditError Editor.Answer × Scaffold) :=
  (respond r).run s

/-- The scaffolds that steps lead to.  Between the steps the index may be reordered. -/
inductive Reachable : Scaffold → Prop where
  | created {p : ScaffoldProps} {s : Scaffold} (h : create p = .ok s) : Reachable s
  | served {s s' : Scaffold} (h : Reachable s) {r : Request} {a : Except EditError Editor.Answer}
    (hserve : s.serve r = some (a, s')) : Reachable s'
  | reindexed {s : Scaffold} (h : Reachable s) {index : Index}
    (perm : index.entries.Perm s.editor.index.entries) :
    Reachable { s with editor := { s.editor with index } }

/-! ### Page breaks with free keys -/

section

variable {s : Scaffold} {draw : Nat → String}

/-- The draws, from the given one on, that give a page break whose key no item has. -/
def freeDraws (s : Scaffold) (draw : Nat → String) (n : Nat) : Set Nat :=
  {m | n ≤ m ∧ s.editor.contains (s.pageBreakOf (draw m)).key = false}

theorem freePageBreakFrom_of_free {n : Nat}
    (h : s.editor.contains (s.pageBreakOf (draw n)).key = false) :
  s.freePageBreakFrom draw n = some (s.pageBreakOf (draw n))
  := by
  rw [freePageBreakFrom]
  apply if_neg
  rw [Bool.not_eq_true]
  exact h

theorem freePageBreakFrom_of_taken {n : Nat}
    (h : s.editor.contains (s.pageBreakOf (draw n)).key = true) :
  s.freePageBreakFrom draw n = s.freePageBreakFrom draw (n + 1)
  := by
  rw [freePageBreakFrom]
  exact if_pos h

/-- A draw that gives a key in use is passed over. -/
theorem freeDraws_of_taken {n : Nat}
    (h : s.editor.contains (s.pageBreakOf (draw n)).key = true) :
  s.freeDraws draw n = s.freeDraws draw (n + 1)
  := by
  ext m
  constructor
  · rintro ⟨hle, hfree⟩
    refine ⟨Nat.lt_of_le_of_ne hle ?_, hfree⟩
    rintro rfl
    rw [h] at hfree
    cases hfree
  · rintro ⟨hlt, hfree⟩
    exact ⟨Nat.le_of_succ_le hlt, hfree⟩

/-- The search ends with the first draw that gives a key that is free. -/
theorem freePageBreakFrom_of_isLeast {m n : Nat} (h : IsLeast (s.freeDraws draw n) m) :
  s.freePageBreakFrom draw n = some (s.pageBreakOf (draw m))
  := by
  induction hk : m - n generalizing n with
  | zero =>
    obtain rfl : m = n := Nat.le_antisymm (Nat.le_of_sub_eq_zero hk) h.1.1
    exact freePageBreakFrom_of_free h.1.2
  | succ k ih =>
    have htaken : s.editor.contains (s.pageBreakOf (draw n)).key = true := by
      by_contra hfree
      have hle := h.2 ⟨Nat.le_refl n, Bool.eq_false_iff.mpr hfree⟩
      omega
    rw [freePageBreakFrom_of_taken htaken]
    rw [freeDraws_of_taken htaken] at h
    apply ih h
    omega

/-- The search ends if and only if some draw gives a key that is free, and then with the first
one. -/
theorem freePageBreakFrom_eq_some_iff {n : Nat} {x : Item} :
  s.freePageBreakFrom draw n = some x
    ↔ ∃ m, IsLeast (s.freeDraws draw n) m ∧ s.pageBreakOf (draw m) = x
  := by
  constructor
  · intro h
    refine freePageBreakFrom.partial_correctness s draw
      (fun n x => ∃ m, IsLeast (s.freeDraws draw n) m ∧ s.pageBreakOf (draw m) = x) ?_ n x h
    intro search ih n x hround
    by_cases htaken : s.editor.contains (s.pageBreakOf (draw n)).key = true
    · rw [freeDraws_of_taken htaken]
      apply ih
      exact (if_pos htaken).symm.trans hround
    · have hx : some (s.pageBreakOf (draw n)) = some x := (if_neg htaken).symm.trans hround
      use n, ⟨⟨Nat.le_refl n, Bool.eq_false_iff.mpr htaken⟩, fun m hm => hm.1⟩
      exact Option.some.inj hx
  · rintro ⟨m, hleast, rfl⟩
    exact freePageBreakFrom_of_isLeast hleast

end

/-! ### What a step does to the editor -/

/-- A request is answered as the editor answers it. -/
theorem serve_edit (s : Scaffold) (r : Editor.Request) :
  s.serve (.edit r)
    = some ((s.editor.serve r).1, { s with editor := (s.editor.serve r).2 })
  := rfl

/-- The scaffold after the addition of an item, which may have failed. -/
def added (s : Scaffold) (x : Item) (parent : Key) : Scaffold :=
  { s with editor := (s.editor.serve (.addExisting x parent none)).2 }

theorem run_addTo (x : Item) (parent : Key) (s : Scaffold) :
  (addTo x parent).run s
    = some ((s.editor.serve (.addExisting x parent none)).1.map fun _ => (), s.added x parent)
  := by
  have hrun : (addTo x parent).run s
      = some (((fun _ => ()) <$> Editor.addExisting x parent none).run s.editor
        |>.map id fun editor => { s with editor }) := rfl
  rw [hrun, added, Editor.serve, Editor.respond, run_map, run_map]
  cases ((Editor.addExisting x parent none).run s.editor).1 with
  | error err => rfl
  | ok x => rfl

/-- An item is added as the editor adds it. -/
theorem serve_addTo (s : Scaffold) (x : Item) (parent : Key) :
  s.serve (.addTo x parent)
    = some ((s.editor.serve (.addExisting x parent none)).1.map fun _ => .done, s.added x parent)
  := by
  have hadd := run_addTo x parent s
  rw [serve, respond]
  cases hanswer : (s.editor.serve (.addExisting x parent none)).1 with
  | error err =>
    rw [hanswer] at hadd
    rw [run_bind_of_some_error hadd]
    rfl
  | ok a =>
    rw [hanswer] at hadd
    rw [run_bind_of_some_ok hadd]
    rfl

/-- The first page break with a free key is added to the root, if the draws come to one. -/
theorem serve_addPageBreak (s : Scaffold) (draw : Nat → String) :
  s.serve (.addPageBreak draw)
    = (s.freePageBreakFrom draw 0).bind fun x => s.serve (.addTo x s.key)
  := by
  rw [serve, respond, addPageBreak, bind_assoc, run_get_bind, bind_assoc, run_liftM_bind]
  rfl

/-- An item is added to the root as to any group.  If it is not refused, the page break that is
asked for follows. -/
theorem serve_addItem (s : Scaffold) (x : Item) (pageBreak : Bool) (draw : Nat → String) :
  s.serve (.addItem x pageBreak draw)
    = (s.serve (.addTo x s.key)).bind fun
      | (.ok _, s') =>
        if pageBreak then s'.serve (.addPageBreak draw) else some (.ok .done, s')
      | (.error err, s') => some (.error err, s')
  := by
  have hadd := run_addTo x s.key s
  rw [serve_addTo, serve, respond, addItem, bind_assoc, run_get_bind, bind_assoc]
  cases hanswer : (s.editor.serve (.addExisting x s.key none)).1 with
  | error err =>
    rw [hanswer] at hadd
    exact run_bind_of_some_error hadd
  | ok y =>
    rw [hanswer] at hadd
    rw [run_bind_of_some_ok hadd]
    cases pageBreak with
    | false => rfl
    | true => rfl

/-- Additions to the editor of a scaffold, one after the other, failing ones among them. -/
inductive Additions (s : Scaffold) : Scaffold → Prop where
  | refl : Additions s s
  | added {s' : Scaffold} (h : Additions s s') (x : Item) (parent : Key) :
    Additions s (s'.added x parent)

section

variable {s s' s'' : Scaffold} {a : Except EditError Editor.Answer}

theorem Additions.trans (h : s.Additions s') (h' : s'.Additions s'') :
  s.Additions s''
  := by
  induction h' with
  | refl => exact h
  | added _ x parent ih => exact ih.added x parent

theorem additions_of_addTo {x : Item} {parent : Key}
    (h : s.serve (.addTo x parent) = some (a, s')) :
  s.Additions s'
  := by
  rw [serve_addTo] at h
  cases h
  exact Additions.refl.added x parent

theorem additions_of_addPageBreak {draw : Nat → String}
    (h : s.serve (.addPageBreak draw) = some (a, s')) :
  s.Additions s'
  := by
  rw [serve_addPageBreak] at h
  obtain ⟨x, -, hadd⟩ := Option.bind_eq_some_iff.mp h
  exact additions_of_addTo hadd

/-- A step serves a request to the editor, or makes some additions. -/
theorem serve_cases {request : Request} (h : s.serve request = some (a, s')) :
  (∃ r, request = .edit r ∧ s.editor.serve r = (a, s'.editor) ∧ s'.key = s.key)
    ∨ (∀ r, request ≠ .edit r) ∧ s.Additions s'
  := by
  cases request with
  | addItem x pageBreak draw =>
    right
    use nofun
    rw [serve_addItem] at h
    obtain ⟨⟨err | _, s''⟩, hadd, h⟩ := Option.bind_eq_some_iff.mp h
    · cases h
      exact additions_of_addTo hadd
    · apply (additions_of_addTo hadd).trans
      cases pageBreak with
      | false =>
        cases h
        exact Additions.refl
      | true => exact additions_of_addPageBreak h
  | addPageBreak draw => exact Or.inr ⟨nofun, additions_of_addPageBreak h⟩
  | addTo x parent => exact Or.inr ⟨nofun, additions_of_addTo h⟩
  | edit request =>
    cases h
    exact Or.inl ⟨request, rfl, rfl, rfl⟩

theorem Additions.editor_reachable (h : s.Additions s') (hs : s.editor.Reachable) :
  s'.editor.Reachable
  := by
  induction h with
  | refl => exact hs
  | added _ x parent ih => exact ih.served _

/-- The editor of a scaffold that steps lead to is one that requests lead to. -/
theorem Reachable.editor_reachable (h : s.Reachable) :
  s.editor.Reachable
  := by
  induction h with
  | @created p s hcreate =>
    obtain ⟨e, hbare, hcreate'⟩ := exists_create_bare p
    rw [hcreate] at hcreate'
    cases hcreate'
    exact hbare.1
  | served _ hserve ih =>
    obtain ⟨r, -, hedit, -⟩ | ⟨-, hadditions⟩ := serve_cases hserve
    · have hserved := ih.served r
      rw [hedit] at hserved
      exact hserved
    · exact hadditions.editor_reachable ih
  | reindexed _ perm ih => exact ih.reindexed perm

end

end Scaffold

/-! ### Finished surveys -/

/-- A survey is finished as it stands, unless two items of its root have the same key. -/
theorem Survey.checked_cases (s : Survey) :
  (s.root.DistinctKeys ∧ s.checked = .ok s)
    ∨ ¬ s.root.DistinctKeys ∧ s.checked = .error (.duplicateKeys s.key s.rootDuplicates)
  := by
  rw [← rootDuplicates_eq_nil_iff, checked]
  cases s.rootDuplicates with
  | nil =>
    left
    exact ⟨rfl, rfl⟩
  | cons d ds =>
    right
    simp

namespace Scaffold

/-- No key comes twice in the survey of a scaffold, and the survey is finished as it stands. -/
theorem Reachable.checked {s : Scaffold} (h : s.Reachable) :
  s.editor.survey.keys.Nodup ∧ s.editor.survey.checked = .ok s.editor.survey
  := by
  obtain ⟨t, ht⟩ := h.editor_reachable.laid
  use ht.survey_nodup
  obtain ⟨-, hchecked⟩ | ⟨hdistinct, -⟩ := s.editor.survey.checked_cases
  · exact hchecked
  · exfalso
    apply hdistinct
    apply Survey.distinctKeys_of_nodup ht.survey_nodup (Survey.hasGroup_root _)

/-- A scaffold can be started with anything, and after any steps the finished survey is that of the
editor, and the sweep of all its groups reports no key that comes twice. -/
theorem create_finish :
  (∀ p, ∃ s, create p = .ok s)
    ∧ ∀ s : Scaffold, s.Reachable →
      s.finish = .ok s.editor.survey ∧ s.editor.survey.duplicates = []
  := by
  refine ⟨exists_create, ?_⟩
  intro s hs
  obtain ⟨hnodup, hchecked⟩ := hs.checked
  use hchecked
  rw [Survey.duplicates_eq_nil_iff]
  intro g hg
  apply Survey.distinctKeys_of_nodup hnodup hg

theorem exists_serve_addTo_of_refused {s : Scaffold} {x : Item} {parent : Key}
    (h : (s.editor.serve (.addExisting x parent none)).1.toBool = false) :
  ∃ err, s.serve (.addTo x parent) = some (.error err, s.added x parent)
  := by
  rw [serve_addTo]
  cases hanswer : (s.editor.serve (.addExisting x parent none)).1 with
  | error err => exact ⟨err, rfl⟩
  | ok y =>
    rw [hanswer] at h
    cases h

theorem serve_addTo_of_answered {s : Scaffold} {x : Item} {parent : Key}
    (h : (s.editor.serve (.addExisting x parent none)).1.toBool = true) :
  s.serve (.addTo x parent) = some (.ok .done, s.added x parent)
  := by
  rw [serve_addTo]
  cases hanswer : (s.editor.serve (.addExisting x parent none)).1 with
  | error err =>
    rw [hanswer] at h
    cases h
  | ok y => rfl

/-- A scaffold to which a question has been added with a page break, then another page break, for
which the first draw is taken, and then the question once more, in vain. -/
theorem finish_after_duplicate :
  let draw : Nat → String := fun n => if n = 0 then "0000" else "0001"
  let q : Item := .single { head := { key := "intake.q" } }
  let s : Scaffold := ⟨"intake", ((prepare { key := "intake" }).run Editor.new).2⟩
  let s₁ := (s.added q "intake").added (.pageBreak "intake" "PB_0000") "intake"
  let s₂ := s₁.added (.pageBreak "intake" "PB_0001") "intake"
  let s₃ := s₂.added q "intake"
  create { key := "intake" } = .ok s
    ∧ s.serve (.addItem q true draw) = some (.ok .done, s₁)
    ∧ s₁.serve (.addPageBreak draw) = some (.ok .done, s₂)
    ∧ (∃ err, s₂.serve (.addItem q true draw) = some (.error err, s₃))
    ∧ s₃.finish = .ok s₃.editor.survey ∧ s₃.editor.survey.duplicates = []
    ∧ s₃.editor.survey.keys = ["intake", "intake.q", "intake.PB_0000", "intake.PB_0001"]
  := by
  intro draw q s s₁ s₂ s₃
  have hcreated : create { key := "intake" } = .ok s := rfl
  have hquestion : s.serve (.addItem q true draw) = some (.ok .done, s₁) := by
    rw [serve_addItem, serve_addTo_of_answered (by decide)]
    change (s.added q "intake").serve (.addPageBreak draw) = _
    rw [serve_addPageBreak, freePageBreakFrom_of_free (by decide)]
    exact serve_addTo_of_answered (by decide)
  have hbreak : s₁.serve (.addPageBreak draw) = some (.ok .done, s₂) := by
    rw [serve_addPageBreak, freePageBreakFrom_of_taken (by decide),
      freePageBreakFrom_of_free (by decide)]
    exact serve_addTo_of_answered (by decide)
  have hagain : ∃ err, s₂.serve (.addItem q true draw) = some (.error err, s₃) := by
    obtain ⟨err, hrefused⟩ : ∃ err, s₂.serve (.addTo q "intake") = some (.error err, s₃) :=
      exists_serve_addTo_of_refused (by decide)
    use err
    rw [serve_addItem]
    exact Option.bind_eq_some_iff.mpr ⟨_, hrefused, rfl⟩
  obtain ⟨err, hfailed⟩ := hagain
  have hreachable : s₃.Reachable :=
    (((Reachable.created hcreated).served hquestion).served hbreak).served hfailed
  obtain ⟨hfinish, hduplicates⟩ := create_finish.2 s₃ hreachable
  exact ⟨hcreated, hquestion, hbreak, ⟨err, hfailed⟩, hfinish, hduplicates, by decide⟩

end Scaffold

end Questionnaire
