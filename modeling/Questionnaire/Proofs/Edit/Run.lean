/-!
# Runs of edits

An edit of a survey, a scaffold or an item runs on a state, which it reads and changes, and gives a
result or fails; what it has changed before it fails stays changed.  Here are the runs of edits that
are put together from others.

* An edit made of two succeeds when both do, the second on the state that the first leaves
  (`run_bind_eq_ok_iff`).
* An edit that may have no end goes on if its first part has succeeded (`run_bind_of_some_ok`).
-/

namespace Questionnaire

variable {ε σ α β : Type} {action : ExceptT ε (StateM σ) α} {next : α → ExceptT ε (StateM σ) β}
  {s s' : σ}

/-! ### Edits that succeed -/

theorem run_bind_of_error {err : ε} (h : action.run s = (.error err, s')) :
  (action >>= next).run s = (.error err, s')
  := by
  change ExceptT.bindCont next (action.run s).1 (action.run s).2 = _
  rw [h]
  rfl

theorem run_bind_of_ok {a : α} (h : action.run s = (.ok a, s')) :
  (action >>= next).run s = (next a).run s'
  := by
  change ExceptT.bindCont next (action.run s).1 (action.run s).2 = _
  rw [h]
  rfl

/-- An edit made of two succeeds when both do, the second on the state that the first leaves. -/
theorem run_bind_eq_ok_iff {b : β} {s'' : σ} :
  (action >>= next).run s = (.ok b, s'')
    ↔ ∃ a s', action.run s = (.ok a, s') ∧ (next a).run s' = (.ok b, s'')
  := by
  rcases hrun : action.run s with ⟨r, s'⟩
  cases r with
  | error err =>
    rw [run_bind_of_error hrun]
    constructor
    · rintro ⟨⟩
    · rintro ⟨_, _, ⟨⟩, -⟩
  | ok a =>
    rw [run_bind_of_ok hrun]
    constructor
    · intro hnext
      exact ⟨a, s', rfl, hnext⟩
    · rintro ⟨_, _, ⟨⟩, hnext⟩
      exact hnext

theorem run_map (f : α → β) (action : ExceptT ε (StateM σ) α) (s : σ) :
  (f <$> action).run s = ((action.run s).1.map f, (action.run s).2)
  := by
  rw [ExceptT.run_map]
  rfl

theorem run_map_eq_ok_iff {f : α → β} {b : β} :
  (f <$> action).run s = (.ok b, s') ↔ ∃ a, action.run s = (.ok a, s') ∧ f a = b
  := by
  rw [run_map]
  rcases action.run s with ⟨r, s''⟩
  cases r with
  | error err =>
    constructor
    · rintro ⟨⟩
    · rintro ⟨_, ⟨⟩, -⟩
  | ok a =>
    constructor
    · rintro ⟨⟩
      exact ⟨a, rfl, rfl⟩
    · rintro ⟨_, ⟨⟩, rfl⟩
      rfl

theorem run_get (s : σ) :
  (get : ExceptT ε (StateM σ) σ).run s = (.ok s, s)
  := rfl

/-- A check or a search that does not change the state. -/
theorem run_liftM (r : Except ε α) (s : σ) :
  (liftM r : ExceptT ε (StateM σ) α).run s = (r, s)
  := by
  cases r with
  | error err => rfl
  | ok a => rfl

theorem run_throw_bind (err : ε) (next : α → ExceptT ε (StateM σ) β) (s : σ) :
  (throw err >>= next : ExceptT ε (StateM σ) β).run s = (.error err, s)
  := rfl

/-- An edit that starts with a check or a search succeeds when these do and the rest does. -/
theorem run_liftM_bind_eq_ok_iff {r : Except ε α} {b : β} :
  (liftM r >>= next : ExceptT ε (StateM σ) β).run s = (.ok b, s')
    ↔ ∃ a, r = .ok a ∧ (next a).run s = (.ok b, s')
  := by
  cases r with
  | error err =>
    rw [run_bind_of_error (run_liftM _ s)]
    constructor
    · rintro ⟨⟩
    · rintro ⟨_, ⟨⟩, -⟩
  | ok a =>
    rw [run_bind_of_ok (run_liftM _ s)]
    simp only [Except.ok.injEq, exists_eq_left']

/-! ### Edits that may have no end -/

section

variable {action : ExceptT ε (StateT σ Option) α} {next : α → ExceptT ε (StateT σ Option) β}

theorem run_bind_of_some_error {err : ε} (h : action.run s = some (.error err, s')) :
  (action >>= next).run s = some (.error err, s')
  := by
  change (action.run s).bind (fun p => ExceptT.bindCont next p.1 p.2) = _
  rw [h]
  rfl

theorem run_bind_of_some_ok {a : α} (h : action.run s = some (.ok a, s')) :
  (action >>= next).run s = (next a).run s'
  := by
  change (action.run s).bind (fun p => ExceptT.bindCont next p.1 p.2) = _
  rw [h]
  rfl

theorem run_get_bind (next : σ → ExceptT ε (StateT σ Option) β) (s : σ) :
  (get >>= next).run s = (next s).run s
  := rfl

/-- A search that does not change the state. -/
theorem run_liftM_bind (search : Option α) (next : α → ExceptT ε (StateT σ Option) β) (s : σ) :
  (liftM search >>= next).run s = search.bind fun a => (next a).run s
  := by
  cases search with
  | none => rfl
  | some a => rfl

end

end Questionnaire
