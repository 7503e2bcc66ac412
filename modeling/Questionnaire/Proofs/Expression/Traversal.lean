import Mathlib.Data.List.Perm.Basic
import Questionnaire.Expression.Traversal
import Questionnaire.Proofs.Expression.Format

/-!
# Texts and visits of expressions

Mapping the texts of an expression maps the list of them, and two maps one after the other are their
composite.

A visitor that may change the texts of a node, but not its nodes, is shown the nodes of the
expression in their order, each once (`Expression.run_visit`).  So rewriting texts asks once for
each text of the expression, and never for a replacement, replaces the texts that have one, and
counts them (`Expression.run_rewriteTexts`).
-/

namespace Questionnaire

/-! ### Texts -/

theorem Argument.textsOf_eq (arguments : List Argument) :
  textsOf arguments = arguments.flatMap texts
  := by
  induction arguments with
  | nil => rfl
  | cons a rest ih => rw [textsOf, ih, List.flatMap_cons]

theorem Argument.mapTextsOf_eq (f : String → String) (arguments : List Argument) :
  mapTextsOf f arguments = arguments.map (mapTexts f)
  := by
  induction arguments with
  | nil => rfl
  | cons a rest ih => rw [mapTextsOf, ih, List.map_cons]

namespace Expression

theorem texts_mapTexts (f : String → String) (e : Expression) :
  (e.mapTexts f).texts = e.texts.map f
  := by
  induction e using inductionOn with
  | apply name returnType arguments ih =>
    rw [mapTexts, texts, texts, Argument.mapTextsOf_eq, Argument.textsOf_eq, Argument.textsOf_eq,
      List.flatMap_map, List.map_flatMap]
    apply List.flatMap_congr
    intro a ha
    cases a with
    | text s => rfl
    | number x => rfl
    | expression e => exact ih e ha

theorem mapTexts_id :
  mapTexts id = id
  := by
  funext e
  induction e using inductionOn with
  | apply name returnType arguments ih =>
    rw [mapTexts, Argument.mapTextsOf_eq]
    congr 1
    apply Eq.trans _ (List.map_id' arguments)
    apply List.map_congr_left
    intro a ha
    cases a with
    | text s => rfl
    | number x => rfl
    | expression e => exact congrArg Argument.expression (ih e ha)

theorem mapTexts_comp (f g : String → String) :
  mapTexts g ∘ mapTexts f = mapTexts (g ∘ f)
  := by
  funext e
  rw [Function.comp_apply]
  induction e using inductionOn with
  | apply name returnType arguments ih =>
    rw [mapTexts, mapTexts, mapTexts, Argument.mapTextsOf_eq, Argument.mapTextsOf_eq,
      Argument.mapTextsOf_eq, List.map_map]
    congr 1
    apply List.map_congr_left
    intro a ha
    cases a with
    | text s => rfl
    | number x => rfl
    | expression e => exact congrArg Argument.expression (ih e ha)

end Expression

/-! ### Loops over lists -/

/-- A loop whose rounds give what `g` says and change the state as `step` says. -/
theorem run_mapM_of_run {m : Type → Type} [Monad m] [LawfulMonad m] {α β σ : Type}
    {k : α → StateT σ m β} {g : α → β} {step : α → σ → σ} {xs : List α}
    (h : ∀ a ∈ xs, ∀ st, (k a).run st = pure (g a, step a st)) (st : σ) :
  (xs.mapM k).run st = pure (xs.map g, xs.foldl (fun st a => step a st) st)
  := by
  induction xs generalizing st with
  | nil => simp
  | cons x xs ih =>
    obtain ⟨hx, hxs⟩ := List.forall_mem_cons.mp h
    simp [hx, ih hxs]

/-! ### Visits -/

/-- Visits the nodes of an argument. -/
def Argument.visit {σ : Type} (visitor : Expression → StateM σ Expression) :
    Argument → StateT σ Option Argument
  | .expression e => expression <$> e.visit visitor
  | a => return a

namespace Argument

/-- The argument with its text replaced, if it is one. -/
def mapText (h : String → String) : Argument → Argument
  | .text s => .text (h s)
  | a => a

/-- The text that an argument is; one that is an expression has none of its own. -/
def ownTexts : Argument → List String
  | .text s => [s]
  | _ => []

theorem nodesOf_eq (arguments : List Argument) :
  nodesOf arguments = arguments.flatMap nodes
  := by
  induction arguments with
  | nil => rfl
  | cons a rest ih => rw [nodesOf, ih, List.flatMap_cons]

end Argument

namespace Expression

variable {σ : Type} {e : Expression}

/-- The expression with its own text arguments replaced, but not those of the nodes below. -/
def mapOwnTexts (h : String → String) (e : Expression) : Expression :=
  { e with arguments := e.arguments.map (Argument.mapText h) }

theorem mapOwnTexts_id (e : Expression) :
  e.mapOwnTexts id = e
  := by
  obtain ⟨name, returnType, arguments⟩ := e
  have hsame : arguments.map (Argument.mapText id) = arguments := by
    apply Eq.trans _ (List.map_id' arguments)
    apply List.map_congr_left
    intro a _
    cases a with
    | _ => rfl
  rw [mapOwnTexts, hsame]

/-- The text arguments of an expression, without those of the nodes below. -/
def ownTexts (e : Expression) : List String := e.arguments.flatMap Argument.ownTexts

/-- The visit goes on in the arguments of the node that the visitor gives. -/
theorem visit_eq (visitor : Expression → StateM σ Expression) (e : Expression) :
  e.visit visitor
    = (do
      let node ← modifyGet (visitor e)
      mk node.name node.returnType <$> node.arguments.mapM (Argument.visit visitor))
  := by
  rw [visit]
  apply bind_congr
  intro node
  apply bind_pure_comp

theorem run_visit_of_run {visitor : Expression → StateM σ Expression} {node : Expression}
    {st st' : σ} (h : (visitor e).run st = (node, st')) :
  (e.visit visitor).run st
    = ((node.arguments.mapM (Argument.visit visitor)).run st').map fun (arguments, st) =>
        (mk node.name node.returnType arguments, st)
  := by
  have hnode : (modifyGet (visitor e) : StateT σ Option Expression).run st = some (node, st') :=
    congrArg some h
  rw [visit_eq, StateT.run_bind, hnode, Option.bind_eq_bind, Option.bind_some, StateT.run_map]
  rfl

/-- A visitor that does no more to each node than to replace its own texts is shown the nodes of the
expression, in their order. -/
theorem run_visit {visitor : Expression → StateM σ Expression} {h : String → String}
    {step : Expression → σ → σ}
    (hvisitor : ∀ node ∈ e.nodes, ∀ st, (visitor node).run st = (node.mapOwnTexts h, step node st))
    (st : σ) :
  (e.visit visitor).run st
    = some (e.mapTexts h, e.nodes.foldl (fun st node => step node st) st)
  := by
  induction e using inductionOn generalizing st with
  | apply name returnType arguments ih =>
    rw [nodes, List.forall_mem_cons, Argument.nodesOf_eq] at hvisitor
    obtain ⟨hnode, hbelow⟩ := hvisitor
    let next (a : Argument) (st : σ) : σ := a.nodes.foldl (fun st node => step node st) st
    have hargument : ∀ a ∈ arguments, ∀ st,
        (Argument.visit visitor (a.mapText h)).run st = some (a.mapTexts h, next a st) := by
      intro a ha st
      cases a with
      | text s => rfl
      | number x => rfl
      | expression e =>
        have hrun := ih e ha (fun node hmem => hbelow node (List.mem_flatMap_of_mem ha hmem)) st
        change (Argument.expression <$> e.visit visitor).run st = _
        rw [StateT.run_map, hrun]
        rfl
    have hloop (st : σ) :
        ((arguments.map (Argument.mapText h)).mapM (Argument.visit visitor)).run st
          = some (arguments.map (Argument.mapTexts h),
            arguments.foldl (fun st a => next a st) st) := by
      rw [List.mapM_map]
      apply run_mapM_of_run hargument
    rw [run_visit_of_run (hnode st), mapOwnTexts, hloop, nodes, Argument.nodesOf_eq,
      List.foldl_cons, List.foldl_flatMap, mapTexts, Argument.mapTextsOf_eq]
    rfl

/-! ### Rewriting -/

/-- The texts of an expression are those of its nodes. -/
theorem flatMap_ownTexts_perm (e : Expression) :
  (e.nodes.flatMap ownTexts).Perm e.texts
  := by
  induction e using inductionOn with
  | apply name returnType arguments ih =>
    rw [nodes, texts, Argument.nodesOf_eq, Argument.textsOf_eq, List.flatMap_cons,
      List.flatMap_assoc]
    apply (List.flatMap_append_perm arguments _ _).trans
    apply List.Perm.flatMap_left
    intro a ha
    cases a with
    | text s => rfl
    | number x => rfl
    | expression e => exact ih e ha

variable {f : String → Option String} {note : String → σ → σ}

/-- The function that answers as `f` does, whatever its state, and notes what it is asked. -/
def asking (f : String → Option String) (note : String → σ → σ) (s : String) :
    StateM σ (Option String) :=
  modifyGet fun st => (f s, note s st)

/-- The state after the function has been asked for some texts, and the number of replacements. -/
def askedFor (f : String → Option String) (note : String → σ → σ) (texts : List String) :
    σ × Nat → σ × Nat
  | (st, count) =>
    (texts.foldl (fun st s => note s st) st, count + texts.countP fun s => (f s).isSome)

theorem foldl_askedFor {α : Type} (texts : α → List String) (xs : List α) (st : σ × Nat) :
  xs.foldl (fun st a => askedFor f note (texts a) st) st = askedFor f note (xs.flatMap texts) st
  := by
  induction xs generalizing st with
  | nil => rfl
  | cons x xs ih =>
    rw [List.foldl_cons, ih, List.flatMap_cons, askedFor, askedFor, askedFor, List.foldl_append,
      List.countP_append, Nat.add_assoc]

theorem run_rewriteText (a : Argument) (st : σ × Nat) :
  (a.rewriteText (asking f note)).run st
    = (a.mapText fun s => (f s).getD s, askedFor f note a.ownTexts st)
  := by
  cases a with
  | text s =>
    obtain ⟨st, count⟩ := st
    have hasked : (asking f note s).run st = (f s, note s st) := rfl
    rw [Argument.mapText, Argument.ownTexts, askedFor]
    cases hf : f s with
    | none =>
      simp only [Argument.rewriteText, StateT.run_modifyGet, hasked, hf]
      change (Argument.text s, note s st, count) = _
      simp [hf]
    | some replacement =>
      simp only [Argument.rewriteText, StateT.run_modifyGet, hasked, hf]
      change (Argument.text replacement, note s st, count + 1) = _
      simp [hf]
  | number x => rfl
  | expression e => rfl

theorem run_rewriteNode (node : Expression) (st : σ × Nat) :
  (rewriteNode (asking f note) node).run st
    = (node.mapOwnTexts fun s => (f s).getD s, askedFor f note node.ownTexts st)
  := by
  have hloop : (node.arguments.mapM (Argument.rewriteText (asking f note))).run st
      = (node.arguments.map (Argument.mapText fun s => (f s).getD s),
        askedFor f note node.ownTexts st) := by
    rw [ownTexts, ← foldl_askedFor]
    apply run_mapM_of_run
    intro a _ st
    apply run_rewriteText
  rw [rewriteNode, bind_pure_comp, StateT.run_map, hloop]
  rfl

/-- Rewriting replaces the texts that have a replacement and counts them.  The function is asked for
the texts of the nodes, one node after the other. -/
theorem run_rewriteTexts (e : Expression) (st : σ) :
  (e.rewriteTexts (asking f note)).run st
    = some ((e.replaceTexts f, e.hits f),
      (e.nodes.flatMap ownTexts).foldl (fun st s => note s st) st)
  := by
  have hvisit : (e.visit (rewriteNode (asking f note))).run (st, 0)
      = some (e.replaceTexts f, askedFor f note (e.nodes.flatMap ownTexts) (st, 0)) := by
    rw [← foldl_askedFor]
    apply run_visit
    intro node _ st
    apply run_rewriteNode
  change Option.map _ ((e.visit _).run (st, 0)) = _
  rw [hvisit, hits, ← (flatMap_ownTexts_perm e).countP_eq, Option.map_some, askedFor, Nat.zero_add]

/-- A visitor that does not change the nodes is shown each of them once, before those below it. -/
theorem run_visit_of_unchanged {visitor : Expression → StateM σ Expression}
    (h : ∀ node ∈ e.nodes, ∀ st, ((visitor node).run st).1 = node) (st : σ) :
  (e.visit visitor).run st
    = some (e, e.nodes.foldl (fun st node => ((visitor node).run st).2) st)
  := by
  have hvisitor : ∀ node ∈ e.nodes, ∀ st,
      (visitor node).run st = (node.mapOwnTexts id, ((visitor node).run st).2) := by
    intro node hnode st
    rw [mapOwnTexts_id]
    exact Prod.ext (h node hnode st) rfl
  rw [run_visit hvisitor, mapTexts_id]
  rfl

/-- However an expression is nested, rewriting it asks once for each of its texts, and for nothing
else; the texts with a replacement are replaced and counted, and nothing else changes.  A visitor
that does not change the nodes is shown each of them once, before those below it. -/
theorem rewriteTexts_once_and_visit_once (e : Expression) :
  (∀ f : String → Option String,
    (∃ asked : List String, asked.Perm e.texts ∧ ∀ (σ : Type) (note : String → σ → σ) (st : σ),
      (e.rewriteTexts (asking f note)).run st
        = some ((e.replaceTexts f, e.texts.countP fun s => (f s).isSome),
          asked.foldl (fun st s => note s st) st))
    ∧ (e.replaceTexts f).texts = e.texts.map (fun s => (f s).getD s)
    ∧ (e.replaceTexts f).mapTexts (fun _ => "") = e.mapTexts fun _ => "")
  ∧ ∀ (σ : Type) (visitor : Expression → StateM σ Expression),
    (∀ node ∈ e.nodes, ∀ st, ((visitor node).run st).1 = node) →
      ∀ st, (e.visit visitor).run st
        = some (e, e.nodes.foldl (fun st node => ((visitor node).run st).2) st)
  := by
  constructor
  · intro f
    refine ⟨⟨e.nodes.flatMap ownTexts, flatMap_ownTexts_perm e, ?_⟩, ?_, ?_⟩
    · intro σ note st
      apply run_rewriteTexts
    · apply texts_mapTexts
    · exact congrFun (mapTexts_comp _ _) e
  · intro σ visitor h st
    exact run_visit_of_unchanged h st

/-- The names of the nodes of an expression, one after the other. -/
theorem visit_once_of_nested :
  let e : Expression := apply "and" [
    .expression (apply "hasResponseKey" [.text "s.g.q1", .text "rg"]),
    .expression (apply "hasResponse" [.text "s.g.q2"])]
  let record (node : Expression) : StateM (List String) Expression :=
    modifyGet fun names => (node, names ++ [node.name])
  (e.visit record).run [] = some (e, ["and", "hasResponseKey", "hasResponse"])
  := by
  intro e record
  exact (rewriteTexts_once_and_visit_once e).2 (List String) record (fun _ _ _ => rfl) []

end Expression

end Questionnaire
