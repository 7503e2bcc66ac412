import Questionnaire.Expression.Basic

/-!
# The nodes and texts of an expression

An expression is a tree: its nodes are the expression itself and the nodes of its arguments, and
its texts are the text arguments of all nodes.  Replacing texts leaves everything else as
it is.

A visitor is shown the nodes one after the other, and may change each of them before the visit goes
on to its arguments.  Texts are rewritten by a visitor that replaces those among the arguments of
the node.
-/

namespace Questionnaire

mutual

/-- The nodes of an expression, each before the nodes of its arguments. -/
def Expression.nodes : Expression → List Expression
  | ⟨name, returnType, arguments⟩ => ⟨name, returnType, arguments⟩ :: Argument.nodesOf arguments

/-- The nodes of an argument. -/
def Argument.nodes : Argument → List Expression
  | .text _ => []
  | .number _ => []
  | .expression e => e.nodes

/-- The nodes of some arguments. -/
def Argument.nodesOf : List Argument → List Expression
  | [] => []
  | a :: rest => a.nodes ++ Argument.nodesOf rest

end

mutual

/-- The text arguments of all nodes. -/
def Expression.texts : Expression → List String
  | ⟨_, _, arguments⟩ => Argument.textsOf arguments

/-- The texts of an argument. -/
def Argument.texts : Argument → List String
  | .text s => [s]
  | .number _ => []
  | .expression e => e.texts

/-- The texts of some arguments. -/
def Argument.textsOf : List Argument → List String
  | [] => []
  | a :: rest => a.texts ++ Argument.textsOf rest

end

mutual

/-- The expression with each of its texts replaced. -/
def Expression.mapTexts (f : String → String) : Expression → Expression
  | ⟨name, returnType, arguments⟩ => ⟨name, returnType, Argument.mapTextsOf f arguments⟩

/-- The argument with each of its texts replaced. -/
def Argument.mapTexts (f : String → String) : Argument → Argument
  | .text s => .text (f s)
  | .number x => .number x
  | .expression e => .expression (e.mapTexts f)

/-- The arguments with each of their texts replaced. -/
def Argument.mapTextsOf (f : String → String) : List Argument → List Argument
  | [] => []
  | a :: rest => a.mapTexts f :: Argument.mapTextsOf f rest

end

namespace Expression

/-- The expression with the texts replaced for which `f` has a replacement. -/
def replaceTexts (f : String → Option String) (e : Expression) : Expression :=
  e.mapTexts fun s => (f s).getD s

/-- The number of texts that `replaceTexts` replaces. -/
def hits (f : String → Option String) (e : Expression) : Nat :=
  e.texts.countP fun s => (f s).isSome

end Expression

/-! ## Visits -/

/-- Shows the visitor an expression and then the nodes of its arguments.  The visitor may change the
node it is shown; the visit goes on in the arguments that the node has then. -/
def Expression.visit {σ : Type} (visitor : Expression → StateM σ Expression) (e : Expression) :
    StateT σ Option Expression := do
  let node ← modifyGet (visitor e)
  let arguments ← node.arguments.mapM fun
    | .expression inner => return Argument.expression (← inner |>.visit visitor)
    | a => return a
  return { node with arguments }
partial_fixpoint

/-- An argument whose text is replaced if `f`, which is asked once, has a replacement.  The number
beside the state of `f` counts the replacements. -/
def Argument.rewriteText {σ : Type} (f : String → StateM σ (Option String)) :
    Argument → StateM (σ × Nat) Argument
  | .text s => modifyGet fun (st, count) =>
    match (f s).run st with
    | (some replacement, st) => (.text replacement, st, count + 1)
    | (none, st) => (.text s, st, count)
  | a => return a

/-- The visitor that replaces the texts among the arguments of each node. -/
def Expression.rewriteNode {σ : Type} (f : String → StateM σ (Option String)) (node : Expression) :
    StateM (σ × Nat) Expression :=
  return { node with arguments := ← node.arguments.mapM (Argument.rewriteText f) }

/-- The expression with each text replaced for which `f` has a replacement, and the number of
replacements. -/
def Expression.rewriteTexts {σ : Type} (f : String → StateM σ (Option String)) (e : Expression) :
    StateT σ Option (Expression × Nat) := fun st =>
  ((e.visit (rewriteNode f)).run (st, 0)).map fun (e, st, count) => ((e, count), st)

end Questionnaire
