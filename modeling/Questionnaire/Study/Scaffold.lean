import Questionnaire.Editor.Edit
import Questionnaire.Study.Error

/-!
# Scaffolds of surveys

A scaffold is a survey in the making: it has its key, its texts and a root whose items come in
order, and items and page breaks are appended to the root.  The finished survey is swept for keys
that come twice.
-/

namespace Questionnaire

/-- What a scaffold starts with. -/
structure ScaffoldProps where
  key : Key
  name : PlainTexts := []
  description : PlainTexts := []
  duration : PlainTexts := []
  availableFor : Option Audience := none
  requiresLogin : Option Bool := none

/-- A survey in the making.  The key is the one that it was started with. -/
structure Scaffold where
  key : Key
  editor : Editor

/-- The survey, unless keys come twice among the items of its root. -/
def Survey.checked (s : Survey) : Except BuildError Survey :=
  match s.rootDuplicates with
  | [] => .ok s
  | duplicates => .error (.duplicateKeys s.key duplicates)

namespace Scaffold

/-- The edits that make a survey without items the start of a scaffold. -/
def prepare (p : ScaffoldProps) : Editor.Action Unit := do
  Editor.rename Survey.defaultKey p.key .follow
  Editor.set (.name (LocalizedText.ofPairs p.name))
  Editor.set (.description (LocalizedText.ofPairs p.description))
  Editor.set (.typicalDuration (LocalizedText.ofPairs p.duration))
  Editor.set (.availableFor p.availableFor)
  Editor.set (.requiresLogin p.requiresLogin)
  let root ← (← get).findItem p.key
  Editor.update (root.setSelectionMethod (some (.named "sequential")))

/-- A scaffold without items. -/
def create (p : ScaffoldProps) : Except EditError Scaffold :=
  match (prepare p).run Editor.new with
  | (.ok _, editor) => .ok ⟨p.key, editor⟩
  | (.error e, _) => .error e

/-- An edit of a scaffold.  What it has changed before it fails stays changed.  An edit that has no
end has no result. -/
abbrev Edit (α : Type) := ExceptT EditError (StateT Scaffold Option) α

/-- An edit of the survey of a scaffold. -/
def edit {α : Type} (f : Editor.Action α) : Edit α :=
  ExceptT.mk fun s =>
    let (result, editor) := f.run s.editor
    some (result, { s with editor })

/-- Appends an item to the group with the given key. -/
def addTo (x : Item) (parent : Key) : Edit Unit :=
  edit do
    let _ ← Editor.addExisting x parent none

/-- The local name of a page break with a token. -/
def pageBreakName (token : String) : String := "PB_" ++ token

/-- The page break that a token gives. -/
def pageBreakOf (s : Scaffold) (token : String) : Item := .pageBreak s.key (pageBreakName token)

/-- Draws tokens, from one on, until no item has the key of the page break.  If every token gives a
key that some item has, the draws have no end. -/
def freePageBreakFrom (s : Scaffold) (draw : Nat → String) (n : Nat) : Option Item :=
  if s.editor.contains (s.pageBreakOf (draw n)).key then
    s |>.freePageBreakFrom draw (n + 1)
  else
    some (s.pageBreakOf (draw n))
partial_fixpoint

/-- Appends a page break to the root. -/
def addPageBreak (draw : Nat → String) : Edit Unit := do
  let s ← get
  addTo (← s.freePageBreakFrom draw 0) s.key

/-- Appends an item to the root, and a page break if one is asked for. -/
def addItem (x : Item) (pageBreak : Bool) (draw : Nat → String) : Edit Unit := do
  addTo x (← get).key
  if pageBreak then
    addPageBreak draw

/-- The finished survey. -/
def finish (s : Scaffold) : Except BuildError Survey := s.editor.survey.checked

end Scaffold

end Questionnaire
