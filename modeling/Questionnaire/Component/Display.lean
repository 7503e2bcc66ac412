import Questionnaire.Component.Edit

/-!
# Components that show something

Dates and values that are computed when the survey is shown, titles, and help texts.
-/

namespace Questionnaire

/-- A text in several languages, with a class. -/
structure StyledText where
  content : PlainTexts
  className : Option String := none

/-- A date shown in a format, for several languages. -/
structure DateDisplay where
  date : Expression
  format : String
  languages : List String
  className : Option String := none

/-- The value of an expression, for several languages. -/
structure ValueDisplay where
  value : Expression
  languages : List String
  className : Option String := none

/-- A part of a title. -/
inductive TitlePart where
  | text (t : StyledText)
  | date (d : DateDisplay)
  | value (d : ValueDisplay)

/-- What a title shows: one text, or several parts. -/
inductive TitleContent where
  | text (t : PlainTexts)
  | parts (ps : List TitlePart)

/-- A help text in several languages. -/
structure HelpText where
  content : PlainTexts
  style : Option (List StyleEntry) := none

/-- The expression as the text of each language. -/
def LocalizedText.ofLanguages (languages : List String) (e : Expression) : List LocalizedText :=
  languages.map fun code => ofExpression code e

/-- The style of a class, if there is one. -/
def StyleEntry.ofClass (className : Option String) : Option (List StyleEntry) :=
  className.map fun name => [.className name]

/-- The component that shows a date. -/
def DateDisplay.toComponent (d : DateDisplay) (key : Key) : Component :=
  { head :=
      { role := "dateDisplay"
        key := some key
        content := some (LocalizedText.ofLanguages d.languages d.date)
        style := some (⟨"dateFormat", d.format⟩ :: (StyleEntry.ofClass d.className).getD []) } }

/-- The component that shows a value. -/
def ValueDisplay.toComponent (d : ValueDisplay) (key : Key) : Component :=
  { head :=
      { role := "text"
        key := some key
        content := some (LocalizedText.ofLanguages d.languages d.value)
        style := StyleEntry.ofClass d.className } }

/-- The component of a part of a title. -/
def TitlePart.toComponent (key : Key) : TitlePart → Component
  | .text t =>
    { head :=
        { role := "text"
          key := some key
          content := some (LocalizedText.ofPairs t.content)
          style := StyleEntry.ofClass t.className } }
  | .date d => d.toComponent key
  | .value d => d.toComponent key

/-- A help text as a component. -/
def HelpText.toComponent (t : HelpText) : Component :=
  { head := { role := "text", content := some (LocalizedText.ofPairs t.content), style := t.style } }

namespace Component

/-- The title of an item.  The parts have their positions as keys. -/
def title (content : TitleContent) (description : Option PlainTexts)
    (className : Option String) : Component :=
  let head : Head :=
    { role := "title"
      description := description.map LocalizedText.ofPairs
      style := StyleEntry.ofClass className }
  match content with
  | .text t => { head := { head with content := some (LocalizedText.ofPairs t) } }
  | .parts ps =>
    { head, items := some (ps.mapIdx fun i part => part.toComponent i.repr) }

/-- The help texts of an item, in order. -/
def helpGroup (texts : List HelpText) : Component :=
  { head := { role := "helpGroup", order := some (.named "sequential") }
    items := some (texts.map HelpText.toComponent) }

end Component

end Questionnaire
