import Questionnaire.Text.CaseTable

/-!
# Lowercasing

Lowercasing replaces each capital letter by its small one.  Two letters need more: the capital I
with a dot becomes two characters, and the capital sigma becomes the final one at the end of a
word.  It stands there if a cased letter comes before it and none after it, where characters
without a bearing on case are passed over.
-/

namespace Questionnaire

namespace Text

/-- Whether a code point lies in one of the runs. -/
def inRuns (runs : List (Nat × Nat)) (c : Char) : Bool :=
  runs.any fun run => run.1 ≤ c.toNat && c.toNat ≤ run.2

/-- Whether the next character with a bearing on case is a cased letter. -/
def meetsCased (cs : List Char) : Bool :=
  match cs.dropWhile (inRuns caseIgnorableRuns) with
  | c :: _ => inRuns casedRuns c
  | [] => false

/-- The capital run that a letter belongs to. -/
def capitalRun? (c : Char) : Option CapitalRun :=
  capitals.find? fun run =>
    run.first ≤ c.toNat && c.toNat ≤ run.last && (c.toNat - run.first) % run.step == 0

/-- The small letter of a capital one; any other character is its own. -/
def smallLetter (c : Char) : Char :=
  match capitalRun? c with
  | some run => Char.ofNat (c.toNat + run.shift).toNat
  | none => c

/-- The lowercase text of `rest`, where `before` is the text in front of it, back to front. -/
def lowercaseFrom (before : List Char) : List Char → List Char
  | [] => []
  | c :: rest =>
    let small :=
      if c = 'İ' then ['i', '\u0307']
      else if c = 'Σ' then [if meetsCased before && !meetsCased rest then 'ς' else 'σ']
      else [smallLetter c]
    small ++ lowercaseFrom (c :: before) rest

/-- The lowercase text of a text. -/
def lowercase (s : String) : String := String.ofList (lowercaseFrom [] s.toList)

end Text

end Questionnaire
