import Questionnaire.Json.Reader

/-!
# Records

A record is a document of named fields.  It is written as an object, and is read from an object
or from an array of the values of its fields in the order of their declaration.  In an object the
fields may come in any order, unknown members are skipped, no field may come twice, and every
field without a default must come.  In an array the last fields may be left out if they have
defaults.

`Fields α` describes how a value of type `α` is put together from fields; descriptions are built
from single fields with the operations of an applicative functor.
-/

namespace Questionnaire

/-- The fields of a record of type `α`. -/
structure Fields (α : Type) where
  /-- What is known of the record while its fields are read. -/
  Draft : Type
  /-- The draft without any field. -/
  blank : Draft
  /-- How the member of this name is read into the draft; `none` if no field has the name. -/
  member? : String → Option (Draft → Reader Draft)
  /-- How the fields are read in the order of their declaration. -/
  inOrder : List (Draft → Reader Draft)
  /-- The record of a draft, given what to report for a field that is absent without a default. -/
  finish : (String → Misfit) → Draft → Except ReadError α
  /-- The names of the fields, and whether they are required. -/
  names : List (String × Bool)

namespace Fields

variable {α β : Type}

/-- A record without fields. -/
protected def pure (a : α) : Fields α where
  Draft := Unit
  blank := ()
  member? _ := none
  inOrder := []
  finish _ _ := .ok a
  names := []

/-- The fields of two records together. -/
protected def seq (f : Fields (α → β)) (x : Fields α) : Fields β where
  Draft := f.Draft × x.Draft
  blank := (f.blank, x.blank)
  member? name :=
    match f.member? name with
    | some read => some fun draft depth o => (read draft.1 depth o).map (·, draft.2)
    | none => (x.member? name).map fun read draft depth o =>
        (read draft.2 depth o).map (draft.1, ·)
  inOrder :=
    f.inOrder.map (fun read draft depth o => (read draft.1 depth o).map (·, draft.2))
      ++ x.inOrder.map (fun read draft depth o => (read draft.2 depth o).map (draft.1, ·))
  finish absent draft := do
    let g ← f.finish absent draft.1
    let a ← x.finish absent draft.2
    return g a
  names := f.names ++ x.names

instance : Applicative Fields where
  pure := Fields.pure
  seq f x := f.seq (x ())

/-- A single field, with what stands for it when it is absent. -/
def single (name : String) (r : Reader α) (default? : Option α) : Fields α where
  Draft := Option α
  blank := none
  member? other :=
    if other = name then
      some fun draft depth o =>
        match draft with
        | some _ => .error (.misfit (.duplicateField name))
        | none => (r depth o).map some
    else none
  inOrder := [fun _ depth o => (r depth o).map some]
  finish absent draft :=
    match draft, default? with
    | some a, _ => .ok a
    | none, some a => .ok a
    | none, none => .error (.misfit (absent name))
  names := [(name, default?.isNone)]

/-- A field that must be present. -/
def required (name : String) (r : Reader α) : Fields α :=
  single name r none

/-- A field with a default. -/
def withDefault (name : String) (r : Reader α) (value : α) : Fields α :=
  single name r (some value)

/-- A field that may be absent or `null`. -/
def optional (name : String) (r : Reader α) : Fields (Option α) :=
  single name r.optional (some none)

/-- Reads the members of an object into a draft. -/
def readMembers (f : Fields α) (depth : Nat) (draft : f.Draft) :
    List (Token String × Outline) → Except ReadError f.Draft
  | [] => .ok draft
  | (name, o) :: rest => do
    let name ← name.read
    match f.member? name with
    | some read => readMembers f depth (← read draft depth o) rest
    | none =>
      o.skip
      readMembers f depth draft rest

/-- Reads the elements of an array into a draft, and says whether all fields have been read. -/
def readElements {δ : Type} (depth : Nat) (draft : δ) :
    List (δ → Reader δ) → List Outline → Except ReadError (δ × Bool)
  | [], [] => .ok (draft, true)
  | [], _ :: _ => .error (.broken .misplaced)
  | _ :: _, [] => .ok (draft, false)
  | read :: reads, o :: rest => do readElements depth (← read draft depth o) reads rest

/-- The reader of a record. -/
def reader (f : Fields α) : Reader α
  | 0, .object _ _ _ => .error (.broken .misplaced)
  | depth + 1, .object members fault _ => do
    let draft ← f.readMembers depth f.blank members
    Outline.close fault
    f.finish .missingField draft
  | 0, .array _ _ => .error (.broken .misplaced)
  | depth + 1, .array elements fault => do
    let (draft, full) ← readElements depth f.blank f.inOrder elements
    if full then Outline.closeFull fault else Outline.close fault
    f.finish (fun _ => .tooFewElements) draft
  | _, o => .error o.unexpected

end Fields

end Questionnaire
