import Questionnaire.Export.Plan
import Questionnaire.Files.Basic

/-!
# Writing a plan

A plan is written into a file store: first the directories, then the files.  A directory that
cannot be made ends the export.  A file that cannot be written does not: the report lists it, and
the other files are still written.
-/

namespace Questionnaire

/-- Which of the planned files were written, by their paths in the plan. -/
structure ExportReport where
  root : Path
  written : List Path
  failed : List Path
  deriving DecidableEq, Repr

/-- Why a study is not written. -/
inductive ExportError where
  | build (e : BuildError)
  /-- A directory cannot be made. -/
  | directory (path : Path)
  deriving DecidableEq, Repr

/-- The message of an error. -/
def ExportError.message : ExportError → String
  | .build e => e.message
  | .directory path => "export: failed to create directory " ++ path

variable {m : Type → Type} [Monad m]

namespace FileSink

/-- Makes directories one after the other, up to the first that cannot be made; returns that
one. -/
def createDirectories (sink : FileSink m) : List Path → m (Option Path)
  | [] => return none
  | path :: rest => do
    if ← sink.createDirectory path then
      createDirectories sink rest
    else
      return some path

/-- Writes files below a root, and says of each whether it was written. -/
def writeFiles (sink : FileSink m) (root : Path) : List PlannedFile → m (List (Path × Bool))
  | [] => return []
  | file :: rest => do
    let written ← sink.writeFile (Path.join root file.path) file.contents
    return (file.path, written) :: (← writeFiles sink root rest)

end FileSink

namespace ExportPlan

/-- All directories of a plan, the root first. -/
def allDirectories (p : ExportPlan) : List Path :=
  p.root :: p.directories.map (Path.join p.root)

/-- Writes a plan. -/
def run (p : ExportPlan) (sink : FileSink m) : m (Except ExportError ExportReport) := do
  match ← sink.createDirectories p.allDirectories with
  | some path => return .error (.directory path)
  | none =>
    let results ← sink.writeFiles p.root p.files
    return .ok {
      root := p.root
      written := (results.filter (·.2)).map (·.1)
      failed := (results.filter (!·.2)).map (·.1) }

end ExportPlan

/-- Plans a study and writes the plan. -/
def Study.write (s : Study) (o : ExportOptions) (sink : FileSink m) :
    m (Except ExportError ExportReport) :=
  match s.plan o with
  | .error e => return .error (.build e)
  | .ok plan => plan.run sink

end Questionnaire
