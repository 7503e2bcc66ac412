import Mathlib.Data.List.Basic
import Questionnaire.Export.Run

/-!
# What writing a plan asks of a sink

A sink may keep a state, so that its answers depend on the calls made so far.  Whatever it answers,
the calls of a run are those that the plan lists.

* The directories are made one after the other, the root first, up to the first that cannot be
  made, and then nothing is written (`createDirectories_recorded`).
* If all of them are made, every file is written once, in the order of the plan, whether or not the
  files before it could be written (`writeFiles_recorded`).

The report sorts the files of the plan by the answers to their calls.
-/

namespace Questionnaire

variable {σ : Type}

/-- A run on a state goes on with the result, on the state that is left. -/
theorem run_bind_of_run {α β : Type} {action : StateM σ α} {state state' : σ} {a : α}
    (h : action.run state = (a, state')) (next : α → StateM σ β) :
  (action >>= next).run state = (next a).run state'
  := by
  rw [StateT.run_bind, h]
  rfl

/-! ### Calls -/

namespace FileSink

/-- A call of a sink. -/
inductive Call where
  | createDirectory (path : Path)
  | writeFile (path : Path) (text : String)
  deriving DecidableEq, Repr

/-- A call with the answer to it. -/
abbrev Answered := Call × Bool

/-- An action of a sink that also puts the call, with its answer, at the end of a list. -/
def record (call : Call) (action : StateM σ Bool) : StateM (List Answered × σ) Bool :=
  fun (calls, state) =>
    let (answer, state') := action.run state
    (answer, calls ++ [(call, answer)], state')

/-- The sink that answers as the given one does and lists the calls with their answers. -/
def recorded (sink : FileSink (StateM σ)) : FileSink (StateM (List Answered × σ)) where
  createDirectory path := record (.createDirectory path) (sink.createDirectory path)
  writeFile path text := record (.writeFile path text) (sink.writeFile path text)

end FileSink

/-- The call that writes a file below a root. -/
def PlannedFile.call (root : Path) (file : PlannedFile) : FileSink.Call :=
  .writeFile (Path.join root file.path) file.contents

namespace FileSink

theorem run_record {action : StateM σ Bool} {state state' : σ} {answer : Bool}
    (h : action.run state = (answer, state')) (call : Call) (calls : List Answered) :
  (record call action).run (calls, state) = (answer, calls ++ [(call, answer)], state')
  := by
  change record call action (calls, state) = _
  rw [record, h]

theorem run_createDirectory_recorded {sink : FileSink (StateM σ)} {path : Path} {state state' : σ}
    {answer : Bool} (h : (sink.createDirectory path).run state = (answer, state'))
    (calls : List Answered) :
  (sink.recorded.createDirectory path).run (calls, state)
    = (answer, calls ++ [(.createDirectory path, answer)], state')
  := run_record h _ calls

theorem run_writeFile_recorded {sink : FileSink (StateM σ)} {root : Path} {file : PlannedFile}
    {state state' : σ} {answer : Bool}
    (h : (sink.writeFile (Path.join root file.path) file.contents).run state = (answer, state'))
    (calls : List Answered) :
  (sink.recorded.writeFile (Path.join root file.path) file.contents).run (calls, state)
    = (answer, calls ++ [(file.call root, answer)], state')
  := run_record h _ calls

variable (sink : FileSink (StateM σ)) (calls : List Answered) (state : σ)

/-- Directories are made one after the other, up to the first that cannot be made. -/
theorem createDirectories_recorded (paths : List Path) :
  (∃ state', (sink.createDirectories paths).run state = (none, state')
      ∧ (sink.recorded.createDirectories paths).run (calls, state)
        = (none, calls ++ paths.map (fun path => (.createDirectory path, true)), state'))
    ∨ ∃ made path rest state', paths = made ++ path :: rest
      ∧ (sink.createDirectories paths).run state = (some path, state')
      ∧ (sink.recorded.createDirectories paths).run (calls, state)
        = (some path, calls ++ (made.map (fun path => (.createDirectory path, true))
          ++ [(.createDirectory path, false)]), state')
  := by
  induction paths generalizing calls state with
  | nil =>
    left
    use state, rfl
    rw [List.map_nil, List.append_nil]
    rfl
  | cons path paths ih =>
    rcases hanswer : (sink.createDirectory path).run state with ⟨answer, state'⟩
    rw [createDirectories, createDirectories, run_bind_of_run hanswer,
      run_bind_of_run (run_createDirectory_recorded hanswer calls)]
    cases answer with
    | false =>
      right
      exact ⟨[], path, paths, state', rfl, rfl, rfl⟩
    | true =>
      obtain ⟨state'', hrun, hrecorded⟩ | ⟨made, path', rest, state'', rfl, hrun, hrecorded⟩ :=
        ih (calls ++ [(.createDirectory path, true)]) state'
      · left
        use state'', hrun
        rw [← List.append_cons] at hrecorded
        exact hrecorded
      · right
        use path :: made, path', rest, state'', rfl, hrun
        rw [← List.append_cons] at hrecorded
        exact hrecorded

/-- Every file is written once, in order, whatever the answers are. -/
theorem writeFiles_recorded (root : Path) (files : List PlannedFile) :
  ∃ answers state', answers.length = files.length
    ∧ (sink.writeFiles root files).run state = ((files.map (·.path)).zip answers, state')
    ∧ (sink.recorded.writeFiles root files).run (calls, state)
      = ((files.map (·.path)).zip answers, calls ++ (files.map (·.call root)).zip answers, state')
  := by
  induction files generalizing calls state with
  | nil =>
    use [], state, rfl, rfl
    simp only [List.map_nil, List.zip_nil_left, List.append_nil]
    rfl
  | cons file files ih =>
    rcases hanswer : (sink.writeFile (Path.join root file.path) file.contents).run state
      with ⟨answer, state'⟩
    obtain ⟨answers, state'', hlength, hrun, hrecorded⟩ :=
      ih (calls ++ [(file.call root, answer)]) state'
    rw [← List.append_cons] at hrecorded
    use answer :: answers, state'', congrArg Nat.succ hlength
    rw [writeFiles, writeFiles, run_bind_of_run hanswer, run_bind_of_run hrun,
      run_bind_of_run (run_writeFile_recorded hanswer calls), run_bind_of_run hrecorded]
    exact ⟨rfl, rfl⟩

end FileSink

/-! ### Runs of plans -/

namespace ExportPlan

open FileSink

/-- What comes of writing a plan: the calls with their answers, and the result. -/
inductive Outcome (p : ExportPlan) : List Answered → Except ExportError ExportReport → Prop where
  /-- A directory cannot be made, and nothing is written. -/
  | stopped {made rest : List Path} {path : Path}
    (h : p.root :: p.directories.map (Path.join p.root) = made ++ path :: rest) :
    Outcome p (made.map (fun path => (.createDirectory path, true))
      ++ [(.createDirectory path, false)]) (.error (.directory path))
  /-- All directories are made, and every file is written or cannot be. -/
  | finished {answers : List Bool} (h : answers.length = p.files.length) :
    Outcome p ((p.root :: p.directories.map (Path.join p.root)).map
        (fun path => (.createDirectory path, true))
      ++ (p.files.map (·.call p.root)).zip answers)
      (.ok {
        root := p.root
        written := (((p.files.map (·.path)).zip answers).filter (·.2)).map (·.1)
        failed := (((p.files.map (·.path)).zip answers).filter (!·.2)).map (·.1) })

/-- Writing a plan asks of any sink what the plan lists. -/
theorem run_recorded (p : ExportPlan) (sink : FileSink (StateM σ)) (state : σ) :
  ∃ result calls state', (p.run sink).run state = (result, state')
    ∧ (p.run sink.recorded).run ([], state) = (result, calls, state')
    ∧ p.Outcome calls result
  := by
  rw [run, run]
  obtain ⟨state', hrun, hrecorded⟩ | ⟨made, path, rest, state', hpaths, hrun, hrecorded⟩ :=
    sink.createDirectories_recorded [] state p.allDirectories
  · rw [run_bind_of_run hrun, run_bind_of_run hrecorded]
    obtain ⟨answers, state'', hlength, hrun, hrecorded⟩ :=
      sink.writeFiles_recorded (p.allDirectories.map fun path => (.createDirectory path, true))
        state' p.root p.files
    refine ⟨_, _, state'', ?_, ?_, .finished hlength⟩
    · exact run_bind_of_run hrun _
    · exact run_bind_of_run hrecorded _
  · rw [run_bind_of_run hrun, run_bind_of_run hrecorded]
    exact ⟨_, _, state', rfl, rfl, .stopped hpaths⟩

end ExportPlan

namespace Study

open FileSink

/-- If a study cannot be planned, nothing is asked of the sink, and the error is that of planning.
Otherwise writing the study asks of the sink what the plan lists. -/
theorem write_recorded (s : Study) (o : ExportOptions) (sink : FileSink (StateM σ)) (state : σ) :
  ∃ result calls state', (s.write o sink).run state = (result, state')
    ∧ (s.write o sink.recorded).run ([], state) = (result, calls, state')
    ∧ match s.plan o with
      | .error e => result = .error (.build e) ∧ calls = [] ∧ state' = state
      | .ok p => p.Outcome calls result
  := by
  rw [write, write]
  cases s.plan o with
  | error e => exact ⟨_, _, _, rfl, rfl, rfl, rfl, rfl⟩
  | ok p => exact p.run_recorded sink state

end Study

end Questionnaire
