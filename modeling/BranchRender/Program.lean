/-
THE PROGRAM: what a command line does to the world, and what it prints.

- `Program.run` carries out a request: it finds the project and its configuration, then renders or reports. It gives
  what is printed or how it fails, and the file system after it.
- A render refuses an output that is its template, however the two are spelled, before anything is written.
- `Program.main` starts from the arguments and ends as a process does (`Outcome`).

Main statements: `files_report`, `files_main_of_refusal`.
-/
import BranchRender.CommandLine
import BranchRender.FileSystem.Normal
import BranchRender.Rendering
import BranchRender.Report

namespace BranchRender

/-- how a process ends -/
structure Outcome where
  exit : Nat
  stdout : Text
  /-- nothing is said here of the words for a command line that cannot be read -/
  stderr : Option Text
  deriving DecidableEq, Repr

namespace Program

/-! ## Rendering -/

/-- the configuration with the paths of the command line -/
def override (c : Config) (o : RenderOptions) : Config :=
  { c with template := o.template.getD c.template, output := o.output.getD c.output }

def summary (file branch : Text) (b : Binding) : Text :=
  "Updating ".toList ++ file ++ " for branch: \"".toList ++ branch ++ "\" bindings: ".toList ++ b.display ++ ['\n']

/-- how a render fails whose output is its template -/
def sameFileFailure (c : Config) : Failure :=
  .invalidConfiguration ("template '".toList ++ c.template ++ "' and output '".toList ++ c.output
    ++ "' are the same file".toList)

/-- renders with a configuration that keeps the rules -/
def renderValid (w : World) (p : Project) (c : Config) (toStdout : Bool) : Except Failure Text × FileSystem :=
  let branch := w.branch p.cwd
  let binding := c.table.select branch
  let template := p.path c.template
  let output := p.path c.output
  let header := Header.line c.style c.template c.buildCommand
  if w.files.sameFile template output then (.error (sameFileFailure c), w.files)
  else if toStdout then (Rendering.document w.files template binding header, w.files)
  else match Rendering.render template output binding header w.files with
    | (.error e, fs) => (.error e, fs)
    | (.ok (), fs) => (.ok (summary (output.fileName?.getD c.output) branch binding), fs)

def render (w : World) (p : Project) (c : Config) (o : RenderOptions) : Except Failure Text × FileSystem :=
  let c := override c o
  match c.violation? with
  | some v => (.error (.invalidConfiguration v.message), w.files)
  | none => renderValid w p c o.stdout

/-! ## Reporting -/

def report (w : World) (p : Project) (c : Config) (json : Bool) : Text :=
  let r := Report.of w p c
  if json then r.json else r.text

/-! ## Running -/

/-- the project of a request, and its configuration -/
def setUp (w : World) (line : CommandLine) : Except Failure (Project × Config) := do
  let p ← Project.locate w line.dir
  return (p, ← Config.discover w.files p.root (line.config.map p.fromCwd))

def run (w : World) (line : CommandLine) : Except Failure Text × FileSystem :=
  match setUp w line with
  | .error e => (.error e, w.files)
  | .ok (p, c) =>
    match line.command.getD (.render {}) with
    | .render o => render w p c o
    | .resolve json => (.ok (report w p c json), w.files)

/-- how a process ends that carried out a request -/
def outcome : Except Failure Text → Outcome
  | .ok t => ⟨0, t, some []⟩
  | .error e => ⟨e.exitCode, [], some ("Error: ".toList ++ e.message ++ ['\n'])⟩

/-- how a process ends that was not given a request -/
def refusal (r : Refusal) : Outcome :=
  if r.exitCode = 0 then ⟨0, r.text, some []⟩ else ⟨r.exitCode, [], none⟩

def main (args : List Text) (w : World) : Outcome × FileSystem :=
  match CommandLine.parse args with
  | .error r => (refusal r, w.files)
  | .ok line =>
    let (r, fs) := run w line
    (outcome r, fs)

/-! ## Lemmas -/

theorem files_report {w : World} {line : CommandLine} {json : Bool} (h : line.command = some (.resolve json)) :
    (run w line).2 = w.files := by
  unfold run
  split
  · rfl
  · simp [h]

theorem files_main_of_refusal {args : List Text} {r : Refusal} (h : CommandLine.parse args = .error r) (w : World) :
    (main args w).2 = w.files := by simp [main, h]

end Program
end BranchRender
