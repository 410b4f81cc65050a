/-
PROJECTS: where a run takes place.

- `Project.around` finds the project from the directory a run starts in: the top level of the repository git reports, or
  that directory itself. Every path of a configuration is seen from there (`path`), every path of the command line from
  the directory (`fromCwd`).
- `Config.load` reads a configuration; `Config.discover` reads the one that is asked for, or the one at the root if
  there is one, or takes the defaults.

Main statement: `around_repository`.
-/
import BranchRender.Config.Reader
import BranchRender.Failure
import BranchRender.Git

namespace BranchRender

/-- the directories of a run -/
structure Project where
  /-- where the run starts -/
  cwd : Path
  /-- the top level of the repository, or `cwd` -/
  root : Path
  inRepository : Bool
  deriving DecidableEq, Repr

namespace Project

def path (p : Project) (q : Path) : Path := p.root.join q

def fromCwd (p : Project) (q : Path) : Path := p.cwd.join q

def around (w : World) (cwd : Path) : Project :=
  match w.repositoryRoot? cwd with
  | some root => ⟨cwd, root, true⟩
  | none => ⟨cwd, cwd, false⟩

/-- the project of a run in `dir`, or in the working directory -/
def locate (w : World) (dir : Option Path) : Except Failure Project :=
  match w.files.workingDirectory with
  | .error e => .error (.unusable ("failed to get current working directory: ".toList ++ e.message))
  | .ok here =>
    let cwd := (dir.map here.join).getD here
    if w.files.isDirectory cwd then .ok (around w cwd)
    else .error (.unusable ("'".toList ++ cwd ++ "' is not a directory".toList))

theorem around_repository {w : World} {cwd root : Path} (h : w.repositoryRoot? cwd = some root) :
    around w cwd = ⟨cwd, root, true⟩ := by simp [around, h]

end Project

namespace Config

def load (fs : FileSystem) (p : Path) : Except Failure Config :=
  match fs.readText p with
  | .error e => .error (.configuration ("failed to read config file '".toList ++ p ++ "': ".toList ++ e.message))
  | .ok t => (ofText t).mapError fun e => .configuration e.message

def discover (fs : FileSystem) (root : Path) : Option Path → Except Failure Config
  | some p => load fs (root.join p)
  | none => if fs.isFile (root.join fileName) then load fs (root.join fileName) else .ok {}

end Config
end BranchRender
