/-
GIT: another program that is asked about the repository.

- `Git` is what there is to ask: nothing, or a program whose answer depends on the directory it runs in and on its
  arguments. Nothing is assumed of its answers.
- `World.runGit` starts it in a directory. A program that cannot be started, or does not end with 0, is a `GitFault`.
- `World.branch` and `World.repositoryRoot?` ask about the branch and the top level; they never fail. Where git has no
  answer, the branch is empty and there is no repository.

Main statement: `runGit_of_reply`.
-/
import BranchRender.Branch
import BranchRender.FileSystem

namespace BranchRender

/-- how a process ends -/
inductive Exit
  | code (n : UInt8)
  /-- killed by a signal -/
  | killed
  deriving DecidableEq, Repr

def Exit.number : Exit → Int
  | .code n => n.toNat
  | .killed => -1

/-- what a process wrote, and how it ended -/
structure Reply where
  exit : Exit := .code 0
  stdout : List UInt8 := []
  stderr : List UInt8 := []
  deriving DecidableEq, Repr

/-- the program git, if there is one: its reply by the directory it runs in and its arguments -/
abbrev Git := Option (Location → List Text → Reply)

namespace Git

/-- a reply agreed on in advance, at any directory or at one -/
structure Rule where
  args : List Text
  cwd : Option Path
  reply : Reply
  deriving DecidableEq, Repr

/-- whether a rule is about these arguments at this directory -/
def Rule.applies (r : Rule) (l : Location) (args : List Text) : Bool :=
  r.args = args && r.cwd.all (· = l.path)

def noRepository : Reply where
  exit := .code 128
  stderr := Utf8.encode "fatal: not a git repository (or any of the parent directories): .git\n".toList

/-- a git that replies by the first rule that applies, and else knows no repository -/
def ofRules (rules : List Rule) : Git :=
  some fun l args => ((rules.find? (·.applies l args)).map Rule.reply).getD noRepository

end Git

/-- all that a run finds around it -/
structure World where
  files : FileSystem
  git : Git

/-- why git gives no answer -/
inductive GitFault
  | notStarted (command : Text) (e : IoFault)
  | failed (command : Text) (exit : Exit) (words : Text)
  deriving DecidableEq, Repr

def GitFault.message : GitFault → Text
  | .notStarted command e =>
    "failed to execute git ".toList ++ command ++ ": ".toList ++ e.message ++ " (is git installed?)".toList
  | .failed command exit words =>
    "git ".toList ++ command ++ " failed (exit code ".toList ++ Text.integer exit.number ++ "): ".toList ++ words

/-- what git wrote, without blank characters at both ends -/
structure GitOutput where
  stdout : Text
  stderr : Text
  deriving DecidableEq, Repr

namespace World

/-- bytes as text -/
def readable (bytes : List UInt8) : Text := Text.trim (Utf8.decodeLossy bytes)

/-- the reply of git started in `dir` -/
def startGit (w : World) (dir : Path) (args : List Text) : Except IoFault Reply :=
  if '\x00' ∈ dir ∨ ∃ a ∈ args, '\x00' ∈ a then .error .nulInCommand
  else match w.files.find .target dir with
    | .error e => .error e
    | .ok (l, .directory) => match w.git with
      | some git => .ok (git l args)
      | none => .error (.system .notFound)
    | .ok _ => .error (.system .notDirectory)

def runGit (w : World) (dir : Path) (args : List Text) : Except GitFault GitOutput :=
  let command := args.head?.getD []
  match w.startGit dir args with
  | .error e => .error (.notStarted command e)
  | .ok reply =>
    let out := readable reply.stdout
    let err := readable reply.stderr
    if reply.exit = .code 0 then .ok ⟨out, err⟩
    else .error (.failed command reply.exit (if err = [] then out else err))

def branchQuery : List Text := ["symbolic-ref".toList, "-q".toList, "HEAD".toList]

def rootQuery : List Text := ["rev-parse".toList, "--show-toplevel".toList]

/-- the short name of the branch checked out in `dir`, empty if there is none -/
def branch (w : World) (dir : Path) : Text :=
  match w.runGit dir branchQuery with
  | .ok out => Branch.shortName out.stdout
  | .error _ => []

/-- the top level of the repository around `dir` -/
def repositoryRoot? (w : World) (dir : Path) : Option Path :=
  match w.runGit dir rootQuery with
  | .ok out => if out.stdout = [] then none else some out.stdout
  | .error _ => none

theorem runGit_of_reply {w : World} {dir : Path} {args : List Text} {reply : Reply}
    (h : w.startGit dir args = .ok reply) (hexit : reply.exit = .code 0) :
    w.runGit dir args = .ok ⟨readable reply.stdout, readable reply.stderr⟩ := by
  simp only [runGit, h, hexit, ite_true]

end World
end BranchRender
