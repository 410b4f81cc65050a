/-
REPLACEMENTS: writing a file so that it holds either what it held before or all of the new content.

- The content goes to a temporary file beside the target, is synced, and takes the target's place in one move. A
  replacement that fails removes the temporary file; one that is stopped may leave it, and the next one overwrites it.
- The target of a link is what it leads to; of a link that leads nowhere, the path it names (`target`). The link stays.
- Missing directories above the target are made first.
- `operations` are those that replace: a replacement that fails behind its temporary file goes on to remove that file
  (`fillAndMove_eq`).

Main statements: `fillAndMove_eq`, `run_plan`, `run_giveUp`.
-/
import BranchRender.FileSystem.Plan

namespace BranchRender

/-- the step a replacement fails at -/
inductive ReplaceFault
  | makingParent (dir : Path) (e : IoFault)
  /-- the path ends in no name -/
  | noName
  | creating (temporary : Path) (e : IoFault)
  /-- content too large for the buffer, which is written at once -/
  | writing (e : IoFault)
  /-- content that fits the buffer, which is written at the end -/
  | flushing (e : IoFault)
  | syncing (e : IoFault)
  | replacing (e : IoFault)
  deriving DecidableEq, Repr

def ReplaceFault.message : ReplaceFault → Text
  | .makingParent dir e => "failed to create parent directory '".toList ++ dir ++ "': ".toList ++ e.message
  | .noName => "invalid file path".toList
  | .creating temporary e => "failed to create temporary file '".toList ++ temporary ++ "': ".toList ++ e.message
  | .writing e => "failed to write temporary file: ".toList ++ e.message
  | .flushing e => "failed to flush temporary file: ".toList ++ e.message
  | .syncing e => "failed to sync temporary file to disk: ".toList ++ e.message
  | .replacing e => "failed to replace file: ".toList ++ e.message

namespace Replacement

open Plan (observe change)

/-! ## Paths -/

/-- the path that is written: what a link leads to or names, any other path itself -/
def target (fs : FileSystem) (p : Path) : Path :=
  if !fs.isLink p then p
  else match fs.canonicalPath p with
    | .ok q => q
    | .error _ =>
      match fs.readLink p with
      | .error _ => p
      | .ok q => match p.parent? with
        | some dir => dir.join q
        | none => q

/-- the name of the temporary file of a target of this name -/
def temporaryName (name : Text) : Text := '.' :: name ++ ".tmp".toList

/-- the temporary file beside a target -/
def temporary? (p : Path) : Option Path :=
  p.fileName?.map fun name => match p.parent? with
    | some dir => dir.join (temporaryName name)
    | none => temporaryName name

/-! ## Steps -/

/-- makes the directories above a target where they are missing -/
def makeParent (p : Path) : Plan (Except ReplaceFault Unit) :=
  match p.parent? with
  | none => pure (.ok ())
  | some dir => do
    if dir = [] then pure (.ok ())
    else if ← observe (·.contains dir) then pure (.ok ())
    else return (← Plan.makeDirectories dir).mapError (.makingParent dir)

/-- bytes kept back until the end -/
def bufferSize : Nat := 8192

/-- the fault of content that cannot be written -/
def writeFault (content : List UInt8) : IoFault → ReplaceFault :=
  if content.length < bufferSize then .flushing else .writing

/-- fills the temporary file -/
def fill (temporary : Path) (content : List UInt8) : Plan (Except ReplaceFault Unit) := do
  match ← change (.create temporary) with
  | .error e => pure (.error (.creating temporary e))
  | .ok l =>
    match ← change (.append l content) with
    | .error e => pure (.error (writeFault content e))
    | .ok () => return (← change (.sync l)).mapError .syncing

/-- removes the temporary file, if that can be done, and fails -/
def giveUp (temporary : Path) (fault : ReplaceFault) : Plan (Except ReplaceFault Unit) := do
  let _ ← change (.remove temporary)
  return .error fault

/-- fills the temporary file and moves it to the target -/
def fillAndMove (temporary p : Path) (content : List UInt8) : Plan (Except ReplaceFault Unit) := do
  match ← fill temporary content with
  | .error fault => giveUp temporary fault
  | .ok () =>
    match ← change (.rename temporary p) with
    | .error e => giveUp temporary (.replacing e)
    | .ok () => pure (.ok ())

/-- replaces the target `p`, which is no link -/
def planTarget (p : Path) (content : List UInt8) : Plan (Except ReplaceFault Unit) := do
  match ← makeParent p with
  | .error fault => pure (.error fault)
  | .ok () =>
    match temporary? p with
    | none => pure (.error .noName)
    | some temporary => fillAndMove temporary p content

/-- replaces what `p` leads to -/
def plan (p : Path) (content : List UInt8) : Plan (Except ReplaceFault Unit) := do
  planTarget (← observe (target · p)) content

/-! ## Without the clean-up -/

/-- fills the temporary file and moves it to the target; what fails is left as it is -/
def attempt (temporary p : Path) (content : List UInt8) : Plan (Except ReplaceFault Unit) := do
  match ← fill temporary content with
  | .error fault => pure (.error fault)
  | .ok () => return (← change (.rename temporary p)).mapError .replacing

/-- makes the directories above the target `p`, and goes on with its temporary path -/
def withTemporary (p : Path) (next : Path → Plan (Except ReplaceFault Unit)) : Plan (Except ReplaceFault Unit) := do
  match ← makeParent p with
  | .error fault => pure (.error fault)
  | .ok () =>
    match temporary? p with
    | none => pure (.error .noName)
    | some temporary => next temporary

/-- a replacement is an attempt, and a clean-up if that failed -/
theorem fillAndMove_eq (temporary p : Path) (content : List UInt8) : fillAndMove temporary p content =
    attempt temporary p content >>= fun
      | .error fault => giveUp temporary fault
      | .ok () => pure (.ok ()) := by
  rw [attempt, Plan.bind_assoc, fillAndMove]
  congr 1
  funext r
  cases r with
  | error fault => rfl
  | ok _ =>
    refine congrArg (Plan.step _) (funext fun r => ?_)
    cases r <;> rfl

theorem planTarget_eq (p : Path) (content : List UInt8) :
    planTarget p content = withTemporary p (fillAndMove · p content) := rfl

theorem run_plan (p : Path) (content : List UInt8) (fs : FileSystem) :
    (plan p content).run fs = (planTarget (target fs p) content).run fs := by
  rw [plan, Plan.run_bind, Plan.run_observe]

theorem run_giveUp (temporary : Path) (fault : ReplaceFault) (fs : FileSystem) :
    (giveUp temporary fault).run fs = (.error fault, (fs.perform (.remove temporary)).2) := by
  rw [giveUp, Plan.run_bind, Plan.run_change, Plan.run_pure]

end Replacement
end BranchRender
