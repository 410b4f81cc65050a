/-
FAILURES: how a run ends when it does not succeed.

- `Failure` has one constructor per cause a caller can tell apart; `message` is its wording, `exitCode` what the process
  ends with: 1 for a wrong setup, 3 for a template that cannot be filled, 4 for a file that cannot be read or written.
  2 is left to command lines that cannot be read.
-/
import BranchRender.SystemError
import BranchRender.Path
import BranchRender.Template

namespace BranchRender

/-- how a run fails -/
inductive Failure
  /-- the arguments or the place the program runs in are unusable -/
  | unusable (reason : Text)
  /-- the configuration cannot be read, or breaks a rule -/
  | configuration (reason : Text)
  /-- a placeholder names a field the binding does not define -/
  | missingField (field : Text) (line : Nat) (template : Path)
  /-- a placeholder is malformed -/
  | malformed (fault : TemplateFault) (line : Nat) (template : Path)
  | templateUnreadable (template : Path) (fault : IoFault)
  | outputUnwritable (output : Path) (reason : Text)
  /-- git cannot be started, or fails -/
  | git (reason : Text)
  deriving DecidableEq, Repr

namespace Failure

def place (template : Path) (line : Nat) : Text :=
  "template '".toList ++ template ++ "' line ".toList ++ Text.decimal line ++ ": ".toList

def message : Failure → Text
  | .unusable reason => reason
  | .configuration reason => reason
  | .missingField field line template =>
    place template line ++ "field '".toList ++ field ++ "' is not defined by the active binding".toList
  | .malformed fault line template => place template line ++ fault.message
  | .templateUnreadable template fault =>
    "cannot read template '".toList ++ template ++ "': ".toList ++ fault.message
  | .outputUnwritable output reason => "cannot write output '".toList ++ output ++ "': ".toList ++ reason
  | .git reason => "Git operation failed: ".toList ++ reason

/-- what the process ends with -/
def exitCode : Failure → Nat
  | .unusable _ | .configuration _ | .git _ => 1
  | .missingField .. | .malformed .. => 3
  | .templateUnreadable .. | .outputUnwritable .. => 4

def invalidConfiguration (reason : Text) : Failure :=
  .configuration ("config validation failed: ".toList ++ reason)

end Failure
end BranchRender
