/-
MISMATCHES: why a document is no configuration, and where.

- `Cause` says what is wrong: a value of the wrong type, a scalar its tag does not fit, a comment style or a field that
  must not stand there.
- `Mismatch` adds the place: the names on the way to the value, and where the node starts. The start of the document
  goes without saying.
-/
import BranchRender.Header
import BranchRender.Text.Quoted
import BranchRender.Yaml.Value

namespace BranchRender

open Yaml (Kind Mark Node)

/-- what stands in place of something else -/
inductive Found
  | scalar (kind : Kind) (text : Text)
  | sequence
  | mapping
  deriving DecidableEq, Repr

def Found.message : Found → Text
  | .scalar .null _ => "unit value".toList
  | .scalar (.bool b) _ => "boolean `".toList ++ (if b then "true`".toList else "false`".toList)
  | .scalar (.integer n) _ | .scalar (.wide n) _ => "integer `".toList ++ Text.integer n ++ "`".toList
  | .scalar (.float x) _ => "floating point `".toList ++ x.text ++ "`".toList
  | .scalar .text t => "string ".toList ++ t.quoted
  | .sequence => "sequence".toList
  | .mapping => "map".toList

/-- why a node is not what was expected -/
inductive Cause
  | wrongType (found : Found) (expected : String)
  /-- a scalar that does not fit its tag, or stands where nothing may -/
  | wrongValue (text : Text) (expected : String)
  | unknownStyle (name : Text)
  | repeatedField (name : Text)
  deriving DecidableEq, Repr

namespace Cause

def message : Cause → Text
  | .wrongType found expected => "invalid type: ".toList ++ found.message ++ ", expected ".toList ++ expected.toList
  | .wrongValue text expected =>
    "invalid value: string ".toList ++ text.quoted ++ ", expected ".toList ++ expected.toList
  | .unknownStyle name =>
    "unknown variant `".toList ++ name ++ "`, expected one of ".toList
      ++ Text.joinWith ", ".toList (CommentStyle.all.map fun s => "`".toList ++ s.name ++ "`".toList)
  | .repeatedField name => "duplicate field `".toList ++ name ++ "`".toList

/-- why a node that is no alias is not what was expected -/
def ofNode (expected : String) : Node → Cause
  | .scalar p isPlain t =>
    match Kind.ofScalar p.tag isPlain t with
    | .ok k => .wrongType (.scalar k t) expected
    | .error m => .wrongValue m.text m.expected
  | .mapping _ _ => .wrongType .mapping expected
  | .sequence _ _ | .alias _ _ => .wrongType .sequence expected

end Cause

structure Mismatch where
  cause : Cause
  mark : Mark
  /-- the names on the way from the outermost mapping to the value -/
  trail : List Text
  deriving DecidableEq, Repr

namespace Mismatch

/-- where a mismatch stands in words, lines and columns counted from 1 -/
def place (m : Mark) : Text :=
  if m.line = 0 ∧ m.column = 0 then []
  else " at line ".toList ++ Text.decimal (m.line + 1) ++ " column ".toList ++ Text.decimal (m.column + 1)

def message (m : Mismatch) : Text :=
  (if m.trail = [] then [] else Text.joinWith ['.'] m.trail ++ ": ".toList) ++ m.cause.message ++ place m.mark

end Mismatch
end BranchRender
