/-
YAML TOKENS: what a document is cut into before its structure is read.
-/
import BranchRender.Yaml.Glyph

namespace BranchRender.Yaml

/-- a tag as written: a handle that a directive may redefine, and the rest; tags are bytes, since they may be escaped -/
structure TagName where
  handle : Text
  suffix : List UInt8
  deriving DecidableEq, Repr

inductive Sign
  | versionDirective (major minor : Nat)
  | tagDirective (handle : Text) (replacement : List UInt8)
  | documentStart
  | documentEnd
  | streamEnd
  | blockSequenceStart
  | blockMappingStart
  | blockEnd
  | flowSequenceStart
  | flowSequenceEnd
  | flowMappingStart
  | flowMappingEnd
  | blockEntry
  | flowEntry
  | key
  | value
  | alias (name : Text)
  | anchor (name : Text)
  | tag (name : TagName)
  | scalar (isPlain : Bool) (value : Text)
  deriving DecidableEq, Repr

/-- a sign, where it starts and where it ends -/
structure Token where
  sign : Sign
  start : Mark
  finish : Mark
  deriving DecidableEq, Repr

end BranchRender.Yaml
