/-
READING YAML NODES: `Document.ofTokens?` finds the structure of a document in its tokens, or refuses it.

- `Place` is what surrounds a node: a block collection, the key or value of a block mapping, where a sequence need not
  be indented, or brackets. A node may be left out; an empty plain scalar then stands in its place.
- The functions on nodes take `fuel`, one unit for every call inside another. Two calls inside each other take at least
  one token, so four units per token are enough.
- A text holds one document: `---` and directives may precede it, `...` may follow.
-/
import BranchRender.Text.Utf8
import BranchRender.Yaml.Node
import BranchRender.Yaml.Token.Reader

namespace BranchRender.Yaml

inductive Place
  | block
  | entry
  | flow
  deriving DecidableEq, Repr

abbrev Handles := List (Text × List UInt8)

structure NodeReader where
  tokens : List Token
  handles : Handles
  /-- the names of anchors and their numbers -/
  anchors : List (Text × Nat) := []

namespace NodeReader

def next? (r : NodeReader) : Option Token := r.tokens.head?

/-- behind the next token -/
def skip (r : NodeReader) : NodeReader := { r with tokens := r.tokens.drop 1 }

def sign? (r : NodeReader) : Option Sign := r.next?.map (·.sign)

/-- whether the next token is one of `signs` -/
def isAt (r : NodeReader) (signs : List Sign) : Bool := r.next?.any (·.sign ∈ signs)

def mark (r : NodeReader) : Mark := (r.next?.map (·.start)).getD .start

def leftOut (m : Mark) : Node := .scalar { mark := m } true []

def resolve? (handles : Handles) (name : TagName) : Option (List UInt8) :=
  if name.handle = [] then some name.suffix
  else (handles.lookup name.handle).map (· ++ name.suffix)

/-- a name for the anchor of a node: it takes the number of names used so far -/
def introduce (r : NodeReader) : Option Text → Option Nat × NodeReader
  | none => (none, r)
  | some name =>
    let n := r.anchors.length
    let known := r.anchors.any (·.1 = name)
    let anchors := if known then r.anchors.map fun a => if a.1 = name then (name, n) else a else (name, n) :: r.anchors
    (some n, { r with anchors })

/-- an anchor and a tag as they stand in front of a node -/
structure Prefix where
  anchor : Option Text := none
  tag : Option TagName := none

/-- anchor and tag, in either order -/
def takePrefix (r : NodeReader) : Prefix × NodeReader :=
  match r.tokens with
  | ⟨.anchor a, _, _⟩ :: ⟨.tag t, _, _⟩ :: rest => ({ anchor := some a, tag := some t }, { r with tokens := rest })
  | ⟨.tag t, _, _⟩ :: ⟨.anchor a, _, _⟩ :: rest => ({ anchor := some a, tag := some t }, { r with tokens := rest })
  | ⟨.anchor a, _, _⟩ :: rest => ({ anchor := some a }, { r with tokens := rest })
  | ⟨.tag t, _, _⟩ :: rest => ({ tag := some t }, { r with tokens := rest })
  | _ => ({}, r)

/-- the tag of a prefix; one with an unknown handle is refused -/
def Prefix.tag? (p : Prefix) (handles : Handles) : Option (Option (List UInt8)) :=
  match p.tag with
  | none => some none
  | some name => (resolve? handles name).map some

mutual

def node : Nat → Place → NodeReader → Option (Node × NodeReader)
  | 0, _, _ => none
  | fuel + 1, place, r =>
    match r.next? with
    | some ⟨.alias name, m, _⟩ => (r.anchors.lookup name).map fun n => (.alias m n, r.skip)
    | _ =>
      let m := r.mark
      let (pre, r) := r.takePrefix
      match pre.tag? r.handles with
      | none => none
      | some tag =>
        let (anchor, r) := r.introduce pre.anchor
        let p : Properties := { mark := m, anchor, tag }
        match r.sign?, place with
        | some .blockEntry, .entry => (unindented fuel r).map fun (l, r) => (.sequence p l, r)
        | some (.scalar isPlain t), _ => some (.scalar p isPlain t, r.skip)
        | some .flowSequenceStart, _ => (flowItems fuel true r.skip).map fun (l, r) => (.sequence p l, r)
        | some .flowMappingStart, _ => (flowEntries fuel true r.skip).map fun (l, r) => (.mapping p l, r)
        | some .blockSequenceStart, .block
        | some .blockSequenceStart, .entry => (blockItems fuel r.skip).map fun (l, r) => (.sequence p l, r)
        | some .blockMappingStart, .block
        | some .blockMappingStart, .entry => (blockEntries fuel r.skip).map fun (l, r) => (.mapping p l, r)
        | _, _ => if pre.anchor.isSome || pre.tag.isSome then some (.scalar p true [], r) else none

/-- a node, or the empty scalar at `m` in front of one of `signs` -/
def nodeUnless (fuel : Nat) (place : Place) (signs : List Sign) (m : Mark) (r : NodeReader) :
    Option (Node × NodeReader) :=
  match fuel with
  | 0 => none
  | fuel + 1 => if r.isAt signs then some (leftOut m, r) else node fuel place r

/-- the entries of an indented sequence, to its end -/
def blockItems : Nat → NodeReader → Option (List Node × NodeReader)
  | 0, _ => none
  | fuel + 1, r =>
    match r.next? with
    | some ⟨.blockEntry, _, m⟩ =>
      match nodeUnless fuel .block [.blockEntry, .blockEnd] m r.skip with
      | none => none
      | some (n, r) => (blockItems fuel r).map fun (l, r) => (n :: l, r)
    | some ⟨.blockEnd, _, _⟩ => some ([], r.skip)
    | _ => none

/-- the entries of a sequence that is not indented -/
def unindented : Nat → NodeReader → Option (List Node × NodeReader)
  | 0, _ => none
  | fuel + 1, r =>
    match r.next? with
    | some ⟨.blockEntry, _, m⟩ =>
      match nodeUnless fuel .block [.blockEntry, .key, .value, .blockEnd] m r.skip with
      | none => none
      | some (n, r) => (unindented fuel r).map fun (l, r) => (n :: l, r)
    | _ => some ([], r)

/-- the value of an entry of an indented mapping -/
def blockValue : Nat → NodeReader → Option (Node × NodeReader)
  | 0, _ => none
  | fuel + 1, r =>
    match r.next? with
    | some ⟨.value, _, m⟩ => nodeUnless fuel .entry [.key, .value, .blockEnd] m r.skip
    | _ => some (leftOut r.mark, r)

/-- the entries of an indented mapping, to its end -/
def blockEntries : Nat → NodeReader → Option (List (Node × Node) × NodeReader)
  | 0, _ => none
  | fuel + 1, r =>
    match r.next? with
    | some ⟨.key, _, m⟩ =>
      match nodeUnless fuel .entry [.key, .value, .blockEnd] m r.skip with
      | none => none
      | some (k, r) =>
        match blockValue fuel r with
        | none => none
        | some (v, r) => (blockEntries fuel r).map fun (l, r) => ((k, v) :: l, r)
    | some ⟨.blockEnd, _, _⟩ => some ([], r.skip)
    | _ => none

/-- the value of an entry in brackets that `close` ends -/
def flowValue : Nat → Sign → NodeReader → Option (Node × NodeReader)
  | 0, _, _ => none
  | fuel + 1, close, r =>
    if r.isAt [.value] then nodeUnless fuel .flow [.flowEntry, close] r.skip.mark r.skip
    else some (leftOut r.mark, r)

/-- the entry of a mapping of one entry, inside a sequence in brackets; in place of a key left out the next token is
taken -/
def flowPair : Nat → NodeReader → Option ((Node × Node) × NodeReader)
  | 0, _ => none
  | fuel + 1, r =>
    let key := match r.next? with
      | some ⟨.value, _, m⟩ | some ⟨.flowEntry, _, m⟩ | some ⟨.flowSequenceEnd, _, m⟩ => some (leftOut m, r.skip)
      | _ => node fuel .flow r
    match key with
    | none => none
    | some (k, r) => (flowValue fuel .flowSequenceEnd r).map fun (v, r) => ((k, v), r)

/-- the comma in front of all entries but the first -/
def flowSeparator (isFirst : Bool) (r : NodeReader) : Option NodeReader :=
  if isFirst then some r
  else if r.isAt [.flowEntry] then some r.skip
  else none

/-- the entries of a sequence in brackets, to its end -/
def flowItems : Nat → Bool → NodeReader → Option (List Node × NodeReader)
  | 0, _, _ => none
  | fuel + 1, isFirst, r =>
    if r.isAt [.flowSequenceEnd] then some ([], r.skip)
    else match flowSeparator isFirst r with
      | none => none
      | some r =>
        if r.isAt [.flowSequenceEnd] then some ([], r.skip)
        else
          let item := if r.isAt [.key] then
              (flowPair fuel r.skip).map fun (e, r') => (.mapping { mark := r.mark } [e], r')
            else node fuel .flow r
          match item with
          | none => none
          | some (n, r) => (flowItems fuel false r).map fun (l, r) => (n :: l, r)

def flowEntryPair : Nat → NodeReader → Option ((Node × Node) × NodeReader)
  | 0, _ => none
  | fuel + 1, r =>
    if r.isAt [.key] then
      match nodeUnless fuel .flow [.value, .flowEntry, .flowMappingEnd] r.skip.mark r.skip with
      | none => none
      | some (k, r) => (flowValue fuel .flowMappingEnd r).map fun (v, r) => ((k, v), r)
    else (node fuel .flow r).map fun (k, r) => ((k, leftOut r.mark), r)

/-- the entries of a mapping in brackets, to its end -/
def flowEntries : Nat → Bool → NodeReader → Option (List (Node × Node) × NodeReader)
  | 0, _, _ => none
  | fuel + 1, isFirst, r =>
    if r.isAt [.flowMappingEnd] then some ([], r.skip)
    else match flowSeparator isFirst r with
      | none => none
      | some r =>
        if r.isAt [.flowMappingEnd] then some ([], r.skip)
        else match flowEntryPair fuel r with
          | none => none
          | some (e, r) => (flowEntries fuel false r).map fun (l, r) => (e :: l, r)

end

end NodeReader

namespace Document

def commonHandles : Handles := [(['!'], Utf8.encode ['!']), ("!!".toList, Utf8.encode "tag:yaml.org,2002:".toList)]

/-- the directives in front of a document: at most one version, 1.1 or 1.2, and no handle twice -/
def directives (hasVersion : Bool) (handles : Handles) : List Token → Option (Handles × List Token)
  | ⟨.versionDirective major minor, _, _⟩ :: rest =>
    if hasVersion || major != 1 || (minor != 1 && minor != 2) then none else directives true handles rest
  | ⟨.tagDirective handle replacement, _, _⟩ :: rest =>
    if (handles.lookup handle).isSome then none else directives hasVersion ((handle, replacement) :: handles) rest
  | rest => some (handles ++ commonHandles, rest)

/-- the signs a document without a node may end at -/
def endsDocument : Sign → Bool
  | .versionDirective .. | .tagDirective .. | .documentStart | .documentEnd | .streamEnd => true
  | _ => false

/-- whether nothing but ends of documents is left -/
def isOver : List Token → Bool
  | ⟨.documentEnd, _, _⟩ :: rest => isOver rest
  | [⟨.streamEnd, _, _⟩] => true
  | _ => false

/-- the node of a document, which nothing may follow -/
def root? (handles : Handles) (tokens : List Token) : Option Document :=
  match NodeReader.node (4 * tokens.length + 4) .block { tokens, handles } with
  | some (n, r) => if isOver r.tokens then some (some n) else none
  | none => none

def ofTokens? (tokens : List Token) : Option Document :=
  match tokens with
  | [⟨.streamEnd, _, _⟩] => some none
  | t :: _ =>
    match t.sign with
    | .versionDirective .. | .tagDirective .. | .documentStart =>
      match directives false [] tokens with
      | some (handles, ⟨.documentStart, _, _⟩ :: rest) =>
        match rest with
        | t :: _ =>
          if endsDocument t.sign then (if isOver rest then some (some (NodeReader.leftOut t.start)) else none)
          else root? handles rest
        | [] => none
      | _ => none
    | _ => root? commonHandles tokens
  | [] => none

def ofText? (t : Text) : Option Document := (Token.ofText? t).bind ofTokens?

end Document
end BranchRender.Yaml
