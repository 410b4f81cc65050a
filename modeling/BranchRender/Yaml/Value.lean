/-
YAML VALUES: what a document says when nothing in particular is expected of it.

- A value is a scalar by its kind, a list, a map, or a value under a tag of the document's own.
- `Value.ofDocument?` refuses a document that has no value: a scalar its tag does not fit, an integer of more than 64
  bits, a map with equal keys, collections nested more than `maxDepth` deep, or aliases that stand for more than
  `usesPerEvent` times the size of the document.
- In a map under a tag of the document's own, the tags of the keys say nothing.
- `Value.same` is the equality of keys: maps in any order, both zeros alike, a tag with or without its exclamation mark.
-/
import BranchRender.Yaml.Node
import BranchRender.Yaml.Scalar

namespace BranchRender.Yaml

inductive Value
  | null
  | bool (b : Bool)
  | integer (n : Int)
  | float (x : Binary64)
  | text (t : Text)
  | list (items : List Value)
  | map (entries : List (Value × Value))
  | tagged (name : Text) (content : Value)

namespace Node

/-- the nodes aliases stand for, by number -/
abbrev Anchors := List (Nat × Node)

/-- the node an alias stands for; any other node stands for itself -/
def target (anchors : Anchors) : Node → Node
  | .alias m a => (anchors.lookup a).getD (.scalar { mark := m } true [])
  | n => n

def tag? : Node → Option (List UInt8)
  | .scalar p _ _ | .sequence p _ | .mapping p _ => p.tag
  | .alias _ _ => none

/-- the aliases a document may use for every event it has -/
def usesPerEvent : Nat := 100

/-- how many aliases may be used in reading `n` -/
def maxUses (n : Node) : Nat := usesPerEvent * n.eventCount

end Node

namespace Value

/-! ## Equality of keys -/

/-- the name of a tag without an exclamation mark in front, unless that is all of it -/
def bareTag : Text → Text
  | '!' :: c :: t => c :: t
  | t => t

mutual

def same : Value → Value → Bool
  | .null, .null => true
  | .bool a, .bool b => a == b
  | .integer a, .integer b => a == b
  | .float a, .float b => a.same b
  | .text a, .text b => a == b
  | .list a, .list b => sameItems a b
  | .map a, .map b => a.length == b.length && sameEntries a b
  | .tagged n a, .tagged m b => bareTag n == bareTag m && a.same b
  | _, _ => false

def sameItems : List Value → List Value → Bool
  | [], [] => true
  | a :: l, b :: m => a.same b && sameItems l m
  | _, _ => false

def sameEntries : List (Value × Value) → List (Value × Value) → Bool
  | [], _ => true
  | (k, v) :: l, m => (m.any fun e => k.same e.1 && v.same e.2) && sameEntries l m

end

def hasDistinctKeys : List (Value × Value) → Bool
  | [] => true
  | (k, _) :: l => !(l.any fun e => e.1.same k) && hasDistinctKeys l

/-! ## Reading -/

/-- collections inside each other, at most -/
def maxDepth : Nat := 128

/-- reading with a store of alias uses, which may run out -/
abbrev Reading (α : Type) := StateT Nat Option α

def refuse {α : Type} : Reading α := fun _ => none

def useAlias : Reading Unit := fun
  | 0 => none
  | n + 1 => some ((), n)

def ofKind? (t : Text) : Kind → Option Value
  | .null => some .null
  | .bool b => some (.bool b)
  | .integer n => some (.integer n)
  | .wide _ => none
  | .float x => some (.float x)
  | .text => some (.text t)

def ofScalar? (tag : Option (List UInt8)) (isPlain : Bool) (t : Text) : Option Value :=
  match Kind.ofScalar tag isPlain t with
  | .ok k => ofKind? t k
  | .error _ => none

/-- what a node says without its own tag, if it has one. `read` reads the nodes inside it, of which the keys under an own
tag are read as if they had none; it is missing where collections are nested too deep. -/
def ofContent (read : Option (Bool → Node → Reading Value)) (isTagged : Bool) : Node → Reading Value
  | .scalar p isPlain t =>
    match ofScalar? (if isTagged then none else p.tag) isPlain t with
    | some v => pure v
    | none => refuse
  | .sequence _ items =>
    match read with
    | none => refuse
    | some read => do return .list (← items.mapM (read false))
  | .mapping _ entries =>
    match read with
    | none => refuse
    | some read => do
      let entries ← entries.mapM fun e => do return (← read isTagged e.1, ← read false e.2)
      if hasDistinctKeys entries then return .map entries else refuse
  | .alias _ _ => refuse

def ofTagged (read : Option (Bool → Node → Reading Value)) (n : Node) : Reading Value :=
  match Kind.ownTag? n.tag? with
  | none => ofContent read false n
  | some name => do return .tagged name (← ofContent read true n)

/-- what a node says, its own tag aside if `isTagged`; an alias says what its node does -/
def ofAny (anchors : Node.Anchors) (read : Option (Bool → Node → Reading Value)) (isTagged : Bool) :
    Node → Reading Value
  | .alias m a => do
    useAlias
    ofTagged read (Node.target anchors (.alias m a))
  | n => if isTagged then ofContent read true n else ofTagged read n

/-- what a node says, with at most `depth` collections inside each other -/
def ofNode (anchors : Node.Anchors) : Nat → Bool → Node → Reading Value
  | 0 => ofAny anchors none
  | depth + 1 => ofAny anchors (some (ofNode anchors depth))

/-- what a document says; one without a node says null -/
def ofDocument? : Document → Option Value
  | none => some .null
  | some n => (ofNode n.anchored maxDepth false n n.maxUses).map (·.1)

end Value
end BranchRender.Yaml
