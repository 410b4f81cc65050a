/-
YAML NODES: the structure of a document.

- A node is a scalar, a sequence, a mapping with its entries in document order, or an alias for a node with an anchor.
- Anchors are numbered. A name that is used again for another anchor takes the number of names used so far, which a
  later new name may take as well; the last node with a number is the one its aliases stand for.
- `Document` is the one node of a text, `none` for a text without any.
-/
import BranchRender.Yaml.Token

namespace BranchRender.Yaml

structure Properties where
  mark : Mark
  anchor : Option Nat := none
  tag : Option (List UInt8) := none
  deriving DecidableEq, Repr

/-- a node of a document -/
inductive Node
  | scalar (p : Properties) (isPlain : Bool) (value : Text)
  | sequence (p : Properties) (items : List Node)
  | mapping (p : Properties) (entries : List (Node × Node))
  | alias (mark : Mark) (anchor : Nat)

abbrev Document := Option Node

namespace Node

def mark : Node → Mark
  | .scalar p _ _ | .sequence p _ | .mapping p _ => p.mark
  | .alias m _ => m

def anchor? : Node → Option Nat
  | .scalar p _ _ | .sequence p _ | .mapping p _ => p.anchor
  | .alias _ _ => none

mutual

/-- a node and all nodes inside it, in document order -/
def nodes : Node → List Node
  | .sequence p items => .sequence p items :: nodesOfItems items
  | .mapping p entries => .mapping p entries :: nodesOfEntries entries
  | n => [n]

def nodesOfItems : List Node → List Node
  | [] => []
  | n :: l => n.nodes ++ nodesOfItems l

def nodesOfEntries : List (Node × Node) → List Node
  | [] => []
  | (k, v) :: l => k.nodes ++ v.nodes ++ nodesOfEntries l

end

/-- what a reader of the document is told of it: a collection counts for its start and its end -/
def eventCount (n : Node) : Nat :=
  let count : Node → Nat
    | .sequence _ _ | .mapping _ _ => 2
    | _ => 1
  n.nodes.foldl (fun k m => k + count m) 0

/-- the nodes with anchors, by number, the last one first -/
def anchored (n : Node) : List (Nat × Node) :=
  (n.nodes.filterMap fun m => m.anchor?.map fun a => (a, m)).reverse

end Node
end BranchRender.Yaml
