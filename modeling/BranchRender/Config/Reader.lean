/-
READING CONFIGURATIONS: `Config.ofText` takes a configuration from a YAML text and checks its rules.

- Any scalar is a text, whatever its tag; an alias stands for its node. A map left out is empty. The optional choices
  are left open by null.
- Entries under other names than the six of `Key` are skipped; one of the six must not stand there twice. Of two equal
  branches or fields the later one counts.
- A text that is not YAML, or has no value at all, is told apart from one that says something else than a configuration;
  so is one that uses aliases too often.

Main statement: `Key.ofName?_name`.
-/
import BranchRender.Config.Mismatch
import BranchRender.Config.Validation
import BranchRender.Yaml.Node.Reader

namespace BranchRender

open Yaml (Kind Mark Node Document)

/-- why a text is no configuration -/
inductive ConfigFault
  | notYaml
  | mismatch (m : Mismatch)
  | invalid (v : Violation)
  deriving DecidableEq, Repr

namespace ConfigFault

/-- how the message of a text begins that is no YAML, or says something else -/
def unreadable : Text := "failed to parse config YAML".toList

def message : ConfigFault → Text
  | .notYaml => unreadable
  | .mismatch m => unreadable ++ ": ".toList ++ m.message
  | .invalid v => "config validation failed: ".toList ++ v.message

end ConfigFault

namespace Config

/-! ## Values -/

/-- the nodes of aliases, and where the outermost mapping starts -/
structure Surroundings where
  anchors : Node.Anchors
  start : Mark

namespace Surroundings

variable {α : Type} (s : Surroundings)

/-- the node meant by `n` is not what was expected -/
def unexpected (expected : String) (trail : List Text) (n : Node) : Mismatch :=
  ⟨.ofNode expected (n.target s.anchors), (n.target s.anchors).mark, trail⟩

/-- a mismatch of the outermost mapping as a whole -/
def outermost (cause : Cause) : Mismatch := ⟨cause, s.start, []⟩

def text (expected : String) (trail : List Text) (n : Node) : Except Mismatch Text :=
  match n.target s.anchors with
  | .scalar _ _ t => .ok t
  | _ => .error (s.unexpected expected trail n)

/-- the entries of a mapping, which may be left out -/
def entries (expected : String) (trail : List Text) (n : Node) : Except Mismatch (List (Node × Node)) :=
  match n.target s.anchors with
  | .mapping _ l => .ok l
  | .scalar _ true [] => .ok []
  | _ => .error (s.unexpected expected trail n)

/-- what a key adds to the trail of its value -/
def step : Node → Text
  | .scalar _ _ t => t
  | _ => ['?']

def map (value : List Text → Node → Except Mismatch α) (trail : List Text) (n : Node) :
    Except Mismatch (NameMap α) := do
  let l ← s.entries "a map" trail n
  let l ← l.mapM fun e => do
    let name ← s.text "a string" trail e.1
    return (name, ← value (trail ++ [step e.1]) e.2)
  return .ofList l

def binding (trail : List Text) (n : Node) : Except Mismatch Binding := s.map (s.text "a string") trail n

def isOpen (n : Node) : Except Mismatch Bool :=
  match n.target s.anchors with
  | .scalar p true t =>
    match p.tag with
    | none => .ok (t = [] || Kind.isNull t)
    | some tag =>
      if tag != Kind.commonTag "null" then .ok false
      else if Kind.isNull t then .ok true
      else .error (s.outermost (.wrongValue t "null"))
  | _ => .ok false

/-- a choice that `value` reads, unless it is left open -/
def choice (value : List Text → Node → Except Mismatch α) (trail : List Text) (n : Node) :
    Except Mismatch (Option α) := do
  if ← s.isOpen n then return none else return some (← value trail n)

/-- nothing, where a tag has said it all -/
def nothing (trail : List Text) (n : Node) : Except Mismatch Unit :=
  match n.target s.anchors with
  | .scalar p isPlain t =>
    if isPlain && (t = [] || Kind.isNull t) then .ok () else .error ⟨.wrongValue t "null", p.mark, trail⟩
  | _ => .error (s.unexpected "unit" trail n)

/-- a comment style: the name of one, or a tag of that name on nothing -/
def style (trail : List Text) (n : Node) : Except Mismatch CommentStyle :=
  match Kind.ownTag? (n.target s.anchors).tag? with
  | some name =>
    match CommentStyle.ofName? name with
    | none => .error (s.outermost (.unknownStyle name))
    | some style => do
      s.nothing trail n
      return style
  | none => do
    let name ← s.text "a YAML tag starting with '!'" trail n
    match CommentStyle.ofName? name with
    | none => .error ⟨.unknownStyle name, (n.target s.anchors).mark, trail⟩
    | some style => return style

end Surroundings

/-! ## Fields -/

inductive Key
  | template
  | output
  | buildCommand
  | commentStyle
  | namespaces
  | defaultBinding
  deriving DecidableEq, Repr

namespace Key

def name : Key → Text
  | .template => "template".toList
  | .output => "output".toList
  | .buildCommand => "build_command".toList
  | .commentStyle => "comment_style".toList
  | .namespaces => "namespaces".toList
  | .defaultBinding => "default_binding".toList

def all : List Key := [.template, .output, .buildCommand, .commentStyle, .namespaces, .defaultBinding]

def ofName? (t : Text) : Option Key := all.find? (·.name = t)

theorem ofName?_name (k : Key) : ofName? k.name = some k := by
  cases k <;> decide +kernel

end Key

def set (s : Surroundings) (c : Config) (k : Key) (n : Node) (trail : List Text) : Except Mismatch Config :=
  match k with
  | .template => (s.text "a string" trail n).map fun t => { c with template := t }
  | .output => (s.text "a string" trail n).map fun t => { c with output := t }
  | .buildCommand => (s.text "a string" trail n).map fun t => { c with buildCommand := t }
  | .commentStyle => (s.choice s.style trail n).map fun v => { c with commentStyle := v }
  | .namespaces => (s.choice (s.map s.binding) trail n).map fun v => { c with namespaces := v }
  | .defaultBinding => (s.choice s.binding trail n).map fun v => { c with defaultBinding := v }

/-- `c` with the choices of these entries; `seen` are the ones before them -/
def setAll (s : Surroundings) : List Key → Config → List (Node × Node) → Except Mismatch Config
  | _, c, [] => .ok c
  | seen, c, (key, value) :: l =>
    match s.text "field identifier" [] key with
    | .error m => .error m
    | .ok name =>
      match Key.ofName? name with
      | none => setAll s seen c l
      | some k =>
        if k ∈ seen then .error (s.outermost (.repeatedField name))
        else match set s c k value [Surroundings.step key] with
          | .error m => .error m
          | .ok c => setAll s (k :: seen) c l

/-- what a document chooses; one without a node chooses nothing -/
def ofDocument : Document → Except Mismatch Config
  | none => .ok {}
  | some n =>
    let s : Surroundings := ⟨n.anchored, n.mark⟩
    match s.entries "struct Config" [] n with
    | .error m => .error m
    | .ok l => setAll s [] {} l

/-! ## Aliases -/

/-- the aliases used in reading a node with at most `depth` maps inside each other -/
def uses (anchors : Node.Anchors) : Nat → Node → Nat
  | depth, n =>
    let own := match n with
      | .alias _ _ => 1
      | _ => 0
    match depth, n.target anchors with
    | d + 1, .mapping _ l => l.foldl (fun n e => n + (uses anchors d e.1 + uses anchors d e.2)) own
    | _, _ => own

/-- the maps inside each other that an entry may hold -/
def Key.depth : Key → Nat
  | .template | .output | .buildCommand | .commentStyle => 0
  | .defaultBinding => 1
  | .namespaces => 2

/-- the aliases used in reading the outermost mapping -/
def usesOfDocument : Document → Nat
  | some (.mapping p l) =>
    let anchors := (Node.mapping p l).anchored
    let ofEntry (e : Node × Node) : Nat :=
      uses anchors 0 e.1 + match e.1.target anchors with
        | .scalar _ _ t => ((Key.ofName? t).map fun k => uses anchors k.depth e.2).getD 0
        | _ => 0
    l.foldl (fun n e => n + ofEntry e) 0
  | _ => 0

/-- how many aliases may be used in reading a document -/
def maxUses (d : Document) : Nat := (d.map Node.maxUses).getD 0

/-! ## Texts -/

/-- the configuration a text gives, or why it gives none -/
def ofText (t : Text) : Except ConfigFault Config :=
  match Document.ofText? t with
  | none => .error .notYaml
  | some d =>
    match ofDocument d with
    | .error m => .error (if (Yaml.Value.ofDocument? d).isSome then .mismatch m else .notYaml)
    | .ok c =>
      if maxUses d < usesOfDocument d then .error .notYaml
      else match c.violation? with
        | some v => .error (.invalid v)
        | none => .ok c

end Config
end BranchRender
