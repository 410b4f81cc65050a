/-
THE TEXT OF YAML SCALARS: plain, quoted and block scalars, read one character at a time.

- `Gap` is the white space since the last character of a plain or quoted scalar. Within a line it stays as it is; over
  a line end it becomes a space, or the line breaks after the first.
- `plain` ends before `: `, before a comment, at a line that is not indented enough and, inside brackets, before a flow
  indicator.
- `quoted` reads up to the closing quote and undoes the escapes.
- `block` reads the indented lines below its header, kept (`|`) or folded (`>`), and treats the line breaks at the end
  as the header says.

A refused text gives `none`.
-/
import BranchRender.Yaml.Glyph

namespace BranchRender.Yaml

/-! ## Gaps -/

/-- white space inside a scalar -/
structure Gap where
  /-- blanks before the first line break, in reverse -/
  blanks : Text := []
  /-- whether a line has ended -/
  broken : Bool := false
  /-- the first line break, unless it is escaped -/
  first : Text := []
  /-- the line breaks after it, in reverse -/
  more : Text := []
  deriving DecidableEq, Repr

namespace Gap

/-- one more blank; blanks after a line break do not count -/
def addBlank (g : Gap) (c : Char) : Gap := if g.broken then g else { g with blanks := c :: g.blanks }

/-- one more line break; blanks before it do not count -/
def addBreak (g : Gap) (c : Char) : Gap :=
  if g.broken then { g with more := c :: g.more } else { blanks := [], broken := true, first := [c], more := g.more }

def add (g : Gap) (c : Char) : Gap := if isBlank c then g.addBlank c else g.addBreak c

def folded (g : Gap) : Text :=
  if !g.broken then g.blanks
  else if g.first = ['\n'] then (if g.more = [] then [' '] else g.more)
  else g.more ++ g.first

end Gap

/-! ## Plain scalars -/

/-- the brackets and the comma of flow collections -/
def isFlowIndicator (c : Char) : Bool := c = ',' || c = '[' || c = ']' || c = '{' || c = '}'

/-- what may not follow a colon inside a flow collection -/
def spoilsColon (c : Char) : Bool := isFlowIndicator c || c = '?'

/-- a plain scalar: its text, whether a line has ended since, and what follows -/
structure Plain where
  text : Text
  broken : Bool
  rest : Input

/-- reads on in a plain scalar; `acc` is its text so far in reverse, `gap` the white space since, if any -/
def plainFrom (inFlow : Bool) (indent : Nat) (acc : Text) (gap : Option Gap) : Input → Option Plain
  | [] => some ⟨acc.reverse, gap.any (·.broken), []⟩
  | g :: i =>
    let stop : Option Plain := some ⟨acc.reverse, gap.any (·.broken), g :: i⟩
    if isBlank g.char || isBreak g.char then
      let w := gap.getD {}
      if w.broken && g.char = '\t' && g.mark.column < indent then none
      else plainFrom inFlow indent acc (some (w.add g.char)) i
    else if gap.isSome && ((!inFlow && g.mark.column < indent) || Input.atDocumentMarker (g :: i) || g.char = '#') then
      stop
    else if g.char = ':' && inFlow && (Input.head? i).any spoilsColon then none
    else if (g.char = ':' && Input.atSpace i) || (inFlow && isFlowIndicator g.char) then stop
    else plainFrom inFlow indent (g.char :: (gap.map Gap.folded).getD [] ++ acc) none i

/-- a plain scalar, with `indent` columns in front of every line after the first -/
def plain (inFlow : Bool) (indent : Nat) (i : Input) : Option Plain := plainFrom inFlow indent [] none i

/-! ## Quoted scalars -/

inductive QuotedState
  | text
  | gap (w : Gap)
  /-- behind a backslash -/
  | escape
  /-- in the hexadecimal digits of an escaped character, one and `more` of them still to come -/
  | digits (more value : Nat)
  /-- behind a quote that ends the scalar unless another one follows -/
  | quote
  deriving DecidableEq, Repr

/-- the character a backslash and a letter stand for -/
def escaped? (c : Char) : Option Char :=
  if c = '0' then some '\x00'
  else if c = 'a' then some '\x07'
  else if c = 'b' then some '\x08'
  else if c = 't' || c = '\t' then some '\t'
  else if c = 'n' then some '\n'
  else if c = 'v' then some '\x0b'
  else if c = 'f' then some '\x0c'
  else if c = 'r' then some '\r'
  else if c = 'e' then some '\x1b'
  else if c = 'N' then some '\u0085'
  else if c = '_' then some '\u00a0'
  else if c = 'L' then some '\u2028'
  else if c = 'P' then some '\u2029'
  else if c = ' ' || c = '"' || c = '/' || c = '\\' then some c
  else none

/-- how many digits follow the letter of a numeric escape -/
def escapeDigits? (c : Char) : Option Nat :=
  if c = 'x' then some 2 else if c = 'u' then some 4 else if c = 'U' then some 8 else none

def hexValue? (c : Char) : Option Nat :=
  if '0' ≤ c ∧ c ≤ '9' then some (c.toNat - '0'.toNat)
  else if 'a' ≤ c ∧ c ≤ 'f' then some (c.toNat - 'a'.toNat + 10)
  else if 'A' ≤ c ∧ c ≤ 'F' then some (c.toNat - 'A'.toNat + 10)
  else none

def scalarValue? (n : Nat) : Option Char :=
  if n.isValidChar then some (Char.ofNat n) else none

/-- the reader takes a character that is no white space, with `acc` read before in reverse: the text then and where the
reader is, `none` for the quote that ends a double-quoted scalar -/
def quotedChar (single : Bool) (acc : Text) (c : Char) : Text × Option QuotedState :=
  if single then (if c = '\'' then (acc, some .quote) else (c :: acc, some .text))
  else if c = '"' then (acc, none)
  else if c = '\\' then (acc, some .escape)
  else (c :: acc, some .text)

/-- reads on in a quoted scalar; `acc` is its text so far in reverse -/
def quotedFrom (single : Bool) (acc : Text) : QuotedState → Input → Option (Text × Input)
  | .quote, [] => some (acc.reverse, [])
  | _, [] => none
  | .quote, g :: i =>
    if g.char = '\'' then quotedFrom single (g.char :: acc) .text i else some (acc.reverse, g :: i)
  | .escape, g :: i =>
    if isBreak g.char then quotedFrom single acc (.gap { broken := true }) i
    else match escaped? g.char, escapeDigits? g.char with
      | some c, _ => quotedFrom single (c :: acc) .text i
      | none, some n => quotedFrom single acc (.digits (n - 1) 0) i
      | none, none => none
  | .digits more value, g :: i =>
    match hexValue? g.char with
    | none => none
    | some d =>
      match more with
      | n + 1 => quotedFrom single acc (.digits n (value * 16 + d)) i
      | 0 =>
        match scalarValue? (value * 16 + d) with
        | none => none
        | some c => quotedFrom single (c :: acc) .text i
  | .text, g :: i =>
    if isBlank g.char || isBreak g.char then quotedFrom single acc (.gap (({} : Gap).add g.char)) i
    else match quotedChar single acc g.char with
      | (acc, none) => some (acc.reverse, i)
      | (acc, some s) => quotedFrom single acc s i
  | .gap w, g :: i =>
    if isBlank g.char || isBreak g.char then quotedFrom single acc (.gap (w.add g.char)) i
    else if Input.atDocumentMarker (g :: i) then none
    else match quotedChar single (w.folded ++ acc) g.char with
      | (acc, none) => some (acc.reverse, i)
      | (acc, some s) => quotedFrom single acc s i

/-- a quoted scalar, from behind its opening quote: its text and what follows -/
def quoted (single : Bool) (i : Input) : Option (Text × Input) := quotedFrom single [] .text i

/-! ## Block scalars -/

/-- what happens to the line breaks at the end of a block scalar -/
inductive Chomping
  | strip
  | clip
  | keep
  deriving DecidableEq, Repr

structure BlockHeader where
  chomping : Chomping := .clip
  /-- columns of indentation on top of the surrounding ones; 0 if the first line decides -/
  increment : Nat := 0
  deriving DecidableEq, Repr

def chomping? (c : Char) : Option Chomping :=
  if c = '+' then some .keep else if c = '-' then some .strip else none

/-- the indentation a header may name: a digit other than 0 -/
def increment? (c : Char) : Option (Option Nat) :=
  if c.isDigit then some (if c = '0' then none else some (c.toNat - '0'.toNat)) else none

/-- an indentation indicator, if there is one -/
def takeIncrement : Input → Option (Nat × Input)
  | [] => some (0, [])
  | g :: i =>
    match increment? g.char with
    | none => some (0, g :: i)
    | some none => none
    | some (some n) => some (n, i)

def takeChomping : Input → Option Chomping × Input
  | [] => (none, [])
  | g :: i =>
    match chomping? g.char with
    | none => (none, g :: i)
    | some c => (some c, i)

/-- the two indicators, in either order -/
def takeHeader (i : Input) : Option (BlockHeader × Input) :=
  match takeChomping i with
  | (some chomping, i) => (takeIncrement i).map fun (increment, i) => ({ chomping, increment }, i)
  | (none, i) =>
    (takeIncrement i).map fun (increment, i) =>
      if increment = 0 then ({}, i)
      else
        let (c, i) := takeChomping i
        ({ chomping := c.getD .clip, increment }, i)

def takeBreak : Input → Text × Input
  | [] => ([], [])
  | g :: i => if isBreak g.char then ([g.char], i) else ([], g :: i)

/-- the empty lines in front of a line, and the deepest column reached by spaces; `indent` columns are indentation, all
spaces if it is 0. The line breaks are in reverse. -/
def emptyLines (indent deepest : Nat) (breaks : Text) : Input → Option (Text × Nat × Input)
  | [] => some (breaks, deepest, [])
  | g :: i =>
    let inside := indent = 0 || g.mark.column < indent
    if inside && g.char = ' ' then emptyLines indent (max deepest (g.mark.column + 1)) breaks i
    else if inside && g.char = '\t' then none
    else if isBreak g.char then emptyLines indent deepest (g.char :: breaks) i
    else some (breaks, deepest, g :: i)

/-- the part of a block scalar already read, in reverse, and the line breaks not yet joined to it -/
structure Block where
  text : Text := []
  /-- the line break after the last line -/
  first : Text := []
  /-- the empty lines after it -/
  more : Text := []
  /-- whether the last line starts with a blank -/
  indented : Bool := false

/-- reads on, at the start of a line; each round takes a line, so `fuel` of the length of the input is enough -/
def blockLines (literal : Bool) (indent : Nat) : Nat → Block → Input → Option (Block × Input)
  | 0, b, i => some (b, i)
  | fuel + 1, b, i =>
    match i with
    | [] => some (b, [])
    | g :: _ =>
      if g.mark.column ≠ indent then some (b, i)
      else
        let isIndented := isBlank g.char
        let joined :=
          if !literal && b.first = ['\n'] && !b.indented && !isIndented then
            (if b.more = [] then ' ' :: b.text else b.more ++ b.text)
          else b.more ++ b.first ++ b.text
        let (line, i) := Input.takeWhile (fun c => !isBreak c) i
        let (first, i) := takeBreak i
        match emptyLines indent 0 [] i with
        | none => none
        | some (more, _, i) =>
          blockLines literal indent fuel { text := line.reverse ++ joined, first, more, indented := isIndented } i

/-- a block scalar, from behind its indicator: its text and what follows. `level` is one more than the column of the
surrounding collection, 0 outside all of them. -/
def block (literal : Bool) (level : Nat) (i : Input) : Option (Text × Input) := do
  let (header, i) ← takeHeader i
  let i := Input.dropRestOfLine i
  if !Input.atBreakOrEnd i then none
  else
    let (_, i) := takeBreak i
    let named := if header.increment = 0 then 0 else level - 1 + header.increment
    let (more, deepest, i) ← emptyLines named 0 [] i
    let indent := if named = 0 then max (max deepest level) 1 else named
    let (b, i) ← blockLines literal indent i.length { more } i
    let tail := match header.chomping with
      | .strip => []
      | .clip => b.first
      | .keep => b.more ++ b.first
    return ((tail ++ b.text).reverse, i)

end BranchRender.Yaml
