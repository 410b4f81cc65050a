/-
YAML CHARACTERS AND WHERE THEY STAND.

- `Mark` is a place in a document: the bytes before it, the line, and the column in characters, all from 0.
- `glyphs?` gives every character its mark and makes one line feed of CR, LF, CR LF and NEL; the separators U+2028 and
  U+2029 also end a line but stay themselves. It refuses a document with a character that YAML does not print.
- The predicates ask about the next characters; what is asked of the end of the document holds there for blanks.
-/
import BranchRender.Text

namespace BranchRender.Yaml

structure Mark where
  /-- bytes before the place -/
  index : Nat
  line : Nat
  column : Nat
  deriving DecidableEq, Repr

namespace Mark

def start : Mark := ⟨0, 0, 0⟩

def next (m : Mark) (c : Char) : Mark := ⟨m.index + c.utf8Size, m.line, m.column + 1⟩

/-- past a line break of `n` bytes -/
def nextLine (m : Mark) (n : Nat) : Mark := ⟨m.index + n, m.line + 1, 0⟩

end Mark

structure Glyph where
  char : Char
  mark : Mark
  deriving DecidableEq, Repr

abbrev Input := List Glyph

/-! ## Characters -/

def isPrintable (c : Char) : Bool :=
  let n := c.toNat
  n == 0x9 || n == 0xA || n == 0xD || (0x20 ≤ n && n ≤ 0x7E) || n == 0x85 || (0xA0 ≤ n && n ≤ 0xD7FF)
    || (0xE000 ≤ n && n ≤ 0xFFFD) || 0x10000 ≤ n

def isBreak (c : Char) : Bool :=
  c = '\n' || c = '\r' || c = '\u0085' || c = '\u2028' || c = '\u2029'

/-- the line break a character stands for -/
def asBreak (c : Char) : Char := if c = '\u2028' || c = '\u2029' then c else '\n'

def isBlank (c : Char) : Bool := c = ' ' || c = '\t'

/-- the characters of names: ASCII letters and digits, underscore and hyphen -/
def isNameChar (c : Char) : Bool := c.isAlphanum || c = '_' || c = '-'

/-! ## Places -/

/-- the characters of a text with their places, the first at `m` -/
def glyphsFrom (m : Mark) : Text → Input
  | [] => []
  | '\r' :: '\n' :: t => ⟨'\n', m⟩ :: glyphsFrom (m.nextLine 2) t
  | c :: t =>
    if isBreak c then ⟨asBreak c, m⟩ :: glyphsFrom (m.nextLine c.utf8Size) t
    else ⟨c, m⟩ :: glyphsFrom (m.next c) t

/-- the place behind a text that starts at `m` -/
def markAfter (m : Mark) : Text → Mark
  | [] => m
  | '\r' :: '\n' :: t => markAfter (m.nextLine 2) t
  | c :: t => if isBreak c then markAfter (m.nextLine c.utf8Size) t else markAfter (m.next c) t

/-- the characters of a document with their places, if all of them may stand in one -/
def glyphs? (t : Text) : Option Input :=
  if t.all isPrintable then some (glyphsFrom .start t) else none

/-! ## Questions about the next characters -/

namespace Input

def head? (i : Input) : Option Char := (List.head? i).map (·.char)

def startsWith (c : Char) (i : Input) : Bool := head? i = some c

/-- a space or a tab comes next -/
def atBlank (i : Input) : Bool := (head? i).any isBlank

def atBreakOrEnd (i : Input) : Bool := (head? i).all isBreak

/-- a blank, the end of a line or of the document -/
def atSpace (i : Input) : Bool := (head? i).all fun c => isBlank c || isBreak c

/-- three times `c` at the start of a line, then space -/
def atMarker (c : Char) : Input → Bool
  | a :: b :: d :: i => a.char = c && b.char = c && d.char = c && a.mark.column == 0 && atSpace i
  | _ => false

/-- `---` or `...` at the start of a line -/
def atDocumentMarker (i : Input) : Bool := atMarker '-' i || atMarker '.' i

/-- the characters up to the first that `p` refuses, and what follows -/
def takeWhile (p : Char → Bool) : Input → Text × Input
  | [] => ([], [])
  | g :: i =>
    if p g.char then
      let (t, rest) := takeWhile p i
      (g.char :: t, rest)
    else ([], g :: i)

/-- what follows the characters that `p` accepts -/
def dropWhile (p : Char → Bool) (i : Input) : Input := List.dropWhile (fun g => p g.char) i

/-- what follows the spaces, tabs and the comment up to the end of the line -/
def dropRestOfLine (i : Input) : Input :=
  let i := dropWhile isBlank i
  if startsWith '#' i then dropWhile (fun c => !isBreak c) i else i

end Input
end BranchRender.Yaml
