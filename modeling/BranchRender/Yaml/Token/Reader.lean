/-
READING YAML TOKENS: `Token.ofText?` cuts a document into tokens, or refuses it.

- Indentation is not left to the structure: the reader itself puts `blockSequenceStart`, `blockMappingStart` and
  `blockEnd` where collections begin and end, keeping the columns of the open ones in `Reader.columns`.
- A key needs no indicator of its own: whatever could be one is remembered as a `Candidate` (one for the block level and
  one per open bracket), and when a `:` follows on the same line within 1024 bytes, `key` is put in front of it
  after the fact. At the column of an open collection a candidate must turn out to be a key.
- `Reader.step` reads one token and what stands in front of it.
-/
import BranchRender.Text.Utf8
import BranchRender.Yaml.ScalarText
import BranchRender.Yaml.Token

namespace BranchRender.Yaml

/-! ## Names, tags and directives -/

/-- characters of a tag; brackets and commas only inside angle brackets or in a directive -/
def isTagChar (wide : Bool) (c : Char) : Bool :=
  isNameChar c || c ∈ ";/?:@&=+$.%!~*'()".toList || (wide && (c = ',' || c = '[' || c = ']'))

/-- the bytes an escaped character starts with, by its first byte; `none` if no character does -/
def escapedLength? (b : Nat) : Option Nat :=
  if b < 0x80 then some 1
  else if 0xC0 ≤ b ∧ b < 0xE0 then some 2
  else if 0xE0 ≤ b ∧ b < 0xF0 then some 3
  else if 0xF0 ≤ b ∧ b < 0xF8 then some 4
  else none

inductive TagState
  | text
  /-- between the bytes of an escaped character, that many of them still to come; another one must follow -/
  | bytes (more : Nat)
  /-- behind a percent sign -/
  | percent (more : Nat)
  /-- behind the first digit of a byte -/
  | digit (more high : Nat)

/-- reads on in a tag; `acc` is what is read, in reverse -/
def tagFrom (wide : Bool) (acc : List UInt8) : TagState → Input → Option (List UInt8 × Input)
  | .text, [] => some (acc.reverse, [])
  | _, [] => none
  | .text, g :: i =>
    if g.char = '%' then tagFrom wide acc (.percent 0) i
    else if isTagChar wide g.char then tagFrom wide ((Utf8.encode [g.char]).reverse ++ acc) .text i
    else some (acc.reverse, g :: i)
  | .bytes more, g :: i => if g.char = '%' then tagFrom wide acc (.percent more) i else none
  | .percent more, g :: i => (hexValue? g.char).bind fun d => tagFrom wide acc (.digit more d) i
  | .digit more high, g :: i =>
    match hexValue? g.char with
    | none => none
    | some d =>
      let b := high * 16 + d
      let acc := UInt8.ofNat b :: acc
      match more with
      | 0 =>
        match escapedLength? b with
        | none => none
        | some 1 => tagFrom wide acc .text i
        | some n => tagFrom wide acc (.bytes (n - 1)) i
      | n + 1 =>
        if b < 0x80 ∨ 0xC0 ≤ b then none
        else tagFrom wide acc (if n = 0 then .text else .bytes n) i

/-- the characters of a tag, `head` in front of them; there must be one -/
def takeTag (wide : Bool) (head : Text) (i : Input) : Option (List UInt8 × Input) :=
  match tagFrom wide [] .text i with
  | none => none
  | some (t, rest) => if head = [] && t = [] then none else some (Utf8.encode (head.drop 1) ++ t, rest)

/-- a tag ends at the first NUL byte -/
def tagBytes (t : List UInt8) : List UInt8 := t.takeWhile (· ≠ 0)

/-- a handle: an exclamation mark, a name, and another mark if there is one -/
def takeHandle (i : Input) : Text × Input :=
  let (name, i) := Input.takeWhile isNameChar (i.drop 1)
  if Input.startsWith '!' i then ('!' :: name ++ ['!'], i.drop 1) else ('!' :: name, i)

/-- a tag, from its exclamation mark on: verbatim in angle brackets, behind a handle, or behind one mark -/
def takeTagName (i : Input) : Option (TagName × Input) :=
  if Input.startsWith '<' (i.drop 1) then do
    let (suffix, i) ← takeTag true [] (i.drop 2)
    if Input.startsWith '>' i then return (⟨[], tagBytes suffix⟩, i.drop 1) else none
  else
    let (handle, i) := takeHandle i
    if 2 ≤ handle.length && handle.getLast? = some '!' then do
      let (suffix, i) ← takeTag false [] i
      return (⟨handle, tagBytes suffix⟩, i)
    else do
      let (suffix, i) ← takeTag false handle i
      return (if tagBytes suffix = [] then ⟨[], Utf8.encode ['!']⟩ else ⟨['!'], tagBytes suffix⟩, i)

/-- a number of a version: at most nine digits -/
def takeNumber (i : Input) : Option (Nat × Input) :=
  let (digits, i) := Input.takeWhile Char.isDigit i
  if digits = [] || 9 < digits.length then none
  else some (digits.foldl (fun n c => n * 10 + (c.toNat - '0'.toNat)) 0, i)

def takeVersion (i : Input) : Option (Sign × Input) := do
  let (major, i) ← takeNumber (Input.dropWhile isBlank i)
  if Input.startsWith '.' i then
    let (minor, i) ← takeNumber (i.drop 1)
    return (.versionDirective major minor, i)
  else none

/-- the handle and the replacement of a directive -/
def takeReplacement (i : Input) : Option (Sign × Input) := do
  let i := Input.dropWhile isBlank i
  if !Input.startsWith '!' i then none
  else
    let (handle, i) := takeHandle i
    if (handle.getLast? ≠ some '!') || !Input.atBlank i then none
    else
      let (replacement, i) ← takeTag true [] (Input.dropWhile isBlank i)
      if Input.atSpace i then return (.tagDirective handle (tagBytes replacement), i) else none

/-- a directive, from behind its percent sign to the end of its line -/
def takeDirective (i : Input) : Option (Sign × Input) := do
  let (name, i) := Input.takeWhile isNameChar i
  if !Input.atSpace i then none
  else
    let (sign, i) ← if name = "YAML".toList then takeVersion i
      else if name = "TAG".toList then takeReplacement i
      else none
    let i := Input.dropRestOfLine i
    if Input.atBreakOrEnd i then return (sign, (takeBreak i).2) else none

/-- what may follow the name of an anchor -/
def endsAnchor (i : Input) : Bool :=
  Input.atSpace i || (Input.head? i).any (· ∈ "?:,]\x7d%@`".toList)

/-- the name of an anchor or an alias, from behind its indicator -/
def takeAnchor (i : Input) : Option (Text × Input) :=
  let (name, i) := Input.takeWhile isNameChar i
  if name = [] || !endsAnchor i then none else some (name, i)

/-! ## The reader -/

/-- what may turn out to be a key -/
structure Candidate where
  /-- whether it must -/
  required : Bool
  /-- how many tokens stand in front of it -/
  position : Nat
  mark : Mark

structure Reader where
  input : Input
  /-- the place behind the last character -/
  finish : Mark
  /-- the tokens read, the last one first -/
  tokens : List Token := []
  /-- columns of the open block collections, the innermost first -/
  columns : List Nat := []
  /-- the candidate of the innermost bracket, or of the block level -/
  candidate : Option Candidate := none
  /-- the candidates around it, one per open bracket -/
  outer : List (Option Candidate) := []
  /-- whether a key may start here -/
  keyAllowed : Bool := true

namespace Reader

/-- inside a bracket, indentation means nothing -/
def inFlow (r : Reader) : Bool := !r.outer.isEmpty

/-- one more than the column of the innermost block collection, 0 outside all -/
def level (r : Reader) : Nat :=
  match r.columns with
  | [] => 0
  | c :: _ => c + 1

def mark (r : Reader) : Mark :=
  match r.input with
  | [] => r.finish
  | g :: _ => g.mark

/-- a token that ends where the input is -/
def push (r : Reader) (start : Mark) (sign : Sign) : Reader :=
  { r with tokens := ⟨sign, start, r.mark⟩ :: r.tokens }

/-- a token put in after `position` others -/
def insertAt (r : Reader) (position : Nat) (mark : Mark) (sign : Sign) : Reader :=
  { r with tokens := r.tokens.insertIdx (r.tokens.length - position) ⟨sign, mark, mark⟩ }

/-- a sign of `n` characters -/
def pushSign (r : Reader) (n : Nat) (sign : Sign) : Reader :=
  { r with input := r.input.drop n }.push r.mark sign

/-- no candidate any more, unless it had to be a key -/
def dropCandidate (r : Reader) : Option Reader :=
  if r.candidate.any (·.required) then none else some { r with candidate := none }

/-- bytes a key without an indicator may have -/
def maxKey : Nat := 1024

/-- whether it is too late for a candidate to be a key -/
def isStale (m : Mark) (c : Candidate) : Bool := c.mark.line < m.line || c.mark.index + maxKey < m.index

/-- no stale candidates any more, unless one of them had to be a key -/
def dropStale (r : Reader) : Option Reader :=
  let stale (c : Option Candidate) : Bool := c.any (isStale r.mark)
  if (r.candidate :: r.outer).any fun c => stale c && c.any (·.required) then none
  else
    let keep (c : Option Candidate) : Option Candidate := if stale c then none else c
    some { r with candidate := keep r.candidate, outer := r.outer.map keep }

def saveCandidate (r : Reader) : Option Reader :=
  if !r.keyAllowed then some r
  else do
    let r ← r.dropCandidate
    let required := !r.inFlow && r.level == r.mark.column + 1
    return { r with candidate := some ⟨required, r.tokens.length, r.mark⟩ }

/-- a block collection starts at `column` unless one is open there or deeper -/
def openBlock (r : Reader) (column position : Nat) (mark : Mark) (sign : Sign) : Reader :=
  if r.inFlow || column < r.level then r
  else { r.insertAt position mark sign with columns := column :: r.columns }

/-- the ends of the block collections to the right of `column`, of all of them for `none` -/
def closeBlocks (r : Reader) (column : Option Nat) : Reader :=
  if r.inFlow then r
  else
    let closed := match column with
      | none => r.columns
      | some c => r.columns.takeWhile (c < ·)
    closed.foldl (fun r _ => r.push r.mark .blockEnd) { r with columns := r.columns.drop closed.length }

/-- what stands between two tokens: the input behind it, and whether a key may start there. A byte order mark at the start
of a line says nothing, but takes a column. -/
def skipSpace (inFlow keyAllowed inComment : Bool) : Input → Input × Bool
  | [] => ([], keyAllowed)
  | g :: i =>
    if isBreak g.char then skipSpace inFlow (keyAllowed || !inFlow) false i
    else if inComment then skipSpace inFlow keyAllowed true i
    else if g.char = '\uFEFF' && g.mark.column == 0 then skipSpace inFlow keyAllowed false i
    else if g.char = ' ' || ((inFlow || !keyAllowed) && g.char = '\t') then skipSpace inFlow keyAllowed false i
    else if g.char = '#' then skipSpace inFlow keyAllowed true i
    else (g :: i, keyAllowed)

/-- a token that `take` reads, from behind `n` characters -/
def pushTaken (r : Reader) (n : Nat) (take : Input → Option (Sign × Input)) : Option Reader :=
  (take (r.input.drop n)).map fun (sign, i) => { r with input := i }.push r.mark sign

/-- the end of the document, on a line of its own: all that is open is closed -/
def finishStream (r : Reader) : Option Reader := do
  let r := if r.finish.column = 0 then r else { r with finish := r.finish.nextLine 0 }
  let r ← (r.closeBlocks none).dropCandidate
  return { r with keyAllowed := false }.push r.mark .streamEnd

def readDirective (r : Reader) : Option Reader := do
  let r ← (r.closeBlocks none).dropCandidate
  { r with keyAllowed := false }.pushTaken 1 takeDirective

/-- a line that starts or ends a document -/
def readMarker (r : Reader) (sign : Sign) : Option Reader := do
  let r ← (r.closeBlocks none).dropCandidate
  return { r with keyAllowed := false }.pushSign 3 sign

/-- an opening bracket, which may start a key as a whole -/
def readOpening (r : Reader) (sign : Sign) : Option Reader := do
  let r ← r.saveCandidate
  return { r with candidate := none, outer := r.candidate :: r.outer, keyAllowed := true }.pushSign 1 sign

def readClosing (r : Reader) (sign : Sign) : Option Reader := do
  let r ← r.dropCandidate
  let r := match r.outer with
    | [] => r
    | c :: outer => { r with candidate := c, outer }
  return { r with keyAllowed := false }.pushSign 1 sign

/-- a comma -/
def readFlowEntry (r : Reader) : Option Reader := do
  let r ← r.dropCandidate
  return { r with keyAllowed := true }.pushSign 1 .flowEntry

/-- a hyphen in front of an entry -/
def readBlockEntry (r : Reader) : Option Reader := do
  if !r.inFlow && !r.keyAllowed then none
  else
    let r ← (r.openBlock r.mark.column r.tokens.length r.mark .blockSequenceStart).dropCandidate
    return { r with keyAllowed := true }.pushSign 1 .blockEntry

/-- a question mark in front of a key -/
def readKey (r : Reader) : Option Reader := do
  if !r.inFlow && !r.keyAllowed then none
  else
    let r ← (r.openBlock r.mark.column r.tokens.length r.mark .blockMappingStart).dropCandidate
    return { r with keyAllowed := !r.inFlow }.pushSign 1 .key

/-- a colon in front of a value; a candidate becomes the key -/
def readValue (r : Reader) : Option Reader :=
  match r.candidate with
  | some c =>
    let r := (r.insertAt c.position c.mark .key).openBlock c.mark.column c.position c.mark .blockMappingStart
    some ({ r with candidate := none, keyAllowed := false }.pushSign 1 .value)
  | none =>
    if !r.inFlow && !r.keyAllowed then none
    else
      let r := r.openBlock r.mark.column r.tokens.length r.mark .blockMappingStart
      some ({ r with keyAllowed := !r.inFlow }.pushSign 1 .value)

def readAnchor (r : Reader) (sign : Text → Sign) : Option Reader := do
  let r ← r.saveCandidate
  { r with keyAllowed := false }.pushTaken 1 fun i => (takeAnchor i).map fun (name, i) => (sign name, i)

/-- a tag; inside brackets a comma may follow at once -/
def readTag (r : Reader) : Option Reader := do
  let r ← r.saveCandidate
  let r ← { r with keyAllowed := false }.pushTaken 0 fun i => (takeTagName i).map fun (name, i) => (.tag name, i)
  if (r.inFlow && Input.startsWith ',' r.input) || Input.atSpace r.input then return r else none

def readBlock (r : Reader) (literal : Bool) : Option Reader := do
  let r ← r.dropCandidate
  { r with keyAllowed := true }.pushTaken 1 fun i =>
    (block literal r.level i).map fun (t, i) => (.scalar false t, i)

def readQuoted (r : Reader) (single : Bool) : Option Reader := do
  let r ← r.saveCandidate
  { r with keyAllowed := false }.pushTaken 1 fun i => (quoted single i).map fun (t, i) => (.scalar false t, i)

/-- a plain scalar; a key may start on the line it ends in front of -/
def readPlain (r : Reader) : Option Reader := do
  let r ← r.saveCandidate
  let p ← plain r.inFlow r.level r.input
  return { r with keyAllowed := p.broken, input := p.rest }.push r.mark (.scalar true p.text)

/-- the characters no plain scalar starts with -/
def indicators : Text := "-?:,[]\x7b\x7d#&*!|>'\"%@`".toList

def startsPlain (inFlow : Bool) (c : Char) (rest : Input) : Bool :=
  !(isBlank c || isBreak c || c ∈ indicators)
    || (c = '-' && !Input.atBlank rest)
    || (!inFlow && (c = '?' || c = ':') && !Input.atSpace rest)

/-- reads one token and the space in front of it; the flag says whether it is the last one -/
def step (r : Reader) : Option (Reader × Bool) := do
  let (input, keyAllowed) := skipSpace r.inFlow r.keyAllowed false r.input
  let r ← { r with input, keyAllowed }.dropStale
  let r := r.closeBlocks (some r.mark.column)
  match r.input with
  | [] => return (← r.finishStream, true)
  | g :: i =>
    let c := g.char
    let more (r : Reader) : Reader × Bool := (r, false)
    if c = '%' && g.mark.column == 0 then r.readDirective.map more
    else if Input.atMarker '-' r.input then (r.readMarker .documentStart).map more
    else if Input.atMarker '.' r.input then (r.readMarker .documentEnd).map more
    else if c = '[' then (r.readOpening .flowSequenceStart).map more
    else if c = '{' then (r.readOpening .flowMappingStart).map more
    else if c = ']' then (r.readClosing .flowSequenceEnd).map more
    else if c = '}' then (r.readClosing .flowMappingEnd).map more
    else if c = ',' then r.readFlowEntry.map more
    else if c = '-' && Input.atSpace i then r.readBlockEntry.map more
    else if c = '?' && (r.inFlow || Input.atSpace i) then r.readKey.map more
    else if c = ':' && (r.inFlow || Input.atSpace i) then r.readValue.map more
    else if c = '*' then (r.readAnchor .alias).map more
    else if c = '&' then (r.readAnchor .anchor).map more
    else if c = '!' then r.readTag.map more
    else if c = '|' && !r.inFlow then (r.readBlock true).map more
    else if c = '>' && !r.inFlow then (r.readBlock false).map more
    else if c = '\'' then (r.readQuoted true).map more
    else if c = '"' then (r.readQuoted false).map more
    else if startsPlain r.inFlow c i then r.readPlain.map more
    else none

/-- reads to the end; each step but the last takes a character, so `fuel` above the length of the input is enough -/
def run : Nat → Reader → Option (List Token)
  | 0, _ => none
  | fuel + 1, r =>
    match r.step with
    | none => none
    | some (r, true) => some r.tokens.reverse
    | some (r, false) => run fuel r

end Reader

def Token.ofText? (t : Text) : Option (List Token) :=
  (glyphs? t).bind fun input =>
    Reader.run (input.length + 1) { input, finish := markAfter .start t }

end BranchRender.Yaml
