/-
RENDERING: the document a template becomes.

- The template is filled line by line, each line with its line feed; line numbers count from 1 and positions from the
  start of the line. The first line that cannot be read as text or filled decides how it fails.
- `document` is the header and the filled template. `save` puts it in place of the output.

Main statement: `flatten_lines`.
-/
import BranchRender.Failure
import BranchRender.Replacement

namespace BranchRender.Rendering

/-! ## Lines -/

/-- bytes cut behind every line feed -/
def lines : List UInt8 → List (List UInt8)
  | [] => []
  | b :: r =>
    if b = 10 then [b] :: lines r
    else match lines r with
      | [] => [[b]]
      | l :: ls => (b :: l) :: ls

theorem flatten_lines (bytes : List UInt8) : (lines bytes).flatten = bytes := by
  induction bytes with
  | nil => rfl
  | cons b r ih =>
    rw [lines]
    split
    · simp [ih]
    · split
      · next h => rw [h] at ih; simp [← ih]
      · next h => rw [h] at ih; simpa using ih

/-! ## Filling -/

def lineFailure (template : Path) (n : Nat) : TemplateFault → Failure
  | .undefinedField name _ => .missingField name n template
  | fault => .malformed fault n template

/-- the filled line number `n` -/
def fillLine (template : Path) (b : Binding) (n : Nat) (line : List UInt8) : Except Failure Text :=
  match Utf8.decode? line with
  | none => .error (.templateUnreadable template .notText)
  | some t => (Template.render b t).mapError (lineFailure template n)

/-- the filled lines from number `n` on, as one text -/
def fill (template : Path) (b : Binding) : Nat → List (List UInt8) → Except Failure Text
  | _, [] => .ok []
  | n, line :: rest =>
    match fillLine template b n line with
    | .error e => .error e
    | .ok t => (fill template b (n + 1) rest).map (t ++ ·)

/-! ## Documents -/

/-- the header and the filled template -/
def document (fs : FileSystem) (template : Path) (b : Binding) (header : Text) : Except Failure Text :=
  match fs.read template with
  | .error e => .error (.templateUnreadable template e)
  | .ok contents => (fill template b 1 (lines contents)).map (header ++ ·)

/-- puts content in place of the output -/
def save (output : Path) (content : List UInt8) (fs : FileSystem) : Except Failure Unit × FileSystem :=
  let (r, fs) := (Replacement.plan output content).run fs
  (r.mapError fun fault => .outputUnwritable output fault.message, fs)

/-- puts the document in place of the output -/
def render (template output : Path) (b : Binding) (header : Text) (fs : FileSystem) :
    Except Failure Unit × FileSystem :=
  match document fs template b header with
  | .error e => (.error e, fs)
  | .ok d => save output (Utf8.encode d) fs

end BranchRender.Rendering
