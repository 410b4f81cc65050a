/-
THE HEADER: the comment in front of a generated file that names its template and how to generate it again.

- `CommentStyle` is the comment syntax; `ofPath` picks it by the extension of the output, ASCII letters of either case.
- `Header.line` is the comment in that syntax and a line feed.

Main statements: `ofName?_name`, `line_eq_concat`.
-/
import BranchRender.Path

namespace BranchRender

/-- how a comment is written in the generated file -/
inductive CommentStyle
  | xml
  | hash
  | doubleSlash
  deriving DecidableEq, Repr

namespace CommentStyle

def xmlExtensions : List String := ["xml", "html", "htm", "svg", "xhtml"]

/-- the extensions of programs whose line comments start with two slashes -/
def slashExtensions : List String := ["rs", "js", "ts", "java", "go", "c", "cpp", "h", "kt", "swift"]

/-- the style that suits the extension of `p` -/
def ofPath (p : Path) : CommentStyle :=
  let ext := String.ofList (Text.toAsciiLower (p.extension?.getD []))
  if ext ∈ xmlExtensions then .xml
  else if ext ∈ slashExtensions then .doubleSlash
  else .hash

def name : CommentStyle → Text
  | .xml => "xml".toList
  | .hash => "hash".toList
  | .doubleSlash => "double_slash".toList

/-- the styles, in the order messages list them -/
def all : List CommentStyle := [.xml, .hash, .doubleSlash]

def ofName? (t : Text) : Option CommentStyle := all.find? (·.name = t)

theorem ofName?_name (s : CommentStyle) : ofName? s.name = some s := by
  cases s <;> decide +kernel

def wrap : CommentStyle → Text → Text
  | .xml, text => "<!-- ".toList ++ text ++ " -->".toList
  | .hash, text => "# ".toList ++ text
  | .doubleSlash, text => "// ".toList ++ text

end CommentStyle

namespace Header

def notice (template buildCommand : Text) : Text :=
  "Autogenerated file do not edit. Edit ".toList ++ template ++ " and run \"".toList ++ buildCommand ++ "\".".toList

def line (style : CommentStyle) (template buildCommand : Text) : Text :=
  style.wrap (notice template buildCommand) ++ ['\n']

theorem line_eq_concat (style : CommentStyle) (template buildCommand : Text) :
    ∃ t, line style template buildCommand = t ++ ['\n'] := ⟨_, rfl⟩

end Header
end BranchRender
