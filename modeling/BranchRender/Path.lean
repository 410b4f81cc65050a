/-
PATHS: file names as they are spelled.

- A path is the text given; nothing is cleaned up, since messages repeat it. `components` is what it means: the root,
  then names and `..`; empty segments and `.` say nothing, except a `.` in front of a relative path.
- `parent?` and `fileName?` split off the last component, `join` puts a path after a directory, `extension?` is what
  follows the last dot of the file name, unless the name starts with that dot.
- `same` compares by components.
- A walk goes through the `names` of a path, `.` and `..` among them. What stands in a directory has a name of its own
  (`IsName`).

Main statement: `join_absolute`.
-/
import BranchRender.Text

namespace BranchRender

/-- a path as it is spelled -/
abbrev Path := Text

namespace Path

/-- what one part of a path says -/
inductive Component
  | root
  | here
  | up
  | name (n : Text)
  deriving DecidableEq, Repr

/-- what the segment between two separators says, if anything -/
def ofSegment? (s : Text) : Option Component :=
  if s = [] ∨ s = ['.'] then none
  else if s = ['.', '.'] then some .up
  else some (.name s)

def components (p : Path) : List Component :=
  match Text.splitOn '/' p with
  | [] => []
  | s :: r =>
    if r ≠ [] ∧ s = [] then .root :: r.filterMap ofSegment?
    else if s = ['.'] then .here :: r.filterMap ofSegment?
    else (s :: r).filterMap ofSegment?

/-- whether two paths are spelled alike, up to empty segments and `.` -/
def same (p q : Path) : Bool := components p = components q

/-- whether a path starts at the root -/
def isAbsolute (p : Path) : Bool := p.head? = some '/'

def endsInSlash (p : Path) : Bool := p.getLast? = some '/'

/-- `q` as seen from the directory `p`; an absolute `q` stands alone -/
def join (p q : Path) : Path :=
  if isAbsolute q then q
  else if p = [] ∨ endsInSlash p then p ++ q
  else p ++ '/' :: q

/-- the root, or the `.` in front, and the rest in reverse -/
def cut : Path → Text × Text
  | '/' :: r => (['/'], r.reverse)
  | ['.'] => (['.'], [])
  | '.' :: '/' :: r => (['.'], ('/' :: r).reverse)
  | p => ([], p.reverse)

/-- a reversed path without the separators and `.` segments it ends in -/
def dropIdle : Text → Text
  | '/' :: r => dropIdle r
  | ['.'] => []
  | '.' :: '/' :: r => dropIdle r
  | r => r

/-- the path without its last component, unless that is the root or there is none -/
def parent? (p : Path) : Option Path :=
  match dropIdle (cut p).2 with
  | [] => if (cut p).1 = ['.'] then some [] else none
  | r => some ((cut p).1 ++ (dropIdle (r.dropWhile (· != '/'))).reverse)

/-- `p` and its parents that are not empty, at most `n` of them -/
def ancestorsUpTo : Nat → Path → List Path
  | 0, _ => []
  | n + 1, p =>
    if p = [] then []
    else p :: match parent? p with
      | none => []
      | some q => ancestorsUpTo n q

/-- `p` and its parents that are not empty; each is shorter than the one before -/
def ancestors (p : Path) : List Path := ancestorsUpTo p.length p

/-- the last component, if it is a name -/
def fileName? (p : Path) : Option Text :=
  match dropIdle (cut p).2 with
  | [] => none
  | r =>
    let name := (r.takeWhile (· != '/')).reverse
    if name = ['.', '.'] then none else some name

/-- what follows the last dot of the file name, unless nothing stands before it -/
def extension? (p : Path) : Option Text :=
  match fileName? p with
  | none => none
  | some name =>
    match name.reverse.dropWhile (· != '.') with
    | [] | [_] => none
    | _ => some (name.reverse.takeWhile (· != '.')).reverse

/-! ## Names -/

/-- the names a path goes through -/
def names (p : Path) : List Text := (Text.splitOn '/' p).filter (· ≠ [])

/-- whether a name only says where to go on -/
def isDots (name : Text) : Bool := name = ['.'] || name = ['.', '.']

/-- a name that something in a directory may have -/
def IsName (name : Text) : Prop := name ≠ [] ∧ '/' ∉ name ∧ isDots name = false

instance (name : Text) : Decidable (IsName name) := by unfold IsName; infer_instance

theorem join_absolute {p q : Path} (h : isAbsolute q = true) : join p q = q := by simp [join, h]

end Path
end BranchRender
