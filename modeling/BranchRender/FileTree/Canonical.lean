/-
CANONICAL LOCATIONS: the entry a path names once every link is replaced by its target.

- `canonical` takes the names of a path one by one and keeps the location reached so far, which has no links on its way.
  Other than a walk it goes up by dropping a name, so what `..` stands behind must be a directory; so must what a slash
  or a `.` ends the path behind.
- It uses at most `maxLinks` links, and the location reached has a path of less than `maxPath` bytes.
- `Location.path` is the canonical path of a location: absolute, without `.`, `..` or links.

Main statement: `canonical_nil`.
-/
import BranchRender.FileTree.Walk

namespace BranchRender

/-- the canonical path of a location -/
def Location.path (l : Location) : Path := '/' :: Text.joinWith ['/'] l.reverse

namespace FileTree

/-- a path of so many bytes is too long -/
def maxPath : Nat := 4096

/-- whether the rest of a path asks for a directory in front of it -/
def asksDirectory (rest : List Text) (slash : Bool) : Bool :=
  match rest.dropWhile (· = ['.']) with
  | [] => slash || !rest.isEmpty
  | name :: _ => name = ['.', '.']

/-- the check that what `l` holds may stand in front of the rest of a path -/
def checkFront (e : Entry) (l : Location) (rest : List Text) (slash : Bool) : Except SystemError Unit :=
  if asksDirectory rest slash then
    if maxPath ≤ l.path.size + 1 then .error .nameTooLong
    else if e = .directory then .ok ()
    else .error .notDirectory
  else .ok ()

/-- the canonical location up to the first link, where `jump` goes on -/
def canonicalAlong (t : FileTree) (jump : Location → List Text → Bool → Except SystemError Location) :
    Location → List Text → Bool → Except SystemError Location
  | l, [], _ => .ok l
  | l, name :: rest, slash =>
    if name = ['.'] then canonicalAlong t jump l rest slash
    else if name = ['.', '.'] then canonicalAlong t jump l.tail rest slash
    else if maxPath ≤ (Location.path (name :: l)).size then .error .nameTooLong
    else if t.at? l = none then .error .notFound
    else if t.at? l ≠ some .directory then .error .notDirectory
    else if maxName < name.size then .error .nameTooLong
    else match t.at? (name :: l) with
      | none => .error .notFound
      | some (.link target) =>
        jump (l.afterLink target) (target.names ++ rest) (slash || (rest.isEmpty && target.endsInSlash))
      | some e =>
        match checkFront e (name :: l) rest slash with
        | .error e => .error e
        | .ok () => canonicalAlong t jump (name :: l) rest slash

/-- the canonical location of some names seen from a canonical location, with some links to use -/
def canonical (t : FileTree) : Nat → Location → List Text → Bool → Except SystemError Location
  | 0 => t.canonicalAlong fun _ _ _ => .error .tooManyLinks
  | links + 1 => t.canonicalAlong (t.canonical links)

theorem canonical_nil (t : FileTree) (links : Nat) (l : Location) (slash : Bool) :
    t.canonical links l [] slash = .ok l := by
  cases links <;> rfl

end FileTree
end BranchRender
