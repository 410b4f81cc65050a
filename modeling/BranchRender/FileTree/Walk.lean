/-
WALKS: where a path leads in a file tree.

- `walk` takes the names of a path one by one. `.` stays, `..` goes up (not above the root), a link on the way goes on at
  its target; whatever is not the last name must be a directory, and so must the last one before a slash.
- `Aim` says what the walk is for: the entry itself, which may be a link; what a link at the end leads to; or a file to
  write, which may be missing and may not have a slash behind it.
- A walk uses at most `maxLinks` links; a name has at most `maxName` bytes.
- A walk may start where no directory is any more: there `.` and `..` lead on as ever, but no name is found.
- `lastOf` walks to the directory of the last name and leaves that name to the caller.

Main statements: `walk_nil`, `walk_directory`, `walk_up`.
-/
import BranchRender.FileTree
import BranchRender.SystemError

namespace BranchRender

/-- where a link in the directory `dir` goes on -/
def Location.afterLink (dir : Location) (target : Path) : Location := if target.isAbsolute then [] else dir

namespace FileTree

inductive Aim
  /-- the entry itself -/
  | entry
  /-- what a link at the end leads to -/
  | target
  /-- a file to write, which may be missing -/
  | file
  deriving DecidableEq, Repr

/-- where a walk ends -/
inductive Place
  | taken (l : Location) (e : Entry)
  /-- nothing is there, but its directory is -/
  | vacant (l : Location)
  deriving DecidableEq, Repr

/-- links a walk may use -/
def maxLinks : Nat := 40

/-- bytes a name may have -/
def maxName : Nat := 255

/-- a walk up to its first link, where `jump` goes on -/
def along (t : FileTree) (aim : Aim) (jump : Location → List Text → Bool → Except SystemError Place) :
    Location → List Text → Bool → Except SystemError Place
  | dir, [], _ => .ok (.taken dir .directory)
  | dir, name :: rest, slash =>
    if name = ['.'] then along t aim jump dir rest slash
    else if name = ['.', '.'] then along t aim jump dir.tail rest slash
    else if rest = [] ∧ slash = true ∧ aim = .file then .error .isDirectory
    else if t.at? dir ≠ some .directory then .error .notFound
    else if maxName < name.size then .error .nameTooLong
    else match t.at? (name :: dir) with
      | none => if rest = [] then .ok (.vacant (name :: dir)) else .error .notFound
      | some .directory => along t aim jump (name :: dir) rest slash
      | some (.link target) =>
        if rest = [] ∧ slash = false ∧ aim = .entry then .ok (.taken (name :: dir) (.link target))
        else jump (dir.afterLink target) (target.names ++ rest) (slash || (rest.isEmpty && target.endsInSlash))
      | some e => if rest = [] ∧ slash = false then .ok (.taken (name :: dir) e) else .error .notDirectory

/-- a walk from a directory with some links to use; `slash` if the path ends in one -/
def walk (t : FileTree) (aim : Aim) : Nat → Location → List Text → Bool → Except SystemError Place
  | 0 => t.along aim fun _ _ _ => .error .tooManyLinks
  | links + 1 => t.along aim (t.walk aim links)

/-- the directory a path with this last name stands in, and the name unless it is `.` or `..` or there is none -/
def lastOf (t : FileTree) (start : Location) (p : Path) : Except SystemError (Location × Option Text) :=
  match p.names.getLast? with
  | none => .ok (start, none)
  | some name =>
    match t.walk .target maxLinks start p.names.dropLast true with
    | .error e => .error e
    | .ok (.taken dir .directory) => .ok (dir, if Path.isDots name then none else some name)
    | .ok (.taken _ _) => .error .notDirectory
    | .ok (.vacant _) => .error .notFound

/-! ## Lemmas -/

variable (t : FileTree) (aim : Aim) (links : Nat) (dir : Location) (name : Text) (rest : List Text) (slash : Bool)

/-- a walk is one up to its first link -/
theorem walk_eq : ∃ jump, t.walk aim links = t.along aim jump := by
  cases links <;> exact ⟨_, rfl⟩

theorem walk_nil : t.walk aim links dir [] slash = .ok (.taken dir .directory) := by
  cases links <;> rfl

theorem walk_here : t.walk aim links dir (['.'] :: rest) slash = t.walk aim links dir rest slash := by
  cases links <;> rfl

theorem walk_up : t.walk aim links dir (['.', '.'] :: rest) slash = t.walk aim links dir.tail rest slash := by
  cases links <;> rfl

theorem walk_directory {t : FileTree} {aim : Aim} {dir : Location} {name : Text} {rest : List Text}
    (hn : Path.isDots name = false) (hs : name.size ≤ maxName) (ha : aim ≠ .file ∨ rest ≠ [])
    (hd : t.at? (name :: dir) = some .directory) :
    t.walk aim links dir (name :: rest) slash = t.walk aim links (name :: dir) rest slash := by
  have h1 : name ≠ ['.'] := fun h => by simp [Path.isDots, h] at hn
  have h2 : name ≠ ['.', '.'] := fun h => by simp [Path.isDots, h] at hn
  have h3 : ¬ (rest = [] ∧ slash = true ∧ aim = .file) := fun h => ha.elim (· h.2.2) (· h.1)
  have h4 : ¬ maxName < name.size := Nat.not_lt.2 hs
  have h5 : t.at? dir = some .directory := at?_parent (by rw [hd]; simp)
  cases links <;> simp [walk, along, h1, h2, h3, h4, h5, hd]

end FileTree
end BranchRender
