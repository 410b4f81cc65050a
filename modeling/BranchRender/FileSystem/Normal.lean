/-
NORMAL PATHS: the absolute form of a path whose file may be missing.

- `normalize` gives the canonical path of what is there; of anything else, the normal path of its parent and its last
  name.
- `sameFile` compares two paths in that form.

Main statement: `normalize_of_canonicalPath`.
-/
import BranchRender.FileSystem

namespace BranchRender.FileSystem

/-- the normal form of a path with at most `n` parents -/
def normalizeUpTo (fs : FileSystem) : Nat → Path → Path
  | 0, p => (fs.canonicalPath p).toOption.getD p
  | n + 1, p =>
    match fs.canonicalPath p with
    | .ok q => q
    | .error _ =>
      match p.parent?, p.fileName? with
      | some dir, some name => if dir = [] then p else (normalizeUpTo fs n dir).join name
      | _, _ => p

/-- the normal form of a path: links, `.` and `..` replaced as far as the path exists -/
def normalize (fs : FileSystem) (p : Path) : Path := normalizeUpTo fs p.length p

/-- whether two paths name the same file, however they are spelled -/
def sameFile (fs : FileSystem) (p q : Path) : Bool := Path.same (fs.normalize p) (fs.normalize q)

theorem normalize_of_canonicalPath {fs : FileSystem} {p q : Path} (h : fs.canonicalPath p = .ok q) :
    fs.normalize p = q := by
  unfold normalize
  cases p.length <;> simp [normalizeUpTo, h, Except.toOption]

end BranchRender.FileSystem
