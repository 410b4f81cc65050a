/-
FILE SYSTEMS: a file tree, and the directory relative paths start from.

- The operations here look and change nothing: what a path leads to (`stat`), the entry itself (`lstat`), where a link
  points, the contents of a file, and the canonical path.
- A working directory that was removed is still where relative paths start, and its parent is above it; but nothing is
  in it, and it has no canonical path, nor has any relative path then.

Main statements: `start_absolute`, `isDirectory_iff`.
-/
import BranchRender.FileTree.Canonical
import BranchRender.Text.Utf8

namespace BranchRender

/-- a file tree seen from a directory -/
structure FileSystem where
  tree : FileTree
  /-- the working directory; where no directory is, there was one that is removed -/
  cwd : Location

namespace FileSystem

open FileTree (Aim Place)

def start (fs : FileSystem) (p : Path) : Except IoFault Location :=
  if '\x00' ∈ p then .error .nulInPath
  else if p = [] then .error (.system .notFound)
  else if p.isAbsolute then .ok []
  else .ok fs.cwd

/-- where the names of a path start that is handed to the system as it is -/
def boundedStart (fs : FileSystem) (p : Path) : Except IoFault Location :=
  if '\x00' ∉ p ∧ FileTree.maxPath ≤ p.size then .error (.system .nameTooLong) else fs.start p

/-- where a path leads -/
def locate (fs : FileSystem) (aim : Aim) (p : Path) : Except IoFault Place :=
  match fs.boundedStart p with
  | .error e => .error e
  | .ok l => (fs.tree.walk aim FileTree.maxLinks l p.names p.endsInSlash).mapError .system

/-- the location and entry a path leads to -/
def find (fs : FileSystem) (aim : Aim) (p : Path) : Except IoFault (Location × Entry) :=
  match fs.locate aim p with
  | .error e => .error e
  | .ok (.taken l e) => .ok (l, e)
  | .ok (.vacant _) => .error (.system .notFound)

/-- what a path leads to, through links -/
def stat (fs : FileSystem) (p : Path) : Except IoFault Entry := (fs.find .target p).map (·.2)

/-- what a path names, be it a link -/
def lstat (fs : FileSystem) (p : Path) : Except IoFault Entry := (fs.find .entry p).map (·.2)

/-- whether a path leads to anything -/
def contains (fs : FileSystem) (p : Path) : Bool := (fs.stat p).toOption.isSome

def isDirectory (fs : FileSystem) (p : Path) : Bool := (fs.stat p).toOption = some .directory

/-- whether a path leads to a file, not a directory or device -/
def isFile (fs : FileSystem) (p : Path) : Bool :=
  match fs.stat p with
  | .ok (.file _) => true
  | _ => false

def isLink (fs : FileSystem) (p : Path) : Bool :=
  match fs.lstat p with
  | .ok (.link _) => true
  | _ => false

def readLink (fs : FileSystem) (p : Path) : Except IoFault Path :=
  match fs.lstat p with
  | .error e => .error e
  | .ok (.link target) => .ok target
  | .ok _ => .error (.system .invalid)

/-- the contents of a file; a device gives none -/
def read (fs : FileSystem) (p : Path) : Except IoFault (List UInt8) :=
  match fs.stat p with
  | .error e => .error e
  | .ok (.file contents) => .ok contents
  | .ok .directory => .error (.system .isDirectory)
  | .ok _ => .ok []

def readText (fs : FileSystem) (p : Path) : Except IoFault Text :=
  match fs.read p with
  | .error e => .error e
  | .ok contents =>
    match Utf8.decode? contents with
    | some t => .ok t
    | none => .error .notText

def canonical (fs : FileSystem) (p : Path) : Except IoFault Location :=
  match fs.start p with
  | .error e => .error e
  | .ok l =>
    if fs.tree.at? l ≠ some .directory then .error (.system .notFound)
    else (fs.tree.canonical FileTree.maxLinks l p.names p.endsInSlash).mapError .system

def canonicalPath (fs : FileSystem) (p : Path) : Except IoFault Path := (fs.canonical p).map Location.path

def workingDirectory (fs : FileSystem) : Except IoFault Path :=
  if fs.tree.at? fs.cwd = some .directory then .ok fs.cwd.path else .error (.system .notFound)

/-! ## Lemmas -/

theorem start_absolute (fs : FileSystem) {p : Path} (hn : '\x00' ∉ p) (ha : p.isAbsolute = true) :
    fs.start p = .ok [] := by
  have hp : p ≠ [] := fun h => by simp [h, Path.isAbsolute] at ha
  simp [start, hn, hp, ha]

theorem isDirectory_iff (fs : FileSystem) (p : Path) : fs.isDirectory p = true ↔ fs.stat p = .ok .directory := by
  cases h : fs.stat p <;> simp [isDirectory, h, Except.toOption]

end FileSystem
end BranchRender
