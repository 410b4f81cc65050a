/-
CHANGES: the operations that change a file system, and what each of them refuses.

- A `Change` is one operation; `perform` gives its answer and the file system after it. A refused operation changes
  nothing (`perform_error`).
- A file is written through its location: `create` empties it or makes a new one, `append` adds bytes at its end.
- `rename` moves an entry that is no directory, a link itself and not what it leads to, in place of anything but a
  directory.

Main statements: `perform_error`, `tree_sync`.
-/
import BranchRender.FileSystem

namespace BranchRender

/-! ## Operations -/

/-- an operation that changes a file system, and the type of its answer -/
inductive Change : Type → Type
  | makeDirectory (p : Path) : Change Unit
  | makeLink (target p : Path) : Change Unit
  /-- an empty file, new or not; the answer is where it is -/
  | create (p : Path) : Change Location
  | append (l : Location) (bytes : List UInt8) : Change Unit
  | sync (l : Location) : Change Unit
  | rename (p q : Path) : Change Unit
  | remove (p : Path) : Change Unit

/-- what bytes added at the end make of an entry -/
def Entry.append (e : Entry) (bytes : List UInt8) : Except IoFault Entry :=
  match e with
  | .file contents => .ok (.file (contents ++ bytes))
  | .device .full => if bytes = [] then .ok (.device .full) else .error (.system .noSpace)
  | e => .ok e

namespace FileSystem

open FileTree (Aim Place)

/-- the directory a path's last name stands in, and that name if it is one -/
def lastOf (fs : FileSystem) (p : Path) : Except IoFault (Location × Option Text) :=
  match fs.boundedStart p with
  | .error e => .error e
  | .ok l => (fs.tree.lastOf l p).mapError .system

/-- a location in a directory that is still there, unless the name is too long -/
def inDirectory (fs : FileSystem) (dir : Location) (name : Text) : Except IoFault Location :=
  if fs.tree.at? dir ≠ some .directory then .error (.system .notFound)
  else if FileTree.maxName < name.size then .error (.system .nameTooLong)
  else .ok (name :: dir)

def withTree (fs : FileSystem) (t : FileTree) : FileSystem := { fs with tree := t }

/-! ## New entries -/

/-- where a new entry goes; `otherwise` refuses a slash at the end -/
def newLocation (fs : FileSystem) (p : Path) (otherwise : Option SystemError) : Except IoFault Location := do
  match ← fs.lastOf p with
  | (_, none) => .error (.system .alreadyExists)
  | (dir, some name) =>
    let l ← fs.inDirectory dir name
    if fs.tree.at? l ≠ none then .error (.system .alreadyExists)
    else match otherwise with
      | some e => if p.endsInSlash then .error (.system e) else .ok l
      | none => .ok l

def newLink (fs : FileSystem) (target p : Path) : Except IoFault Location :=
  if '\x00' ∈ target then .error .nulInPath
  else if target = [] then .error (.system .notFound)
  else if FileTree.maxPath ≤ target.size then .error (.system .nameTooLong)
  else fs.newLocation p (some .notFound)

/-! ## Files -/

/-- where an empty file goes, and whether it is written there: a device stays as it is -/
def newFile (fs : FileSystem) (p : Path) : Except IoFault (Location × Bool) :=
  match fs.locate .file p with
  | .error e => .error e
  | .ok (.vacant l) | .ok (.taken l (.file _)) => .ok (l, true)
  | .ok (.taken l (.device _)) => .ok (l, false)
  | .ok (.taken _ _) => .error (.system .isDirectory)

/-! ## Entries that move or go -/

/-- what a path names, which may be removed or replaced: no directory -/
def movable (fs : FileSystem) (p : Path) : Except IoFault (Location × Entry) := do
  match ← fs.lastOf p with
  | (_, none) => .error (.system .busy)
  | (dir, some name) =>
    let l ← fs.inDirectory dir name
    match fs.tree.at? l with
    | none => .error (.system .notFound)
    | some .directory => .error (.system .isDirectory)
    | some e => if p.endsInSlash then .error (.system .notDirectory) else .ok (l, e)

/-- where an entry that is no directory may move to -/
def destination (fs : FileSystem) (p : Path) : Except IoFault Location := do
  match ← fs.lastOf p with
  | (_, none) => .error (.system .busy)
  | (dir, some name) =>
    let l ← fs.inDirectory dir name
    if p.endsInSlash then .error (.system .notDirectory)
    else if fs.tree.at? l = some .directory then .error (.system .isDirectory)
    else .ok l

/-- the move of the entry `e` -/
def move (t : FileTree) (l : Location) (e : Entry) (l' : Location) : FileTree :=
  if l = l' then t else (t.erase l).insert l' e

/-! ## Performing -/

/-- an operation's answer, and the file system after it -/
def perform {β : Type} (fs : FileSystem) : Change β → Except IoFault β × FileSystem
  | .makeDirectory p =>
    match fs.newLocation p none with
    | .error e => (.error e, fs)
    | .ok l => (.ok (), fs.withTree (fs.tree.insert l .directory))
  | .makeLink target p =>
    match fs.newLink target p with
    | .error e => (.error e, fs)
    | .ok l => (.ok (), fs.withTree (fs.tree.insert l (.link target)))
  | .create p =>
    match fs.newFile p with
    | .error e => (.error e, fs)
    | .ok (l, false) => (.ok l, fs)
    | .ok (l, true) => (.ok l, fs.withTree (fs.tree.insert l (.file [])))
  | .append l bytes =>
    match fs.tree.at? l with
    | none => (.ok (), fs)
    | some e =>
      match e.append bytes with
      | .error fault => (.error fault, fs)
      | .ok e => (.ok (), fs.withTree (fs.tree.insert l e))
  | .sync l =>
    match fs.tree.at? l with
    | some (.device _) => (.error (.system .invalid), fs)
    | _ => (.ok (), fs)
  | .rename p q =>
    match fs.movable p with
    | .error e => (.error e, fs)
    | .ok (l, e) =>
      match fs.destination q with
      | .error fault => (.error fault, fs)
      | .ok l' => (.ok (), fs.withTree (move fs.tree l e l'))
  | .remove p =>
    match fs.movable p with
    | .error e => (.error e, fs)
    | .ok (l, _) => (.ok (), fs.withTree (fs.tree.erase l))

/-! ## Lemmas -/

/-- an operation that is refused changes nothing -/
theorem perform_error {β : Type} {fs fs' : FileSystem} {c : Change β} {e : IoFault}
    (h : fs.perform c = (.error e, fs')) : fs' = fs := by
  cases c <;> simp only [perform] at h <;> (repeat' split at h) <;> simp_all

theorem tree_sync (fs : FileSystem) (l : Location) : (fs.perform (.sync l)).2 = fs := by
  simp only [perform]
  split <;> rfl

end FileSystem
end BranchRender
