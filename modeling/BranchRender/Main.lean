/-
THE COMMAND: the program on the files of this machine.

A run works on a picture of the directory it starts in, or of the repository around that: its directories, files and
links, without the repository's own files except the one that names the branch. What the run changes in the picture is
changed on disk: new directories first, then each changed file by way of a temporary one.
-/
import BranchRender.Git.Repository
import BranchRender.Program

namespace BranchRender.Main

def bytesOf (b : ByteArray) : List UInt8 := b.toList

def locationOf (p : String) : Location := (Path.names p.toList).reverse

def real (l : Location) : String := String.ofList l.path

/-- the tree with a directory and those above it -/
def withDirectory (t : FileTree) : Location → FileTree
  | [] => t
  | name :: dir =>
    let t := withDirectory t dir
    if t.at? (name :: dir) = some .directory then t else t.insert (name :: dir) .directory

/-- adds a file to a picture, unless it cannot be read -/
def addFile (t : FileTree) (l : Location) : IO FileTree := do
  try return t.insert l (.file (bytesOf (← IO.FS.readBinFile (real l)))) catch _ => return t

/-- adds what a directory holds to a picture -/
partial def addContents (t : FileTree) (dir : Location) : IO FileTree := do
  let mut t := withDirectory t dir
  let root ← IO.FS.realPath (real dir)
  for e in ← root.readDir do
    let l := e.fileName.toList :: dir
    match (← e.path.symlinkMetadata).type with
    | .dir =>
      if e.fileName.toList = Git.ownDirectory then
        t := withDirectory t l
        if ← (e.path / String.ofList Git.headFile).pathExists then t ← addFile t (Git.headFile :: l)
      else t ← addContents t l
    | .file => t ← addFile t l
    | .symlink => if ← e.path.pathExists then
        t := t.insert l (.link (← IO.FS.realPath e.path).toString.toList)
    | .other => pure ()
  return t

/-- the nearest directory with a repository, or `start` -/
def topOf (start : Location) : Location → IO Location
  | [] => return start
  | name :: dir => do
    let here ← IO.FS.realPath (real (name :: dir))
    if ← (here / String.ofList Git.ownDirectory).pathExists then return name :: dir else topOf start dir

/-- brings an entry of a picture to disk -/
def save (before : FileTree) (l : Location) (e : Entry) : IO Unit := do
  if before.at? l ≠ some e then
    match e, l with
    | .directory, _ => IO.FS.createDir (real l)
    | .file contents, name :: dir =>
      let temporary := real (Replacement.temporaryName name :: dir)
      IO.FS.writeBinFile temporary ⟨contents.toArray⟩
      IO.FS.rename temporary (real l)
    | _, _ => pure ()

/-- brings a picture to disk, directories before what they hold -/
def saveAll (before after : FileTree) : IO Unit := do
  let entries := after.below.entries.mergeSort fun a b => a.1.length ≤ b.1.length
  for (l, e) in entries do save before l e

/-- the world of a run that starts in `start` -/
def worldAt (cwd start : Location) : IO World := do
  let t ← addContents (withDirectory .empty cwd) (← topOf start start)
  return ⟨⟨t, cwd⟩, Git.ofRepository t⟩

/-- the directory a command line asks for, seen from `cwd` -/
def startOf (args : List Text) (cwd : String) : IO Location := do
  match CommandLine.parse args with
  | .ok { dir := some dir, .. } =>
    let p := String.ofList (Path.join cwd.toList dir)
    try return locationOf (← IO.FS.realPath p).toString catch _ => return locationOf cwd
  | _ => return locationOf cwd

end BranchRender.Main

open BranchRender BranchRender.Main in
/-- runs the program and ends as it does -/
def main (args : List String) : IO UInt32 := do
  let args := args.map String.toList
  let cwd := (← IO.FS.realPath (← IO.currentDir)).toString
  let w ← worldAt (locationOf cwd) (← startOf args cwd)
  let (o, files) := Program.main args w
  saveAll w.files.tree files.tree
  IO.print (String.ofList o.stdout)
  IO.eprint (String.ofList (o.stderr.getD Refusal.helpText))
  return UInt32.ofNat o.exit
