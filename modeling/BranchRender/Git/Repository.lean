/-
REPOSITORIES: what git replies to the two questions of a run, read off the files of a repository.

- The top level is the nearest directory, from where git runs up to the root, that holds a directory `.git`.
- The branch is what the file `HEAD` in there refers to; one that holds no reference is detached.
-/
import BranchRender.Git

namespace BranchRender.Git

/-- the directory of a repository's own files -/
def ownDirectory : Text := ".git".toList

def headFile : Text := "HEAD".toList

/-- the top level of the repository around a location -/
def topLevel? (t : FileTree) : Location → Option Location
  | [] => if t.at? [ownDirectory] = some .directory then some [] else none
  | name :: dir => if t.at? (ownDirectory :: name :: dir) = some .directory then some (name :: dir) else topLevel? t dir

def reference? (contents : List UInt8) : Option Text :=
  (Text.dropPrefix? "ref:".toList (Utf8.decodeLossy contents)).map Text.trim

def head? (t : FileTree) (top : Location) : Option Text :=
  match t.at? (headFile :: ownDirectory :: top) with
  | some (.file contents) => reference? contents
  | _ => none

/-- the git that replies so, and to no other question -/
def ofRepository (t : FileTree) : Git := some fun l args =>
  match topLevel? t l with
  | none => noRepository
  | some top =>
    if args = World.rootQuery then { stdout := Utf8.encode (top.path ++ ['\n']) }
    else match (if args = World.branchQuery then head? t top else none) with
      | some r => { stdout := Utf8.encode (r ++ ['\n']) }
      | none => { exit := .code 1 }

end BranchRender.Git
