/-
REPORTS: what a render would use, found out without writing anything.

- `Report.of` finds branch and binding as a render does, and the fields the template names; it never fails. A template
  that cannot be read has no fields to speak of, which is not the same as naming none.
- `Report.text` is for readers, `Report.json` for programs.
-/
import BranchRender.Json
import BranchRender.Project

namespace BranchRender

/-- what a render would use -/
structure Report where
  branch : Text
  branchResolved : Bool
  inRepository : Bool
  /-- whether the branch has a binding of its own -/
  listed : Bool
  binding : Binding
  knownBranches : List Text
  template : Path
  output : Path
  /-- the fields the template names, unless it cannot be read -/
  templateFields : Option (List Text)
  /-- those the binding does not define -/
  missingFields : List Text
  deriving DecidableEq

namespace Report

/-- the fields a binding does not define -/
def missing (b : Binding) (fields : Option (List Text)) : List Text :=
  (fields.getD []).filter fun f => (b.get? f).isNone

def of (w : World) (p : Project) (c : Config) : Report :=
  let branch := w.branch p.cwd
  let binding := c.table.select branch
  let fields := (w.files.readText (p.path c.template)).toOption.map Template.references
  { branch
    branchResolved := !branch.isEmpty
    inRepository := p.inRepository
    listed := c.table.lists branch
    binding
    knownBranches := c.table.listed.keys
    template := c.template
    output := c.output
    templateFields := fields
    missingFields := missing binding fields }

/-! ## Writing -/

def branchWords (r : Report) : Text :=
  if r.branchResolved then r.branch
  else if r.inRepository then "(none: detached HEAD)".toList
  else "(none: not a git repository)".toList

def fieldWords : Option (List Text) → Text
  | none => "(template not readable)".toList
  | some [] => "(none)".toList
  | some fields => Text.joinWith ", ".toList fields

def labelled (label : String) (t : Text) : Text := label.toList ++ t ++ ['\n']

def warning (r : Report) : Text :=
  if r.missingFields = [] then []
  else "\nWarning: render will fail, binding does not define: ".toList
    ++ Text.joinWith ", ".toList r.missingFields ++ ['\n']

def text (r : Report) : Text :=
  labelled "Branch:    " r.branchWords
    ++ labelled "Binding:   "
      (r.binding.display ++ (if r.listed then " (listed)".toList else " (default)".toList))
    ++ labelled "Known:     " (Text.joinWith ", ".toList r.knownBranches)
    ++ labelled "Template:  " r.template
    ++ labelled "Output:    " r.output
    ++ labelled "Fields:    " (fieldWords r.templateFields)
    ++ r.warning

def members (r : Report) : List (Text × Json.Value) := [
  ("branch".toList, .string r.branch),
  ("branch_resolved".toList, .flag r.branchResolved),
  ("in_repository".toList, .flag r.inRepository),
  ("listed".toList, .flag r.listed),
  ("binding".toList, .fields r.binding.entries),
  ("known_branches".toList, .strings r.knownBranches),
  ("template".toList, .string r.template),
  ("output".toList, .string r.output),
  ("template_fields".toList, (r.templateFields.map Json.Value.strings).getD .null),
  ("missing_fields".toList, .strings r.missingFields)]

def json (r : Report) : Text := Json.pretty r.members ++ ['\n']

end Report
end BranchRender
