/-
CONFIGURATIONS: what a project may choose about a render.

- `Config` holds the paths of template and output, the command named in the header, and the optional choices: comment
  style, branch table, fallback binding.
- `Config.style` and `Config.table` fill in what is not chosen: the style from the extension of the output, the listed
  branches and the fallback from the built-in table, each on its own.
-/
import BranchRender.Binding
import BranchRender.Header

namespace BranchRender

/-- the choices of a project -/
structure Config where
  /-- path of the template, from the project root -/
  template : Text := "war/WEB-INF/appengine-web-template.xml".toList
  /-- path of the generated file, from the project root -/
  output : Text := "war/WEB-INF/appengine-web.xml".toList
  /-- the command the header names -/
  buildCommand : Text := "make all".toList
  commentStyle : Option CommentStyle := none
  /-- the listed branches, in place of the built-in ones -/
  namespaces : Option (NameMap Binding) := none
  /-- the binding of all other branches, in place of the built-in one -/
  defaultBinding : Option Binding := none
  deriving DecidableEq

namespace Config

/-- the file a configuration is read from at the project root -/
def fileName : Text := "nsprep.yaml".toList

def style (c : Config) : CommentStyle := c.commentStyle.getD (CommentStyle.ofPath c.output)

def table (c : Config) : Table :=
  ⟨c.namespaces.getD Table.builtin.listed, c.defaultBinding.getD Table.builtin.fallback⟩

end Config
end BranchRender
