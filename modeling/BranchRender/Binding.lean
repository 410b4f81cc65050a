/-
BINDINGS: the named values a template is filled with, and the table that selects one by branch.

- `Binding` maps field names to texts. `Binding.display` is the form in summaries, fields in ascending order.
- `Table` has an entry per listed branch and one binding for all other branches; `Table.select` is exact and
  case-sensitive. `Table.builtin` is what a project without a configuration uses.

Main statements: `select_of_listed`, `select_of_not_listed`.
-/
import BranchRender.OrderedMap
import BranchRender.Text.Quoted

namespace BranchRender

/-- field names and their values -/
abbrev Binding := NameMap Text

namespace Binding

def displayField (e : Text × Text) : Text := e.1 ++ ": ".toList ++ e.2.quoted

/-- the fields between braces, in ascending order -/
def display (b : Binding) : Text := '{' :: Text.joinWith ", ".toList (b.entries.map displayField) ++ ['}']

/-- the binding of every branch that a project without a configuration does not list -/
def builtinFallback : Binding :=
  OrderedMap.ofList [("suffix".toList, "dev".toList), ("namespace".toList, "dev".toList)]

end Binding

/-- branches with a binding of their own, and the binding of all others -/
structure Table where
  listed : NameMap Binding
  fallback : Binding
  deriving DecidableEq

namespace Table

/-- the branches a project without a configuration lists: production and staging -/
def builtinListed : NameMap Binding := OrderedMap.ofList [
  ("prod".toList, OrderedMap.ofList [("suffix".toList, "prod".toList), ("namespace".toList, [])]),
  ("staging".toList, OrderedMap.ofList [("suffix".toList, "staging".toList), ("namespace".toList, "staging".toList)])]

/-- the table of a project without a configuration -/
def builtin : Table := ⟨builtinListed, Binding.builtinFallback⟩

/-- whether `branch` has a binding of its own -/
def lists (t : Table) (branch : Text) : Bool := t.listed.contains branch

def select (t : Table) (branch : Text) : Binding := (t.listed.get? branch).getD t.fallback

theorem select_of_listed {t : Table} {branch : Text} {b : Binding} (h : t.listed.get? branch = some b) :
    t.select branch = b := by simp [select, h]

theorem select_of_not_listed {t : Table} {branch : Text} (h : t.lists branch = false) :
    t.select branch = t.fallback := by
  have : t.listed.get? branch = none := by simpa [lists, OrderedMap.contains] using h
  simp [select, this]

end Table
end BranchRender
