/-
VALID CONFIGURATIONS: the rules a configuration keeps, and the first it breaks.

- `Violation` names a broken rule, with the entry and the field that break it.
- `Config.violation?` is the first one: template, output, their difference, then the branches in ascending order (each
  its name, then its fields), then the fallback binding.
- `Config.Valid` states the rules on their own.

Main statements: `entryViolation?_eq_none_iff`, `fallbackViolation?_eq_none_iff`, `violation?_eq_none_iff`.
-/
import BranchRender.Config

namespace BranchRender

/-- a rule a configuration breaks -/
inductive Violation
  | blankTemplate
  | blankOutput
  | outputIsTemplate
  | emptyBranch
  | branchWithSlash (branch : Text)
  | emptyFallback
  /-- a field name that is no identifier, in the binding `owner` -/
  | badField (owner field : Text)
  deriving DecidableEq, Repr

def Violation.message : Violation → Text
  | .blankTemplate => "template must not be empty".toList
  | .blankOutput => "output must not be empty".toList
  | .outputIsTemplate => "template and output must be different files".toList
  | .emptyBranch => "namespaces entries must have a non-empty branch name".toList
  | .branchWithSlash b =>
    "namespaces entry '".toList ++ b
      ++ "' can never match: branches are matched by their last path segment ('".toList
      ++ Text.lastSegment '/' b ++ "')".toList
  | .emptyFallback => "default_binding must define at least one field".toList
  | .badField owner field =>
    owner ++ ": field name '".toList ++ field
      ++ "' must be an identifier (letters, digits, underscore)".toList

namespace Config

/-! ## The rules -/

/-- an ASCII letter or an underscore -/
def isNameStart (c : Char) : Bool := c.isAlpha || c = '_'

/-- an ASCII letter or digit or an underscore -/
def isNamePart (c : Char) : Bool := c.isAlphanum || c = '_'

def isIdentifier : Text → Bool
  | [] => false
  | c :: t => isNameStart c && t.all isNamePart

def IdentifierFields (b : Binding) : Prop := ∀ f ∈ b.keys, isIdentifier f = true

/-- the rules a configuration keeps -/
structure Valid (c : Config) : Prop where
  template : Text.trim c.template ≠ []
  output : Text.trim c.output ≠ []
  differ : c.template ≠ c.output
  branches : ∀ m, c.namespaces = some m → ∀ e ∈ m.entries, e.1 ≠ [] ∧ '/' ∉ e.1 ∧ IdentifierFields e.2
  fallback : ∀ b, c.defaultBinding = some b → b.isEmpty = false ∧ IdentifierFields b

/-! ## The first violation -/

/-- the first field of `b` that is no identifier -/
def badField? (owner : Text) (b : Binding) : Option Violation :=
  (b.keys.find? fun f => !isIdentifier f).map (.badField owner)

/-- what is wrong with an entry of the branch table -/
def entryViolation? (e : Text × Binding) : Option Violation :=
  if e.1 = [] then some .emptyBranch
  else if '/' ∈ e.1 then some (.branchWithSlash e.1)
  else badField? ("namespaces.".toList ++ e.1) e.2

def fallbackViolation? (b : Binding) : Option Violation :=
  if b.isEmpty then some .emptyFallback else badField? "default_binding".toList b

/-- the first rule `c` breaks -/
def violation? (c : Config) : Option Violation :=
  if Text.trim c.template = [] then some .blankTemplate
  else if Text.trim c.output = [] then some .blankOutput
  else if c.template = c.output then some .outputIsTemplate
  else ((c.namespaces.getD .empty).entries.findSome? entryViolation?).or
    (c.defaultBinding.bind fallbackViolation?)

/-! ## Lemmas -/

/-- a check finds nothing where it does not refuse, and the checks behind it find nothing -/
theorem ite_some_eq_none_iff {p : Prop} [Decidable p] {v : Violation} {o : Option Violation} :
    (if p then some v else o) = none ↔ ¬p ∧ o = none := by
  split <;> simp [*]

/-- a check refuses, or does not and one of those behind it does -/
theorem ite_some_eq_some_iff {p : Prop} [Decidable p] {u v : Violation} {o : Option Violation} :
    (if p then some v else o) = some u ↔ p ∧ v = u ∨ ¬p ∧ o = some u := by
  split <;> simp [*]

theorem badField?_eq_none_iff {owner : Text} {b : Binding} : badField? owner b = none ↔ IdentifierFields b := by
  simp [badField?, IdentifierFields]

theorem entryViolation?_eq_none_iff {e : Text × Binding} :
    entryViolation? e = none ↔ e.1 ≠ [] ∧ '/' ∉ e.1 ∧ IdentifierFields e.2 := by
  rw [entryViolation?, ite_some_eq_none_iff, ite_some_eq_none_iff, badField?_eq_none_iff]

theorem fallbackViolation?_eq_none_iff {b : Binding} :
    fallbackViolation? b = none ↔ b.isEmpty = false ∧ IdentifierFields b := by
  rw [fallbackViolation?, ite_some_eq_none_iff, badField?_eq_none_iff, Bool.not_eq_true]

/-- a configuration breaks no rule if it keeps them all -/
theorem violation?_eq_none_iff {c : Config} : c.violation? = none ↔ c.Valid := by
  have hbranches : ((c.namespaces.getD .empty).entries.findSome? entryViolation?) = none ↔
      ∀ m, c.namespaces = some m → ∀ e ∈ m.entries, e.1 ≠ [] ∧ '/' ∉ e.1 ∧ IdentifierFields e.2 := by
    rw [List.findSome?_eq_none_iff]
    cases c.namespaces with
    | none => simp [OrderedMap.empty]
    | some m => simp [entryViolation?_eq_none_iff]
  have hfallback : c.defaultBinding.bind fallbackViolation? = none ↔
      ∀ b, c.defaultBinding = some b → b.isEmpty = false ∧ IdentifierFields b := by
    cases c.defaultBinding with
    | none => simp
    | some b => simp [fallbackViolation?_eq_none_iff]
  rw [violation?, ite_some_eq_none_iff, ite_some_eq_none_iff, ite_some_eq_none_iff, Option.or_eq_none_iff, hbranches,
    hfallback]
  constructor
  · rintro ⟨htemplate, houtput, hdiffer, hm, hb⟩
    exact ⟨htemplate, houtput, hdiffer, hm, hb⟩
  · intro h
    exact ⟨h.template, h.output, h.differ, h.branches, h.fallback⟩

end Config
end BranchRender
