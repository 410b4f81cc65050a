/-
PRINTED REPORTS: the report for programs loses nothing.

- `Json.object` takes a printed object apart: the first character of a value says of which kind it is, and a list or
  object without entries is told from one with entries by what stands behind its bracket (`reads_block`).
- `Report.ofMembers?` looks the members up by name. The fields of a template are a list, or null where it cannot be read,
  so naming none is not mistaken for being unreadable.
- A binding is printed by its entries in ascending order, which are all there is to it (`ofList_entries`).

Main statements: `Json.reads_pretty`, `Json.reads_object`, `Report.read_back_json`.
-/
import BranchRender.Program
import BranchRender.Proofs.Arrangement
import BranchRender.Proofs.Readers

namespace BranchRender

namespace OrderedMap

variable {κ α : Type} [DecidableEq κ] [LT κ] [DecidableLT κ] [LE κ] [Std.LawfulOrderLT κ] [Std.IsLinearOrder κ]

theorem ofList_entries (m : OrderedMap κ α) : ofList m.entries = m := by
  have hkeys : (m.entries.map (·.1)).Nodup := List.pairwise_map.2 (m.ascending.imp fun h => Std.ne_of_lt h)
  refine ext_get? fun k => ?_
  rw [ofList_perm (List.reverse_perm _).symm hkeys, get?_ofList, List.reverse_reverse, get?]

end OrderedMap

namespace Json

open Reader

variable {α : Type} {p : Reader α} {print : α → Text} {depth : Nat}

/-! ## Reading values -/

/-- takes the lines of a list or object from behind its opening bracket -/
def lines (closing : Char) (depth : Nat) (p : Reader α) : Reader (List α) :=
  listed closing [','] ('\n' :: List.replicate depth ' ' ++ [closing]) do
    literal ('\n' :: List.replicate (depth + 2) ' ')
    p

def named (p : Reader α) : Reader (Text × α) := do
  let name ← quotation character
  literal ": ".toList
  return (name, ← p)

/-- takes a value, `depth` spaces in front of its last line -/
def value (depth : Nat) : Reader Value :=
  ifNext ['"'] (.string <$> unquoted character) <|
  ifNext ['['] (.strings <$> lines ']' depth (quotation character)) <|
  ifNext ['{'] (.fields <$> lines '}' depth (named (quotation character))) <|
  ifNext "true".toList (return .flag true) <|
  ifNext "false".toList (return .flag false) do
    literal "null".toList
    return .null

def object : Reader (List (Text × Value)) := do
  literal ['{']
  lines '}' 0 (named (value 2))

theorem block_map (opening closing : Char) (depth : Nat) (l : List α) :
    block opening closing depth (l.map print) = opening :: if l = [] then [closing]
      else Text.joinWith [','] (l.map fun a => '\n' :: List.replicate (depth + 2) ' ' ++ print a)
        ++ ('\n' :: List.replicate depth ' ' ++ [closing]) := by
  cases l with
  | nil => rfl
  | cons a l => simp [block, Function.comp_def]

/-- the lines of a block as they stand behind its opening bracket -/
theorem reads_block {closing : Char} {l : List α} (h : ∀ a ∈ l, Reads p (print a) a) (hc : closing ≠ '\n')
    (opening : Char) : ∃ behind, block opening closing depth (l.map print) = [opening] ++ behind ∧
      Reads (lines closing depth p) behind l :=
  ⟨_, block_map opening closing depth l,
    reads_listed (fun a ha => ⟨(h a ha).behind _, hc⟩) (by decide : '\n' ≠ ',')⟩

theorem reads_member {name : Text} {t : Text} {a : α} (h : Reads p t a) : Reads (named p) (member name t) (name, a) := by
  have hbehind : Reads (do literal ": ".toList; return (name, ← p)) (": ".toList ++ t) (name, a) :=
    (h.map (name, ·)).behind _
  rw [member, List.append_assoc]
  exact (reads_string name).bind hbehind

/-- a value is read back; what follows it does not matter -/
theorem reads_pretty (depth : Nat) (v : Value) : Reads (value depth) (v.pretty depth) v := by
  cases v with
  | string t => exact ((reads_body t).map Value.string).ifNext_here
  | strings l =>
    obtain ⟨behind, hprinted, hbehind⟩ := reads_block (fun t _ => reads_string t) (by decide : ']' ≠ '\n') '['
    rw [Value.pretty, hprinted]
    exact .ifNext_apart (by decide : '"' ≠ '[') (hbehind.map Value.strings).ifNext_here
  | fields l =>
    obtain ⟨behind, hprinted, hbehind⟩ :=
      reads_block (fun (e : Text × Text) _ => reads_member (reads_string e.2)) (by decide : '}' ≠ '\n') '{'
    rw [Value.pretty, hprinted]
    exact .ifNext_apart (by decide : '"' ≠ '{') <| .ifNext_apart (by decide : '[' ≠ '{')
      (hbehind.map Value.fields).ifNext_here
  | flag b =>
    cases b with
    | true => exact fun _ => rfl
    | false => exact fun _ => rfl
  | null => exact fun _ => rfl

theorem reads_object (members : List (Text × Value)) : Reads object (pretty members) members := by
  obtain ⟨behind, hprinted, hbehind⟩ :=
    reads_block (fun (m : Text × Value) _ => reads_member (reads_pretty 2 m.2)) (by decide : '}' ≠ '\n') '{'
  rw [pretty, hprinted]
  exact hbehind.behind ['{']

/-! ## Members by name -/

namespace Value

def text? : Value → Option Text
  | .string t => some t
  | _ => none

def flag? : Value → Option Bool
  | .flag b => some b
  | _ => none

def texts? : Value → Option (List Text)
  | .strings l => some l
  | _ => none

def binding? : Value → Option Binding
  | .fields l => some (OrderedMap.ofList l)
  | _ => none

/-- `null`, or what `as?` makes of a value -/
def orNull? (as? : Value → Option α) : Value → Option (Option α)
  | .null => some none
  | v => (as? v).map some

end Value

/-- the member of this name, seen as `as?` says -/
def member? (members : List (Text × Value)) (name : String) (as? : Value → Option α) : Option α :=
  (OrderedMap.lookup name.toList members).bind as?

end Json

namespace Report

open Json

/-! ## Reading reports -/

def ofMembers? (m : List (Text × Value)) : Option Report := do
  return {
    branch := ← member? m "branch" Value.text?
    branchResolved := ← member? m "branch_resolved" Value.flag?
    inRepository := ← member? m "in_repository" Value.flag?
    listed := ← member? m "listed" Value.flag?
    binding := ← member? m "binding" Value.binding?
    knownBranches := ← member? m "known_branches" Value.texts?
    template := ← member? m "template" Value.text?
    output := ← member? m "output" Value.text?
    templateFields := ← member? m "template_fields" (Value.orNull? Value.texts?)
    missingFields := ← member? m "missing_fields" Value.texts? }

def ofJson? (t : Text) : Option Report := do
  let (members, rest) ← object.run t
  if rest = ['\n'] then ofMembers? members else none

theorem ofMembers?_members (r : Report) : ofMembers? r.members = some r := by
  have hbinding : member? r.members "binding" Value.binding? = some r.binding :=
    congrArg some (OrderedMap.ofList_entries r.binding)
  have hfields : member? r.members "template_fields" (Value.orNull? Value.texts?) = some r.templateFields := by
    change Value.orNull? Value.texts? ((r.templateFields.map Value.strings).getD .null) = _
    cases r.templateFields <;> rfl
  unfold ofMembers?
  rw [hbinding, hfields]
  rfl

theorem ofJson?_json (r : Report) : ofJson? r.json = some r := by
  have hread : object.run (pretty r.members ++ ['\n']) = some (r.members, ['\n']) := reads_object r.members ['\n']
  rw [ofJson?, json, hread, Option.bind_eq_bind, Option.bind_some]
  show (if ['\n'] = ['\n'] then ofMembers? r.members else none) = some r
  rw [if_pos rfl, ofMembers?_members]

/-- **Reports are read back.** What is printed for programs gives the report back, so no two reports are printed alike. A
template that cannot be read and one without fields are told apart. -/
theorem read_back_json :
    (∀ r : Report, ofJson? r.json = some r) ∧
    Function.Injective json ∧
    (∀ r : Report, { r with templateFields := none }.json ≠ { r with templateFields := some [] }.json) ∧
    ∀ w p c, ofJson? (Program.report w p c true) = some (Report.of w p c) := by
  have hinjective : Function.Injective json := fun r r' h =>
    Option.some.inj (by rw [← ofJson?_json r, h, ofJson?_json r'])
  refine ⟨ofJson?_json, hinjective, fun r h => ?_, fun w p c => ofJson?_json _⟩
  have hfields := congrArg templateFields (hinjective h)
  exact absurd hfields (by simp)

end Report
end BranchRender
