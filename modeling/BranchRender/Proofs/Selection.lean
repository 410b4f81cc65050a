/-
SELECTION: which branch a run goes by, and which binding it takes.

- The branch is said without the functions that find it: git ended with 0, its output without the blank characters at both
  ends is a reference, and the branch is what stands behind its last slash; else it is empty (`IsBranch`).
- The binding is that of the entry of the branch, or the fallback if there is none (`Selects`). A valid table has no entry
  for the empty name (`ne_nil_of_mem_table`), so a branch that is not resolved has no entry.
- Git is asked by every run and is the cause of no failure.

Main statements: `isBranch_branch`, `selects_select`, `ne_nil_of_mem_table`, `branch_selects_binding`.
-/
import BranchRender.Proofs.Endings
import BranchRender.Proofs.Forecast
import Mathlib.Data.List.TakeWhile

namespace BranchRender

namespace Text

variable {t u : Text}

/-! ## Trimming -/

/-- `u` is `t` without the blank characters at both ends -/
structure Trimmed (t u : Text) : Prop where
  between : ∃ a b, t = a ++ u ++ b ∧ (∀ c ∈ a, isBlank c = true) ∧ ∀ c ∈ b, isBlank c = true
  head : ∀ c, u.head? = some c → isBlank c = false
  last : ∀ c, u.getLast? = some c → isBlank c = false

theorem head_dropWhile (p : Char → Bool) (t : Text) : ∀ c, (t.dropWhile p).head? = some c → p c = false := by
  intro c hc
  have h := List.head?_dropWhile_not p t
  rw [hc] at h
  simpa using h

theorem trimmed_trim (t : Text) : Trimmed t (trim t) := by
  have hend : trimStart t = trim t ++ ((trimStart t).reverse.takeWhile isBlank).reverse := by
    rw [trim, trimEnd, ← List.reverse_append, List.takeWhile_append_dropWhile, List.reverse_reverse]
  refine ⟨⟨t.takeWhile isBlank, ((trimStart t).reverse.takeWhile isBlank).reverse, ?_, ?_, ?_⟩, ?_, ?_⟩
  · rw [List.append_assoc, ← hend, trimStart, List.takeWhile_append_dropWhile]
  · exact List.all_eq_true.1 List.all_takeWhile
  · intro c hc
    exact List.all_eq_true.1 List.all_takeWhile c (List.mem_reverse.1 hc)
  · intro c hc
    refine head_dropWhile isBlank t c ?_
    rw [← trimStart, hend, List.head?_append, hc]
    rfl
  · intro c hc
    refine head_dropWhile isBlank (trimStart t).reverse c ?_
    rwa [trim, trimEnd, List.getLast?_reverse] at hc

theorem trim_trim (t : Text) : trim (trim t) = trim t := trim_eq_self (trimmed_trim t).head (trimmed_trim t).last

/-- only one text is `t` without the blank characters at both ends -/
theorem Trimmed.trim_eq (h : Trimmed t u) : trim t = u := by
  obtain ⟨a, b, rfl, ha, hb⟩ := h.between
  have hstart : trimStart (a ++ u ++ b) = trimStart (u ++ b) := by
    rw [trimStart, List.append_assoc, List.dropWhile_append_of_pos ha, trimStart]
  cases u with
  | nil =>
    have hnone : trimStart b = [] := List.dropWhile_eq_nil_iff.2 hb
    rw [trim, hstart, List.nil_append, hnone]
    rfl
  | cons c r =>
    have hc : isBlank c = false := h.head c rfl
    calc trim (a ++ c :: r ++ b) = trimEnd (c :: r ++ b) := by
          rw [trim, hstart, List.cons_append, trimStart_eq_self hc]
      _ = trimEnd (c :: r) := trimEnd_append_blank hb (c :: r)
      _ = trim (c :: r) := by rw [trim, trimStart_eq_self hc]
      _ = c :: r := trim_eq_self h.head h.last

/-! ## Last segments -/

/-- `u` stands behind the last slash of `t`, or is `t` if there is none -/
def BehindLastSlash (t u : Text) : Prop := '/' ∉ u ∧ (t = u ∨ ∃ q, t = q ++ '/' :: u)

theorem behindLastSlash_lastSegment (t : Text) : BehindLastSlash t (lastSegment '/' t) := by
  by_cases h : '/' ∈ t
  · obtain ⟨q, k, hq, hk⟩ := List.eq_append_cons_of_mem (List.mem_reverse.2 h)
    have ht : t = k.reverse ++ '/' :: q.reverse := by
      rw [← List.reverse_reverse t, hq]
      simp
    have hk : '/' ∉ q.reverse := by simpa using hk
    rw [ht, lastSegment_append _ hk]
    exact ⟨hk, .inr ⟨_, rfl⟩⟩
  · rw [lastSegment_of_not_mem h]
    exact ⟨h, .inl rfl⟩

end Text

namespace World

variable {w : World} {dir : Path}

/-! ## Branches -/

/-- the branch git knows of in `dir`: git ends with 0, and it is behind the last slash of what it writes; or git does not end
so, and there is none -/
inductive IsBranch (w : World) (dir : Path) : Text → Prop
  | given {reply : Reply} {reference branch : Text} (hreply : w.startGit dir branchQuery = .ok reply)
      (hexit : reply.exit = .code 0) (hreference : Text.Trimmed (Utf8.decodeLossy reply.stdout) reference)
      (hbranch : Text.BehindLastSlash reference branch) : IsBranch w dir branch
  | none (h : ∀ reply, w.startGit dir branchQuery = .ok reply → reply.exit ≠ .code 0) : IsBranch w dir []

theorem isBranch_branch (w : World) (dir : Path) : IsBranch w dir (w.branch dir) := by
  unfold branch runGit
  cases hreply : w.startGit dir branchQuery with
  | error e => exact .none (by simp [hreply])
  | ok reply =>
    by_cases hexit : reply.exit = .code 0
    · simp only [hexit, ite_true]
      refine .given hreply hexit (Text.trimmed_trim _) ?_
      rw [readable, Branch.shortName, Text.trim_trim]
      exact Text.behindLastSlash_lastSegment _
    · simp only [hexit, ite_false]
      exact .none (by simp [hreply, hexit])

end World

namespace Table

variable {t : Table} {branch : Text} {b : Binding}

/-! ## Tables -/

/-- the binding of the entry of `branch`, or of all others -/
inductive Selects (t : Table) (branch : Text) : Binding → Prop
  | listed {b : Binding} (h : (branch, b) ∈ t.listed.entries) : Selects t branch b
  | fallback (h : ∀ b, (branch, b) ∉ t.listed.entries) : Selects t branch t.fallback

theorem selects_select (t : Table) (branch : Text) : Selects t branch (t.select branch) := by
  cases h : t.listed.get? branch with
  | some b => exact select_of_listed h ▸ .listed (OrderedMap.get?_eq_some_iff.1 h)
  | none =>
    have hnone : t.lists branch = false := by simp [lists, OrderedMap.contains, h]
    rw [select_of_not_listed hnone]
    refine .fallback fun b hb => ?_
    exact absurd (h.symm.trans (OrderedMap.get?_eq_some_iff.2 hb)) (by simp)

theorem lists_iff : t.lists branch = true ↔ ∃ b, (branch, b) ∈ t.listed.entries := by
  rw [lists, OrderedMap.contains, Option.isSome_iff_exists]
  exact exists_congr fun b => OrderedMap.get?_eq_some_iff

end Table

namespace Config

variable {c : Config}

/-- the table of a valid configuration has no entry for the empty name -/
theorem ne_nil_of_mem_table (hv : c.violation? = none) {e : Text × Binding} (he : e ∈ c.table.listed.entries) :
    e.1 ≠ [] := by
  cases hn : c.namespaces with
  | none =>
    have hbuiltin : ∀ e ∈ Table.builtinListed.entries, e.1 ≠ [] := by decide +kernel
    simp only [table, hn] at he
    exact hbuiltin e he
  | some m =>
    simp only [table, hn, Option.getD_some] at he
    exact ((violation?_eq_none_iff.1 hv).branches m hn e he).1

end Config

namespace Program

variable {w : World} {p : Project} {c : Config}

/-! ## Runs -/

/-- which branch and binding a report names, and a render of the same project goes by -/
structure Chosen (w : World) (p : Project) (c : Config) (r : Report) : Prop where
  branch : w.IsBranch p.cwd r.branch
  binding : c.table.Selects r.branch r.binding
  listed : r.listed = true ↔ ∃ b, (r.branch, b) ∈ c.table.listed.entries
  resolved : r.branchResolved = true ↔ r.branch ≠ []
  resolved_of_listed : r.listed = true → r.branchResolved = true
  /-- where there is no branch, there is no entry -/
  unresolved : r.branchResolved = false → r.binding = c.table.fallback
  render : ∀ o, (override c o).violation? = none →
    render w p c o = renderWith w p (override c o) o.stdout r.branch r.binding

theorem table_override (c : Config) (o : RenderOptions) : (override c o).table = c.table := rfl

theorem chosen_of_valid (hv : c.violation? = none) : Chosen w p c (Report.of w p c) := by
  have hlisted : (Report.of w p c).listed = true ↔ ∃ b, (w.branch p.cwd, b) ∈ c.table.listed.entries := Table.lists_iff
  have hresolved : (Report.of w p c).branchResolved = true ↔ w.branch p.cwd ≠ [] := by
    simp [Report.of]
  have hboth : (Report.of w p c).listed = true → (Report.of w p c).branchResolved = true := by
    intro h
    obtain ⟨b, hb⟩ := hlisted.1 h
    exact hresolved.2 (Config.ne_nil_of_mem_table hv hb)
  refine ⟨World.isBranch_branch w p.cwd, Table.selects_select c.table _, hlisted, hresolved, hboth, ?_, ?_⟩
  · intro hun
    refine Table.select_of_not_listed (Bool.eq_false_iff.2 fun h => ?_)
    exact absurd (hun.symm.trans (hboth h)) (by simp)
  · intro o ho
    rw [render_valid ho, renderValid_eq_renderWith, table_override]
    rfl

/-- **The branch selects the binding.** No run fails for git. Whatever git does, a configuration that is found has the table of
its own entries or the built-in ones, and of its own fallback or the built-in one, and reports and renders choose by the branch
from it. -/
theorem branch_selects_binding (w : World) :
    (∀ line reason, (run w line).1 ≠ .error (.git reason)) ∧
    ∀ p root explicit c, Config.discover w.files root explicit = .ok c →
      c.table.listed = c.namespaces.getD Table.builtinListed ∧
      c.table.fallback = c.defaultBinding.getD Binding.builtinFallback ∧ Chosen w p c (Report.of w p c) := by
  constructor
  · intro line reason h
    exact ne_git_of_run h reason rfl
  · intro p root explicit c hc
    exact ⟨rfl, rfl, chosen_of_valid (Config.violation?_of_discover hc)⟩

/-- a git that writes a reference, and ends with `n` -/
def writesReference (n : UInt8) : World where
  files := ⟨.empty, []⟩
  git := some fun _ _ => { exit := .code n, stdout := Utf8.encode " refs/heads/team/prod\n".toList }

/-- what git writes counts for nothing if it ends with 1, as for a detached head -/
theorem detached_head_takes_fallback :
    let p : Project := ⟨"/".toList, "/".toList, true⟩
    Config.discover (writesReference 1).files p.root none = .ok {} ∧
      (Report.of (writesReference 1) p {}).binding = Binding.builtinFallback := by
  intro p
  have hc : Config.discover (writesReference 1).files p.root none = .ok {} := by decide +kernel
  obtain ⟨-, hfallback, hchosen⟩ := (branch_selects_binding (writesReference 1)).2 p p.root none {} hc
  refine ⟨hc, ?_⟩
  rw [hchosen.unresolved (by decide +kernel), hfallback]
  rfl

/-- else its last segment is the branch -/
example : (Report.of (writesReference 0) ⟨"/".toList, "/".toList, true⟩ {}).branch = "prod".toList := by decide +kernel

end Program
end BranchRender
