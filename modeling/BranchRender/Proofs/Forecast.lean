/-
FORECASTS: what a report says of a render that is made in its place.

- A report and a render of the same project go by one branch and one binding (`renderWith`).
- The first field that is missing in the report is the first in the template that is not defined
  (`head?_missing`). The render fails there, or at a malformed placeholder in front of it (`MalformedBefore`).
- Where no field is missing, only malformed placeholders and the output are left to fail at; where the template has no
  fields to speak of, there is no document (`document_unreadable`).

Main statements: `head?_missing`, `documentOf_missing`, `report_foretells_render`.
-/
import Mathlib.Control.Monad.Basic
import BranchRender.Proofs.Operations
import BranchRender.Proofs.References
import BranchRender.Proofs.Renders

namespace BranchRender

namespace Report

/-- the first missing field is the first one in the template that is not defined -/
theorem head?_missing (b : Binding) (t : Text) : (missing b (some (Template.references t))).head? =
    (Template.fieldNames (Template.pieces t)).find? b.lacks := by
  rw [Template.references_eq]
  exact Template.head?_firstOccurrences _ _

end Report

namespace Program

open Template (Piece pieces fieldNames)
open Rendering (lineOf columnOf)

variable {w : World} {line : CommandLine} {p : Project} {c : Config} {t : Text} {f : Text}

/-! ## Documents -/

/-- `t` has a malformed placeholder in front of the first one for `f`, and a render fails with `e` there -/
def MalformedBefore (template : Path) (t f : Text) (e : Failure) : Prop :=
  ∃ before x after fault, pieces t = before ++ x :: after ∧ f ∉ fieldNames before ∧ f ∈ fieldNames after ∧
    (x = .empty ∧ fault = .emptyFieldName (columnOf before) ∨
      (∃ s, x = .unclosed s) ∧ fault = .unmatchedBrace (columnOf before)) ∧
    e = .malformed fault (lineOf before) template

/-- the first placeholder for `f` is the one a render fails with `e` at -/
def MissingFirst (template : Path) (t f : Text) (e : Failure) : Prop :=
  ∃ before after, pieces t = before ++ .field f :: after ∧ f ∉ fieldNames before ∧
    e = .missingField f (lineOf before) template

theorem documentOf_missing (ht : w.files.readText (p.path c.template) = .ok t)
    (hf : (fieldNames (pieces t)).find? (c.table.select (w.branch p.cwd)).lacks = some f) :
    ∃ e, documentOf w p c = .error e ∧
      (MissingFirst (p.path c.template) t f e ∨ MalformedBefore (p.path c.template) t f e) := by
  have hlacks : (c.table.select (w.branch p.cwd)).lacks f = true := List.find?_some hf
  rcases Rendering.document_cases (c.table.select (w.branch p.cwd))
    (Header.line c.style c.template c.buildCommand) ht with
    ⟨hall, -⟩ | ⟨before, x, after, fault, hps, hbefore, hx, hdocument⟩
  · rw [Template.find?_missing_of_sound hall] at hf
    exact absurd hf (by simp)
  · have hnot : f ∉ fieldNames before := by
      intro hm
      have hsound : ((c.table.select (w.branch p.cwd)).get? f) ≠ none := hbefore _ (Template.mem_fieldNames.1 hm)
      exact hsound (by simpa [Binding.lacks] using hlacks)
    rw [hps, Template.fieldNames_append, List.find?_append, Template.find?_missing_of_sound hbefore,
      Option.none_or] at hf
    refine ⟨_, hdocument, ?_⟩
    cases Piece.fails_of_fill hx with
    | @undefined name hname =>
      obtain rfl : name = f := by simpa [fieldNames, Binding.lacks, hname] using hf
      exact .inl ⟨before, after, hps, hnot, rfl⟩
    | empty =>
      exact .inr ⟨before, .empty, after, _, hps, hnot, List.mem_of_find?_eq_some hf, .inl ⟨rfl, rfl⟩, rfl⟩
    | unclosed s =>
      exact .inr ⟨before, .unclosed s, after, _, hps, hnot, List.mem_of_find?_eq_some hf, .inr ⟨⟨s, rfl⟩, rfl⟩, rfl⟩

theorem documentOf_complete {e : Failure} (ht : w.files.readText (p.path c.template) = .ok t)
    (hf : (fieldNames (pieces t)).find? (c.table.select (w.branch p.cwd)).lacks = none)
    (he : documentOf w p c = .error e) : ∃ fault n, e = .malformed fault n (p.path c.template) := by
  rcases Rendering.document_cases (c.table.select (w.branch p.cwd))
    (Header.line c.style c.template c.buildCommand) ht with
    ⟨-, d, hd⟩ | ⟨before, x, after, fault, hps, -, hx, hdocument⟩
  · exact absurd (he.symm.trans hd) (by simp)
  · obtain rfl := Except.error.inj (he.symm.trans hdocument)
    cases Piece.fails_of_fill hx with
    | @undefined name hname =>
      have hm : name ∈ fieldNames (pieces t) := Template.mem_fieldNames.2 (by rw [hps]; simp)
      have hdefined := List.find?_eq_none.1 hf name hm
      simp [Binding.lacks, hname] at hdefined
    | empty => exact ⟨_, _, rfl⟩
    | unclosed s => exact ⟨_, _, rfl⟩

/-! ## Reports and renders -/

/-- a render for this branch and this binding -/
def renderWith (w : World) (p : Project) (c : Config) (toStdout : Bool) (branch : Text) (b : Binding) :
    Except Failure Text × FileSystem :=
  let document := Rendering.document w.files (p.path c.template) b (Header.line c.style c.template c.buildCommand)
  if samePaths w p c then (.error (sameFileFailure c), w.files)
  else if toStdout then (document, w.files)
  else match document with
    | .error e => (.error e, w.files)
    | .ok d =>
      let saved := Rendering.save (p.path c.output) (Utf8.encode d) w.files
      (saved.1.map fun _ => summary ((p.path c.output).fileName?.getD c.output) branch b, saved.2)

theorem renderValid_eq_renderWith (w : World) (p : Project) (c : Config) (toStdout : Bool) : renderValid w p c toStdout =
    renderWith w p c toStdout (w.branch p.cwd) (c.table.select (w.branch p.cwd)) := by
  have hdocument : Rendering.document w.files (p.path c.template) (c.table.select (w.branch p.cwd))
      (Header.line c.style c.template c.buildCommand) = documentOf w p c := rfl
  unfold renderWith
  rw [hdocument]
  cases hsame : samePaths w p c with
  | true => rw [renderValid_refused toStdout hsame]; rfl
  | false =>
    cases toStdout with
    | true => rw [renderValid_printed hsame]; rfl
    | false =>
      cases hd : documentOf w p c with
      | error e => rw [renderValid_error false hsame hd]; rfl
      | ok d => rw [renderValid_written hsame hd]; rfl

/-- what a report foretells of how a render ends -/
structure Foretold (w : World) (p : Project) (c : Config) (toStdout : Bool) (r : Report)
    (result : Except Failure Text × FileSystem) : Prop where
  /-- it goes by the branch and the binding of the report -/
  binding : result = renderWith w p c toStdout r.branch r.binding
  /-- it misses the first missing field, unless it does not get there, and changes nothing -/
  missing : ∀ f rest, r.missingFields = f :: rest → result.2 = w.files ∧ ∃ e, result.1 = .error e ∧
    (e = sameFileFailure c ∨ ∃ t, w.files.readText (p.path c.template) = .ok t ∧
      (MissingFirst (p.path c.template) t f e ∨ MalformedBefore (p.path c.template) t f e))
  /-- with all fields defined, it misses none, and reads the template -/
  complete : ∀ fields, r.templateFields = some fields → r.missingFields = [] → ∀ e, result.1 = .error e →
    (∀ f n template, e ≠ .missingField f n template) ∧ ∀ template fault, e ≠ .templateUnreadable template fault
  /-- without a template that can be read, it fails -/
  unreadable : r.templateFields = none → ∃ e, result.1 = .error e

theorem renderValid_fails {e : Failure} (toStdout : Bool) (hd : documentOf w p c = .error e) :
    (renderValid w p c toStdout).2 = w.files ∧ ∃ e', (renderValid w p c toStdout).1 = .error e' ∧
      (e' = sameFileFailure c ∨ e' = e) := by
  cases hsame : samePaths w p c with
  | true => rw [renderValid_refused toStdout hsame]; exact ⟨rfl, _, rfl, .inl rfl⟩
  | false => rw [renderValid_error toStdout hsame hd]; exact ⟨rfl, _, rfl, .inr rfl⟩

/-- a render fails for its output, for its document, or because they are the same file -/
theorem failure_cases {e : Failure} {toStdout : Bool} (h : (renderValid w p c toStdout).1 = .error e) :
    e = sameFileFailure c ∨ documentOf w p c = .error e ∨ ∃ output reason, e = .outputUnwritable output reason := by
  cases hsame : samePaths w p c with
  | true =>
    rw [renderValid_refused toStdout hsame] at h
    exact .inl (Except.error.inj h).symm
  | false =>
    cases hd : documentOf w p c with
    | error e' =>
      rw [renderValid_error toStdout hsame hd] at h
      exact .inr (.inl h)
    | ok d =>
      cases toStdout with
      | true =>
        rw [renderValid_printed hsame, hd] at h
        exact absurd h (by simp)
      | false =>
        rw [renderValid_written hsame hd] at h
        cases hsave : (Rendering.save (p.path c.output) (Utf8.encode d) w.files).1 with
        | error e' =>
          obtain ⟨reason, rfl⟩ := Rendering.unwritable_of_save hsave
          rw [hsave] at h
          exact .inr (.inr ⟨_, reason, (Except.error.inj h).symm⟩)
        | ok _ =>
          rw [hsave] at h
          exact absurd h (by simp [Except.map])

theorem templateFields_cases (w : World) (p : Project) (c : Config) :
    (∃ t, w.files.readText (p.path c.template) = .ok t ∧
      (Report.of w p c).templateFields = some (Template.references t) ∧
      (Report.of w p c).missingFields.head? =
        (fieldNames (pieces t)).find? (c.table.select (w.branch p.cwd)).lacks) ∨
    (∃ e, w.files.readText (p.path c.template) = .error e) ∧ (Report.of w p c).templateFields = none ∧
      (Report.of w p c).missingFields = [] := by
  cases ht : w.files.readText (p.path c.template) with
  | error e =>
    refine .inr ⟨⟨e, rfl⟩, ?_, ?_⟩
    · simp [Report.of, ht, Except.toOption]
    · simp [Report.of, ht, Except.toOption, Report.missing]
  | ok t =>
    refine .inl ⟨t, rfl, ?_, ?_⟩
    · simp [Report.of, ht, Except.toOption]
    · rw [← Report.head?_missing]
      simp [Report.of, ht, Except.toOption]

/-- a valid render ends as the report foretells -/
theorem renderValid_foretold (w : World) (p : Project) (c : Config) (toStdout : Bool) :
    Foretold w p c toStdout (Report.of w p c) (renderValid w p c toStdout) := by
  have hbinding := renderValid_eq_renderWith w p c toStdout
  rcases templateFields_cases w p c with ⟨t, ht, hfields, hhead⟩ | ⟨⟨e, ht⟩, hfields, hmissing⟩
  · refine ⟨hbinding, ?_, ?_, ?_⟩
    · intro f rest hr
      rw [hr, List.head?_cons] at hhead
      obtain ⟨e, hd, hwhy⟩ := documentOf_missing ht hhead.symm
      obtain ⟨hfiles, e', he', hor⟩ := renderValid_fails toStdout hd
      refine ⟨hfiles, e', he', hor.imp id fun h => ⟨t, ht, ?_⟩⟩
      rwa [h]
    · intro _ _ hnone e he
      rw [hnone, List.head?_nil] at hhead
      rcases failure_cases he with rfl | hd | ⟨output, reason, rfl⟩
      · simp [sameFileFailure, Failure.invalidConfiguration]
      · obtain ⟨fault, n, rfl⟩ := documentOf_complete ht hhead.symm hd
        simp
      · simp
    · intro hnone
      rw [hfields] at hnone
      exact absurd hnone (by simp)
  · refine ⟨hbinding, ?_, ?_, ?_⟩
    · intro f rest hr
      rw [hmissing] at hr
      exact absurd hr (by simp)
    · intro _ hsome
      rw [hfields] at hsome
      exact absurd hsome (by simp)
    · intro _
      obtain ⟨e', hd⟩ := Rendering.document_unreadable (c.table.select (w.branch p.cwd))
        (Header.line c.style c.template c.buildCommand) ht
      obtain ⟨-, e'', he'', -⟩ := renderValid_fails toStdout hd
      exact ⟨e'', he''⟩

/-- **Reports foretell renders.** A report says how the render ends that is asked for in its place, without paths of its own.
-/
theorem report_foretells_render (json : Bool) {o : RenderOptions} (hs : setUp w line = .ok (p, c))
    (ho : line.command.getD (.render {}) = .render o) (htemplate : o.template = none) (houtput : o.output = none) :
    run w { line with command := some (.resolve json) } =
      (.ok (if json then (Report.of w p c).json else (Report.of w p c).text), w.files) ∧
    Foretold w p c o.stdout (Report.of w p c) (run w line) := by
  have hsame : setUp w { line with command := some (.resolve json) } = .ok (p, c) := hs
  have hover : override c o = c := by simp [override, htemplate, houtput]
  refine ⟨by simp [run, hsame, report], ?_⟩
  rw [run_render hs ho, render_valid (by rw [hover]; exact violation?_of_setUp hs), hover]
  exact renderValid_foretold w p c o.stdout

/-- a project without a configuration whose template names a field that is not defined behind one that is -/
theorem report_foretells_missing_field :
    let w : World :=
      { files := ((⟨.empty, []⟩ : FileSystem).put ["nsprep.yaml".toList] (.file (Utf8.encode "template: t".toList))).put
          ["t".toList] (.file (Utf8.encode "\x7bsuffix\x7d \x7bzone\x7d".toList))
        git := none }
    ∃ p c, setUp w {} = .ok (p, c) ∧ (Report.of w p c).missingFields = ["zone".toList] ∧
      Foretold w p c false (Report.of w p c) (run w {}) := by
  intro w
  have hs : setUp w {} = .ok (⟨"/".toList, "/".toList, false⟩, { template := "t".toList }) := by decide +kernel
  refine ⟨_, _, hs, by decide +kernel, ?_⟩
  exact (report_foretells_render false hs rfl rfl rfl).2

end Program
end BranchRender
