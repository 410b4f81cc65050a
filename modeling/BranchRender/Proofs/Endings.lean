/-
ENDINGS: all the ways a run can end, and what it leaves behind.

- `Ends` has one constructor for each way: there is no project or no configuration, there is a report, a rule is broken,
  the output is the template, there is no document, it is printed, or it is put in place of the output. Each says what the
  run had found up to there, and every request ends in one of them (`run_ends`).
- Only the last of them does anything to the file system. So what the file system is afterwards can be told from the
  command and the failure.
- How a run fails can be told from where it ends: git is none of the causes (`ne_git_of_run`).

Main statements: `run_ends`, `ne_git_of_run`, `only_saving_changes_files`.
-/
import Mathlib.Control.Monad.Basic
import BranchRender.Proofs.Renders

namespace BranchRender

/-! ## Failures -/

theorem Config.configuration_of_discover {fs : FileSystem} {root : Path} {p : Option Path} {e : Failure}
    (h : discover fs root p = .error e) : ∃ reason, e = .configuration reason := by
  have hload : ∀ q, load fs q = .error e → ∃ reason, e = .configuration reason := by
    intro q hq
    unfold load at hq
    split at hq
    · exact ⟨_, (Except.error.inj hq).symm⟩
    · obtain ⟨fault, -, rfl⟩ := mapError_eq_error.1 hq
      exact ⟨_, rfl⟩
  cases p with
  | some p => exact hload _ h
  | none =>
    simp only [discover] at h
    split at h
    · exact hload _ h
    · exact absurd h (by simp)

theorem Project.unusable_of_locate {w : World} {dir : Option Path} {e : Failure} (h : locate w dir = .error e) :
    ∃ reason, e = .unusable reason := by
  unfold locate at h
  split at h
  · exact ⟨_, (Except.error.inj h).symm⟩
  · dsimp only at h
    split at h
    · exact absurd h (by simp)
    · exact ⟨_, (Except.error.inj h).symm⟩

namespace Rendering

inductive AtTemplate : Failure → Prop
  | unreadable (template : Path) (fault : IoFault) : AtTemplate (.templateUnreadable template fault)
  | missing (field : Text) (n : Nat) (template : Path) : AtTemplate (.missingField field n template)
  | malformed (fault : TemplateFault) (n : Nat) (template : Path) : AtTemplate (.malformed fault n template)

theorem atTemplate_of_fillLine {template : Path} {b : Binding} {n : Nat} {l : List UInt8} {e : Failure}
    (h : fillLine template b n l = .error e) : AtTemplate e := by
  unfold fillLine at h
  split at h
  · obtain rfl := Except.error.inj h
    exact .unreadable ..
  · obtain ⟨fault, -, rfl⟩ := mapError_eq_error.1 h
    unfold lineFailure
    split
    · exact .missing ..
    · exact .malformed ..

theorem atTemplate_of_fill {template : Path} {b : Binding} {ls : List (List UInt8)} {e : Failure} (n : Nat)
    (h : fill template b n ls = .error e) : AtTemplate e := by
  induction ls generalizing n with
  | nil => exact absurd h (by simp [fill])
  | cons l ls ih =>
    rw [fill] at h
    split at h
    · next hl =>
      obtain rfl := Except.error.inj h
      exact atTemplate_of_fillLine hl
    · exact ih _ (map_eq_error.1 h)

/-- a document that cannot be made is a failure at its template -/
theorem atTemplate_of_document {fs : FileSystem} {template : Path} {b : Binding} {header : Text} {e : Failure}
    (h : document fs template b header = .error e) : AtTemplate e := by
  unfold document at h
  split at h
  · obtain rfl := Except.error.inj h
    exact .unreadable ..
  · exact atTemplate_of_fill 1 (map_eq_error.1 h)

end Rendering

namespace Program

variable {w : World} {line : CommandLine} {p : Project} {c : Config} {o : RenderOptions} {e : Failure}

/-- what a request without a project or a configuration fails with -/
theorem failure_of_setUp (h : setUp w line = .error e) :
    (∃ reason, e = .unusable reason) ∨ ∃ reason, e = .configuration reason := by
  unfold setUp at h
  rcases bind_eq_error.1 h with hp | ⟨p, -, h⟩
  · exact .inl (Project.unusable_of_locate hp)
  · rcases bind_eq_error.1 h with hc | ⟨c, -, h⟩
    · exact .inr (Config.configuration_of_discover hc)
    · exact absurd h (by simp [pure, Except.pure])

/-! ## Ways to end -/

/-- the request is to render with the configuration `c`, overridden by the options `o` -/
structure Asks (w : World) (line : CommandLine) (p : Project) (c : Config) (o : RenderOptions) : Prop where
  command : line.command.getD (.render {}) = .render o
  found : ∃ c', setUp w line = .ok (p, c') ∧ override c' o = c

/-- how a request can end -/
inductive Ends (w : World) (line : CommandLine) : Except Failure Text × FileSystem → Prop
  | notSetUp {e : Failure} (h : setUp w line = .error e) : Ends w line (.error e, w.files)
  | reported {p : Project} {c : Config} {json : Bool} (hcommand : line.command.getD (.render {}) = .resolve json)
      (hs : setUp w line = .ok (p, c)) : Ends w line (.ok (report w p c json), w.files)
  | invalid {p : Project} {c : Config} {o : RenderOptions} {v : Violation} (ha : Asks w line p c o)
      (hv : c.violation? = some v) : Ends w line (.error (.invalidConfiguration v.message), w.files)
  | refused {p : Project} {c : Config} {o : RenderOptions} (ha : Asks w line p c o) (hsame : samePaths w p c = true) :
      Ends w line (.error (sameFileFailure c), w.files)
  | unfilled {p : Project} {c : Config} {o : RenderOptions} {e : Failure} (ha : Asks w line p c o)
      (hd : documentOf w p c = .error e) : Ends w line (.error e, w.files)
  | printed {p : Project} {c : Config} {o : RenderOptions} {d : Text} (ha : Asks w line p c o) (ho : o.stdout = true)
      (hd : documentOf w p c = .ok d) : Ends w line (.ok d, w.files)
  | unwritable {p : Project} {c : Config} {o : RenderOptions} {d reason : Text} (ha : Asks w line p c o)
      (ho : o.stdout = false) (hd : documentOf w p c = .ok d)
      (hsave : (Rendering.save (p.path c.output) (Utf8.encode d) w.files).1 =
        .error (.outputUnwritable (p.path c.output) reason)) :
      Ends w line (.error (.outputUnwritable (p.path c.output) reason),
        (Rendering.save (p.path c.output) (Utf8.encode d) w.files).2)
  | written {p : Project} {c : Config} {o : RenderOptions} {d : Text} (ha : Asks w line p c o) (ho : o.stdout = false)
      (hd : documentOf w p c = .ok d) (hsave : (Rendering.save (p.path c.output) (Utf8.encode d) w.files).1 = .ok ()) :
      Ends w line (.ok (summary ((p.path c.output).fileName?.getD c.output) (w.branch p.cwd)
        (c.table.select (w.branch p.cwd))), (Rendering.save (p.path c.output) (Utf8.encode d) w.files).2)

theorem renderValid_ends (ha : Asks w line p c o) : Ends w line (renderValid w p c o.stdout) := by
  cases hsame : samePaths w p c with
  | true => exact renderValid_refused o.stdout hsame ▸ .refused ha hsame
  | false =>
    cases hd : documentOf w p c with
    | error e => exact renderValid_error o.stdout hsame hd ▸ .unfilled ha hd
    | ok d =>
      cases ho : o.stdout with
      | true => exact (renderValid_printed hsame).trans (by rw [hd]) ▸ .printed ha ho hd
      | false =>
        rw [renderValid_written hsame hd]
        cases hsave : (Rendering.save (p.path c.output) (Utf8.encode d) w.files).1 with
        | error e =>
          obtain ⟨reason, rfl⟩ := Rendering.unwritable_of_save hsave
          exact .unwritable ha ho hd hsave
        | ok _ => exact .written ha ho hd hsave

/-- **Ends of runs.** Every request ends in one of the ways. -/
theorem run_ends (w : World) (line : CommandLine) : Ends w line (run w line) := by
  cases hs : setUp w line with
  | error e => exact run_refused hs ▸ .notSetUp hs
  | ok found =>
    obtain ⟨p, c⟩ := found
    cases hcommand : line.command.getD (.render {}) with
    | resolve json =>
      have hrun : run w line = (.ok (report w p c json), w.files) := by simp only [run, hs, hcommand]
      exact hrun ▸ .reported hcommand hs
    | render o =>
      have ha : Asks w line p (override c o) o := ⟨hcommand, c, hs, rfl⟩
      rw [run_render hs hcommand]
      cases hv : (override c o).violation? with
      | some v => exact render_invalid hv ▸ .invalid ha hv
      | none => exact render_valid hv ▸ renderValid_ends ha

/-! ## What a run leaves behind -/

variable {r : Except Failure Text × FileSystem}

/-- the run puts its document in place of the output, and succeeds or fails for the output -/
def Saves (w : World) (line : CommandLine) (r : Except Failure Text × FileSystem) : Prop :=
  ∃ p c o d, Asks w line p c o ∧ o.stdout = false ∧ documentOf w p c = .ok d ∧
    r.2 = (Rendering.save (p.path c.output) (Utf8.encode d) w.files).2 ∧
    ((∃ t, r.1 = .ok t) ∨ ∃ reason, r.1 = .error (.outputUnwritable (p.path c.output) reason))

theorem Ends.kept_or_saves (h : Ends w line r) : r.2 = w.files ∨ Saves w line r := by
  cases h with
  | unwritable ha ho hd hsave => exact .inr ⟨_, _, _, _, ha, ho, hd, rfl, .inr ⟨_, rfl⟩⟩
  | written ha ho hd hsave => exact .inr ⟨_, _, _, _, ha, ho, hd, rfl, .inl ⟨_, rfl⟩⟩
  | _ => exact .inl rfl

theorem Ends.ne_git (h : Ends w line r) (he : r.1 = .error e) (reason : Text) : e ≠ .git reason := by
  cases h with
  | notSetUp hs =>
    obtain rfl := Except.error.inj he
    rcases failure_of_setUp hs with ⟨_, rfl⟩ | ⟨_, rfl⟩ <;> simp
  | unfilled ha hd =>
    obtain rfl := Except.error.inj he
    cases Rendering.atTemplate_of_document hd <;> simp
  | reported | printed | written => exact absurd he (by simp)
  | _ =>
    obtain rfl := Except.error.inj he
    simp [Failure.invalidConfiguration, sameFileFailure]

theorem ne_git_of_run (h : (run w line).1 = .error e) (reason : Text) : e ≠ .git reason :=
  (run_ends w line).ne_git h reason

/-- a failure is seen in what the process ends with -/
theorem exitCode_ne_zero (e : Failure) : e.exitCode ≠ 0 := by
  cases e <;> simp [Failure.exitCode]

/-- a process that does not end with 0 prints nothing -/
theorem stdout_of_exit {args : List Text} (h : (main args w).1.exit ≠ 0) : (main args w).1.stdout = [] := by
  unfold main at h ⊢
  split at h
  · next refused _ =>
    unfold refusal at h ⊢
    split at h
    · exact absurd rfl h
    · next hexit => simp [hexit]
  · next line _ =>
    cases hr : (run w line).1 with
    | ok t => simp [hr, outcome] at h
    | error e => simp [hr, outcome]

/-- **Only saving changes files.** Nothing but a render that puts its document in place of the output changes the file system,
and such a render succeeds or fails for the output. What fails prints nothing. -/
theorem only_saving_changes_files (args : List Text) (w : World) :
    (∀ refused, CommandLine.parse args = .error refused → (main args w).2 = w.files) ∧
    (∀ line, CommandLine.parse args = .ok line → main args w = (outcome (run w line).1, (run w line).2) ∧
      ((run w line).2 = w.files ∨ Saves w line (run w line)) ∧
      (∀ json, line.command = some (.resolve json) → (run w line).2 = w.files) ∧
      (∀ o, line.command = some (.render o) → o.stdout = true → (run w line).2 = w.files) ∧
      ∀ e, (run w line).1 = .error e → (main args w).1.exit ≠ 0 ∧
        ((∀ output reason, e ≠ .outputUnwritable output reason) → (run w line).2 = w.files)) ∧
    ((main args w).1.exit ≠ 0 → (main args w).1.stdout = []) := by
  refine ⟨fun refused h => files_main_of_refusal h w, ?_, stdout_of_exit⟩
  intro line hline
  have hmain : main args w = (outcome (run w line).1, (run w line).2) := by simp only [main, hline]
  have hkept := (run_ends w line).kept_or_saves
  refine ⟨hmain, hkept, fun json => files_report, ?_, ?_⟩
  · intro o hcommand ho
    rcases hkept with hkept | ⟨p, c, o', d, ha, ho', -⟩
    · exact hkept
    · obtain rfl : o = o' := by simpa [hcommand] using ha.command
      exact absurd (ho.symm.trans ho') (by simp)
  · intro e he
    refine ⟨by simpa [hmain, he, outcome] using exitCode_ne_zero e, ?_⟩
    intro hne
    rcases hkept with hkept | ⟨p, c, o, d, -, -, -, -, ⟨t, ht⟩ | ⟨reason, hreason⟩⟩
    · exact hkept
    · exact absurd (he.symm.trans ht) (by simp)
    · exact absurd (Except.error.inj (he.symm.trans hreason)) (hne _ reason)

/-- a directory with a template that names a field that is not defined -/
def undefinedZone : World where
  files := ⟨FileTree.empty.insert ["t".toList] (.file (Utf8.encode "\x7bzone\x7d".toList)), []⟩
  git := none

/-- it is to be rendered into a directory that is missing: that is not made, and nothing is printed -/
theorem missing_field_makes_no_directory :
    let args := ["render".toList, "--template".toList, "t".toList, "--output".toList, "gen/o".toList]
    (main args undefinedZone).2 = undefinedZone.files ∧ (main args undefinedZone).1 =
      ⟨3, [], some "Error: template '/t' line 1: field 'zone' is not defined by the active binding\n".toList⟩ := by
  intro args
  have hline : CommandLine.parse args = .ok { command := some (.render
      { template := some "t".toList, output := some "gen/o".toList }) } := by decide +kernel
  have hrun : (run undefinedZone { command := some (.render { template := some "t".toList, output := some "gen/o".toList }) }).1 =
      .error (.missingField "zone".toList 1 "/t".toList) := by decide +kernel
  obtain ⟨-, hall, -⟩ := only_saving_changes_files args undefinedZone
  obtain ⟨hmain, -, -, -, hfails⟩ := hall _ hline
  obtain ⟨-, hkept⟩ := hfails _ hrun
  constructor
  · rw [hmain]
    exact hkept fun _ _ => Failure.noConfusion
  · rw [hmain, hrun]
    decide +kernel

end Program
end BranchRender
