/-
RENDERS: how a render ends, by what it finds.

- `documentOf` is the document a render makes. One that is the same file as its output is refused; else a template that
  cannot be filled decides, and nothing is written (`renderValid_refused`, `renderValid_error`); else the document is
  printed, or put in place of the output (`renderValid_printed`, `renderValid_written`).
- A configuration that is found keeps the rules (`violation?_of_setUp`), so without options of its own a render goes by it.

Main statements: `renderValid_error`, `renderValid_written`, `violation?_of_setUp`, `run_render`.
-/
import Mathlib.Tactic.ByContra
import BranchRender.Program

namespace BranchRender

namespace Config

theorem violation?_of_ofText {t : Text} {c : Config} (h : ofText t = .ok c) : c.violation? = none := by
  unfold ofText at h
  (repeat' split at h) <;> simp_all

theorem violation?_of_discover {fs : FileSystem} {root : Path} {p : Option Path} {c : Config}
    (h : discover fs root p = .ok c) : c.violation? = none := by
  have hload : ∀ q, load fs q = .ok c → c.violation? = none := by
    intro q hq
    unfold load at hq
    split at hq
    · exact absurd hq (by simp)
    · next t _ => exact violation?_of_ofText (mapError_eq_ok.1 hq)
  cases p with
  | some p => exact hload _ h
  | none =>
    simp only [discover] at h
    split at h
    · exact hload _ h
    · obtain rfl : {} = c := Except.ok.inj h
      decide +kernel

end Config

/-- a document that cannot be put in place is a failure of its output -/
theorem Rendering.unwritable_of_save {output : Path} {content : List UInt8} {fs : FileSystem} {e : Failure}
    (h : (save output content fs).1 = .error e) : ∃ reason, e = .outputUnwritable output reason := by
  unfold save at h
  rcases hrun : (Replacement.plan output content).run fs with ⟨fault | _, s⟩
  · rw [hrun] at h
    exact ⟨fault.message, (Except.error.inj h).symm⟩
  · rw [hrun] at h
    exact absurd h (by simp [Except.mapError])

namespace Program

variable {w : World} {line : CommandLine} {p : Project} {c : Config} {o : RenderOptions} {toStdout : Bool}

/-! ## Valid configurations -/

def documentOf (w : World) (p : Project) (c : Config) : Except Failure Text :=
  Rendering.document w.files (p.path c.template) (c.table.select (w.branch p.cwd))
    (Header.line c.style c.template c.buildCommand)

def samePaths (w : World) (p : Project) (c : Config) : Bool := w.files.sameFile (p.path c.template) (p.path c.output)

/-- a template that is its output is refused, and nothing is written -/
theorem renderValid_refused (toStdout : Bool) (h : samePaths w p c = true) :
    renderValid w p c toStdout = (.error (sameFileFailure c), w.files) := by
  unfold samePaths at h
  simp [renderValid, h]

/-- a render without a document fails as that does, and nothing is written -/
theorem renderValid_error {e : Failure} (toStdout : Bool) (h : samePaths w p c = false)
    (hd : documentOf w p c = .error e) : renderValid w p c toStdout = (.error e, w.files) := by
  unfold samePaths at h
  unfold documentOf at hd
  cases toStdout <;> simp [renderValid, h, Rendering.render, hd]

theorem renderValid_printed (h : samePaths w p c = false) : renderValid w p c true = (documentOf w p c, w.files) := by
  unfold samePaths at h
  simp only [renderValid, h]
  rfl

theorem renderValid_written {d : Text} (h : samePaths w p c = false) (hd : documentOf w p c = .ok d) :
    renderValid w p c false =
      ((Rendering.save (p.path c.output) (Utf8.encode d) w.files).1.map fun _ =>
          summary ((p.path c.output).fileName?.getD c.output) (w.branch p.cwd) (c.table.select (w.branch p.cwd)),
        (Rendering.save (p.path c.output) (Utf8.encode d) w.files).2) := by
  unfold samePaths at h
  unfold documentOf at hd
  simp only [renderValid, h, Rendering.render, hd, Bool.false_eq_true, ite_false]
  rcases Rendering.save (p.path c.output) (Utf8.encode d) w.files with ⟨_ | _, fs⟩ <;> rfl

/-! ## Requests -/

theorem violation?_of_setUp (h : setUp w line = .ok (p, c)) : c.violation? = none := by
  unfold setUp at h
  obtain ⟨p', -, h⟩ := bind_eq_ok.1 h
  obtain ⟨c', hc, h⟩ := bind_eq_ok.1 h
  obtain ⟨rfl, rfl⟩ := Prod.mk.inj (Except.ok.inj h)
  exact Config.violation?_of_discover hc

/-- a request without a project is refused, and nothing is written -/
theorem run_refused {e : Failure} (h : setUp w line = .error e) : run w line = (.error e, w.files) := by
  simp only [run, h]

theorem run_render (h : setUp w line = .ok (p, c)) (ho : line.command.getD (.render {}) = .render o) :
    run w line = render w p c o := by
  simp only [run, h, ho]

theorem render_valid (h : (override c o).violation? = none) :
    render w p c o = renderValid w p (override c o) o.stdout := by
  simp only [render, h]

/-- a broken rule is a failure, and nothing is written -/
theorem render_invalid {v : Violation} (h : (override c o).violation? = some v) :
    render w p c o = (.error (.invalidConfiguration v.message), w.files) := by
  simp only [render, h]

end Program
end BranchRender
