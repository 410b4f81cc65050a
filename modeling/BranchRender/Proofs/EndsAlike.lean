/-
ENDS ALIKE: two runs of a request whose projects have counterparts.

- Two runs end alike if they give the same answer or fail with the same code (`SameEnd`), and leave one tree. Where the
  paths are the same they fail in the same words.
- What a run makes of its configuration depends on the branch, on what the paths of template and output lead to, and on
  nothing else of where it takes place (`report_eq`, `documentOf_sameEnd`, `save_alike`).
- So does a run, once it is set up (`run_alike`): the output is written alike if no limit is met there (`Clear`).

Main statements: `documentOf_sameEnd`, `renderValid_alike`, `run_alike`.
-/
import BranchRender.Proofs.Renders
import BranchRender.Proofs.RunsAlike

namespace BranchRender

open FileSystem (Counterparts SamePlace)
open Replacement (Clear)

/-- the same answer, or failures with the same code, the same ones if `same` holds -/
inductive SameEnd {α : Type} (same : Prop) : Except Failure α → Except Failure α → Prop
  | same {a : Except Failure α} : SameEnd same a a
  | failed {e e' : Failure} (hcode : e.exitCode = e'.exitCode) (h : same → e = e') : SameEnd same (.error e) (.error e')

theorem SameEnd.eq {α : Type} {same : Prop} {a b : Except Failure α} (h : SameEnd same a b) (hs : same) : a = b := by
  cases h with
  | same => rfl
  | failed _ h => rw [h hs]

theorem SameEnd.mono {α : Type} {same same' : Prop} {a b : Except Failure α} (h : SameEnd same a b) (hs : same' → same) :
    SameEnd same' a b := by
  cases h with
  | same => exact .same
  | failed hcode h => exact .failed hcode (h ∘ hs)

theorem SameEnd.eq_ok {α : Type} {same : Prop} {x : α} {b : Except Failure α} (h : SameEnd same (.ok x) b) :
    b = .ok x := by
  cases h
  rfl

/-- a failure is the same end as another, whatever there was to be found -/
theorem SameEnd.eq_error {α β : Type} {same : Prop} {e : Failure} {b : Except Failure α} (h : SameEnd same (.error e) b) :
    ∃ e', b = .error e' ∧ SameEnd (α := β) same (.error e) (.error e') := by
  cases h with
  | same => exact ⟨e, rfl, .same⟩
  | @failed _ e' hcode h => exact ⟨e', rfl, .failed hcode h⟩

theorem SameEnd.map {α β : Type} {same : Prop} {a b : Except Failure α} (h : SameEnd same a b) (f : α → β) :
    SameEnd same (a.map f) (b.map f) := by
  cases h with
  | same => exact .same
  | failed hcode h => exact .failed hcode h

/-- processes with the same end exit and print the same -/
theorem SameEnd.outcome {same : Prop} {a b : Except Failure Text} (h : SameEnd same a b) :
    (Program.outcome a).exit = (Program.outcome b).exit ∧ (Program.outcome a).stdout = (Program.outcome b).stdout := by
  cases h with
  | same => exact ⟨rfl, rfl⟩
  | failed hcode => exact ⟨hcode, rfl⟩

/-! ## Documents -/

namespace Rendering

variable {fs s : FileSystem} {p q : Path} {b : Binding}

theorem fillLine_sameEnd (p q : Path) (b : Binding) (n : Nat) (line : List UInt8) :
    SameEnd (p = q) (fillLine p b n line) (fillLine q b n line) := by
  unfold fillLine
  split
  · exact .failed rfl fun h => by rw [h]
  · next t _ =>
    cases Template.render b t with
    | ok _ => exact .same
    | error fault => cases fault <;> exact .failed rfl fun h => by rw [h]

theorem fill_sameEnd (p q : Path) (b : Binding) (n : Nat) (ls : List (List UInt8)) :
    SameEnd (p = q) (fill p b n ls) (fill q b n ls) := by
  induction ls generalizing n with
  | nil => exact .same
  | cons l ls ih =>
    rw [fill, fill]
    generalize fillLine p b n l = x, fillLine q b n l = y, fillLine_sameEnd p q b n l = h
    cases h with
    | failed hcode h => exact .failed hcode h
    | same =>
      cases x with
      | error e => exact .same
      | ok t => exact (ih (n + 1)).map _

theorem document_sameEnd (h : SamePlace fs s p q) (b : Binding) (header : Text) :
    SameEnd (p = q) (document fs p b header) (document s q b header) := by
  simp only [document, h.read]
  split
  · exact .failed rfl fun h => by rw [h]
  · exact (fill_sameEnd p q b 1 _).map _

theorem save_alike (h : Counterparts fs s p q) (hc : p = q ∨ Clear fs p ∧ Clear s q) (content : List UInt8) :
    RunsAlike (SameEnd (p = q)) (save p content fs) (save q content s) := by
  obtain ⟨hanswer, htree⟩ := Replacement.plan_alike h hc content
  refine ⟨?_, htree⟩
  simp only [save]
  generalize ((Replacement.plan p content).run fs).1 = a at hanswer
  generalize ((Replacement.plan q content).run s).1 = a' at hanswer
  cases hanswer with
  | failed hfault => exact .failed rfl fun hs => by rw [hs, hfault hs]
  | same =>
    cases a with
    | ok _ => exact .same
    | error fault => exact .failed rfl fun hs => by rw [hs]

end Rendering

/-! ## Runs -/

namespace Program

variable {w v : World} {p p' : Project} {c : Config}

/-- two projects with one branch, each in a world of its own -/
structure Settings (w v : World) (p p' : Project) : Prop where
  tree : w.files.tree = v.files.tree
  inRepository : p.inRepository = p'.inRepository
  branch : w.branch p.cwd = v.branch p'.cwd

/-- the render gets as far as putting its document in place of the output -/
def Places (w : World) (p : Project) (c : Config) (toStdout : Bool) : Prop :=
  toStdout = false ∧ samePaths w p c = false ∧ ∃ d, documentOf w p c = .ok d

theorem report_eq (hs : Settings w v p p') (h : Counterparts w.files v.files (p.path c.template) (p'.path c.template))
    (json : Bool) : report w p c json = report v p' c json := by
  have hread := (h.twin.samePlace h.tree h.fair).readText
  simp only [report, Report.of, hs.branch, hs.inRepository, hread]

theorem samePaths_eq (ht : Counterparts w.files v.files (p.path c.template) (p'.path c.template))
    (ho : Counterparts w.files v.files (p.path c.output) (p'.path c.output)) : samePaths w p c = samePaths v p' c := by
  simp only [samePaths, FileSystem.sameFile, ht.normal, ho.normal]

theorem documentOf_sameEnd (hs : Settings w v p p')
    (h : Counterparts w.files v.files (p.path c.template) (p'.path c.template)) :
    SameEnd (p.root = p'.root) (documentOf w p c) (documentOf v p' c) := by
  simp only [documentOf, hs.branch]
  exact (Rendering.document_sameEnd (h.twin.samePlace h.tree h.fair) _ _).mono fun hroot => by
    simp only [Project.path, hroot]

/-- a render of a valid configuration ends alike where template and output have counterparts -/
theorem renderValid_alike (hs : Settings w v p p')
    (ht : Counterparts w.files v.files (p.path c.template) (p'.path c.template))
    (ho : Counterparts w.files v.files (p.path c.output) (p'.path c.output)) {toStdout : Bool}
    (hc : Places w p c toStdout → Places v p' c toStdout →
      p.path c.output = p'.path c.output ∨ Clear w.files (p.path c.output) ∧ Clear v.files (p'.path c.output)) :
    RunsAlike (SameEnd (p.root = p'.root)) (renderValid w p c toStdout) (renderValid v p' c toStdout) := by
  have hpaths := samePaths_eq ht ho
  cases hsame : samePaths w p c with
  | true =>
    rw [renderValid_refused toStdout hsame, renderValid_refused toStdout (hpaths ▸ hsame)]
    exact ⟨.same, hs.tree⟩
  | false =>
    have hsame' : samePaths v p' c = false := hpaths ▸ hsame
    have hdocument := documentOf_sameEnd hs ht
    cases hd : documentOf w p c with
    | error e =>
      obtain ⟨e', hd', hend⟩ := (hd ▸ hdocument).eq_error (β := Text)
      rw [renderValid_error toStdout hsame hd, renderValid_error toStdout hsame' hd']
      exact ⟨hend, hs.tree⟩
    | ok d =>
      have hd' := (hd ▸ hdocument).eq_ok
      cases toStdout with
      | true =>
        rw [renderValid_printed hsame, renderValid_printed hsame', hd, hd']
        exact ⟨.same, hs.tree⟩
      | false =>
        rw [renderValid_written hsame hd, renderValid_written hsame' hd', ho.twin.fileName, hs.branch]
        obtain ⟨hanswer, htree⟩ := Rendering.save_alike ho
          (hc ⟨rfl, hsame, d, hd⟩ ⟨rfl, hsame', d, hd'⟩) (Utf8.encode d)
        exact ⟨(hanswer.map _).mono fun hroot => by simp only [Project.path, hroot], htree⟩

/-! ## Requests -/

theorem setUp_of_locate {line : CommandLine} (h : Project.locate w line.dir = .ok p) : setUp w line =
    (Config.discover w.files p.root (line.config.map p.fromCwd)).map fun c => (p, c) := by
  simp only [setUp, h, bind, Except.bind]
  cases Config.discover w.files p.root (line.config.map p.fromCwd) <;> rfl

/-- **Requests end alike** where they find one configuration, and counterparts of its template and output. -/
theorem run_alike {line line' : CommandLine} {same : Prop} (hs : Settings w v p p') (hsame : same → p.root = p'.root)
    (hp : Project.locate w line.dir = .ok p) (hp' : Project.locate v line'.dir = .ok p')
    (hcommand : line'.command = line.command)
    (hconfig : SameEnd same (Config.discover w.files p.root (line.config.map p.fromCwd))
      (Config.discover v.files p'.root (line'.config.map p'.fromCwd)))
    (hresolve : ∀ json c, line.command = some (.resolve json) → setUp w line = .ok (p, c) → setUp v line' = .ok (p', c) →
      Counterparts w.files v.files (p.path c.template) (p'.path c.template))
    (hrender : ∀ o c, line.command.getD (.render {}) = .render o → setUp w line = .ok (p, c) →
      setUp v line' = .ok (p', c) → (override c o).violation? = none →
      Counterparts w.files v.files (p.path (override c o).template) (p'.path (override c o).template) ∧
      Counterparts w.files v.files (p.path (override c o).output) (p'.path (override c o).output) ∧
      (Places w p (override c o) o.stdout → Places v p' (override c o) o.stdout →
        p.path (override c o).output = p'.path (override c o).output ∨
          Clear w.files (p.path (override c o).output) ∧ Clear v.files (p'.path (override c o).output))) :
    RunsAlike (SameEnd same) (run w line) (run v line') := by
  cases hd : Config.discover w.files p.root (line.config.map p.fromCwd) with
  | error e =>
    obtain ⟨e', hd', hend⟩ := (hd ▸ hconfig).eq_error (β := Text)
    have hsw : setUp w line = .error e := by rw [setUp_of_locate hp, hd]; rfl
    have hsv : setUp v line' = .error e' := by rw [setUp_of_locate hp', hd']; rfl
    rw [run_refused hsw, run_refused hsv]
    exact ⟨hend, hs.tree⟩
  | ok c =>
    have hsw : setUp w line = .ok (p, c) := by rw [setUp_of_locate hp, hd]; rfl
    have hd' := (hd ▸ hconfig).eq_ok
    have hsv : setUp v line' = .ok (p', c) := by rw [setUp_of_locate hp', hd']; rfl
    cases hline : line.command.getD (.render {}) with
    | resolve json =>
      have hcommand' : line.command = some (.resolve json) := by
        cases hl : line.command with
        | none => rw [hl] at hline; exact absurd hline (by simp)
        | some command => rw [hl] at hline; exact congrArg some hline
      simp only [run, hsw, hsv, hcommand, hline, report_eq hs (hresolve json c hcommand' hsw hsv) json]
      exact ⟨.same, hs.tree⟩
    | render o =>
      rw [run_render hsw hline, run_render hsv (hcommand ▸ hline)]
      cases hv : (override c o).violation? with
      | some violation =>
        rw [render_invalid hv, render_invalid hv]
        exact ⟨.same, hs.tree⟩
      | none =>
        obtain ⟨ht, ho, hc⟩ := hrender o c hline hsw hsv hv
        rw [render_valid hv, render_valid hv]
        obtain ⟨hanswer, htree⟩ := renderValid_alike hs ht ho hc
        exact ⟨hanswer.mono hsame, htree⟩

end Program
end BranchRender
