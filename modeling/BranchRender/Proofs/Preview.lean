/-
PREVIEWS: what a render prints is what it writes.

- A render that prints and one that writes fail alike, and then neither changes anything; where one prints a document, the
  other puts that document in place of the output, or fails at the output.
- The output reads the document afterwards, unless it needs a link on its way that the replacement took the place of: the
  link was not followed, since it was not got to before the directories on the way were made
  (`write_takes_link_on_the_way`).

Main statement: `print_foretells_write`.
-/
import BranchRender.Proofs.ReadBack
import BranchRender.Proofs.Renders

namespace BranchRender.Program

open Replacement (target temporary? made ReadsBack)

variable {w : World} {p : Project} {c : Config}

/-- how a render ends that writes the document `d` to `output`: it fails there, or the output reads the document, as far as
the temporary file is no link and the output leads anywhere in the end -/
def Writes (fs : FileSystem) (output : Path) (d : Text) (written : Except Failure Text × FileSystem) : Prop :=
  (∃ reason, written.1 = .error (.outputUnwritable output reason)) ∨
    (∃ line, written.1 = .ok line) ∧
      ((∀ temporary, temporary? (target fs output) = some temporary →
          (made fs (target fs output)).isLink temporary = false) →
        written.2.locate .target output ≠ .error (.system .tooManyLinks) →
        ∃ r, ReadsBack fs written.2 output (Utf8.encode d) r)

theorem renderValid_writes {d : Text} (hsame : samePaths w p c = false) (hd : documentOf w p c = .ok d) :
    Writes w.files (p.path c.output) d (renderValid w p c false) := by
  rw [renderValid_written hsame hd]
  cases hsave : (Rendering.save (p.path c.output) (Utf8.encode d) w.files).1 with
  | error e =>
    obtain ⟨reason, rfl⟩ := Rendering.unwritable_of_save hsave
    exact .inl ⟨reason, rfl⟩
  | ok _ =>
    refine .inr ⟨⟨_, rfl⟩, ?_⟩
    intro hlink hafter
    exact Replacement.reads_back (Prod.ext hsave rfl) hlink hafter

/-- what is refused is refused alike, and nothing is changed -/
theorem refused_alike {fs : FileSystem} {e : Failure} {printed written : Except Failure Text × FileSystem}
    {documented : Text → Prop} (hp : printed = (.error e, fs)) (hw : written = (.error e, fs)) :
    printed.2 = fs ∧ (∀ e, printed.1 = .error e → written = (.error e, fs)) ∧
      ∀ d, printed.1 = .ok d → documented d := by
  subst hp hw
  refine ⟨rfl, ?_, ?_⟩
  · intro e' he
    rw [Except.error.inj he]
  · intro d hd
    exact absurd hd (by simp)

/-- two renders of a valid configuration, one that prints and one that writes -/
theorem renderValid_print_write (w : World) (p : Project) (c : Config) :
    (renderValid w p c true).2 = w.files ∧
    (∀ e, (renderValid w p c true).1 = .error e → renderValid w p c false = (.error e, w.files)) ∧
    ∀ d, (renderValid w p c true).1 = .ok d → Writes w.files (p.path c.output) d (renderValid w p c false) := by
  cases hsame : samePaths w p c with
  | true => exact refused_alike (renderValid_refused true hsame) (renderValid_refused false hsame)
  | false =>
    rw [renderValid_printed hsame]
    refine ⟨rfl, ?_, ?_⟩
    · intro e he
      exact renderValid_error false hsame he
    · intro d hd
      exact renderValid_writes hsame hd

/-- **Printing foretells writing.** A render that fails to print fails to write alike, and nothing is changed. A document that
is printed is the one that is written. -/
theorem print_foretells_write (w : World) (line : CommandLine) (o : RenderOptions) :
    let printed := run w { line with command := some (.render { o with stdout := true }) }
    let written := run w { line with command := some (.render { o with stdout := false }) }
    printed.2 = w.files ∧
    (∀ e, printed.1 = .error e → written = (.error e, w.files)) ∧
    ∀ d, printed.1 = .ok d → ∃ p c, setUp w line = .ok (p, c) ∧
      Writes w.files (p.path (override c o).output) d written := by
  intro printed written
  cases hs : setUp w line with
  | error e => exact refused_alike (run_refused hs) (run_refused hs)
  | ok found =>
    obtain ⟨p, c⟩ := found
    have hrender : ∀ toStdout, run w { line with command := some (.render { o with stdout := toStdout }) } =
        render w p c { o with stdout := toStdout } := fun _ => run_render hs rfl
    cases hv : (override c o).violation? with
    | some v => exact refused_alike ((hrender true).trans (render_invalid hv)) ((hrender false).trans (render_invalid hv))
    | none =>
      have hprinted : printed = renderValid w p (override c o) true := (hrender true).trans (render_valid hv)
      have hwritten : written = renderValid w p (override c o) false := (hrender false).trans (render_valid hv)
      rw [hprinted, hwritten]
      obtain ⟨hfiles, herror, hdocument⟩ := renderValid_print_write w p (override c o)
      exact ⟨hfiles, herror, fun d hd => ⟨p, c, rfl, hdocument d hd⟩⟩

/-- a link that leads into a directory that is missing is written through -/
example :
    let files := ((⟨.empty, []⟩ : FileSystem).put ["o".toList] (.link "gen/out".toList)).put ["t".toList] (.file [120])
    let line : CommandLine :=
      { command := some (.render { template := some "t".toList, output := some "o".toList }) }
    (run ⟨files, none⟩ line).2.lstat "o".toList = .ok (.link "gen/out".toList) ∧
      (run ⟨files, none⟩ line).2.read "o".toList = (run ⟨files, none⟩ line).2.read "gen/out".toList ∧
      (run ⟨files, none⟩ line).1.isOk = true := by
  decide +kernel

/-! ## A link that is taken -/

/-- a directory with a template, a link to a directory that is missing, and no git -/
def linkToMissing : World where
  files := ((⟨.empty, []⟩ : FileSystem).put ["t".toList] (.file (Utf8.encode "x=\x7bsuffix\x7d\n".toList))).put
    ["l".toList] (.link "sub".toList)
  git := none

/-- **A link on the way is replaced.** The way to the output gets back to the link through a directory that has to be made, and
goes along it: the link is not followed, a file takes its place, and the output reads nothing. -/
theorem write_takes_link_on_the_way :
    let o : RenderOptions := { template := some "t".toList, output := some "sub/../l/../l".toList }
    let printed := run linkToMissing { command := some (.render { o with stdout := true }) }
    let written := run linkToMissing { command := some (.render { o with stdout := false }) }
    ∃ d line, printed.1 = .ok d ∧ written.1 = .ok line ∧
      written.2.read "/sub/../l/../l".toList ≠ .ok (Utf8.encode d) := by
  intro o printed written
  have hok : written.1.isOk = true := by decide +kernel
  obtain ⟨d, hd⟩ : ∃ d, printed.1 = .ok d :=
    ⟨Header.line .hash "t".toList "make all".toList ++ "x=dev\n".toList, by decide +kernel⟩
  obtain ⟨p, c, hs, hwrites⟩ := (print_foretells_write linkToMissing {} o).2.2 d hd
  have hfound : setUp linkToMissing {} = .ok (⟨"/".toList, "/".toList, false⟩, {}) := by decide +kernel
  obtain ⟨rfl, rfl⟩ := Prod.mk.inj (Except.ok.inj (hfound.symm.trans hs))
  rcases hwrites with ⟨reason, he⟩ | ⟨⟨line, hl⟩, hback⟩
  · have he : written.1 = _ := he
    rw [he] at hok
    exact absurd hok (by simp [Except.isOk, Except.toBool])
  have hlink : ∀ temporary, temporary? (target linkToMissing.files "/sub/../l/../l".toList) = some temporary →
      (made linkToMissing.files (target linkToMissing.files "/sub/../l/../l".toList)).isLink temporary = false := by
    intro temporary ht
    have htemp : temporary? (target linkToMissing.files "/sub/../l/../l".toList) = some "/sub/../l/../.l.tmp".toList := by
      decide +kernel
    obtain rfl := Option.some.inj (htemp.symm.trans ht)
    decide +kernel
  obtain ⟨r, hr⟩ := hback hlink (by decide +kernel)
  obtain rfl : r = ["l".toList] := hr.place.unique ⟨[], "l".toList, by decide +kernel, by decide +kernel⟩
  refine ⟨d, line, hd, hl, ?_⟩
  intro hread
  obtain ⟨⟨n, dir, name, hreaches⟩, -⟩ := hr.exactly.1 hread
  have hlost : ((made linkToMissing.files (target linkToMissing.files "/sub/../l/../l".toList)).drop ["l".toList]).lastOf
      "/sub/../l/../l".toList = .error (.system .notFound) := by decide +kernel
  exact absurd ((FileSystem.lastOf_of_reaches hreaches).symm.trans hlost) (by simp)

end BranchRender.Program
