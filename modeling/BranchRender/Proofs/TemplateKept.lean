/-
THE TEMPLATE: a render that keeps it, and the only ones that do not.

- `Lands` says that a replacement goes through a location: its temporary file is filled there, or its move ends there. A
  file is lost exactly if the replacement lands on it (`replacement_keeps_iff`).
- A render loses its template exactly if the guard lets it pass and its replacement lands there (`Overwrites`). An output
  with a canonical path never passes that the move would put in place of the template (`sameFile_of_destination`): what
  gets through are outputs behind directories that are missing yet, and templates that are the temporary file.

Main statements: `replacement_keeps_iff`, `sameFile_of_destination`, `template_kept_iff`.
-/
import Mathlib.Control.Monad.Basic
import BranchRender.Proofs.AllOrNothing
import BranchRender.Proofs.Canonicals
import BranchRender.Proofs.Filling
import BranchRender.Proofs.Renders

namespace BranchRender

namespace Replacement

open FileSystem (SameWays)

variable {fs m : FileSystem} {p temporary : Path} {content bytes : List UInt8} {c l r : Location}

/-! ## Where a replacement lands -/

/-- replacing the target `p` fills the temporary file at this location, or moves it there -/
def Lands (fs : FileSystem) (p : Path) (l : Location) : Prop :=
  ((makeParent p).run fs).1 = .ok () ∧ ∃ temporary c, temporary? p = some temporary ∧
    (made fs p).newFile temporary = .ok (c, true) ∧ (c = l ∨ (made fs p).destination p = .ok l)

/-- filling the temporary file does not change where the move ends -/
theorem destination_put (content : List UInt8) (h : m.newFile temporary = .ok (c, true)) :
    (m.put c (.file content)).destination p = .ok r ↔ m.destination p = .ok r := by
  have ha := admits_of_newFile h
  have hways : m.SameWays (m.put c (.file content)) :=
    ⟨rfl, FileSystem.keeps_put (not_isWay_of_newFile h) _, FileSystem.kept_by_put (by simp [Entry.IsWay])⟩
  have hdir : (m.put c (.file content)).tree.at? r = some .directory ↔ m.tree.at? r = some .directory :=
    ⟨hways.kept.directory, hways.keeps.directory⟩
  rw [FileSystem.destination_iff, FileSystem.destination_iff, hways.names, ne_eq, ne_eq, hdir]

/-- where the temporary file cannot be filled, no file is lost: one that is removed would have been filled -/
theorem refused_keeps (content : List UInt8) (h : temporary? p = some temporary) (hl : m.tree.at? l = some (.file bytes))
    (hc : ∀ c, m.newFile temporary ≠ .ok (c, true)) :
    ((fillAndMove temporary p content).run m).2.tree.at? l = some (.file bytes) := by
  obtain ⟨fault, hrun⟩ := run_fillAndMove_refused p content hc
  rw [hrun]
  rcases FileSystem.remove_cases m temporary with hs | ⟨t, e, ht, he, hd, hs⟩
  · rw [hs, hl]
  · have hlt : l ≠ t := by
      rintro rfl
      refine hc l (newFile_of_names ht (endsInSlash_temporary h) fun e' he' => ⟨bytes, ?_⟩)
      exact Option.some.inj (he'.symm.trans hl)
    rw [hs, FileSystem.at?_drop (by rw [he]; simpa using hd), if_neg hlt, hl]

/-- where it is filled, a file is lost if that is its place, or the move ends there -/
theorem filled_keeps_iff (h : temporary? p = some temporary) (hl : m.tree.at? l = some (.file bytes))
    (hne : content ≠ bytes) (hc : m.newFile temporary = .ok (c, true)) :
    ((fillAndMove temporary p content).run m).2.tree.at? l = some (.file bytes) ↔
      ¬ (c = l ∨ m.destination p = .ok l) := by
  obtain ⟨t, e, ht, hm, hct⟩ := movable_of_newFile content h hc
  have ha := admits_of_newFile hc
  obtain ⟨-, he, hed, -⟩ := FileSystem.movable_iff.1 hm
  -- the entry that is moved is not the file at `l`, and it leaves `l` only if it was filled there
  have hefile : e ≠ .file bytes := by
    rcases hct with ⟨-, rfl⟩ | ⟨-, -, target, rfl⟩
    · simpa using hne
    · simp
  have htl : l = t → c = l := by
    rintro rfl
    rcases hct with ⟨hcl, -⟩ | ⟨-, he', target, rfl⟩
    · exact hcl
    · rw [hl] at he'; exact absurd he' (by simp)
  have hleft : (if l = t then none else (m.put c (.file content)).tree.at? l) = some (.file bytes) ↔ ¬ c = l := by
    by_cases hcl : c = l
    · subst hcl
      rw [FileSystem.at?_put ha, if_pos rfl]
      split <;> simp [hne]
    · rw [if_neg fun hlt => hcl (htl hlt), FileSystem.at?_put ha, if_neg (Ne.symm hcl)]
      simp [hl, hcl]
  cases hr : (m.put c (.file content)).destination p with
  | error fault =>
    have hnot : m.destination p ≠ .ok l := by
      intro hd
      rw [← destination_put content hc, hr] at hd
      exact absurd hd (by simp)
    rw [run_fillAndMove_kept hc hm hr, FileSystem.at?_drop (by rw [he]; simpa using hed), hleft]
    simp [hnot]
  | ok r =>
    obtain ⟨hn, -, hdir⟩ := FileSystem.destination_iff.1 hr
    rw [run_fillAndMove_moved hc hm hr, FileSystem.tree_withTree, FileSystem.at?_move he hed (hn.admits hdir),
      (destination_put content hc).1 hr, Except.ok.injEq]
    by_cases hlr : l = r
    · simp [hlr, hefile]
    · rw [if_neg hlr, hleft]
      simp [Ne.symm hlr]

/-- a file is lost exactly if it is filled as the temporary file, or moved to -/
theorem fillAndMove_keeps_iff (h : temporary? p = some temporary) (hl : m.tree.at? l = some (.file bytes))
    (hne : content ≠ bytes) : ((fillAndMove temporary p content).run m).2.tree.at? l = some (.file bytes) ↔
      ¬ ∃ c, m.newFile temporary = .ok (c, true) ∧ (c = l ∨ m.destination p = .ok l) := by
  by_cases hc : ∃ c, m.newFile temporary = .ok (c, true)
  · obtain ⟨c, hc⟩ := hc
    rw [filled_keeps_iff h hl hne hc, not_iff_not]
    constructor
    · intro hor
      exact ⟨c, hc, hor⟩
    · rintro ⟨c', hc', hor⟩
      rw [hc, Except.ok.injEq, Prod.mk.injEq] at hc'
      exact hc'.1 ▸ hor
  · have hkept := refused_keeps content h hl fun c he => hc ⟨c, he⟩
    constructor
    · rintro - ⟨c, hnew, -⟩
      exact hc ⟨c, hnew⟩
    · intro _
      exact hkept

/-- **Where a replacement lands.** It keeps a file, unless it lands on it. -/
theorem replacement_keeps_iff (p : Path) (hl : fs.tree.at? l = some (.file bytes)) (hne : content ≠ bytes) :
    ((plan p content).run fs).2.tree.at? l = some (.file bytes) ↔ ¬ Lands fs (target fs p) l := by
  have hmade := (grown_made fs (target fs p)).stays hl
  rw [run_plan, run_planTarget]
  cases hparent : ((makeParent (target fs p)).run fs).1 with
  | error fault => simp [Lands, hparent, hmade]
  | ok _ =>
    cases htemp : temporary? (target fs p) with
    | none => simp [Lands, htemp, hmade]
    | some temporary =>
      simp only [fillAndMove_keeps_iff htemp hmade hne, Lands, hparent, htemp, Option.some.injEq, true_and]
      constructor
      · rintro h ⟨temporary', c, rfl, hc⟩
        exact h ⟨c, hc⟩
      · rintro h ⟨c, hc⟩
        exact h ⟨temporary, c, rfl, hc⟩

/-! ## The guard -/

/-- an output with a canonical path that is moved in place of the template is the same file as the template -/
theorem sameFile_of_destination {template output q q' : Path} (ht : fs.canonicalPath template = .ok q)
    (ho : fs.canonicalPath output = .ok q') (hf : fs.find .target template = .ok (l, .file bytes))
    (hd : (made fs (target fs output)).destination (target fs output) = .ok l) : fs.sameFile template output = true := by
  have hgrown := grown_made fs (target fs output)
  have hl := hgrown.stays (FileSystem.at?_of_find hf (by simp))
  obtain ⟨hn, hslash, -⟩ := FileSystem.destination_iff.1 hd
  obtain rfl : q = l.path := FileSystem.canonicalPath_of_find ht hf
  obtain ⟨-, k, e, rfl, -, -, -, he, hlink⟩ := FileSystem.canonicalPath_eq_ok ho
  have hsame : k.path = l.path := by
    cases hlk : fs.isLink output with
    | true =>
      rw [target_of_canonicalPath hlk ho] at hn hgrown
      rw [FileSystem.names_canonicalPath (by rw [hgrown.stays he]; simp) hn]
    | false =>
      rw [target_of_not_isLink hlk] at hn hslash hl hgrown
      have hcanon := FileSystem.canonicalPath_keep hgrown.keeps hgrown.cwd (hgrown.stays he) hlink
        (fun hdir => hdir ▸ he) (FileTree.isName_of_at? (t := fs.tree) (by rw [he]; simp)) ho
      have hfound : (made fs output).find .target output = .ok (l, .file bytes) := by
        rw [FileSystem.find, (FileSystem.locate_of_names hn hslash .target).2 _ hl (.inr (by simp))]
      exact FileSystem.canonicalPath_of_find hcanon hfound
  simp [FileSystem.sameFile, Path.same, FileSystem.normalize_of_canonicalPath ht,
    FileSystem.normalize_of_canonicalPath ho, hsame]

end Replacement

namespace Program

open Replacement (Lands made target temporary?)

variable {w : World} {line : CommandLine} {p : Project} {c : Config} {o : RenderOptions} {l : Location}
  {bytes : List UInt8} {toStdout : Bool}

/-! ## Renders -/

/-- a render writes, and its replacement lands on this location -/
structure Overwrites (w : World) (p : Project) (c : Config) (toStdout : Bool) (l : Location) : Prop where
  valid : c.violation? = none
  passes : samePaths w p c = false
  writes : toStdout = false
  document : ∃ d, documentOf w p c = .ok d
  lands : Lands w.files (target w.files (p.path c.output)) l

theorem read_of_find {fs : FileSystem} {template : Path} (h : fs.find .target template = .ok (l, .file bytes)) :
    fs.read template = .ok bytes := by
  simp only [FileSystem.read, FileSystem.stat, h, Except.map]

/-- a valid configuration loses the template exactly if it overwrites it -/
theorem renderValid_keeps_iff (hv : c.violation? = none)
    (hl : w.files.find .target (p.path c.template) = .ok (l, .file bytes)) :
    (renderValid w p c toStdout).2.tree.at? l = some (.file bytes) ↔ ¬ Overwrites w p c toStdout l := by
  have hthere := FileSystem.at?_of_find hl (by simp)
  cases hsame : samePaths w p c with
  | true =>
    rw [renderValid_refused toStdout hsame]
    constructor
    · intro _ ho
      exact absurd (hsame.symm.trans ho.passes) (by simp)
    · intro _
      exact hthere
  | false =>
    cases hd : documentOf w p c with
    | error e =>
      rw [renderValid_error toStdout hsame hd]
      refine ⟨?_, fun _ => hthere⟩
      intro _ ho
      obtain ⟨d, hd'⟩ := ho.document
      exact absurd (hd.symm.trans hd') (by simp)
    | ok d =>
      cases toStdout with
      | true =>
        rw [renderValid_printed hsame]
        constructor
        · intro _ ho
          exact absurd ho.writes (by simp)
        · intro _
          exact hthere
      | false =>
        rw [renderValid_written hsame hd]
        have hne := Rendering.document_ne_template (read_of_find hl) hd
        calc ((Replacement.plan (p.path c.output) _).run w.files).2.tree.at? l = some (.file bytes)
            ↔ ¬ Lands w.files (target w.files (p.path c.output)) l :=
              Replacement.replacement_keeps_iff (p.path c.output) hthere hne
          _ ↔ ¬ Overwrites w p c false l := not_congr ⟨?_, Overwrites.lands⟩
        intro hlands
        exact ⟨hv, hsame, rfl, ⟨d, hd⟩, hlands⟩

/-- **Templates are kept.** A render keeps its template, unless it overwrites it. The guard refuses a template that is its
output before anything is written; with canonical paths, what it lets pass overwrites a template only as the temporary file. -/
theorem template_kept_iff (hs : setUp w line = .ok (p, c)) (ho : line.command.getD (.render {}) = .render o)
    (hl : w.files.find .target (p.path (override c o).template) = .ok (l, .file bytes)) :
    ((run w line).2.tree.at? l = some (.file bytes) ↔ ¬ Overwrites w p (override c o) o.stdout l) ∧
    ((override c o).violation? = none → samePaths w p (override c o) = true →
      run w line = (.error (sameFileFailure (override c o)), w.files)) ∧
    (∀ q q', w.files.canonicalPath (p.path (override c o).template) = .ok q →
      w.files.canonicalPath (p.path (override c o).output) = .ok q' →
      Overwrites w p (override c o) o.stdout l →
      ∃ temporary, temporary? (target w.files (p.path (override c o).output)) = some temporary ∧
        (made w.files (target w.files (p.path (override c o).output))).newFile temporary = .ok (l, true)) := by
  rw [run_render hs ho]
  refine ⟨?_, ?_, ?_⟩
  · cases hv : (override c o).violation? with
    | none =>
      rw [render_valid hv]
      exact renderValid_keeps_iff hv hl
    | some v =>
      rw [render_invalid hv]
      constructor
      · intro _ hover
        exact absurd (hv.symm.trans hover.valid) (by simp)
      · intro _
        exact FileSystem.at?_of_find hl (by simp)
  · intro hv hsame
    rw [render_valid hv, renderValid_refused o.stdout hsame]
  · intro q q' hq hq' hover
    obtain ⟨-, temporary, t, htemp, hnew, htl | hmoved⟩ := hover.lands
    · exact ⟨temporary, htemp, htl ▸ hnew⟩
    · have hsame := Replacement.sameFile_of_destination hq hq' hl hmoved
      exact absurd (hsame.symm.trans hover.passes) (by simp)

/-- an output that is there, and its temporary file as the template -/
example :
    let files := ((⟨.empty, []⟩ : FileSystem).put ["o".toList] (.file [])).put [".o.tmp".toList] (.file [120])
    let line : CommandLine :=
      { command := some (.render { template := some ".o.tmp".toList, output := some "o".toList }) }
    (run ⟨files, none⟩ line).2.lstat ".o.tmp".toList = .error (.system .notFound) := by
  decide +kernel

/-! ## A template that is lost -/

def templateAlone : World where
  files := (⟨.empty, []⟩ : FileSystem).put ["a.xml".toList] (.file (Utf8.encode "x=\x7bsuffix\x7d\n".toList))
  git := none

/-- **A template is lost.** The way to the output gets back to the template through a directory that has to be made: the guard
does not see it, and the template is overwritten. -/
theorem template_lost_behind_new_directory :
    let line : CommandLine :=
      { command := some (.render { template := some "a.xml".toList, output := some "gen/../a.xml".toList }) }
    let l : Location := ["a.xml".toList]
    let bytes := Utf8.encode "x=\x7bsuffix\x7d\n".toList
    templateAlone.files.tree.at? l = some (.file bytes) ∧
      (run templateAlone line).2.tree.at? l ≠ some (.file bytes) := by
  intro line l bytes
  let c : Config := { template := "a.xml".toList, output := "gen/../a.xml".toList }
  have hs : setUp templateAlone line = .ok (⟨"/".toList, "/".toList, false⟩, {}) := by decide +kernel
  have hl : templateAlone.files.find .target ((⟨"/".toList, "/".toList, false⟩ : Project).path c.template) =
      .ok (l, .file bytes) := by decide +kernel
  have hover : Overwrites templateAlone ⟨"/".toList, "/".toList, false⟩ c false l := by
    refine ⟨by decide +kernel, by decide +kernel, rfl, ?_, ?_⟩
    · exact ⟨Header.line c.style c.template c.buildCommand ++ "x=dev\n".toList, by decide +kernel⟩
    · exact ⟨by decide +kernel, "/gen/../.a.xml.tmp".toList, [".a.xml.tmp".toList], by decide +kernel,
        by decide +kernel, .inr (by decide +kernel)⟩
  refine ⟨by decide +kernel, ?_⟩
  intro hkept
  exact (template_kept_iff hs rfl hl).1.1 hkept hover

end Program
end BranchRender
