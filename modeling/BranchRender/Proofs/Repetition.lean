/-
REPETITION: a render that is done again.

- What a replacement puts in place is settled: the target has the content, the directories above it are there, and nothing
  has the temporary name beside it. A second replacement of a settled target changes nothing (`Settled.run_planTarget`).
- The second one may go by another path than the first. A link that led nowhere has a canonical path by now, a path along it
  is taken as it is. But as long as the path reads what was written, the path it is resolved to names that same place
  (`target_of_landed`).
- A path that does not read what was written has lost a link on its way to the replacement (`ReadsBack`), and is not
  replaced again (`read_of_saved_again`, `link_on_way_not_rendered_again`).
- The temporary path is made from the path the target is resolved to by now, and may be too long for the system where the one
  before was not. So `render_again` has two conditions.
- A canonical path is one the system starts from, as no name has a NUL: new directories only have names that paths spell
  (`NulFree.grown`).

Main statements: `Settled.run_planTarget`, `target_of_landed`, `save_again_iff`, `render_again`.
-/
import Mathlib.Tactic.ByContra
import BranchRender.Proofs.Interruption
import BranchRender.Proofs.ReadBack

namespace BranchRender

namespace FileSystem

variable {fs s : FileSystem} {p : Path} {ps : List Path} {r : Location}

/-! ## Names without a NUL -/

/-- no name has a NUL; a path that has one is refused -/
def NulFree (fs : FileSystem) : Prop := ∀ l ∈ fs.tree.below.keys, ∀ name ∈ l, '\x00' ∉ name

instance (fs : FileSystem) : Decidable fs.NulFree := by unfold NulFree; infer_instance

theorem nulFree_iff : fs.NulFree ↔ ∀ l, fs.tree.at? l ≠ none → ∀ name ∈ l, '\x00' ∉ name := by
  constructor
  · intro h l hl name hname
    cases l with
    | nil => exact absurd hname (by simp)
    | cons a dir =>
      obtain ⟨e, he⟩ := Option.ne_none_iff_exists'.1 hl
      exact h _ (List.mem_map_of_mem (OrderedMap.get?_eq_some_iff.1 he)) name hname
  · intro h l hl
    obtain ⟨⟨l, e⟩, he, rfl⟩ := List.mem_map.1 hl
    have hget := OrderedMap.get?_eq_some_iff.2 he
    have hne := (fs.tree.nested l (by rw [hget]; simp)).1
    exact h l (by rw [FileTree.at?_of_ne hne, hget]; simp)

/-- a path spells the name of what it names, and a path with a NUL is refused -/
theorem nul_not_mem_of_names {name : Text} {dir : Location} (h : fs.Names p (name :: dir)) : '\x00' ∉ name := by
  obtain ⟨_, _, _, ⟨_, _, hs, hx, -⟩, -, -, -, hl⟩ := names_iff.1 h
  obtain ⟨rfl, rfl⟩ := List.cons.inj hl
  have hsub : name ⊆ p := Path.subset_of_mem_names (by rw [hx]; simp)
  exact fun hc => (boundedStart_eq_ok.1 hs).1 (hsub hc)

/-- new directories are named by paths, so no NUL comes in -/
theorem NulFree.grown (h : fs.NulFree) (hs : fs.Grown s ps) : s.NulFree := by
  rw [nulFree_iff]
  intro l hl
  induction l with
  | nil => simp
  | cons name dir ih =>
    rcases hs.at? (name :: dir) with hk | ⟨-, -, q, -, hn⟩
    · exact nulFree_iff.1 h _ (hk ▸ hl)
    · exact List.forall_mem_cons.2 ⟨nul_not_mem_of_names hn, ih (by rw [FileTree.at?_parent hl]; simp)⟩

theorem NulFree.nul_not_mem_path (h : fs.NulFree) (hn : fs.Names p r) : '\x00' ∉ r.path := by
  obtain ⟨_, dir, name, -, -, hdir, -, rfl⟩ := names_iff.1 hn
  have hnames : ∀ x ∈ name :: dir, '\x00' ∉ x :=
    List.forall_mem_cons.2 ⟨nul_not_mem_of_names hn, nulFree_iff.1 h dir (by rw [hdir]; simp)⟩
  intro hm
  rcases List.mem_cons.1 hm with hm | hm
  · exact absurd hm (by decide)
  rcases Text.mem_joinWith hm with hm | ⟨x, hx, hm⟩
  · exact absurd hm (by decide)
  · exact hnames x (List.mem_reverse.1 hx) hm

end FileSystem

namespace Replacement

open FileSystem (boundedStart_eq_ok names_iff)
open FileTree (Keeps maxName maxPath)

variable {fs m s : FileSystem} {p q temporary : Path} {content : List UInt8} {k r t : Location}

/-! ## Targets that are settled -/

/-- `s` has the content at `r`, which the path `q` names, and no temporary file beside it -/
structure Settled (s : FileSystem) (q : Path) (content : List UInt8) (r : Location) : Prop where
  named : s.Names q r
  slash : q.endsInSlash = false
  file : s.tree.at? r = some (.file content)
  bare : ∀ name dir, r = name :: dir → s.tree.at? (temporaryName name :: dir) = none ∧ (temporaryName name).size ≤ maxName

theorem size_of_names (h : fs.Names p r) : p.size < maxPath := by
  obtain ⟨_, _, _, ⟨_, _, hs, -⟩, -⟩ := names_iff.1 h
  exact (boundedStart_eq_ok.1 hs).2.2.1

theorem run_makeParent_of_names (h : fs.Names p r) : (makeParent p).run fs = (.ok (), fs) := by
  apply run_makeParent_there
  intro dir hd hne
  obtain ⟨dir', name, n, d, ht, -, hr⟩ := FileSystem.tops_of_names h
  obtain rfl : dir' = dir := Option.some.inj (ht.parent.symm.trans hd)
  exact (FileSystem.leads_of_reaches ht hne hr).2.contains

/-- a path that is too long names no temporary file, so nothing is done -/
theorem run_fillAndMove_tooLong (q : Path) (content : List UInt8) (h : temporary? p = some temporary)
    (hlong : maxPath ≤ temporary.size) : ∃ fault, (fillAndMove temporary q content).run s = (.error fault, s) := by
  have hnone : ∀ t, ¬ s.Names temporary t := fun t ht => absurd (size_of_names ht) (Nat.not_lt.2 hlong)
  have hrefused : ∀ c, s.newFile temporary ≠ .ok (c, true) := by
    intro c hc
    obtain ⟨t, ht⟩ := names_of_newFile h hc
    exact hnone t ht
  obtain ⟨fault, hrun⟩ := run_fillAndMove_refused q content hrefused
  refine ⟨fault, ?_⟩
  rcases FileSystem.remove_cases s temporary with hs | ⟨t, e, ht, -⟩
  · rw [hrun, hs]
  · exact absurd ht (hnone t)

/-- a settled target is replaced by what it is, unless the temporary path is too long; then nothing is done -/
theorem Settled.run_planTarget (h : Settled s q content r) (htemp : temporary? q = some temporary) :
    (temporary.size < maxPath → (planTarget q content).run s = (.ok (), s)) ∧
      (maxPath ≤ temporary.size → ∃ fault, (planTarget q content).run s = (.error fault, s)) := by
  rw [run_planTarget_behind (run_makeParent_of_names h.named) htemp]
  refine ⟨?_, run_fillAndMove_tooLong q content htemp⟩
  intro hsize
  obtain ⟨_, name, _, dir, -, rfl, -⟩ := FileSystem.tops_of_names h.named
  obtain ⟨hgone, hfit⟩ := h.bare name dir rfl
  have ht := names_temporary_of_names htemp h.named hsize hfit
  exact run_fillAndMove_settled htemp h.named h.slash ht h.file hgone

/-! ## Targets after a replacement -/

theorem target_of_file (hn : s.Names p r) (he : s.tree.at? r = some (.file content)) : target s p = p := by
  apply target_of_not_isLink
  by_contra hl
  obtain ⟨k, link, hk, hlink, -⟩ := FileSystem.names_of_isLink (by simpa using hl)
  obtain rfl := hn.unique hk
  exact absurd (he.symm.trans hlink) (by simp)

theorem Landed.bare_beside {name : Text} {dir : Location} (h : Landed m s q content (name :: dir) t) :
    s.tree.at? (temporaryName name :: dir) = none ∧ (temporaryName name).size ≤ maxName := by
  obtain ⟨temporary, htemp, ht⟩ := h.temporary
  have hne := ne_of_beside htemp h.target ht
  obtain ⟨name', dir', -, hl, rfl⟩ := beside htemp h.target ht
  obtain ⟨rfl, rfl⟩ := List.cons.inj hl
  obtain ⟨_, _, _, -, -, -, hfit, hl⟩ := names_iff.1 ht
  obtain ⟨rfl, -⟩ := List.cons.inj hl
  exact ⟨by rw [h.at?, if_neg hne.symm, if_pos rfl], hfit⟩

theorem Landed.settled (h : Landed m s p content r t) (hn : s.Names q r) (hs : q.endsInSlash = false) :
    Settled s q content r := by
  refine ⟨hn, hs, h.file, ?_⟩
  rintro name dir rfl
  exact h.bare_beside

/-- a link that led nowhere and reads what was written is a file by now, or has a canonical path, or still leads to its target
without one -/
theorem target_of_landed_dangling {link : Path} {e : IoFault} (hn : fs.Names p k) (he : fs.tree.at? k = some (.link link))
    (hs : p.endsInSlash = false) (hc : fs.canonicalPath p = .error e)
    (h : Landed (made fs (target fs p)) s (target fs p) content r t) (hread : s.read p = .ok content) :
    Settled s (target s p) content r ∨ target s p = r.path ∧ s.canonicalPath p = .ok r.path := by
  have hafter : s.locate .target p ≠ .error (.system .tooManyLinks) := by
    obtain ⟨l, e, hl, -⟩ := FileSystem.locate_of_read hread
    rw [hl]
    simp
  have hgrown := grown_made fs (target fs p)
  obtain ⟨dirp, name, n, dir, ht, rfl, hr⟩ := FileSystem.tops_of_names hn
  have hn' := hn.keep hgrown.keeps hgrown.cwd
  have he' := hgrown.stays he
  rw [target_of_dangling ht hn he hs hc] at h hn' he'
  obtain ⟨hap, haq⟩ := (reads_back_link ht.parent hn' he' hs h hafter).1 hread
  by_cases hk : r = name :: dir
  · subst hk
    have hnames := h.names_of_avoids hn' hap (by rw [h.file]; simp)
    rw [target_of_file hnames h.file]
    exact .inl (h.settled hnames hs)
  · have hlink := h.stays (Ne.symm hk) he' (.inr ⟨link, rfl⟩)
    have hnames := h.names_of_avoids hn' hap (by rw [hlink]; simp)
    cases hc' : s.canonicalPath p with
    | ok q =>
      obtain ⟨_, _, _, hr', -, -, -, hl'⟩ := names_iff.1 hnames
      obtain ⟨rfl, rfl⟩ := List.cons.inj hl'
      have hlocate := h.locate_link ht hnames hr' hlink hs hafter haq
      have hfind : s.find .target p = .ok (r, .file content) := by simp only [FileSystem.find, hlocate]
      obtain rfl : q = r.path := FileSystem.canonicalPath_of_find hc' hfind
      exact .inr ⟨target_of_canonicalPath (FileSystem.isLink_of_names hnames hs hlink) hc', rfl⟩
    | error e =>
      rw [target_of_dangling ht hnames hlink hs hc']
      exact .inl (h.settled (h.names haq) h.slash)

/-- a path that reads what was written is resolved to a path that names it, or to its canonical path -/
theorem target_of_landed (h : Landed (made fs (target fs p)) s (target fs p) content r t)
    (hread : s.read p = .ok content) :
    Settled s (target s p) content r ∨ target s p = r.path ∧ s.canonicalPath p = .ok r.path := by
  cases hl : fs.isLink p with
  | false =>
    rw [target_of_not_isLink hl] at h
    have hn := h.names ((reads_back_plain h).1 hread)
    rw [target_of_file hn h.file]
    exact .inl (h.settled hn h.slash)
  | true =>
    obtain ⟨k, link, hn, he, hs⟩ := FileSystem.names_of_isLink hl
    cases hc : fs.canonicalPath p with
    | ok q =>
      rw [target_of_canonicalPath hl hc] at h
      obtain ⟨hcanonical, hkeeps, -⟩ := h.canonicalPath hn hc
      have hcwd : s.cwd = fs.cwd := h.cwd.trans (grown_made fs q).cwd
      exact .inr ⟨target_of_canonicalPath (isLink_keep hkeeps hcwd hl) hcanonical, hcanonical⟩
    | error e => exact target_of_landed_dangling hn he hs hc h hread

/-! ## Saving again -/

theorem Landed.settled_path (h : Landed m s q content r t) (ha : p.isAbsolute = true) (hc : s.canonicalPath p = .ok r.path)
    (hnul : '\x00' ∉ r.path) : Settled s r.path content r := by
  have hn := FileSystem.names_of_canonicalPath ha hc h.file (by simp) hnul
  obtain ⟨_, name, _, dir, ht, rfl, -⟩ := FileSystem.tops_of_names hn
  exact h.settled hn (Path.endsInSlash_path ht.isName)

theorem Settled.temporary? (h : Settled s q content r) : ∃ temporary, temporary? q = some temporary := by
  obtain ⟨_, _, _, ⟨_, _, -, hx, -⟩, hdots, -⟩ := names_iff.1 h.named
  exact temporary?_of_last hx hdots

/-- what is saved and reads back is saved again, and nothing changes, unless the temporary path is too long by now: then it is
not saved again, and nothing changes -/
theorem save_again (ha : p.isAbsolute = true) (hsave : Rendering.save p content fs = (.ok (), s))
    (hlink : ∀ temporary, temporary? (target fs p) = some temporary →
      (made fs (target fs p)).isLink temporary = false)
    (hnames : fs.NulFree) (hread : s.read p = .ok content) :
    ∃ temporary, temporary? (target s p) = some temporary ∧
      (temporary.size < maxPath → Rendering.save p content s = (.ok (), s)) ∧
      (maxPath ≤ temporary.size → ∃ reason, Rendering.save p content s = (.error (.outputUnwritable p reason), s)) := by
  obtain ⟨r, t, h⟩ := landed_of_save hsave hlink
  have hsettled : Settled s (target s p) content r := by
    rcases target_of_landed h hread with hsettled | ⟨htarget, hc⟩
    · exact hsettled
    · rw [htarget]
      exact h.settled_path ha hc ((hnames.grown (grown_made fs _)).nul_not_mem_path h.target)
  obtain ⟨temporary, htemp⟩ := hsettled.temporary?
  obtain ⟨hshort, hlong⟩ := hsettled.run_planTarget htemp
  refine ⟨temporary, htemp, ?_, ?_⟩
  · intro hsize
    simp only [Rendering.save, run_plan, hshort hsize]
    rfl
  · intro hsize
    obtain ⟨fault, hrun⟩ := hlong hsize
    exact ⟨fault.message, by simp only [Rendering.save, run_plan, hrun]; rfl⟩

/-- a replacement that gets through has filled its temporary file -/
theorem newFile_of_run (hrun : (fillAndMove temporary q content).run m = (.ok (), s)) :
    ∃ c, m.newFile temporary = .ok (c, true) := by
  by_contra hc
  obtain ⟨fault, hrefused⟩ := run_fillAndMove_refused q content fun c he => hc ⟨c, he⟩
  exact absurd (hrefused.symm.trans hrun) (by simp)

/-- a link at the temporary path has gone to the target, if the replacement got through -/
theorem link_is_moved {link : Path} (h : temporary? q = some temporary) (ht : m.Names temporary t)
    (he : m.tree.at? t = some (.link link)) (hrun : (fillAndMove temporary q content).run m = (.ok (), s)) :
    s.tree.at? t = none := by
  obtain ⟨c, hc⟩ := newFile_of_run hrun
  obtain ⟨t', e, ht', hm, hct⟩ := movable_of_newFile content h hc
  obtain rfl := ht.unique ht'
  rcases hct with ⟨rfl, -⟩ | ⟨hne, he', -⟩
  · obtain ⟨x, hx⟩ := file_of_newFile hc _ he
    exact absurd hx (by simp)
  obtain rfl : .link link = e := Option.some.inj (he.symm.trans he')
  cases hr : (m.put c (.file content)).destination q with
  | error fault =>
    rw [run_fillAndMove_kept hc hm hr] at hrun
    exact absurd hrun (by simp)
  | ok r =>
    rw [run_fillAndMove_moved hc hm hr, Prod.mk.injEq] at hrun
    obtain ⟨hn, -, hd⟩ := FileSystem.destination_iff.1 hr
    obtain ⟨htm, hat, -, -⟩ := FileSystem.movable_iff.1 hm
    rw [← hrun.2, FileSystem.tree_withTree, FileSystem.at?_move hat (by simp) (hn.admits hd),
      if_neg (ne_of_beside h hn htm).symm, if_pos rfl]

/-- what is saved again, and changes nothing, is read -/
theorem read_of_saved_again (hsave : Rendering.save p content s = (.ok (), s))
    (hafter : s.locate .target p ≠ .error (.system .tooManyLinks)) : s.read p = .ok content := by
  have hgrown := grown_made s (target s p)
  have hbefore : ∀ k link, (made s (target s p)).tree.at? k = some (.link link) → s.tree.at? k = some (.link link) := by
    intro k link he
    rcases hgrown.at? k with hk | ⟨-, hd, -⟩
    · rw [← hk, he]
    · exact absurd (hd.symm.trans he) (by simp)
  have hlink : ∀ temporary, temporary? (target s p) = some temporary →
      (made s (target s p)).isLink temporary = false := by
    intro temporary htemp
    obtain ⟨temporary', htemp', hrun⟩ := run_of_save hsave
    obtain rfl := Option.some.inj (htemp.symm.trans htemp')
    by_contra hl
    obtain ⟨t, link, ht, he, -⟩ := FileSystem.names_of_isLink (by simpa using hl)
    exact absurd ((link_is_moved htemp ht he hrun).symm.trans (hbefore t link he)) (by simp)
  obtain ⟨r, t, h⟩ := landed_of_save hsave hlink
  obtain ⟨r', hback⟩ := reads_back hsave hlink hafter
  obtain rfl := h.target.unique hback.place
  refine hback.unless_link ?_
  intro link he
  exact absurd ((hbefore r link he).symm.trans h.file) (by simp)

/-- **Saving again.** What is saved is saved again, and nothing changes, exactly if it is read, and the temporary path is not
too long. -/
theorem save_again_iff (ha : p.isAbsolute = true) (hsave : Rendering.save p content fs = (.ok (), s))
    (hlink : ∀ temporary, temporary? (target fs p) = some temporary →
      (made fs (target fs p)).isLink temporary = false)
    (hafter : s.locate .target p ≠ .error (.system .tooManyLinks)) (hnames : fs.NulFree) :
    Rendering.save p content s = (.ok (), s) ↔ s.read p = .ok content ∧
      ∃ temporary, temporary? (target s p) = some temporary ∧ temporary.size < maxPath := by
  constructor
  · intro hagain
    obtain ⟨temporary, htemp, hrun⟩ := run_of_save hagain
    obtain ⟨c, hc⟩ := newFile_of_run hrun
    obtain ⟨t, ht⟩ := names_of_newFile htemp hc
    exact ⟨read_of_saved_again hagain hafter, temporary, htemp, size_of_names ht⟩
  · rintro ⟨hread, temporary, htemp, hsize⟩
    obtain ⟨temporary', htemp', hshort, -⟩ := save_again ha hsave hlink hnames hread
    obtain rfl := Option.some.inj (htemp.symm.trans htemp')
    exact hshort hsize

end Replacement

namespace Rendering

open Replacement (target temporary? made ReadsBack)
open FileTree (maxPath)

variable {fs s : FileSystem} {template output : Path} {b : Binding} {header d : Text}

theorem save_of_render (h : render template output b header fs = (.ok (), s)) :
    ∃ d, document fs template b header = .ok d ∧ save output (Utf8.encode d) fs = (.ok (), s) := by
  unfold render at h
  split at h
  · exact absurd h (by simp)
  · next d hd => exact ⟨d, hd, h⟩

theorem document_congr (h : s.read template = fs.read template) :
    document s template b header = document fs template b header := by
  simp only [document, h]

/-- **Rendering again.** A render that succeeded, of a template that is as it was, succeeds again and changes nothing exactly if
its output reads what was rendered and its temporary path is not too long by now. The output reads it exactly if its way, and
that of the path it was resolved to, has no need of what the render took the place of, which is so unless that was a link.
With a temporary path that is too long, the second render fails and changes nothing. -/
theorem render_again (ha : output.isAbsolute = true) (hrender : render template output b header fs = (.ok (), s))
    (htemplate : s.read template = fs.read template)
    (hlink : ∀ temporary, temporary? (target fs output) = some temporary →
      (made fs (target fs output)).isLink temporary = false)
    (hafter : s.locate .target output ≠ .error (.system .tooManyLinks)) (hnames : fs.NulFree) :
    ∃ d r, document fs template b header = .ok d ∧ ReadsBack fs s output (Utf8.encode d) r ∧
      (render template output b header s = (.ok (), s) ↔ s.read output = .ok (Utf8.encode d) ∧
        ∃ temporary, temporary? (target s output) = some temporary ∧ temporary.size < maxPath) ∧
      (s.read output = .ok (Utf8.encode d) →
        ∃ temporary, temporary? (target s output) = some temporary ∧ (maxPath ≤ temporary.size →
          ∃ reason, render template output b header s = (.error (.outputUnwritable output reason), s))) := by
  obtain ⟨d, hd, hsave⟩ := save_of_render hrender
  obtain ⟨r, hback⟩ := Replacement.reads_back hsave hlink hafter
  have hagain : render template output b header s = save output (Utf8.encode d) s := by
    simp only [render, document_congr htemplate, hd]
  rw [hagain]
  refine ⟨d, r, hd, hback, Replacement.save_again_iff ha hsave hlink hafter hnames, ?_⟩
  intro hread
  obtain ⟨temporary, htemp, -, hlong⟩ := Replacement.save_again ha hsave hlink hnames hread
  exact ⟨temporary, htemp, hlong⟩

/-! ## Links that are lost -/

def linkToNewDirectory : FileSystem :=
  ⟨(FileTree.empty.insert ["t".toList] (.file (Utf8.encode "x=\x7bsuffix\x7d\n".toList))).insert ["l".toList]
    (.link "sub".toList), []⟩

/-- **A link on the way is lost.** The directory `sub` is made, and the path, which was taken as it is spelled, leads along `l`
back to `l`. The file takes the place of that link, so the path leads nowhere, and the second render fails. -/
theorem link_on_way_not_rendered_again :
    let first := render "/t".toList "/sub/../l/../l".toList Binding.builtinFallback [] linkToNewDirectory
    let second := render "/t".toList "/sub/../l/../l".toList Binding.builtinFallback [] first.2
    first.1 = .ok () ∧ first.2.read "/sub/../l/../l".toList = .error (.system .notDirectory) ∧
      second ≠ (.ok (), first.2) ∧ second.1 ≠ .ok () := by
  intro first second
  have hdone : first.1 = .ok () := by decide +kernel
  have hread : first.2.read "/sub/../l/../l".toList = .error (.system .notDirectory) := by decide +kernel
  have hfirst : first = (.ok (), first.2) := by rw [← hdone]
  have hlink : ∀ temporary, temporary? (target linkToNewDirectory "/sub/../l/../l".toList) = some temporary →
      (made linkToNewDirectory (target linkToNewDirectory "/sub/../l/../l".toList)).isLink temporary = false := by
    intro temporary ht
    have htemp : temporary? (target linkToNewDirectory "/sub/../l/../l".toList) = some "/sub/../l/../.l.tmp".toList := by
      decide +kernel
    obtain rfl := Option.some.inj (htemp.symm.trans ht)
    decide +kernel
  have htemplate : first.2.read "/t".toList = linkToNewDirectory.read "/t".toList := by decide +kernel
  have hafter : first.2.locate .target "/sub/../l/../l".toList ≠ .error (.system .tooManyLinks) := by decide +kernel
  have hnames : linkToNewDirectory.NulFree := by decide +kernel
  obtain ⟨d, r, -, -, hagain, -⟩ := render_again (by decide) hfirst htemplate hlink hafter hnames
  refine ⟨hdone, hread, ?_, by decide +kernel⟩
  intro hsecond
  obtain ⟨hread', -⟩ := hagain.1 hsecond
  exact absurd (hread.symm.trans hread') (by simp)

/-- a link that leads nowhere, along a link to a directory -/
def linkIntoDirectory : FileSystem :=
  ⟨(((FileTree.empty.insert ["t".toList] (.file (Utf8.encode "x=\x7bsuffix\x7d\n".toList))).insert ["gen".toList] .directory).insert
    ["p".toList] (.link "gen".toList)).insert ["o".toList] (.link "p/f".toList), []⟩

/-- no link is lost: the temporary file is beside the path that is spelled the first time, beside the canonical path then -/
example :
    let first := render "/t".toList "/o".toList Binding.builtinFallback [] linkIntoDirectory
    let second := render "/t".toList "/o".toList Binding.builtinFallback [] first.2
    first.1 = .ok () ∧ second.1 = .ok () ∧ second.2.tree = first.2.tree ∧
      temporary? (target linkIntoDirectory "/o".toList) = some "/p/.f.tmp".toList ∧
      temporary? (target first.2 "/o".toList) = some "/gen/.f.tmp".toList := by
  decide +kernel

/-- a link by the name of a temporary file, and a directory by the name of its target's -/
def linkBesideOutput : FileSystem :=
  ⟨((FileTree.empty.insert ["t".toList] (.file (Utf8.encode "x=\x7bsuffix\x7d\n".toList))).insert [".o.tmp".toList]
    (.link "f".toList)).insert [".f.tmp".toList] .directory, []⟩

/-- the temporary path is no link before the first render, but one as soon as the directory `gen` is made: the link takes the
place of the output -/
theorem link_beside_output_not_rendered_again :
    let output : Path := "/gen/../o".toList
    let first := render "/t".toList output Binding.builtinFallback [] linkBesideOutput
    temporary? output = some "/gen/../.o.tmp".toList ∧ linkBesideOutput.isLink "/gen/../.o.tmp".toList = false ∧
      first.1 = .ok () ∧ first.2.lstat output = .ok (.link "f".toList) ∧
      (render "/t".toList output Binding.builtinFallback [] first.2).1 ≠ .ok () := by
  decide +kernel

end Rendering
end BranchRender
