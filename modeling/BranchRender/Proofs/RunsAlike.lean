/-
RUNS ALIKE: operations and replacements that do the same by two paths.

- Two runs are `RunsAlike` if their answers are related and their files have one tree; the working directory may differ.
  They have the `SameAnswer` if the answers are the same, or both fail; in the same words if the paths are the same.
- By paths that are looked up alike an operation gives one answer and leaves one tree (`SamePlace.create`, `rename`).
- Directories above twins are made alike (`makeAll_alike`): at each parent, from below, the next one up is a twin again,
  or the common directory is reached and nothing is missing any more.
- A twin of a link is a link, and what is written in its place are twins again (`twin_target`), so a replacement of one
  does the same as of the other (`plan_alike`). No limit may be met where the directories above are made.

Main statements: `makeAll_alike`, `twin_target`, `plan_alike`.
-/
import BranchRender.Proofs.AllOrNothing
import BranchRender.Proofs.Counterparts

namespace BranchRender

/-! ## Two runs -/

variable {α β ε : Type}

/-- related answers, and files with one tree -/
structure RunsAlike (R : α → β → Prop) (x : α × FileSystem) (y : β × FileSystem) : Prop where
  answer : R x.1 y.1
  tree : x.2.tree = y.2.tree

/-- the same answer, or two failures, the same ones if `same` holds -/
inductive SameAnswer (same : Prop) : Except ε α → Except ε α → Prop
  | same {a : Except ε α} : SameAnswer same a a
  | failed {e e' : ε} (h : same → e = e') : SameAnswer same (.error e) (.error e')

theorem SameAnswer.mapError {same : Prop} {ε' : Type} {f g : ε → ε'} (hfg : same → f = g) (a : Except ε α) :
    SameAnswer same (a.mapError f) (a.mapError g) := by
  cases a with
  | ok a => exact .same
  | error e => exact .failed fun hs => by rw [hfg hs]

theorem SameAnswer.mono {same same' : Prop} {a b : Except ε α} (h : SameAnswer same a b) (hs : same' → same) :
    SameAnswer same' a b := by
  cases h with
  | same => exact .same
  | failed h => exact .failed (h ∘ hs)

/-! ## Operations -/

namespace FileSystem

open FileTree (Front Keeps Passes maxLinks maxPath)

variable {fs s : FileSystem} {p q p' q' d e : Path} {l : Location}

namespace SamePlace

theorem find (h : SamePlace fs s p q) (aim : FileTree.Aim) : fs.find aim p = s.find aim q := by
  simp only [FileSystem.find, h.locate]

theorem stat (h : SamePlace fs s p q) : fs.stat p = s.stat q := by simp only [FileSystem.stat, h.find]

theorem lstat (h : SamePlace fs s p q) : fs.lstat p = s.lstat q := by simp only [FileSystem.lstat, h.find]

theorem contains (h : SamePlace fs s p q) : fs.contains p = s.contains q := by simp only [FileSystem.contains, h.stat]

theorem isDirectory (h : SamePlace fs s p q) : fs.isDirectory p = s.isDirectory q := by
  simp only [FileSystem.isDirectory, h.stat]

theorem isFile (h : SamePlace fs s p q) : fs.isFile p = s.isFile q := by simp only [FileSystem.isFile, h.stat]

theorem isLink (h : SamePlace fs s p q) : fs.isLink p = s.isLink q := by simp only [FileSystem.isLink, h.lstat]

theorem readLink (h : SamePlace fs s p q) : fs.readLink p = s.readLink q := by simp only [FileSystem.readLink, h.lstat]

theorem read (h : SamePlace fs s p q) : fs.read p = s.read q := by simp only [FileSystem.read, h.stat]

theorem readText (h : SamePlace fs s p q) : fs.readText p = s.readText q := by simp only [FileSystem.readText, h.read]

theorem inDirectory (h : SamePlace fs s p q) (dir : Location) (name : Text) :
    fs.inDirectory dir name = s.inDirectory dir name := by simp only [FileSystem.inDirectory, h.tree]

theorem newLocation (h : SamePlace fs s p q) (otherwise : Option SystemError) :
    fs.newLocation p otherwise = s.newLocation q otherwise := by
  simp only [FileSystem.newLocation, h.lastOf, h.slash, h.tree, h.inDirectory]

theorem newFile (h : SamePlace fs s p q) : fs.newFile p = s.newFile q := by simp only [FileSystem.newFile, h.locate]

theorem movable (h : SamePlace fs s p q) : fs.movable p = s.movable q := by
  simp only [FileSystem.movable, h.lastOf, h.slash, h.tree, h.inDirectory]

theorem destination (h : SamePlace fs s p q) : fs.destination p = s.destination q := by
  simp only [FileSystem.destination, h.lastOf, h.slash, h.tree, h.inDirectory]

theorem create (h : SamePlace fs s p q) : RunsAlike Eq (fs.perform (.create p)) (s.perform (.create q)) := by
  simp only [perform, h.newFile]
  split
  · exact ⟨rfl, h.tree⟩
  · exact ⟨rfl, h.tree⟩
  · exact ⟨rfl, congrArg (FileTree.insert · _ _) h.tree⟩

theorem remove (h : SamePlace fs s p q) : RunsAlike Eq (fs.perform (.remove p)) (s.perform (.remove q)) := by
  simp only [perform, h.movable]
  split
  · exact ⟨rfl, h.tree⟩
  · exact ⟨rfl, congrArg (FileTree.erase · _) h.tree⟩

theorem rename (h : SamePlace fs s p q) (h' : SamePlace fs s p' q') :
    RunsAlike Eq (fs.perform (.rename p p')) (s.perform (.rename q q')) := by
  simp only [perform, h.movable, h'.destination]
  split
  · exact ⟨rfl, h.tree⟩
  · split
    · exact ⟨rfl, h.tree⟩
    · exact ⟨rfl, congrArg (move · _ _ _) h.tree⟩

end SamePlace

theorem append_alike (ht : fs.tree = s.tree) (l : Location) (bytes : List UInt8) :
    RunsAlike Eq (fs.perform (.append l bytes)) (s.perform (.append l bytes)) := by
  simp only [perform, ht]
  split
  · exact ⟨rfl, ht⟩
  · split
    · exact ⟨rfl, ht⟩
    · exact ⟨rfl, rfl⟩

theorem sync_alike (ht : fs.tree = s.tree) (l : Location) :
    RunsAlike Eq (fs.perform (.sync l)) (s.perform (.sync l)) := by
  simp only [perform, ht]
  split <;> exact ⟨rfl, ht⟩

/-- two paths beside each other are twins, or lead to one directory -/
theorem Beside.leads (h : Beside fs.tree d e) (ht : fs.tree = s.tree) (hf : Fair fs s d e) :
    Twin fs.tree d e ∨ ∃ k, fs.Leads d k ∧ s.Leads e k := by
  cases h with
  | twin h => exact .inl h
  | @directory k ha hd he =>
    rcases hf with rfl | ⟨hwd, hwe⟩
    · exact .inl (.same ha.1)
    · have hnul : ∀ {r : Path}, Front fs.tree r.names k → '\x00' ∉ r := fun hr hm => by
        obtain ⟨n, hn, hm⟩ := Path.nul_mem_iff.1 hm
        exact hr.nulFree n hn hm
      obtain ⟨n, hpd⟩ := hd.passes
      obtain ⟨m, hpe⟩ := he.passes
      refine .inr ⟨k, ⟨[], n, ?_, hpd⟩, ⟨[], m, ?_, ht ▸ hpe⟩⟩
      · rw [boundedStart_of_within hwd ha.1, if_neg (hnul hd)]
      · rw [boundedStart_of_within hwe ha.2, if_neg (hnul he)]

end FileSystem

/-! ## Directories -/

namespace Plan

open FileSystem (Beside Fair SamePlace Twin)
open FileTree (Keeps)

variable {fs s u v : FileSystem} {d e q : Path} {above : List Path}

theorem keeps_makeAll (fs : FileSystem) (ps : List Path) : Keeps fs.tree ((makeAll ps).run fs).2.tree :=
  (grown_of_mayStop (mayStop_after _ _)).keeps

theorem keeps_above (h : fs.newLocation q none = .error (.system .notFound)) :
    Keeps ((makeAll above).run fs).2.tree ((makeAll (q :: above)).run fs).2.tree := by
  rw [run_makeAll_missing h]
  rcases (makeAll above).run fs with ⟨_ | _, fs'⟩
  · exact .refl _
  · simp only [retry]
    cases hn : fs'.newLocation q none with
    | ok l => exact (FileSystem.Grown.put hn (List.mem_singleton_self q)).keeps
    | error _ => exact .refl _

theorem retry_alike (h : SamePlace fs s d e) : RunsAlike Eq (retry d fs) (retry e s) := by
  simp only [retry, h.newLocation, h.isDirectory]
  split
  · exact ⟨rfl, congrArg (FileTree.insert · _ _) h.tree⟩
  · exact ⟨rfl, h.tree⟩

/-- a directory that is made at one place, or else those above it are made alike -/
theorem makeAll_cons_alike {above' : List Path} (h : SamePlace fs s d e)
    (habove : fs.newLocation d none = .error (.system .notFound) →
      RunsAlike Eq ((makeAll above).run fs) ((makeAll above').run s) ∧
        SamePlace ((makeAll above).run fs).2 ((makeAll above').run s).2 d e) :
    RunsAlike Eq ((makeAll (d :: above)).run fs) ((makeAll (e :: above')).run s) := by
  cases hn : fs.newLocation d none with
  | ok l =>
    rw [run_makeAll_new hn, run_makeAll_new (h.newLocation none ▸ hn)]
    exact ⟨rfl, congrArg (FileTree.insert · _ _) h.tree⟩
  | error fault =>
    by_cases hf : fault = .system .notFound
    · subst hf
      obtain ⟨⟨hanswer, htree⟩, hplace⟩ := habove hn
      rw [run_makeAll_missing hn, run_makeAll_missing (h.newLocation none ▸ hn)]
      rcases hr : (makeAll above).run fs with ⟨a, fs'⟩
      rcases hr' : (makeAll above').run s with ⟨a', s'⟩
      rw [hr, hr'] at hanswer htree hplace
      obtain rfl : a = a' := hanswer
      cases a with
      | error => exact ⟨rfl, htree⟩
      | ok => exact retry_alike hplace
    · rw [run_makeAll_refused hn hf, run_makeAll_refused (h.newLocation none ▸ hn) hf, h.isDirectory]
      exact ⟨rfl, h.tree⟩

/-- directories above twins are made alike, if no limit is met when they are made -/
theorem makeAll_alike {n m : Nat} (h : Twin fs.tree d e) (ht : fs.tree = s.tree) (hn : d.length ≤ n) (hm : e.length ≤ m)
    (hf : Fair u v d e) (hu : Keeps ((makeAll (Path.ancestorsUpTo n d)).run fs).2.tree u.tree)
    (hv : Keeps ((makeAll (Path.ancestorsUpTo m e)).run s).2.tree v.tree) :
    RunsAlike Eq ((makeAll (Path.ancestorsUpTo n d)).run fs) ((makeAll (Path.ancestorsUpTo m e)).run s) := by
  induction n generalizing m d e with
  | zero => exact absurd (List.eq_nil_of_length_eq_zero (Nat.le_zero.1 hn)) (FileSystem.ne_nil_of_isAbsolute h.absolute.1)
  | succ n ih =>
    cases m with
    | zero =>
      exact absurd (List.eq_nil_of_length_eq_zero (Nat.le_zero.1 hm)) (FileSystem.ne_nil_of_isAbsolute h.absolute.2)
    | succ m =>
      have hplace : SamePlace fs s d e :=
        h.samePlace ht (hf.of_keeps h.absolute ((keeps_makeAll fs _).trans hu) ((keeps_makeAll s _).trans hv))
      rw [Path.ancestorsUpTo, if_neg (FileSystem.ne_nil_of_isAbsolute h.absolute.1)] at hu ⊢
      rw [Path.ancestorsUpTo, if_neg (FileSystem.ne_nil_of_isAbsolute h.absolute.2)] at hv ⊢
      refine makeAll_cons_alike hplace fun hmissing => ?_
      have hu := (keeps_above hmissing).trans hu
      have hv := (keeps_above (hplace.newLocation none ▸ hmissing)).trans hv
      suffices halike : RunsAlike Eq _ _ from
        ⟨halike, (h.keep (keeps_makeAll fs _)).samePlace halike.tree (hf.of_keeps h.absolute hu hv)⟩
      rcases h.parent with ⟨hd, he⟩ | ⟨d', e', hd, he, hbeside⟩
      · rw [hd, he]
        exact ⟨rfl, ht⟩
      · rw [hd] at hu ⊢
        rw [he] at hv ⊢
        have hf' := hf.parent h.absolute hd he
        have hf'' := hf'.of_keeps hbeside.absolute ((keeps_makeAll fs _).trans hu) ((keeps_makeAll s _).trans hv)
        rcases hbeside.leads ht hf'' with htwin | ⟨k, hld, hle⟩
        · have hld := Path.length_parent_lt h.absolute.1 hd
          have hle := Path.length_parent_lt h.absolute.2 he
          exact ih htwin (by omega) (by omega) hf' hu hv
        · -- the common directory is there
          simp only [run_ancestors_of_leads _ hld, run_ancestors_of_leads _ hle]
          exact ⟨rfl, ht⟩

end Plan

/-! ## Replacements -/

namespace Replacement

open FileSystem (Beside Counterparts Fair SamePlace Twin Within)
open FileTree (Keeps Passes maxLinks)

variable {fs s : FileSystem} {u : FileTree} {p q t t' : Path}

theorem makeParent_alike (h : Twin fs.tree p q) (ht : fs.tree = s.tree) (hf : Fair (made fs p) (made s q) p q) :
    RunsAlike (SameAnswer (p = q)) ((makeParent p).run fs) ((makeParent q).run s) := by
  rcases h.parent with ⟨hp, hq⟩ | ⟨d, e, hd, he, hbeside⟩
  · rw [run_makeParent_there (by simp [hp]), run_makeParent_there (by simp [hq])]
    exact ⟨.same, ht⟩
  have hf' := hf.parent h.absolute hd he
  have hfair : Fair fs s d e := hf'.of_keeps hbeside.absolute (grown_made fs p).keeps (grown_made s q).keeps
  have hthere : fs.contains d = true → s.contains e = true →
      RunsAlike (SameAnswer (p = q)) ((makeParent p).run fs) ((makeParent q).run s) := by
    intro hcd hce
    rw [run_makeParent_there (by rw [hd]; rintro _ ⟨⟩ -; exact hcd),
      run_makeParent_there (by rw [he]; rintro _ ⟨⟩ -; exact hce)]
    exact ⟨.same, ht⟩
  rcases hbeside.leads ht hfair with htwin | ⟨k, hld, hle⟩
  · have hcontains := (htwin.samePlace ht hfair).contains
    cases hc : fs.contains d with
    | true => exact hthere hc (hcontains ▸ hc)
    | false =>
      have hrun := run_makeParent_missing hd (FileSystem.ne_nil_of_isAbsolute hbeside.absolute.1) hc
      have hrun' := run_makeParent_missing he (FileSystem.ne_nil_of_isAbsolute hbeside.absolute.2) (hcontains ▸ hc)
      have hu : made fs p = ((Plan.makeDirectories d).run fs).2 := congrArg Prod.snd hrun
      have hv : made s q = ((Plan.makeDirectories e).run s).2 := congrArg Prod.snd hrun'
      obtain ⟨hanswer, htree⟩ := Plan.makeAll_alike htwin ht (Nat.le_refl _) (Nat.le_refl _) hf'
        (by rw [hu]; exact .refl _) (by rw [hv]; exact .refl _)
      have hanswer : ((Plan.makeDirectories d).run fs).1 = ((Plan.makeDirectories e).run s).1 := hanswer
      rw [hrun, hrun', hanswer]
      refine ⟨.mapError (fun hpq => ?_) _, htree⟩
      obtain rfl : d = e := Option.some.inj (hd.symm.trans (hpq ▸ he))
      rfl
  · exact hthere hld.contains hle.contains

/-- a temporary file is filled by one path as by another -/
theorem fill_alike (h : SamePlace fs s t t') (content : List UInt8) :
    RunsAlike (SameAnswer (t = t')) ((fill t content).run fs) ((fill t' content).run s) := by
  obtain ⟨hanswer, htree⟩ := h.create
  simp only [fill, Plan.run_bind, Plan.run_change]
  rw [← hanswer]
  cases (fs.perform (.create t)).1 with
  | error e => exact ⟨.failed fun hs => by rw [hs], htree⟩
  | ok l =>
    obtain ⟨hanswer, htree⟩ := FileSystem.append_alike htree l content
    simp only [Plan.run_bind, Plan.run_change]
    rw [← hanswer]
    cases (FileSystem.perform _ (.append l content)).1 with
    | error e => exact ⟨.same, htree⟩
    | ok _ =>
      obtain ⟨hanswer, htree⟩ := FileSystem.sync_alike htree l
      simp only [Plan.run_bind, Plan.run_change]
      rw [← hanswer]
      exact ⟨.same, htree⟩

theorem sameWays_fill (fs : FileSystem) (t : Path) (content : List UInt8) :
    fs.SameWays ((fill t content).run fs).2 := by
  by_cases hc : ∃ c, fs.newFile t = .ok (c, true)
  · obtain ⟨c, hc⟩ := hc
    rw [run_fill hc]
    exact ⟨rfl, FileSystem.keeps_put (not_isWay_of_newFile hc) _, FileSystem.kept_by_put (by simp [Entry.IsWay])⟩
  · obtain ⟨fault, hrun⟩ := run_fill_refused content fun c he => hc ⟨c, he⟩
    rw [hrun]
    exact .refl fs

theorem fillAndMove_alike (hp : Twin fs.tree p q) (htemp : Twin fs.tree t t') (ht : fs.tree = s.tree)
    (hfp : Fair fs s p q) (hft : Fair fs s t t') (content : List UInt8) :
    RunsAlike (SameAnswer (p = q ∧ t = t')) ((fillAndMove t p content).run fs) ((fillAndMove t' q content).run s) := by
  obtain ⟨hanswer, htree⟩ := fill_alike (htemp.samePlace ht hft) content
  have hways := sameWays_fill fs t content
  have hways' := sameWays_fill s t' content
  have hplace := (htemp.keep hways.keeps).samePlace htree (hft.of_keeps htemp.absolute hways.kept hways'.kept)
  have hplace' := (hp.keep hways.keeps).samePlace htree (hfp.of_keeps hp.absolute hways.kept hways'.kept)
  simp only [fillAndMove, Plan.run_bind]
  generalize ((fill t content).run fs).1 = a at hanswer
  generalize ((fill t' content).run s).1 = a' at hanswer
  cases hanswer with
  | failed hfault =>
    simp only [run_giveUp]
    exact ⟨.failed fun hs => hfault hs.2, hplace.remove.tree⟩
  | same =>
    cases a with
    | error fault =>
      simp only [run_giveUp]
      exact ⟨.same, hplace.remove.tree⟩
    | ok _ =>
      obtain ⟨hanswer, htree'⟩ := hplace.rename hplace'
      simp only [Plan.run_bind, Plan.run_change]
      rw [← hanswer]
      rcases hr : FileSystem.perform _ (.rename t p) with ⟨e | _, m⟩
      · rcases hr' : FileSystem.perform _ (.rename t' q) with ⟨e' | _, m'⟩
        · obtain rfl := FileSystem.perform_error hr
          obtain rfl := FileSystem.perform_error hr'
          simp only [run_giveUp]
          exact ⟨.same, hplace.remove.tree⟩
        · rw [hr, hr'] at hanswer
          exact absurd hanswer (by simp)
      · rw [hr] at htree'
        exact ⟨.same, htree'⟩

theorem temporary_twin (h : Twin u p q) : temporary? p = none ∧ temporary? q = none ∨
    ∃ t t', temporary? p = some t ∧ temporary? q = some t' ∧ Twin u t t' := by
  cases htemp : temporary? p with
  | none =>
    refine .inl ⟨rfl, ?_⟩
    rw [temporary?, Option.map_eq_none_iff] at htemp
    rw [temporary?, ← h.fileName, htemp]
    rfl
  | some t =>
    obtain ⟨name, dir, hn, hd, rfl⟩ := temporary?_eq_some htemp
    rcases h.parent with ⟨hnone, -⟩ | ⟨d, e, hd', he, hbeside⟩
    · rw [hd] at hnone
      exact absurd hnone (by simp)
    · obtain rfl : dir = d := Option.some.inj (hd.symm.trans hd')
      refine .inr ⟨_, e.join (temporaryName name), rfl, ?_, hbeside.join fun _ => ⟨temporaryName name, ?_, ?_⟩⟩
      · simp only [temporary?, ← h.fileName, hn, he, Option.map_some]
      · have hname := isName_temporaryName (Path.names_of_fileName hn).1.2.1
        rw [Path.names_of_not_mem hname.1 hname.2.1]
        exact List.mem_singleton_self _
      · exact (Path.isDots_eq_false_iff.1 (isName_temporaryName (Path.names_of_fileName hn).1.2.1).2.2).1

theorem planTarget_alike (h : Twin fs.tree p q) (ht : fs.tree = s.tree) (hf : Fair (made fs p) (made s q) p q)
    (hft : ∀ t t', temporary? p = some t → temporary? q = some t' → Fair (made fs p) (made s q) t t')
    (content : List UInt8) :
    RunsAlike (SameAnswer (p = q)) ((planTarget p content).run fs) ((planTarget q content).run s) := by
  obtain ⟨hanswer, htree⟩ := makeParent_alike h ht hf
  have htree : (made fs p).tree = (made s q).tree := htree
  rw [run_planTarget, run_planTarget]
  generalize ((makeParent p).run fs).1 = a at hanswer
  generalize ((makeParent q).run s).1 = a' at hanswer
  cases hanswer with
  | failed hfault => exact ⟨.failed hfault, htree⟩
  | same =>
    cases a with
    | error fault => exact ⟨.same, htree⟩
    | ok _ =>
      rcases temporary_twin (h.keep (grown_made fs p).keeps) with ⟨hp, hq⟩ | ⟨t, t', hp, hq, htwin⟩
      · rw [hp, hq]
        exact ⟨.same, htree⟩
      · rw [hp, hq]
        obtain ⟨hanswer, htree⟩ :=
          fillAndMove_alike (h.keep (grown_made fs p).keeps) htwin htree hf (hft t t' hp hq) content
        exact ⟨hanswer.mono fun hpq => ⟨hpq, Option.some.inj (hp.symm.trans (hpq ▸ hq))⟩, htree⟩

/-! ## Links -/

theorem target_of_isAbsolute (ht : fs.tree = s.tree) (ha : p.isAbsolute = true) : target fs p = target s p := by
  have hplace := FileSystem.samePlace_of_isAbsolute ht ha
  simp only [target, hplace.isLink, hplace.readLink, FileSystem.canonicalPath_of_isAbsolute ht ha]

/-- a link that leads along nothing but `.` leads to its own directory, and has the canonical path of that -/
theorem canonicalPath_of_dots {l : Location} {target : Path} (ha : p.isAbsolute = true) (hw : fs.Within p)
    (hn : fs.Names p l) (he : fs.tree.at? l = some (.link target)) (hdots : ∀ n ∈ target.names, n = ['.']) :
    (∃ q, fs.canonicalPath p = .ok q) ∨ fs.canonicalPath p = .error (.system .nameTooLong) := by
  obtain ⟨n, dir, name, ⟨start, xs, hs, hx, hpass⟩, hd, hdir, hsize, rfl⟩ := FileSystem.names_iff.1 hn
  obtain rfl : start = [] := by rw [FileSystem.start_of_boundedStart hs, if_pos ha]
  cases n with
  | zero =>
    -- there would be no link left to use
    refine absurd ?_ (hw.walk ha)
    rw [hx, FileTree.walk_of_passes hpass _ (List.cons_ne_nil _ _)]
    exact (FileTree.tooManyLinks_name hd).2 ⟨by simp, hdir, hsize, .inr ⟨target, he, by simp, rfl⟩⟩
  | succ n =>
    obtain ⟨m, hm⟩ : ∃ m, target.names = List.replicate m ['.'] := ⟨_, List.eq_replicate_of_mem hdots⟩
    have hlink : Passes fs.tree (n + 1) dir [name] n (dir.afterLink target) :=
      .along hd hsize he (by rw [List.append_nil, hm]; exact FileTree.passes_dots _ _ _ _)
    have hnul := (FileSystem.boundedStart_eq_ok.1 hs).1
    have hcanonical := FileTree.canonical_of_passes (hpass.append hlink) p.endsInSlash
    rw [← hx] at hcanonical
    simp only [FileSystem.canonicalPath, FileSystem.canonical, FileSystem.start_absolute fs hnul ha, FileTree.at?_root,
      ne_eq, not_true_eq_false, ite_false]
    rcases hcanonical with hc | hc
    · exact .inl ⟨_, by rw [hc]; rfl⟩
    · exact .inr (by rw [hc]; rfl)

/-- no limit is met in writing by a path -/
structure Clear (fs : FileSystem) (p : Path) : Prop where
  within : fs.Within p
  /-- nor in what it leads to, with all links replaced -/
  canonical : fs.canonicalPath p ≠ .error (.system .nameTooLong)
  target : (made fs (target fs p)).Within (target fs p)
  temporary : ∀ t, temporary? (Replacement.target fs p) = some t → (made fs (Replacement.target fs p)).Within t

instance (fs : FileSystem) (p : Path) : Decidable (Clear fs p) :=
  decidable_of_iff (fs.Within p ∧ fs.canonicalPath p ≠ .error (.system .nameTooLong) ∧
    (made fs (target fs p)).Within (target fs p) ∧ ∀ t ∈ temporary? (target fs p), (made fs (target fs p)).Within t)
    ⟨fun h => ⟨h.1, h.2.1, h.2.2.1, h.2.2.2⟩, fun h => ⟨h.within, h.canonical, h.target, h.temporary⟩⟩

/-- what counterparts lead to is the same, or twins -/
theorem twin_target (h : Counterparts fs s p q) (hlong : p = q ∨ Clear fs p) :
    Twin fs.tree (target fs p) (target s q) := by
  have hplace := h.twin.samePlace h.tree h.fair
  cases hl : fs.isLink p with
  | false =>
    rw [target_of_not_isLink hl, target_of_not_isLink (hplace.isLink ▸ hl)]
    exact h.twin
  | true =>
    obtain ⟨l, link, hn, he, hslash⟩ := FileSystem.names_of_isLink hl
    have hl' : s.isLink q = true := hplace.isLink ▸ hl
    have hcanonical := h.canonical
    cases hp : fs.canonicalPath p with
    | ok r =>
      have hq : s.canonicalPath q = .ok r := toOption_eq_some.1 (hcanonical ▸ toOption_eq_some.2 hp)
      rw [target_of_canonicalPath hl hp, target_of_canonicalPath hl' hq]
      obtain ⟨k, -, rfl⟩ := map_eq_ok.1 hp
      exact .same (Location.isAbsolute_path k)
    | error fault =>
      have hread : fs.readLink p = .ok link := by simp only [FileSystem.readLink, FileSystem.lstat_of_names hn hslash he]
      obtain ⟨dir, _, _, _, htops, -⟩ := FileSystem.tops_of_names hn
      rcases h.twin.parent with ⟨hnone, -⟩ | ⟨d, e, hd, he', hbeside⟩
      · rw [htops.parent] at hnone
        exact absurd hnone (by simp)
      cases hq : s.canonicalPath q with
      | ok r => rw [hp, hq] at hcanonical; exact absurd hcanonical (by simp [Except.toOption])
      | error fault' =>
        simp only [target, hl, hl', hp, hq, hread, hplace.readLink ▸ hread, hd, he', Bool.not_true, Bool.false_eq_true,
          ite_false]
        rcases hlong with rfl | hclear
        · obtain rfl : d = e := Option.some.inj (hd.symm.trans he')
          cases habs : link.isAbsolute with
          | true => rw [Path.join_absolute habs]; exact .same habs
          | false => exact .same (FileSystem.isAbsolute_join hbeside.absolute.1)
        · refine hbeside.join fun _ => ?_
          by_contra hdots
          rcases canonicalPath_of_dots h.twin.absolute.1 hclear.within hn he
            (fun n hn => Decidable.not_not.1 fun hne => hdots ⟨n, hn, hne⟩) with ⟨r, hok⟩ | hlong
          · rw [hp] at hok
            exact absurd hok (by simp)
          · exact hclear.canonical hlong

/-- **Counterparts are replaced alike**, if they are one path, or stay clear of the limits. -/
theorem plan_alike (h : Counterparts fs s p q) (hc : p = q ∨ Clear fs p ∧ Clear s q) (content : List UInt8) :
    RunsAlike (SameAnswer (p = q)) ((plan p content).run fs) ((plan q content).run s) := by
  have htwin := twin_target h (hc.imp id And.left)
  have hsame : p = q → target fs p = target s q := by
    rintro rfl
    exact target_of_isAbsolute h.tree h.twin.absolute.1
  rw [run_plan, run_plan]
  obtain ⟨hanswer, htree⟩ := planTarget_alike htwin h.tree (hc.imp hsame fun ⟨hp, hq⟩ => ⟨hp.target, hq.target⟩)
    (fun t t' ht ht' => hc.imp (fun hpq => Option.some.inj (ht.symm.trans (hsame hpq ▸ ht')))
      fun ⟨hp, hq⟩ => ⟨hp.temporary t ht, hq.temporary t' ht'⟩) content
  exact ⟨hanswer.mono hsame, htree⟩

end Replacement
end BranchRender
