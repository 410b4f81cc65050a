/-
REPLACING: what each step of a replacement leaves.

- The temporary file is named in the directory of the target, by a name of its own (`beside`), never the target's.
  A path to the target gives one to it, unless it is too long (`names_temporary_of_names`).
- Filling it puts the content where the temporary path leads, or changes nothing (`run_fill`, `run_fill_refused`); stopped,
  it leaves a part of the content there (`stops_fill`).
- A replacement fills and moves (`run_fillAndMove_moved`), and cleans up where the move fails (`run_fillAndMove_kept`).

Main statements: `grown_makeParent`, `run_makeParent_again`, `beside`, `run_fill`, `run_fillAndMove_moved`.
-/
import Mathlib.Tactic.ByContra
import BranchRender.Replacement
import BranchRender.Proofs.Directories

namespace BranchRender.Replacement

open Plan (observe change mayStop_bind mayStop_change makeAll makeDirectories)
open FileSystem (Grown boundedStart_eq_ok names_iff)
open FileTree (Keeps maxName maxPath)

variable {fs s : FileSystem} {p temporary dir : Path} {content : List UInt8} {c l t r : Location} {name : Text}

/-! ## The target -/

theorem target_of_canonicalPath {q : Path} (hl : fs.isLink p = true) (hq : fs.canonicalPath p = .ok q) :
    target fs p = q := by simp [target, hl, hq]

theorem target_of_not_isLink (hl : fs.isLink p = false) : target fs p = p := by simp [target, hl]

/-! ## The directories above a target -/

/-- the directories above a path -/
def above (p : Path) : List Path :=
  match p.parent? with
  | none => []
  | some dir => dir.ancestors

theorem stops_makeParent (h : (makeParent p).MayStop fs s) : s = fs ∨
    ∃ dir, p.parent? = some dir ∧ dir ≠ [] ∧ fs.contains dir = false ∧ (makeDirectories dir).MayStop fs s := by
  unfold makeParent at h
  split at h
  · exact .inl h
  · next dir hdir =>
    split at h
    · exact .inl h
    · next hne =>
      rw [mayStop_bind] at h
      rcases h with h | h
      · exact .inl h
      · rw [Plan.run_observe] at h
        split at h
        · exact .inl h
        · next hc =>
          rw [mayStop_bind] at h
          refine .inr ⟨dir, hdir, hne, by simpa using hc, ?_⟩
          rcases h with h | h
          · exact h
          · rw [show s = _ from h]
            exact Plan.mayStop_after _ _

theorem run_makeParent_missing (hd : p.parent? = some dir) (hne : dir ≠ []) (hc : fs.contains dir = false) :
    (makeParent p).run fs =
      (((makeDirectories dir).run fs).1.mapError (.makingParent dir), ((makeDirectories dir).run fs).2) := by
  rw [makeParent, hd]
  simp only [hne, ite_false, Plan.run_bind, Plan.run_observe, hc, Bool.false_eq_true]
  rfl

theorem run_makeParent_there (h : ∀ dir, p.parent? = some dir → dir ≠ [] → fs.contains dir = true) :
    (makeParent p).run fs = (.ok (), fs) := by
  rw [makeParent]
  split
  · rfl
  · next dir hd =>
    split
    · rfl
    · next hne =>
      simp only [Plan.run_bind, Plan.run_observe, h dir hd hne, ite_true]
      rfl

/-- wherever making the directories above a target is stopped, there are only new directories -/
theorem grown_makeParent (h : (makeParent p).MayStop fs s) : fs.Grown s (above p) := by
  rcases stops_makeParent h with rfl | ⟨dir, hd, -, -, h⟩
  · exact .refl s _
  · rw [above, hd]
    exact Plan.grown_of_mayStop h

/-- what a stop in making the directories above a target leaves for a second try -/
theorem run_makeParent_again (hup : ['.', '.'] ∉ p.names) (h : (makeParent p).MayStop fs s) :
    (makeParent p).run s = (makeParent p).run fs := by
  by_cases hne : s = fs
  · rw [hne]
  rcases stops_makeParent h with h | ⟨dir, hd, hdir, hc, h⟩
  · exact absurd h hne
  obtain ⟨hbegun, hagain⟩ := Plan.resumes ⟨p, hd⟩ (Path.up_not_mem_parent hd hup) h
  rw [run_makeParent_missing hd hdir hc]
  rcases hbegun hne with ⟨d, hl, -⟩ | hstuck
  · have hrun : (makeDirectories dir).run s = (.ok (), s) := by
      obtain ⟨n, hn⟩ : ∃ n, dir.length = n + 1 := ⟨_, (Nat.succ_pred_eq_of_pos (List.length_pos_iff.2 hdir)).symm⟩
      rw [makeDirectories, Path.ancestors, hn, Path.ancestorsUpTo, if_neg hdir]
      exact Plan.run_makeAll_of_leads hl
    have hagain : (makeDirectories dir).run s = (makeDirectories dir).run fs := hagain
    rw [← hagain, hrun]
    apply run_makeParent_there
    intro dir' hd' _
    obtain rfl : dir = dir' := Option.some.inj (hd.symm.trans hd')
    exact hl.contains
  · rw [run_makeParent_missing hd hdir hstuck.1]
    have hagain : (makeDirectories dir).run s = (makeDirectories dir).run fs := hagain
    rw [hagain]

/-- what was made of the directories above a target has nothing in it -/
theorem bare_of_makeParent {d : Location} (hup : ['.', '.'] ∉ p.names) (hd : p.parent? = some dir)
    (h : (makeParent p).MayStop fs s) (hne : s ≠ fs) (hl : s.Leads dir d) (x : Text) : s.tree.at? (x :: d) = none := by
  rcases stops_makeParent h with h | ⟨dir', hd', -, -, h⟩
  · exact absurd h hne
  · obtain rfl : dir' = dir := Option.some.inj (hd'.symm.trans hd)
    rcases (Plan.resumes ⟨p, hd⟩ (Path.up_not_mem_parent hd hup) h).1 hne with ⟨d', hl', hbare⟩ | hstuck
    · rw [hl.unique hl']
      exact hbare x
    · have hthere := hstuck.1
      rw [hl.contains] at hthere
      exact absurd hthere (by simp)

/-- where directories had to be made, there are a target and directories above it -/
theorem parent_of_makeParent (h : (makeParent p).MayStop fs s) (hne : s ≠ fs) :
    ∃ dir, p.parent? = some dir ∧ dir ≠ [] ∧ fs.contains dir = false := by
  rcases stops_makeParent h with h | ⟨dir, hd, hdir, hc, -⟩
  · exact absurd h hne
  · exact ⟨dir, hd, hdir, hc⟩

/-- a path that spells no `..` never names a directory that was made for it -/
theorem vacant_of_makeParent (hup : ['.', '.'] ∉ p.names) (h : (makeParent p).MayStop fs s) (hne : s ≠ fs)
    (hn : s.Names p r) : s.tree.at? r = none := by
  obtain ⟨dir, hd, hdir, -⟩ := parent_of_makeParent h hne
  obtain ⟨dir', name, n, d, ht, rfl, hr⟩ := FileSystem.tops_of_names hn
  obtain rfl : dir' = dir := Option.some.inj (ht.parent.symm.trans hd)
  exact bare_of_makeParent hup hd h hne (FileSystem.leads_of_reaches ht hdir hr).2 name

/-! ## Beside the target -/

theorem isName_temporaryName (h : '/' ∉ name) : Path.IsName (temporaryName name) := by
  refine ⟨by simp [temporaryName], ?_, ?_⟩
  · simp [temporaryName, h]
  · have hlen : (temporaryName name).length = name.length + 5 := by simp [temporaryName]
    have h1 : temporaryName name ≠ ['.'] := by
      intro he
      rw [he] at hlen
      simp at hlen
    have h2 : temporaryName name ≠ ['.', '.'] := by
      intro he
      rw [he] at hlen
      simp at hlen
    exact Path.isDots_eq_false_iff.2 ⟨h1, h2⟩

theorem temporaryName_ne (name : Text) : temporaryName name ≠ name := by
  intro h
  have := congrArg List.length h
  simp [temporaryName] at this
  omega

theorem temporary?_eq_some (h : temporary? p = some temporary) : ∃ name dir, p.fileName? = some name ∧
    p.parent? = some dir ∧ temporary = dir.join (temporaryName name) := by
  unfold temporary? at h
  cases hn : p.fileName? with
  | none => simp [hn] at h
  | some name =>
    obtain ⟨-, dir, -, -, hd, -⟩ := Path.names_of_fileName hn
    simp only [hn, hd, Option.map_some, Option.some.injEq] at h
    exact ⟨name, dir, rfl, hd, h.symm⟩

theorem names_temporary (hn : p.fileName? = some name) (dir : Path) :
    (dir.join (temporaryName name)).names = dir.names ++ [temporaryName name] := by
  have hname := isName_temporaryName (Path.names_of_fileName hn).1.2.1
  rw [Path.names_join (by simp [Path.isAbsolute, temporaryName]), Path.names_of_not_mem hname.1 hname.2.1]

theorem endsInSlash_temporary (h : temporary? p = some temporary) : temporary.endsInSlash = false := by
  obtain ⟨name, dir, -, -, rfl⟩ := temporary?_eq_some h
  rw [Path.endsInSlash_join (by simp [temporaryName])]
  simp [Path.endsInSlash, temporaryName, List.getLast?_cons, List.getLast?_append]

/-- the temporary path starts where the path of its target does -/
theorem isAbsolute_temporary (h : temporary? p = some temporary) : temporary.isAbsolute = p.isAbsolute := by
  obtain ⟨name, dir, -, hd, rfl⟩ := temporary?_eq_some h
  exact Path.isAbsolute_join_parent hd (by simp [Path.isAbsolute, temporaryName])

/-- target and temporary file are named in one directory -/
theorem beside (h : temporary? p = some temporary) (hp : fs.Names p r) (ht : fs.Names temporary t) :
    ∃ name d, p.fileName? = some name ∧ r = name :: d ∧ t = temporaryName name :: d := by
  have habs := isAbsolute_temporary h
  obtain ⟨name, dir, hn, hd, rfl⟩ := temporary?_eq_some h
  obtain ⟨n, d, nm, ⟨start, xs, hs, hx, hpass⟩, hdots, -, -, rfl⟩ := names_iff.1 hp
  obtain ⟨n', d', nm', ⟨start', xs', hs', hx', hpass'⟩, -, -, -, rfl⟩ := names_iff.1 ht
  obtain ⟨rfl, dir', htops⟩ := Path.tops_of_last hx hdots hn
  obtain rfl : dir' = dir := Option.some.inj (htops.parent.symm.trans hd)
  obtain ⟨m, hm⟩ := htops.names
  rw [names_temporary hn] at hx'
  obtain ⟨rfl, hnm'⟩ := List.append_inj' hx' rfl
  obtain ⟨rfl, -⟩ := List.append_inj' (hx.symm.trans hm) rfl
  obtain rfl : temporaryName name = nm' := by simpa using hnm'
  obtain rfl : start = start' := by
    rw [FileSystem.start_of_boundedStart hs, FileSystem.start_of_boundedStart hs', habs]
  obtain ⟨-, rfl⟩ := (FileTree.passes_append_dots.1 hpass).unique hpass'
  exact ⟨name, d, hn, rfl, rfl⟩

theorem ne_of_beside (h : temporary? p = some temporary) (hp : fs.Names p r) (ht : fs.Names temporary t) : r ≠ t := by
  obtain ⟨name, d, -, rfl, rfl⟩ := beside h hp ht
  intro he
  exact temporaryName_ne name (List.cons.inj he).1.symm

theorem names_of_newFile {written : Bool} (h : temporary? p = some temporary)
    (hc : fs.newFile temporary = .ok (c, written)) : ∃ t, fs.Names temporary t := by
  obtain ⟨name, dir, hn, -, rfl⟩ := temporary?_eq_some h
  have hname := isName_temporaryName (Path.names_of_fileName hn).1.2.1
  unfold FileSystem.newFile at hc
  split at hc
  · exact absurd hc (by simp)
  all_goals exact FileSystem.names_of_locate (by assumption) (names_temporary hn dir) hname.2.2

theorem temporary?_of_last {xs : List Text} {name : Text} (hx : p.names = xs ++ [name]) (hd : Path.isDots name = false) :
    ∃ temporary, temporary? p = some temporary := by
  cases hn : p.fileName? with
  | none => exact absurd (Path.isDots_of_no_fileName hn hx) (by simp [hd])
  | some name => exact ⟨_, by rw [temporary?, hn]; rfl⟩

theorem nul_not_mem_temporary (h : temporary? p = some temporary) (hnul : '\x00' ∉ p) : '\x00' ∉ temporary := by
  obtain ⟨name, dir, hfile, hdir, rfl⟩ := temporary?_eq_some h
  have hname : '\x00' ∉ name := by
    obtain ⟨-, hname, -⟩ := Path.fileName?_eq_some hfile
    rw [hname, List.mem_reverse]
    intro hm
    have hcut := (Path.dropIdle_suffix _).subset ((List.takeWhile_prefix _).subset hm)
    rw [← Path.cut_append p] at hnul
    exact hnul (List.mem_append_right _ (List.mem_reverse.2 hcut))
  have hdir : '\x00' ∉ dir := fun hm => hnul ((Path.front_of_parent hdir).subset hm)
  have htemporary : '\x00' ∉ temporaryName name := by simp [temporaryName, hname]
  unfold Path.join
  split
  · exact htemporary
  · split <;> simp [hdir, htemporary]

/-- a temporary path that the system starts from names the temporary file beside the target -/
theorem names_temporary_of_names {name : Text} {dir : Location} (h : temporary? p = some temporary)
    (hn : fs.Names p (name :: dir)) (hsize : temporary.size < maxPath)
    (hfit : (temporaryName name).size ≤ maxName) : fs.Names temporary (temporaryName name :: dir) := by
  have habs := isAbsolute_temporary h
  obtain ⟨dirp, name', n, dir', ht, hl, start, xs, hs, hx, hpass⟩ := FileSystem.tops_of_names hn
  obtain ⟨rfl, rfl⟩ := List.cons.inj hl
  obtain ⟨name', dirp', hfile, hparent, rfl⟩ := temporary?_eq_some h
  obtain rfl : dirp = dirp' := Option.some.inj (ht.parent.symm.trans hparent)
  obtain ⟨rfl, -⟩ := Path.tops_of_last hx ht.isName.2.2 hfile
  obtain ⟨i, hi⟩ := ht.names
  obtain ⟨rfl, -⟩ := List.append_inj' (hx.symm.trans hi) rfl
  have hpass := FileTree.passes_append_dots.1 hpass
  have hstart : fs.boundedStart (dirp.join (temporaryName name')) = .ok start := by
    obtain ⟨hnul, -, -, rfl⟩ := boundedStart_eq_ok.1 hs
    refine boundedStart_eq_ok.2 ⟨nul_not_mem_temporary h hnul, ?_, hsize, by rw [habs]⟩
    intro he
    have := names_temporary hfile dirp
    simp [he] at this
  obtain ⟨_, _, _, -, -, hdir, -, hl⟩ := names_iff.1 hn
  obtain ⟨-, rfl⟩ := List.cons.inj hl
  exact names_iff.2 ⟨n, _, _, ⟨start, _, hstart, names_temporary hfile dirp, hpass⟩,
    (isName_temporaryName ht.isName.2.1).2.2, hdir, hfit, rfl⟩

/-! ## Filling -/

theorem admits_of_newFile (h : fs.newFile p = .ok (c, true)) : fs.tree.Admits c := by
  obtain ⟨h1, h2, h3, h4 | h4⟩ := FileSystem.newFile_ok h
  · refine ⟨h1, h2, ?_, h3⟩
    rcases h4.2 with h4 | ⟨x, h4⟩ <;> rw [h4] <;> simp
  · exact absurd h4.1 (by simp)

theorem not_isWay_of_newFile {written : Bool} (h : fs.newFile p = .ok (c, written)) (e : Entry)
    (he : fs.tree.at? c = some e) : ¬ e.IsWay := by
  obtain ⟨-, -, -, ⟨-, h | ⟨x, h⟩⟩ | ⟨-, d, h⟩⟩ := FileSystem.newFile_ok h
  · rw [h] at he; exact absurd he (by simp)
  · rw [h, Option.some.injEq] at he
    subst he
    simp [Entry.IsWay]
  · rw [h, Option.some.injEq] at he
    subst he
    simp [Entry.IsWay]

theorem file_of_newFile (h : fs.newFile p = .ok (c, true)) (e : Entry) (he : fs.tree.at? c = some e) :
    ∃ x, e = .file x := by
  obtain ⟨-, -, -, ⟨-, h | ⟨x, h⟩⟩ | ⟨hf, -⟩⟩ := FileSystem.newFile_ok h
  · rw [h] at he; exact absurd he (by simp)
  · exact ⟨x, Option.some.inj (he.symm.trans h)⟩
  · exact absurd hf (by simp)

theorem perform_create (h : fs.newFile p = .ok (c, true)) :
    fs.perform (.create p) = (.ok c, fs.put c (.file [])) := by
  simp only [FileSystem.perform, h]
  rfl

/-- bytes added to an empty file are what it holds -/
theorem perform_append (h : fs.tree.Admits c) (bytes : List UInt8) :
    (fs.put c (.file [])).perform (.append c bytes) = (.ok (), fs.put c (.file bytes)) := by
  have he : (fs.put c (.file [])).tree.at? c = some (.file []) := by rw [FileSystem.at?_put h, if_pos rfl]
  simp only [FileSystem.perform, he, Entry.append, List.nil_append]
  exact congrArg _ (FileSystem.put_put h (by simp))

theorem append_device {d : Device} (h : fs.tree.at? c = some (.device d)) (bytes : List UInt8) :
    (fs.perform (.append c bytes)).2 = fs := by
  have hself : fs.withTree (fs.tree.insert c (.device d)) = fs := FileSystem.put_self h
  simp only [FileSystem.perform, h]
  cases d with
  | null => exact hself
  | full =>
    by_cases hb : bytes = []
    · simp only [Entry.append, hb, ite_true]; exact hself
    · simp only [Entry.append, hb, ite_false]

/-- content is filled in where the temporary path leads to a file or a free place -/
theorem run_fill (h : fs.newFile temporary = .ok (c, true)) :
    (fill temporary content).run fs = (.ok (), fs.put c (.file content)) := by
  have ha := admits_of_newFile h
  have he : (fs.put c (.file content)).tree.at? c = some (.file content) := by rw [FileSystem.at?_put ha, if_pos rfl]
  have hsync : (fs.put c (.file content)).perform (.sync c) = (.ok (), fs.put c (.file content)) := by
    simp only [FileSystem.perform, he]
  simp only [fill, Plan.run_bind, Plan.run_change, perform_create h, perform_append ha, hsync]
  rfl

/-- anywhere else nothing is created: the path is refused, or leads to a device -/
theorem perform_create_refused (h : ∀ c, fs.newFile temporary ≠ .ok (c, true)) :
    (∃ e, fs.perform (.create temporary) = (.error e, fs)) ∨
      ∃ c d, fs.perform (.create temporary) = (.ok c, fs) ∧ fs.tree.at? c = some (.device d) := by
  cases hn : fs.newFile temporary with
  | error e => exact .inl ⟨e, by simp only [FileSystem.perform, hn]⟩
  | ok r =>
    obtain ⟨c, _ | _⟩ := r
    · obtain ⟨-, -, -, ⟨hw, -⟩ | ⟨-, d, hd⟩⟩ := FileSystem.newFile_ok hn
      · exact absurd hw (by simp)
      · exact .inr ⟨c, d, by simp only [FileSystem.perform, hn], hd⟩
    · exact absurd hn (h c)

theorem run_fill_refused (content : List UInt8) (h : ∀ c, fs.newFile temporary ≠ .ok (c, true)) :
    ∃ fault, (fill temporary content).run fs = (.error fault, fs) := by
  rcases perform_create_refused h with ⟨e, hp⟩ | ⟨c, d, hp, hd⟩
  · refine ⟨.creating temporary e, ?_⟩
    simp only [fill, Plan.run_bind, Plan.run_change, hp, Plan.run_pure]
  · have happ := append_device hd content
    have hsync : fs.perform (.sync c) = (.error (.system .invalid), fs) := by simp only [FileSystem.perform, hd]
    simp only [fill, Plan.run_bind, Plan.run_change, hp]
    rcases hr : fs.perform (.append c content) with ⟨e | _, fs'⟩
    · rw [hr] at happ
      exact ⟨writeFault content e, by rw [← happ]; rfl⟩
    · rw [hr] at happ
      obtain rfl : fs' = fs := happ
      simp only [Plan.run_bind, Plan.run_change, hsync]
      exact ⟨.syncing (.system .invalid), rfl⟩

theorem stops_fill_refused (h : ∀ c, fs.newFile temporary ≠ .ok (c, true))
    (hs : (fill temporary content).MayStop fs s) : s = fs := by
  rw [fill, mayStop_bind, mayStop_change, Plan.run_change] at hs
  rcases perform_create_refused h with ⟨e, hp⟩ | ⟨c, d, hp, hd⟩
  · rw [hp] at hs
    rcases hs with ((hs | hs) | hs) | hs
    · exact hs
    · exact hs.elim
    · exact hs
    · exact hs
  · have happ := append_device hd
    rw [hp] at hs
    rcases hs with ((hs | hs) | hs) | hs
    · exact hs
    · exact hs.elim
    · exact hs
    · rw [mayStop_bind, mayStop_change, Plan.run_change, happ] at hs
      rcases hs with ((hs | ⟨n, hs⟩) | hs) | hs
      · exact hs
      · rw [hs, happ]
      · exact hs
      · split at hs
        · exact hs
        · rw [mayStop_bind, mayStop_change, Plan.run_change, FileSystem.tree_sync] at hs
          rcases hs with ((hs | hs) | hs) | hs
          · exact hs
          · exact hs.elim
          · exact hs
          · exact hs

/-- filling that is stopped leaves the file system as it was, or a part of the content in the temporary file -/
theorem stops_fill (h : fs.newFile temporary = .ok (c, true)) (hs : (fill temporary content).MayStop fs s) :
    s = fs ∨ ∃ n, s = fs.put c (.file (content.take n)) := by
  have ha := admits_of_newFile h
  have happ := fun n => perform_append ha (content.take n)
  have hall : fs.put c (.file content) = fs.put c (.file (content.take content.length)) := by rw [List.take_length]
  have hempty : fs.put c (.file []) = fs.put c (.file (content.take 0)) := by rw [List.take_zero]
  rw [fill, mayStop_bind, mayStop_change, Plan.run_change, perform_create h] at hs
  rcases hs with ((hs | hs) | hs) | hs
  · exact .inl hs
  · exact hs.elim
  · exact .inr ⟨0, hs.trans hempty⟩
  · right
    rw [mayStop_bind, mayStop_change, Plan.run_change, perform_append ha] at hs
    rcases hs with ((hs | ⟨n, hs⟩) | hs) | hs
    · exact ⟨0, hs.trans hempty⟩
    · exact ⟨n, by rw [hs, happ]⟩
    · exact ⟨content.length, hs.trans hall⟩
    · refine ⟨content.length, ?_⟩
      simp only [mayStop_bind, mayStop_change, Plan.run_change, FileSystem.tree_sync] at hs
      rcases hs with ((hs | hs) | hs) | hs
      · exact hs.trans hall
      · exact hs.elim
      · exact hs.trans hall
      · exact hs.trans hall

/-! ## Filling and moving -/

/-- a path names a place with nothing or a file in it: that is where a file is made -/
theorem newFile_of_names (h : fs.Names temporary t) (hs : temporary.endsInSlash = false)
    (hf : ∀ e, fs.tree.at? t = some e → ∃ x, e = .file x) : fs.newFile temporary = .ok (t, true) := by
  obtain ⟨hvacant, htaken⟩ := FileSystem.locate_of_names h hs .file
  cases he : fs.tree.at? t with
  | none => simp only [FileSystem.newFile, hvacant he]
  | some e =>
    obtain ⟨x, rfl⟩ := hf e he
    simp only [FileSystem.newFile, htaken _ he (.inr fun _ => by simp)]

/-- what is moved is the temporary file with the content, or a link to it -/
theorem movable_of_newFile (content : List UInt8) (h : temporary? p = some temporary)
    (hc : fs.newFile temporary = .ok (c, true)) :
    ∃ t e, fs.Names temporary t ∧ (fs.put c (.file content)).movable temporary = .ok (t, e) ∧
      (c = t ∧ e = .file content ∨ c ≠ t ∧ fs.tree.at? t = some e ∧ ∃ target, e = .link target) := by
  obtain ⟨t, ht⟩ := names_of_newFile h hc
  have hslash := endsInSlash_temporary h
  have ha := admits_of_newFile hc
  have hn : (fs.put c (.file content)).Names temporary t :=
    ht.keep (FileSystem.keeps_put (not_isWay_of_newFile hc) _) rfl
  by_cases hl : ∃ target, fs.tree.at? t = some (.link target)
  · obtain ⟨target, hl⟩ := hl
    have hne : t ≠ c := fun he => not_isWay_of_newFile hc _ (he ▸ hl) (.inr ⟨target, rfl⟩)
    refine ⟨t, .link target, ht, FileSystem.movable_iff.2 ⟨hn, ?_, by simp, hslash⟩, .inr ⟨hne.symm, hl, target, rfl⟩⟩
    rw [FileSystem.at?_put ha, if_neg hne, hl]
  · have hct : c = t := by
      -- a directory or a device at the temporary path would not be filled
      have hfile : ∀ e, fs.tree.at? t = some e → ∃ x, e = .file x := by
        intro e he
        have hfound := (FileSystem.locate_of_names ht hslash .file).2 e he (.inr fun target h' => hl ⟨target, h' ▸ he⟩)
        cases e with
        | file x => exact ⟨x, rfl⟩
        | link target => exact absurd ⟨target, he⟩ hl
        | directory => simp [FileSystem.newFile, hfound] at hc
        | device d => simp [FileSystem.newFile, hfound] at hc
      rw [newFile_of_names ht hslash hfile] at hc
      exact (Prod.mk.inj (Except.ok.inj hc)).1.symm
    refine ⟨t, .file content, ht, FileSystem.movable_iff.2 ⟨hn, ?_, by simp, hslash⟩, .inl ⟨hct, rfl⟩⟩
    rw [FileSystem.at?_put ha, if_pos hct.symm]

/-- it is the temporary file itself, if the temporary path names no link -/
theorem movable_of_no_link (content : List UInt8) (h : temporary? p = some temporary)
    (hc : fs.newFile temporary = .ok (c, true))
    (hlink : ∀ t target, fs.Names temporary t → fs.tree.at? t ≠ some (.link target)) :
    fs.Names temporary c ∧ (fs.put c (.file content)).movable temporary = .ok (c, .file content) := by
  obtain ⟨t, e, ht, hm, hct⟩ := movable_of_newFile content h hc
  obtain ⟨rfl, rfl⟩ : c = t ∧ e = .file content := by
    apply hct.resolve_right
    rintro ⟨-, he, target, rfl⟩
    exact hlink t target ht he
  exact ⟨ht, hm⟩

/-- where the temporary file cannot be filled, it is removed if it can be -/
theorem run_fillAndMove_refused (p : Path) (content : List UInt8) (h : ∀ c, fs.newFile temporary ≠ .ok (c, true)) :
    ∃ fault, (fillAndMove temporary p content).run fs = (.error fault, (fs.perform (.remove temporary)).2) := by
  obtain ⟨fault, hf⟩ := run_fill_refused content h
  refine ⟨fault, ?_⟩
  simp only [fillAndMove, Plan.run_bind, hf, run_giveUp]

theorem run_fillAndMove_moved {e : Entry} (hc : fs.newFile temporary = .ok (c, true))
    (hm : (fs.put c (.file content)).movable temporary = .ok (t, e))
    (hr : (fs.put c (.file content)).destination p = .ok r) : (fillAndMove temporary p content).run fs =
      (.ok (), fs.withTree (FileSystem.move (fs.put c (.file content)).tree t e r)) := by
  simp only [fillAndMove, Plan.run_bind, run_fill hc, Plan.run_change, FileSystem.perform_rename hm hr]
  rfl

/-- a target that has the content, and no temporary file beside it, is replaced by what it is -/
theorem run_fillAndMove_settled (h : temporary? p = some temporary) (hp : fs.Names p r) (hs : p.endsInSlash = false)
    (ht : fs.Names temporary t) (hr : fs.tree.at? r = some (.file content)) (hgone : fs.tree.at? t = none) :
    (fillAndMove temporary p content).run fs = (.ok (), fs) := by
  have hslash := endsInSlash_temporary h
  have hne := ne_of_beside h hp ht
  have hc := newFile_of_names ht hslash (by simp [hgone])
  have ha := admits_of_newFile hc
  have hkeep : Keeps fs.tree (fs.put t (.file content)).tree := FileSystem.keeps_put (by simp [hgone]) _
  have he : (fs.put t (.file content)).tree.at? t = some (.file content) := by rw [FileSystem.at?_put ha, if_pos rfl]
  have hm : (fs.put t (.file content)).movable temporary = .ok (t, .file content) :=
    FileSystem.movable_iff.2 ⟨ht.keep hkeep rfl, he, by simp, hslash⟩
  have hr' : (fs.put t (.file content)).tree.at? r = some (.file content) := by
    rw [FileSystem.at?_put ha, if_neg hne, hr]
  have hd : (fs.put t (.file content)).destination p = .ok r :=
    FileSystem.destination_iff.2 ⟨hp.keep hkeep rfl, hs, by simp [hr']⟩
  rw [run_fillAndMove_moved hc hm hd]
  congr 1
  refine FileSystem.ext_at? rfl ?_
  intro k
  have hadm := (FileSystem.destination_iff.1 hd).1.admits (by simp [hr'])
  rw [FileSystem.tree_withTree, FileSystem.at?_move he (by simp) hadm, FileSystem.at?_put ha]
  split
  · next hk => rw [hk, hr]
  · split
    · next hk => rw [hk, hgone]
    · rfl

theorem run_fillAndMove_kept {e : Entry} {fault : IoFault} (hc : fs.newFile temporary = .ok (c, true))
    (hm : (fs.put c (.file content)).movable temporary = .ok (t, e))
    (hr : (fs.put c (.file content)).destination p = .error fault) : (fillAndMove temporary p content).run fs =
      (.error (.replacing fault), (fs.put c (.file content)).drop t) := by
  simp only [fillAndMove, Plan.run_bind, run_fill hc, Plan.run_change, FileSystem.perform_rename_error hm hr,
    run_giveUp, FileSystem.perform_remove hm]

theorem stops_giveUp {fault : ReplaceFault} (h : (giveUp temporary fault).MayStop fs s) :
    s = fs ∨ s = ((giveUp temporary fault).run fs).2 := by
  rw [run_giveUp]
  rw [giveUp, mayStop_bind, mayStop_change, Plan.run_change] at h
  rcases h with ((h | h) | h) | h
  · exact .inl h
  · exact h.elim
  · exact .inr h
  · exact .inr h

end BranchRender.Replacement
