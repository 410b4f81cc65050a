/-
INTERRUPTIONS: what a replacement leaves that is stopped anywhere, and what a second one makes of it.

- The path spells no `..`, its temporary path is no link, and if it is a link itself it has a canonical path.
- Stopped anywhere, the entry of the target is what it was, or a file with all of the content.
- A stop in making the directories is made up for by the second try at them; a stop in filling leaves a temporary file
  that the second replacement overwrites; a stop behind the move leaves a target that it replaces by the same content. So
  a stop in the operations of a replacement is always made up for (`stopped_save`).
- A replacement that failed goes on to clean up, and that is all it does besides (`stops_planTarget`). Behind that, a second
  one ends as the first, unless the temporary path named a device: the clean-up takes the device away, and nothing is in
  the way of a second replacement (`stopped_cleaning`, `device_not_made_up_for`).

Main statements: `stops_attempt`, `run_refillable`, `run_moved`, `stops_planTarget`, `stopped_save`, `stopped_cleaning`.
-/
import Mathlib.Control.Monad.Basic
import Mathlib.Tactic.ByContra
import BranchRender.Rendering
import BranchRender.Proofs.Canonicals
import BranchRender.Proofs.AllOrNothing

namespace BranchRender.Replacement

open FileSystem (SameWays Grown)
open Plan (mayStop_bind mayStop_observe mayStop_change)
open FileTree (Keeps)

variable {fs m s : FileSystem} {p q temporary dir : Path} {content : List UInt8} {c r t : Location}

/-! ## Stops in making directories -/

/-- what a path names or leads to stands in a directory that its parent leads to -/
theorem parent_of_lstat {e : Entry} (hup : ['.', '.'] ∉ p.names) (hd : p.parent? = some dir) (hne : dir ≠ [])
    (h : fs.lstat p = .ok e) : ∃ d x, fs.Leads dir d ∧ fs.tree.at? (x :: d) ≠ none := by
  by_cases hn : ∃ r, fs.Names p r ∧ p.endsInSlash = false
  · obtain ⟨r, hr, hs⟩ := hn
    obtain ⟨dir', name, n, d, ht, rfl, hreach⟩ := FileSystem.tops_of_names hr
    obtain rfl : dir' = dir := Option.some.inj (ht.parent.symm.trans hd)
    have hat := FileSystem.lstat_toOption_of_names hr hs
    rw [h] at hat
    exact ⟨d, name, (FileSystem.leads_of_reaches ht hne hreach).2, by rw [← hat]; simp [Except.toOption]⟩
  · have hslash : ∀ r, fs.Names p r → p.endsInSlash = true := by
      intro r hr
      by_contra hs
      exact hn ⟨r, hr, by simpa using hs⟩
    obtain ⟨-, l, start, n, hs, hp⟩ := FileSystem.leads_of_lstat hslash h
    obtain ⟨name, hname⟩ := Path.fileName?_of_parent hd hne hup
    obtain ⟨hisname, dir', i, j, hd', hnames, -⟩ := Path.names_of_fileName hname
    obtain rfl : dir' = dir := Option.some.inj (hd'.symm.trans hd)
    rw [hnames, ← List.singleton_append (x := name), ← List.append_assoc] at hp
    obtain ⟨n', l', hp, -⟩ := hp.split
    obtain ⟨n'', d, hp, hlast⟩ := hp.split
    refine ⟨d, name, ⟨start, n'', FileSystem.boundedStart_parent hd hne hs, FileTree.passes_append_dots.1 hp⟩, ?_⟩
    have hdots := hisname.2.2
    cases hlast with
    | here => simp [Path.isDots] at hdots
    | up => simp [Path.isDots] at hdots
    | into _ _ he _ => rw [he]; simp
    | along _ _ he _ => rw [he]; simp

/-- where directories have to be made, and some are, the path has no entry -/
theorem lstat_of_makeParent (hup : ['.', '.'] ∉ p.names) (h : (makeParent p).MayStop fs s) (hne : s ≠ fs) :
    (∀ e, fs.lstat p ≠ .ok e) ∧ ∀ e, s.lstat p ≠ .ok e := by
  obtain ⟨dir, hd, hdir, hc⟩ := parent_of_makeParent h hne
  constructor
  · intro e he
    obtain ⟨d, -, hl, -⟩ := parent_of_lstat hup hd hdir he
    rw [hl.contains] at hc
    exact absurd hc (by simp)
  · intro e he
    obtain ⟨d, x, hl, hx⟩ := parent_of_lstat hup hd hdir he
    exact hx (bare_of_makeParent hup hd h hne hl x)

theorem lstat_toOption_of_makeParent (hup : ['.', '.'] ∉ p.names) (h : (makeParent p).MayStop fs s) :
    (s.lstat p).toOption = (fs.lstat p).toOption := by
  by_cases hne : s = fs
  · rw [hne]
  · obtain ⟨hfs, hs⟩ := lstat_of_makeParent hup h hne
    have hnone : ∀ u : FileSystem, (∀ e, u.lstat p ≠ .ok e) → (u.lstat p).toOption = none := by
      intro u hu
      cases hl : u.lstat p with
      | error _ => rfl
      | ok e => exact absurd hl (hu e)
    rw [hnone fs hfs, hnone s hs]

/-- the directory of a temporary file is the one the target's parent leads to -/
theorem leads_of_temporary (h : temporary? p = some temporary) (hd : p.parent? = some dir) (hne : dir ≠ [])
    (ht : fs.Names temporary t) : ∃ d x, fs.Leads dir d ∧ t = x :: d := by
  obtain ⟨name, dir', hn, hd', rfl⟩ := temporary?_eq_some h
  obtain rfl : dir' = dir := Option.some.inj (hd'.symm.trans hd)
  obtain ⟨n, d, nm, ⟨start, xs, hs, hx, hp⟩, -, -, -, rfl⟩ := FileSystem.names_iff.1 ht
  rw [names_temporary hn] at hx
  obtain ⟨rfl, -⟩ := List.append_inj' hx rfl
  exact ⟨d, nm, ⟨start, n, FileSystem.boundedStart_front (Path.prefix_join rfl) hne hs, hp⟩, rfl⟩

/-- a temporary path that names no link names none when the directories are made -/
theorem isLink_temporary (hup : ['.', '.'] ∉ p.names) (h : temporary? p = some temporary)
    (hm : (makeParent p).MayStop fs m) (hlink : fs.isLink temporary = false) : m.isLink temporary = false := by
  by_cases hne : m = fs
  · rw [hne]; exact hlink
  · by_contra hl
    obtain ⟨t, target, ht, he, -⟩ := FileSystem.names_of_isLink (by simpa using hl)
    obtain ⟨dir, hd, hdir, -⟩ := parent_of_makeParent hm hne
    obtain ⟨d, x, hleads, rfl⟩ := leads_of_temporary h hd hdir ht
    rw [bare_of_makeParent hup hd hm hne hleads x] at he
    exact absurd he (by simp)

/-! ## Stops behind that -/

/-- `s` is `m` but for the place `t`, where each has a file or nothing -/
structure Refillable (m s : FileSystem) (t : Location) : Prop where
  cwd : s.cwd = m.cwd
  others : ∀ k, k ≠ t → s.tree.at? k = m.tree.at? k
  before : ∀ e, m.tree.at? t = some e → ∃ x, e = .file x
  after : ∀ e, s.tree.at? t = some e → ∃ x, e = .file x

theorem Refillable.sameWays (h : Refillable m s t) : m.SameWays s := by
  apply FileSystem.sameWays_of_at? h.cwd
  intro k
  by_cases hk : k = t
  · subst hk
    right
    constructor
    · intro e he
      obtain ⟨x, rfl⟩ := h.before e he
      simp [Entry.IsWay]
    · intro e he
      obtain ⟨x, rfl⟩ := h.after e he
      simp [Entry.IsWay]
  · exact .inl (h.others k hk)

/-- `s` is `m` with the content moved from `t` to `r` -/
structure Moved (m s : FileSystem) (p : Path) (content : List UInt8) (r t : Location) : Prop where
  cwd : s.cwd = m.cwd
  named : m.Names p r
  noSlash : p.endsInSlash = false
  noDirectory : m.tree.at? r ≠ some .directory
  before : ∀ e, m.tree.at? t = some e → ∃ x, e = .file x
  at? : ∀ k, s.tree.at? k = if k = r then some (.file content) else if k = t then none else m.tree.at? k

theorem not_link_of_isLink (h : temporary? p = some temporary) (hlink : m.isLink temporary = false)
    (ht : m.Names temporary t) (target : Path) : m.tree.at? t ≠ some (.link target) := by
  intro he
  rw [FileSystem.isLink_of_names ht (endsInSlash_temporary h) he] at hlink
  exact absurd hlink (by simp)

/-- `s` is `m` but for a temporary file -/
def Left (m s : FileSystem) (temporary : Path) : Prop := s = m ∨ ∃ t, m.Names temporary t ∧ Refillable m s t

theorem left_of_fill (h : temporary? p = some temporary) (hlink : m.isLink temporary = false)
    (hs : (fill temporary content).MayStop m s) : Left m s temporary := by
  by_cases hc : ∃ c, m.newFile temporary = .ok (c, true)
  case neg => exact .inl (stops_fill_refused (fun c he => hc ⟨c, he⟩) hs)
  obtain ⟨c, hc⟩ := hc
  have ha := admits_of_newFile hc
  rcases stops_fill hc hs with hs | ⟨n, rfl⟩
  · exact .inl hs
  obtain ⟨ht, -⟩ := movable_of_no_link content h hc fun t target ht => not_link_of_isLink h hlink ht target
  refine .inr ⟨c, ht, rfl, ?_, file_of_newFile hc, ?_⟩
  · intro k hk
    rw [FileSystem.at?_put ha, if_neg hk]
  · intro e he
    rw [FileSystem.at?_put ha, if_pos rfl] at he
    exact ⟨_, (Option.some.inj he).symm⟩

theorem renamed_of_filled (h : temporary? p = some temporary) (hlink : m.isLink temporary = false)
    (hc : m.newFile temporary = .ok (c, true)) :
    (∃ fault, (m.put c (.file content)).perform (.rename temporary p) = (.error fault, m.put c (.file content))) ∨
      ∃ r s, (m.put c (.file content)).perform (.rename temporary p) = (.ok (), s) ∧ m.Names temporary c ∧
        Moved m s p content r c := by
  obtain ⟨ht, hm⟩ := movable_of_no_link content h hc fun t target ht => not_link_of_isLink h hlink ht target
  have ha := admits_of_newFile hc
  obtain ⟨-, he, -, -⟩ := FileSystem.movable_iff.1 hm
  cases hr : (m.put c (.file content)).destination p with
  | error fault => exact .inl ⟨fault, FileSystem.perform_rename_error hm hr⟩
  | ok r =>
    obtain ⟨hn, hslash, hd⟩ := FileSystem.destination_iff.1 hr
    have hn' : m.Names p r := hn.keep (FileSystem.kept_by_put (by simp [Entry.IsWay])) rfl
    have hne := ne_of_beside h hn' ht
    refine .inr ⟨r, _, FileSystem.perform_rename hm hr, ht, rfl, hn', hslash, ?_, file_of_newFile hc, ?_⟩
    · rwa [FileSystem.at?_put ha, if_neg hne] at hd
    · intro k
      rw [FileSystem.tree_withTree, FileSystem.at?_move he (by simp) (hn.admits hd), FileSystem.at?_put ha]
      split
      · rfl
      · split <;> simp_all

/-- **Stops of an attempt.** A temporary file, or nothing, is left, or the attempt is done. -/
theorem stops_attempt (h : temporary? p = some temporary) (hlink : m.isLink temporary = false)
    (hs : (attempt temporary p content).MayStop m s) : Left m s temporary ∨
      (∃ t r, m.Names temporary t ∧ Moved m s p content r t) ∧ (attempt temporary p content).run m = (.ok (), s) := by
  have hend : Left m ((fill temporary content).run m).2 temporary := left_of_fill h hlink (Plan.mayStop_after _ _)
  rw [attempt, mayStop_bind] at hs
  rcases hs with hs | hs
  · exact .inl (left_of_fill h hlink hs)
  by_cases hc : ∃ c, m.newFile temporary = .ok (c, true)
  case neg =>
    obtain ⟨fault, hrun⟩ := run_fill_refused content fun c he => hc ⟨c, he⟩
    rw [hrun] at hs
    exact .inl (.inl hs)
  obtain ⟨c, hc⟩ := hc
  rw [run_fill hc] at hend hs
  rw [mayStop_bind, mayStop_change, Plan.run_change] at hs
  rcases renamed_of_filled h hlink hc with ⟨fault, hrename⟩ | ⟨r, s', hrename, ht, hmoved⟩
  · rw [hrename] at hs
    rcases hs with ((hs | hs) | hs) | hs
    · exact .inl (hs ▸ hend)
    · exact hs.elim
    · exact .inl (hs ▸ hend)
    · exact .inl (hs ▸ hend)
  · have hdone : (attempt temporary p content).run m = (.ok (), s') := by
      simp only [attempt, Plan.run_bind, run_fill hc, Plan.run_change, hrename]
      rfl
    rw [hrename] at hs
    rcases hs with ((hs | hs) | hs) | hs
    · exact .inl (hs ▸ hend)
    · exact hs.elim
    · exact .inr ⟨⟨c, r, ht, hs ▸ hmoved⟩, hs ▸ hdone⟩
    · exact .inr ⟨⟨c, r, ht, hs ▸ hmoved⟩, hs ▸ hdone⟩

/-! ## Stops in the clean-up -/

/-- an attempt that fails is followed by the clean-up -/
theorem run_fillAndMove (temporary p : Path) (content : List UInt8) (fs : FileSystem) :
    (fillAndMove temporary p content).run fs = match (attempt temporary p content).run fs with
      | (.error fault, s) => (.error fault, (s.perform (.remove temporary)).2)
      | (.ok (), s) => (.ok (), s) := by
  rw [fillAndMove_eq, Plan.run_bind]
  rcases (attempt temporary p content).run fs with ⟨fault | _, s⟩
  · exact run_giveUp temporary fault s
  · rfl

/-- a stop that is none of the attempt is behind the clean-up -/
theorem stops_fillAndMove : (fillAndMove temporary p content).MayStop m s ↔ (attempt temporary p content).MayStop m s ∨
    ∃ fault u, (attempt temporary p content).run m = (.error fault, u) ∧ s = (u.perform (.remove temporary)).2 := by
  constructor
  · intro hs
    rw [fillAndMove_eq, mayStop_bind] at hs
    rcases hs with hs | hs
    · exact .inl hs
    have hend := Plan.mayStop_after (attempt temporary p content) m
    rcases hrun : (attempt temporary p content).run m with ⟨fault | _, u⟩
    · rw [hrun] at hs hend
      rcases stops_giveUp hs with hs | hs
      · exact .inl (hs ▸ hend)
      · rw [run_giveUp] at hs
        exact .inr ⟨fault, u, rfl, hs⟩
    · rw [hrun] at hs hend
      rw [show s = u from hs]
      exact .inl hend
  · rintro (hs | ⟨fault, u, hrun, rfl⟩)
    · rw [fillAndMove_eq]
      exact mayStop_bind.2 (.inl hs)
    · have hend := Plan.mayStop_after (fillAndMove temporary p content) m
      rwa [run_fillAndMove, hrun] at hend

theorem left_of_failed {fault : ReplaceFault} (h : temporary? p = some temporary) (hlink : m.isLink temporary = false)
    (hrun : (attempt temporary p content).run m = (.error fault, s)) : Left m s temporary := by
  have hend := Plan.mayStop_after (attempt temporary p content) m
  rw [hrun] at hend
  rcases stops_attempt h hlink hend with hs | ⟨-, hdone⟩
  · exact hs
  · exact absurd (hrun.symm.trans hdone) (by simp)

/-- a temporary file is removed, and so is a device by its name -/
theorem left_or_dropped (h : temporary? p = some temporary) (hlink : m.isLink temporary = false)
    (hs : Left m s temporary) : Left m (s.perform (.remove temporary)).2 temporary ∨
      ∃ t d, m.Names temporary t ∧ m.tree.at? t = some (.device d) ∧ (s.perform (.remove temporary)).2 = m.drop t := by
  rcases FileSystem.remove_cases s temporary with hsame | ⟨t, e, ht, he, hd, hdrop⟩
  · rw [hsame]
    exact .inl hs
  rw [hdrop]
  have hat : ∀ k, (s.drop t).tree.at? k = if k = t then none else s.tree.at? k :=
    FileSystem.at?_drop (by rw [he]; simpa using hd)
  have hgone : ∀ e, (s.drop t).tree.at? t = some e → ∃ x, e = .file x := by
    intro e he
    rw [hat, if_pos rfl] at he
    exact absurd he (by simp)
  rcases hs with rfl | ⟨t', ht', hleft⟩
  · cases e with
    | directory => exact absurd rfl hd
    | link target => exact absurd he (not_link_of_isLink h hlink ht target)
    | device d => exact .inr ⟨t, d, ht, he, rfl⟩
    | file x =>
      refine .inl (.inr ⟨t, ht, rfl, ?_, ?_, hgone⟩)
      · intro k hk
        rw [hat, if_neg hk]
      · intro e' he'
        exact ⟨x, Option.some.inj (he'.symm.trans he)⟩
  · obtain rfl : t = t' := ht.unique (hleft.sameWays.names.2 ht')
    refine .inl (.inr ⟨t, ht', hleft.cwd, ?_, hleft.before, hgone⟩)
    intro k hk
    rw [hat, if_neg hk, hleft.others k hk]

/-! ## Second tries -/

theorem run_makeParent_of_keeps (h : temporary? p = some temporary) (ht : m.Names temporary t)
    (hk : Keeps m.tree s.tree) (hc : s.cwd = m.cwd) : (makeParent p).run s = (.ok (), s) := by
  apply run_makeParent_there
  intro dir hd hne
  obtain ⟨d, -, hl, -⟩ := leads_of_temporary h hd hne ht
  exact (hl.keep hk hc).contains

/-- a temporary file that was left is overwritten -/
theorem run_refillable (h : temporary? p = some temporary) (ht : m.Names temporary t) (hs : Refillable m s t) :
    (fillAndMove temporary p content).run s = (fillAndMove temporary p content).run m := by
  have hslash := endsInSlash_temporary h
  have hm := newFile_of_names ht hslash hs.before
  have hn := newFile_of_names (hs.sameWays.names.2 ht) hslash hs.after
  have hput : s.put t (.file content) = m.put t (.file content) := by
    refine FileSystem.ext_at? hs.cwd ?_
    intro k
    rw [FileSystem.at?_put (admits_of_newFile hn), FileSystem.at?_put (admits_of_newFile hm)]
    split
    · rfl
    · next hk => exact hs.others k hk
  rw [fillAndMove, Plan.run_bind, Plan.run_bind, run_fill hn, run_fill hm, hput]

theorem Moved.sameWays (h : Moved m s p content r t) (hlink : ∀ target, m.tree.at? r ≠ some (.link target)) :
    m.SameWays s := by
  apply FileSystem.sameWays_of_at? h.cwd
  intro k
  have hat := h.at? k
  by_cases hr : k = r
  · subst hr
    rw [if_pos rfl] at hat
    right
    constructor
    · rintro e he (rfl | ⟨target, rfl⟩)
      · exact h.noDirectory he
      · exact hlink target he
    · intro e he
      rw [hat, Option.some.injEq] at he
      subst he
      simp [Entry.IsWay]
  · rw [if_neg hr] at hat
    by_cases ht : k = t
    · subst ht
      rw [if_pos rfl] at hat
      right
      constructor
      · intro e he
        obtain ⟨x, rfl⟩ := h.before e he
        simp [Entry.IsWay]
      · intro e he
        rw [hat] at he
        exact absurd he (by simp)
    · rw [if_neg ht] at hat
      exact .inl hat

/-- a target that was replaced is replaced by the same content -/
theorem run_moved (h : temporary? p = some temporary) (ht : m.Names temporary t)
    (hlink : ∀ target, m.tree.at? r ≠ some (.link target)) (hs : Moved m s p content r t) :
    (fillAndMove temporary p content).run s = (.ok (), s) := by
  have hways := hs.sameWays hlink
  have hne := ne_of_beside h hs.named ht
  refine run_fillAndMove_settled h (hways.names.2 hs.named) hs.noSlash (hways.names.2 ht) ?_ ?_
  · rw [hs.at?, if_pos rfl]
  · rw [hs.at?, if_neg hne.symm, if_pos rfl]

/-! ## Stopped replacements -/

/-- what a stop leaves of the entries there were: directories and links are kept, a file may be the target by now or have the
name of its temporary file -/
structure Lasting (fs s : FileSystem) (p : Path) (content : List UInt8) : Prop where
  cwd : s.cwd = fs.cwd
  keeps : Keeps fs.tree s.tree
  entry : ∀ k e, fs.tree.at? k = some e → s.tree.at? k = some e ∨ ¬ e.IsWay ∧
    (s.tree.at? k = some (.file content) ∨ ∃ name d, p.fileName? = some name ∧ k = temporaryName name :: d)

theorem lasting_of_sameWays (hm : fs.Grown m (above p)) (hways : m.SameWays s)
    (hs : ∀ k, s.tree.at? k = m.tree.at? k ∨ s.tree.at? k = some (.file content) ∨
      ∃ name d, p.fileName? = some name ∧ k = temporaryName name :: d) : Lasting fs s p content := by
  refine ⟨hways.cwd.trans hm.cwd, hm.keeps.trans hways.keeps, ?_⟩
  intro k e he
  have hmk := hm.stays he
  by_cases hw : e.IsWay
  · exact .inl (hways.keeps k e hmk hw)
  · exact (hs k).imp (fun hk => hk.trans hmk) fun hk => ⟨hw, hk⟩

theorem temporary_cons (h : temporary? p = some temporary) (ht : fs.Names temporary t) :
    ∃ name d, p.fileName? = some name ∧ t = temporaryName name :: d := by
  obtain ⟨name, dir, hn, -, rfl⟩ := temporary?_eq_some h
  obtain ⟨n, d, nm, ⟨start, xs, -, hx, -⟩, -, -, -, rfl⟩ := FileSystem.names_iff.1 ht
  rw [names_temporary hn] at hx
  obtain ⟨-, hnm⟩ := List.append_inj' hx rfl
  exact ⟨name, d, hn, by rw [List.cons.inj hnm |>.1]⟩

theorem isLink_of_lstat_toOption (h : (s.lstat p).toOption = (fs.lstat p).toOption) : s.isLink p = fs.isLink p := by
  unfold FileSystem.isLink
  cases hs : s.lstat p <;> cases hf : fs.lstat p <;> simp_all [Except.toOption]

theorem stops_withTemporary {next : Path → Plan (Except ReplaceFault Unit)} : (withTemporary p next).MayStop fs s ↔
    (makeParent p).MayStop fs s ∨ ∃ m temporary, (makeParent p).run fs = (.ok (), m) ∧ temporary? p = some temporary ∧
      (next temporary).MayStop m s := by
  rw [withTemporary, mayStop_bind]
  constructor
  · rintro (h | h)
    · exact .inl h
    have hafter := Plan.mayStop_after (makeParent p) fs
    rcases hrun : (makeParent p).run fs with ⟨_ | _, m⟩
    · rw [hrun] at h hafter
      rw [show s = m from h]
      exact .inl hafter
    · rw [hrun] at h hafter
      cases ht : temporary? p with
      | none =>
        simp only [ht] at h
        rw [show s = m from h]
        exact .inl hafter
      | some temporary =>
        simp only [ht] at h
        exact .inr ⟨m, temporary, rfl, rfl, h⟩
  · rintro (h | ⟨m, temporary, hrun, htemp, h⟩)
    · exact .inl h
    · rw [hrun]
      simp only [htemp]
      exact .inr h

/-- **Operations and clean-up.** A replacement may be stopped where its operations may, and behind the clean-up if they failed
with a temporary path. -/
theorem stops_planTarget : (planTarget p content).MayStop fs s ↔ (withTemporary p (attempt · p content)).MayStop fs s ∨
    ∃ m temporary fault u, (makeParent p).run fs = (.ok (), m) ∧ temporary? p = some temporary ∧
      (attempt temporary p content).run m = (.error fault, u) ∧ s = (u.perform (.remove temporary)).2 := by
  rw [planTarget_eq, stops_withTemporary, stops_withTemporary]
  constructor
  · rintro (h | ⟨m, temporary, hrun, htemp, h⟩)
    · exact .inl (.inl h)
    rcases stops_fillAndMove.1 h with h | ⟨fault, u, hfailed, hs⟩
    · exact .inl (.inr ⟨m, temporary, hrun, htemp, h⟩)
    · exact .inr ⟨m, temporary, fault, u, hrun, htemp, hfailed, hs⟩
  · rintro ((h | ⟨m, temporary, hrun, htemp, h⟩) | ⟨m, temporary, fault, u, hrun, htemp, hfailed, hs⟩)
    · exact .inl h
    · exact .inr ⟨m, temporary, hrun, htemp, stops_fillAndMove.2 (.inl h)⟩
    · exact .inr ⟨m, temporary, hrun, htemp, stops_fillAndMove.2 (.inr ⟨fault, u, hfailed, hs⟩)⟩

/-- `s` is `fs` without the device that the temporary path names -/
def Dropped (fs s : FileSystem) (p : Path) : Prop :=
  ∃ temporary t d, temporary? p = some temporary ∧ fs.Names temporary t ∧ fs.tree.at? t = some (.device d) ∧ s = fs.drop t

/-- what a stop leaves of a target, and what a second try makes of it -/
structure Survives (fs s : FileSystem) (p : Path) (content : List UInt8) : Prop where
  target : (s.lstat p).toOption = (fs.lstat p).toOption ∨ s.lstat p = .ok (.file content)
  lasting : Lasting fs s p content
  again : (planTarget p content).run s = (planTarget p content).run fs

theorem survives_of_makeParent (hup : ['.', '.'] ∉ p.names) (h : (makeParent p).MayStop fs s) :
    Survives fs s p content := by
  refine ⟨.inl (lstat_toOption_of_makeParent hup h), ?_, ?_⟩
  · exact lasting_of_sameWays (grown_makeParent h) (.refl s) fun k => .inl rfl
  · rw [run_planTarget, run_planTarget, made, made, run_makeParent_again hup h]

theorem run_planTarget_behind {u : FileSystem} (hrun : (makeParent p).run u = (.ok (), m))
    (htemp : temporary? p = some temporary) :
    (planTarget p content).run u = (fillAndMove temporary p content).run m := by
  rw [run_planTarget, made, hrun]
  simp only [htemp]

section

variable (hup : ['.', '.'] ∉ p.names) (hrun : (makeParent p).run fs = (.ok (), m))
  (htemp : temporary? p = some temporary)

include hrun in
theorem mayStop_of_run : (makeParent p).MayStop fs m := by
  have := Plan.mayStop_after (makeParent p) fs
  rwa [hrun] at this

include hrun htemp

/-- what is filled and moved the same again, is replaced the same again -/
theorem run_planTarget_again (ht : m.Names temporary t) (hways : m.SameWays s)
    (hagain : (fillAndMove temporary p content).run s = (fillAndMove temporary p content).run m) :
    (planTarget p content).run s = (planTarget p content).run fs := by
  have hparent := run_makeParent_of_keeps htemp ht hways.keeps hways.cwd
  calc (planTarget p content).run s
      = (fillAndMove temporary p content).run s := run_planTarget_behind hparent htemp
    _ = (fillAndMove temporary p content).run m := hagain
    _ = (planTarget p content).run fs := (run_planTarget_behind hrun htemp).symm

/-- what differs from before the directories only by the temporary file -/
theorem lasting_of_others (ht : m.Names temporary t) (hways : m.SameWays s)
    (hothers : ∀ k, k ≠ t → s.tree.at? k = m.tree.at? k) : Lasting fs s p content := by
  apply lasting_of_sameWays (grown_makeParent (mayStop_of_run hrun)) hways
  intro k
  by_cases hk : k = t
  · exact .inr (.inr (hk ▸ temporary_cons htemp ht))
  · exact .inl (hothers k hk)

include hup

/-- where only the temporary file differs, the target is what it was -/
theorem lstat_of_others (ht : m.Names temporary t) (hways : m.SameWays s)
    (hothers : ∀ k, k ≠ t → s.tree.at? k = m.tree.at? k) : (s.lstat p).toOption = (fs.lstat p).toOption := by
  calc (s.lstat p).toOption
      = (m.lstat p).toOption := hways.lstat fun r hr _ => hothers r (ne_of_beside htemp hr ht)
    _ = (fs.lstat p).toOption := lstat_toOption_of_makeParent hup (mayStop_of_run hrun)

/-- a stop that left a temporary file, or nothing -/
theorem survives_of_left (hs : Left m s temporary) : Survives fs s p content := by
  rcases hs with rfl | ⟨t, ht, hleft⟩
  · exact survives_of_makeParent hup (mayStop_of_run hrun)
  · refine ⟨.inl (lstat_of_others hup hrun htemp ht hleft.sameWays hleft.others), ?_, ?_⟩
    · exact lasting_of_others hrun htemp ht hleft.sameWays hleft.others
    · exact run_planTarget_again hrun htemp ht hleft.sameWays (run_refillable htemp ht hleft)

theorem survives_of_moved (hplink : fs.isLink p = false) (ht : m.Names temporary t) (hmoved : Moved m s p content r t)
    (hdone : (fillAndMove temporary p content).run m = (.ok (), s)) : Survives fs s p content := by
  have hm := mayStop_of_run hrun
  have hnolink : ∀ target, m.tree.at? r ≠ some (.link target) := by
    intro target he
    have hl := FileSystem.isLink_of_names hmoved.named hmoved.noSlash he
    rw [isLink_of_lstat_toOption (lstat_toOption_of_makeParent hup hm), hplink] at hl
    exact absurd hl (by simp)
  have hways := hmoved.sameWays hnolink
  have hr : s.tree.at? r = some (.file content) := by rw [hmoved.at?, if_pos rfl]
  refine ⟨.inr (FileSystem.lstat_of_names (hways.names.2 hmoved.named) hmoved.noSlash hr), ?_, ?_⟩
  · apply lasting_of_sameWays (grown_makeParent hm) hways
    intro k
    rw [hmoved.at?]
    split
    · exact .inr (.inl rfl)
    · split
      · next hk => exact .inr (.inr (hk ▸ temporary_cons htemp ht))
      · exact .inl rfl
  · refine run_planTarget_again hrun htemp ht hways ?_
    rw [hdone, run_moved htemp ht hnolink hmoved]

/-- a device that the clean-up took away was there from the start -/
theorem dropped_of_device {d : Device} (ht : m.Names temporary t) (hd : m.tree.at? t = some (.device d)) :
    Dropped fs (m.drop t) p := by
  by_cases hne : m = fs
  · subst hne
    exact ⟨temporary, t, d, htemp, ht, hd, rfl⟩
  · have hm := mayStop_of_run hrun
    obtain ⟨dir, hparent, hdir, -⟩ := parent_of_makeParent hm hne
    obtain ⟨d', x, hl, rfl⟩ := leads_of_temporary htemp hparent hdir ht
    rw [bare_of_makeParent hup hparent hm hne hl x] at hd
    exact absurd hd (by simp)

theorem survives_or_dropped (hlink : m.isLink temporary = false) (hs : Left m s temporary) :
    Survives fs (s.perform (.remove temporary)).2 p content ∨ Dropped fs (s.perform (.remove temporary)).2 p := by
  rcases left_or_dropped htemp hlink hs with hleft | ⟨t, d, ht, hd, hdrop⟩
  · exact .inl (survives_of_left hup hrun htemp hleft)
  · rw [hdrop]
    exact .inr (dropped_of_device hup hrun htemp ht hd)

end

/-- without its device, a temporary path has its target as it was -/
theorem Dropped.lstat (h : Dropped fs s p) : (s.lstat p).toOption = (fs.lstat p).toOption := by
  obtain ⟨temporary, t, d, htemp, ht, hd, rfl⟩ := h
  have hat : ∀ k, (fs.drop t).tree.at? k = if k = t then none else fs.tree.at? k :=
    FileSystem.at?_drop (by rw [hd]; simp)
  have hways : fs.SameWays (fs.drop t) := by
    refine FileSystem.sameWays_of_at? rfl ?_
    intro k
    rw [hat]
    split
    · next hk =>
      refine .inr ⟨?_, by simp⟩
      intro e he
      obtain rfl : .device d = e := Option.some.inj (hd.symm.trans (hk ▸ he))
      simp [Entry.IsWay]
    · exact .inl rfl
  apply hways.lstat
  intro r hr _
  rw [hat, if_neg (ne_of_beside htemp hr ht)]

section

variable (hup : ['.', '.'] ∉ p.names) (hplink : fs.isLink p = false)
  (hlink : ∀ temporary, temporary? p = some temporary → fs.isLink temporary = false)

include hup hplink hlink

/-- a target that is no link survives a stop in the operations of its replacement -/
theorem survives_of_mayStop (h : (withTemporary p (attempt · p content)).MayStop fs s) : Survives fs s p content := by
  rcases stops_withTemporary.1 h with hs | ⟨m, temporary, hrun, htemp, hs⟩
  · exact survives_of_makeParent hup hs
  have hm := isLink_temporary hup htemp (mayStop_of_run hrun) (hlink temporary htemp)
  rcases stops_attempt htemp hm hs with hleft | ⟨⟨t, r, ht, hmoved⟩, hdone⟩
  · exact survives_of_left hup hrun htemp hleft
  · exact survives_of_moved hup hrun htemp hplink ht hmoved (by rw [run_fillAndMove, hdone])

/-- and a stop behind its clean-up, unless that takes a device away -/
theorem survives_of_mayStop_cleaning (h : (planTarget p content).MayStop fs s) :
    Survives fs s p content ∨ Dropped fs s p := by
  rcases stops_planTarget.1 h with h | ⟨m, temporary, fault, u, hrun, htemp, hfailed, rfl⟩
  · exact .inl (survives_of_mayStop hup hplink hlink h)
  · have hm := isLink_temporary hup htemp (mayStop_of_run hrun) (hlink temporary htemp)
    exact survives_or_dropped hup hrun htemp hm (left_of_failed htemp hm hfailed)

end

theorem isLink_keep (hk : Keeps fs.tree s.tree) (hc : s.cwd = fs.cwd) (hl : fs.isLink p = true) : s.isLink p = true := by
  obtain ⟨l, target, hn, he, hs⟩ := FileSystem.names_of_isLink hl
  exact FileSystem.isLink_of_names (hn.keep hk hc) hs (hk.link he)

theorem isLink_path {l : Location} {e : Entry} (he : fs.tree.at? l = some e) (hlink : ∀ target, e ≠ .link target) :
    fs.isLink l.path = false := by
  by_contra h
  obtain ⟨r, target, hn, hr, -⟩ := FileSystem.names_of_isLink (by simpa using h)
  rw [FileSystem.names_canonicalPath (by rw [he]; simp) hn, he] at hr
  exact hlink target (Option.some.inj hr)

/-- a canonical path survives a stop in replacing what it names -/
theorem Lasting.canonicalPath {l : Location} {e : Entry} (h : Lasting fs s l.path content)
    (hp : fs.canonicalPath p = .ok l.path) (he : fs.tree.at? l = some e) (hlink : ∀ target, e ≠ .link target) :
    s.canonicalPath p = .ok l.path := by
  have hthere : fs.tree.at? l ≠ none := by rw [he]; simp
  have hn := FileTree.isName_of_at? hthere
  rcases h.entry l e he with hs | ⟨hway, hs | ⟨name, d, hname, hl⟩⟩
  · exact FileSystem.canonicalPath_keep h.keeps h.cwd hs hlink (fun hd => hd ▸ he) hn hp
  · exact FileSystem.canonicalPath_keep h.keeps h.cwd hs (by simp) (by simp) hn hp
  · -- a file is not the temporary file of itself
    have hnames := (FileSystem.names_path_of_at? hthere).1
    have hx : l.path.names = d.reverse ++ [temporaryName name] := by rw [hnames, hl]; simp
    have hdots := (hn (temporaryName name) (by rw [hl]; exact List.mem_cons_self)).2.2
    exact absurd (Path.tops_of_last hx hdots hname).1.symm (temporaryName_ne name)

/-- the target of a path without `..` that is no link, or a link with a canonical path, spells no `..` and is no link; it is
the target still behind a stop -/
theorem target_of_survives (content : List UInt8) (hup : ['.', '.'] ∉ p.names)
    (hcanon : fs.isLink p = true → ∃ q, fs.canonicalPath p = .ok q) :
    ['.', '.'] ∉ (target fs p).names ∧ fs.isLink (target fs p) = false ∧
      ∀ s, Survives fs s (target fs p) content → target s p = target fs p := by
  cases hl : fs.isLink p with
  | false =>
    rw [target_of_not_isLink hl]
    refine ⟨hup, hl, ?_⟩
    intro s hs
    apply target_of_not_isLink
    rcases hs.target with hsame | hfile
    · rw [isLink_of_lstat_toOption hsame, hl]
    · simp [FileSystem.isLink, hfile]
  | true =>
    obtain ⟨q, hq⟩ := hcanon hl
    obtain ⟨-, l, e, rfl, -, -, -, he, hnolink⟩ := FileSystem.canonicalPath_eq_ok hq
    rw [target_of_canonicalPath hl hq]
    refine ⟨(FileSystem.names_path_of_at? (by rw [he]; simp)).2, isLink_path he hnolink, ?_⟩
    intro s hs
    exact target_of_canonicalPath (isLink_keep hs.lasting.keeps hs.lasting.cwd hl)
      (hs.lasting.canonicalPath hq he hnolink)

/-- what survives is replaced again as if nothing had been tried before -/
theorem save_of_survives (h : Survives fs s (target fs p) content) (ht : target s p = target fs p) :
    Rendering.save p content s = Rendering.save p content fs := by
  simp only [Rendering.save, run_plan, ht, h.again]

section

variable (hup : ['.', '.'] ∉ p.names) (hcanon : fs.isLink p = true → ∃ q, fs.canonicalPath p = .ok q)
  (hlink : ∀ temporary, temporary? (target fs p) = some temporary → fs.isLink temporary = false)

include hup hcanon hlink

/-- **Stops in the clean-up.** A replacement that fails goes on to remove its temporary file. Wherever that is stopped, the
same holds, unless it has removed a device. -/
theorem stopped_cleaning (h : (plan p content).MayStop fs s) :
    ((s.lstat (target fs p)).toOption = (fs.lstat (target fs p)).toOption ∨
      s.lstat (target fs p) = .ok (.file content)) ∧
    (Rendering.save p content s = Rendering.save p content fs ∨ Dropped fs s (target fs p)) := by
  obtain ⟨hnoup, hplink, hsame⟩ := target_of_survives content hup hcanon
  rw [plan, mayStop_observe] at h
  rcases survives_of_mayStop_cleaning hnoup hplink hlink h with hsurvives | hdropped
  · exact ⟨hsurvives.target, .inl (save_of_survives hsurvives (hsame s hsurvives))⟩
  · exact ⟨.inl hdropped.lstat, .inr hdropped⟩

end

/-- a stop behind the clean-up that took a device away: the first replacement fails, a second one does not -/
theorem device_not_made_up_for :
    let fs : FileSystem := (⟨.empty, []⟩ : FileSystem).put [".out.tmp".toList] (.device .null)
    let s := ((plan "out".toList [120]).run fs).2
    (plan "out".toList [120]).MayStop fs s ∧ fs.isLink ".out.tmp".toList = false ∧
      (Rendering.save "out".toList [120] fs).1 ≠ .ok () ∧ (Rendering.save "out".toList [120] s).1 = .ok () :=
  ⟨Plan.mayStop_after _ _, by decide +kernel, by decide +kernel, by decide +kernel⟩

end BranchRender.Replacement
