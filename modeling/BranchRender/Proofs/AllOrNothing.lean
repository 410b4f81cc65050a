/-
ALL OR NOTHING: a replacement puts all of the content in place, or leaves the target as it was.

- `made` is the file system a replacement works in: with the directories above the target, as far as they can be made.
- `Replaced` is what a success leaves, `Kept` what a failure leaves; both speak of every location. `Landed` is a success as
  seen from the file system it works in.
- A temporary path that is a link to a file, or to a place for one, is not covered: then the content goes to that file.
- A path with `..` may get through a directory that is made for it, and name that directory: where nothing was, a failure
  may leave it (`save_names_new_directory`).

Main statement: `save_all_or_nothing`.
-/
import Mathlib.Control.Monad.Basic
import Mathlib.Tactic.ByContra
import BranchRender.Rendering
import BranchRender.Proofs.Replacing

namespace BranchRender.Replacement

open FileSystem (Grown)
open FileTree (Keeps)

variable {fs m s : FileSystem} {p temporary : Path} {content : List UInt8} {c r t : Location}

/-- with the directories above the target `p`, as far as they can be made -/
def made (fs : FileSystem) (p : Path) : FileSystem := ((makeParent p).run fs).2

theorem grown_made (fs : FileSystem) (p : Path) : fs.Grown (made fs p) (above p) :=
  grown_makeParent (Plan.mayStop_after _ _)

/-- `s` is `m`, in which nothing is missing on the way to the target `p`, with the content at the target, named `r`, and no
temporary file, named `t` -/
structure Landed (m s : FileSystem) (p : Path) (content : List UInt8) (r t : Location) : Prop where
  cwd : s.cwd = m.cwd
  target : m.Names p r
  slash : p.endsInSlash = false
  place : m.tree.at? r ≠ some .directory
  temporary : ∃ temporary, temporary? p = some temporary ∧ m.Names temporary t
  bare : ∀ e, m.tree.at? t = some e → ¬ e.IsWay
  at? : ∀ k, s.tree.at? k = if k = r then some (.file content) else if k = t then none else m.tree.at? k

/-- `s` is `fs` with the content at the target `p`, named `r`, the missing directories on the way to it, and no temporary
file, named `t` -/
structure Replaced (fs s : FileSystem) (p : Path) (content : List UInt8) (r t : Location) : Prop where
  cwd : s.cwd = fs.cwd
  target : (made fs p).Names p r ∧ s.tree.at? r = some (.file content)
  temporary : (∃ temporary, temporary? p = some temporary ∧ (made fs p).Names temporary t) ∧ s.tree.at? t = none
  others : ∀ k, k ≠ r → k ≠ t → s.tree.at? k = fs.tree.at? k ∨
    fs.tree.at? k = none ∧ s.tree.at? k = some .directory ∧ ∃ q ∈ above p, (made fs p).Names q k

/-- `s` is `fs` but for new directories on the way to the target `p`, and a temporary file that is gone -/
structure Kept (fs s : FileSystem) (p : Path) : Prop where
  cwd : s.cwd = fs.cwd
  at? : ∀ k, s.tree.at? k = fs.tree.at? k ∨
    (fs.tree.at? k = none ∧ s.tree.at? k = some .directory ∧ ∃ q ∈ above p, (made fs p).Names q k) ∨
    (s.tree.at? k = none ∧ fs.tree.at? k ≠ some .directory ∧
      ∃ temporary, temporary? p = some temporary ∧ (made fs p).Names temporary k)
  /-- what the target path names, before or after, is as before, or a new directory got to through `..` -/
  target : ∀ r, fs.Names p r ∨ s.Names p r → s.tree.at? r = fs.tree.at? r ∨
    ['.', '.'] ∈ p.names ∧ fs.tree.at? r = none ∧ s.tree.at? r = some .directory

/-! ## Successes -/

theorem Landed.file (h : Landed m s p content r t) : s.tree.at? r = some (.file content) := by rw [h.at?, if_pos rfl]

theorem Landed.replaced (h : Landed (made fs p) s p content r t) : Replaced fs s p content r t := by
  have hgrown := grown_made fs p
  obtain ⟨temporary, htemp, ht⟩ := h.temporary
  have hne : t ≠ r := (ne_of_beside htemp h.target ht).symm
  refine ⟨h.cwd.trans hgrown.cwd, ⟨h.target, h.file⟩, ⟨h.temporary, ?_⟩, ?_⟩
  · rw [h.at?, if_neg hne, if_pos rfl]
  · intro k hkr hkt
    rw [h.at?, if_neg hkr, if_neg hkt]
    exact hgrown.at? k

/-! ## Failures -/

/-- what a failure leaves: the directories, without the temporary file if that is gone -/
theorem kept_of_made (hc : s.cwd = fs.cwd) (h : s = made fs p ∨ ∃ temporary t, temporary? p = some temporary ∧
    (made fs p).Names temporary t ∧ (made fs p).tree.at? t ≠ some .directory ∧
    ∀ k, s.tree.at? k = if k = t then none else (made fs p).tree.at? k) : Kept fs s p := by
  have hgrown := grown_made fs p
  have hat : ∀ k, s.tree.at? k = (made fs p).tree.at? k ∨ s.tree.at? k = none ∧
      (made fs p).tree.at? k ≠ some .directory ∧
      ∃ temporary, temporary? p = some temporary ∧ (made fs p).Names temporary k := by
    intro k
    rcases h with rfl | ⟨temporary, t, ht, hn, hd, h⟩
    · exact .inl rfl
    · rw [h]
      split
      · next hk =>
        subst hk
        exact .inr ⟨rfl, hd, temporary, ht, hn⟩
      · exact .inl rfl
  have hkeep : Keeps s.tree (made fs p).tree := by
    intro k e he _
    rcases hat k with hk | ⟨hk, -⟩
    · rw [← hk, he]
    · rw [hk] at he; exact absurd he (by simp)
  refine ⟨hc, ?_, ?_⟩
  · intro k
    rcases hat k with hk | ⟨hk, hd, htemp⟩
    · rw [hk]
      exact (hgrown.at? k).imp id .inl
    · rcases hgrown.at? k with hk' | ⟨-, hd', -⟩
      · exact .inr (.inr ⟨hk, hk' ▸ hd, htemp⟩)
      · exact absurd hd' hd
  · intro r hr
    have hm : (made fs p).Names p r := hr.elim (·.keep hgrown.keeps hgrown.cwd) (·.keep hkeep (hgrown.cwd.trans hc.symm))
    rcases hat r with hk | ⟨-, -, temporary, ht, hn⟩
    · rw [hk]
      by_cases hup : ['.', '.'] ∈ p.names
      · exact (hgrown.at? r).imp id fun ⟨hv, hd, _⟩ => ⟨hup, hv, hd⟩
      · by_cases hne : made fs p = fs
        · exact .inl (by rw [hne])
        · have hv := vacant_of_makeParent hup (Plan.mayStop_after _ _) hne hm
          rcases hgrown.at? r with hk' | ⟨hv', hd, -⟩
          · exact .inl hk'
          · exact .inl (hv.trans hv'.symm)
    · exact absurd rfl (ne_of_beside ht hm hn)

/-! ## Replacements -/

theorem run_planTarget (p : Path) (content : List UInt8) (fs : FileSystem) : (planTarget p content).run fs =
    match ((makeParent p).run fs).1 with
    | .error fault => (.error fault, made fs p)
    | .ok () => match temporary? p with
      | none => (.error .noName, made fs p)
      | some temporary => (fillAndMove temporary p content).run (made fs p) := by
  rw [planTarget, Plan.run_bind]
  cases ((makeParent p).run fs).1 with
  | error fault => rfl
  | ok _ => cases temporary? p <;> rfl

/-- a temporary file that is filled where it is named is moved, or dropped again -/
theorem run_fillAndMove_cases (content : List UInt8) (h : temporary? p = some temporary)
    (hlink : m.isLink temporary = true → ∀ c, m.newFile temporary ≠ .ok (c, true)) :
    (∃ s r t, (fillAndMove temporary p content).run m = (.ok (), s) ∧ Landed m s p content r t) ∨
      ∃ fault s, (fillAndMove temporary p content).run m = (.error fault, s) ∧ s.cwd = m.cwd ∧
        (s = m ∨ ∃ t, m.Names temporary t ∧ m.tree.at? t ≠ some .directory ∧
          ∀ k, s.tree.at? k = if k = t then none else m.tree.at? k) := by
  by_cases hc : ∃ c, m.newFile temporary = .ok (c, true)
  case neg =>
    obtain ⟨fault, hrun⟩ := run_fillAndMove_refused p content fun c he => hc ⟨c, he⟩
    refine .inr ⟨fault, _, hrun, ?_⟩
    rcases FileSystem.remove_cases m temporary with hs | ⟨t, e, ht, he, hd, hs⟩
    · rw [hs]
      exact ⟨rfl, .inl rfl⟩
    · have hd : m.tree.at? t ≠ some .directory := by rw [he]; simpa using hd
      rw [hs]
      exact ⟨rfl, .inr ⟨t, ht, hd, FileSystem.at?_drop hd⟩⟩
  obtain ⟨c, hc⟩ := hc
  have hnolink : ∀ t target, m.Names temporary t → m.tree.at? t ≠ some (.link target) := by
    intro t target ht he
    exact hlink (FileSystem.isLink_of_names ht (endsInSlash_temporary h) he) c hc
  obtain ⟨ht, hm⟩ := movable_of_no_link content h hc hnolink
  have ha := admits_of_newFile hc
  obtain ⟨-, he, -, -⟩ := FileSystem.movable_iff.1 hm
  cases hr : (m.put c (.file content)).destination p with
  | error fault =>
    refine .inr ⟨_, _, run_fillAndMove_kept hc hm hr, rfl, .inr ⟨c, ht, ha.2.2.1, ?_⟩⟩
    intro k
    rw [FileSystem.at?_drop (by rw [he]; simp), FileSystem.at?_put ha]
    split <;> rfl
  | ok r =>
    obtain ⟨hn, hslash, hd⟩ := FileSystem.destination_iff.1 hr
    have hn' : m.Names p r := hn.keep (FileSystem.kept_by_put (by simp [Entry.IsWay])) rfl
    have hrc : r ≠ c := ne_of_beside h hn' ht
    refine .inl ⟨_, r, c, run_fillAndMove_moved hc hm hr, rfl, hn', hslash, ?_, ⟨temporary, h, ht⟩,
      not_isWay_of_newFile hc, ?_⟩
    · rwa [FileSystem.at?_put ha, if_neg hrc] at hd
    · intro k
      rw [FileSystem.tree_withTree, FileSystem.at?_move he (by simp) (hn.admits hd), FileSystem.at?_put ha]
      by_cases hkc : k = c
      · rw [if_pos hkc, if_pos hkc]
      · rw [if_neg hkc, if_neg hkc, if_neg hkc]

theorem fillAndMove_all_or_nothing (content : List UInt8) (h : temporary? p = some temporary)
    (hlink : (made fs p).isLink temporary = true → ∀ c, (made fs p).newFile temporary ≠ .ok (c, true)) :
    (∃ s r t, (fillAndMove temporary p content).run (made fs p) = (.ok (), s) ∧ Replaced fs s p content r t) ∨
      ∃ fault s, (fillAndMove temporary p content).run (made fs p) = (.error fault, s) ∧ Kept fs s p := by
  rcases run_fillAndMove_cases content h hlink with ⟨s, r, t, hrun, hlanded⟩ | ⟨fault, s, hrun, hc, hs⟩
  · exact .inl ⟨s, r, t, hrun, hlanded.replaced⟩
  · refine .inr ⟨fault, s, hrun, kept_of_made (hc.trans (grown_made fs p).cwd) ?_⟩
    exact hs.imp id fun ⟨t, ht, hd, hat⟩ => ⟨temporary, t, h, ht, hd, hat⟩

/-- **All or nothing.** A replacement puts all of the content in place and changes nothing else but new directories, or it
fails, names the path it was asked for, and keeps the target and every other file and link. -/
theorem save_all_or_nothing (fs : FileSystem) (p : Path) (content : List UInt8)
    (hlink : ∀ temporary, temporary? (target fs p) = some temporary →
      (made fs (target fs p)).isLink temporary = true →
      ∀ c, (made fs (target fs p)).newFile temporary ≠ .ok (c, true)) :
    (∃ s r t, Rendering.save p content fs = (.ok (), s) ∧ Replaced fs s (target fs p) content r t) ∨
      ∃ (fault : ReplaceFault) (s : FileSystem),
        Rendering.save p content fs = (.error (.outputUnwritable p fault.message), s) ∧ Kept fs s (target fs p) := by
  have hkept : Kept fs (made fs (target fs p)) (target fs p) := kept_of_made (grown_made _ _).cwd (.inl rfl)
  have hrun := run_planTarget (target fs p) content fs
  unfold Rendering.save
  rw [run_plan]
  cases hparent : ((makeParent (target fs p)).run fs).1 with
  | error fault =>
    rw [hparent] at hrun
    exact .inr ⟨fault, _, by rw [hrun]; rfl, hkept⟩
  | ok _ =>
    rw [hparent] at hrun
    cases htemp : temporary? (target fs p) with
    | none =>
      rw [htemp] at hrun
      exact .inr ⟨.noName, _, by rw [hrun]; rfl, hkept⟩
    | some temporary =>
      rw [htemp] at hrun
      rcases fillAndMove_all_or_nothing content htemp (hlink temporary htemp) with
        ⟨s, r, t, hs, hreplaced⟩ | ⟨fault, s, hs, hk⟩
      · exact .inl ⟨s, r, t, by rw [hrun]; simp only [hs]; rfl, hreplaced⟩
      · exact .inr ⟨fault, s, by rw [hrun]; simp only [hs]; rfl, hk⟩

/-- in an empty directory: a file is put into a directory that is made for it -/
theorem save_makes_directory :
    let fs : FileSystem := ⟨.empty, []⟩
    let p : Path := "gen/out".toList
    (∀ temporary, temporary? (target fs p) = some temporary → (made fs (target fs p)).isLink temporary = true →
      ∀ c, (made fs (target fs p)).newFile temporary ≠ .ok (c, true)) ∧
    ∃ s r t, Rendering.save p [120] fs = (.ok (), s) ∧ Replaced fs s (target fs p) [120] r t := by
  intro fs p
  have hlink : ∀ temporary, temporary? (target fs p) = some temporary →
      (made fs (target fs p)).isLink temporary = true →
      ∀ c, (made fs (target fs p)).newFile temporary ≠ .ok (c, true) := by
    intro temporary ht hl
    have htemp : temporary? (target fs p) = some "gen/.out.tmp".toList := by decide +kernel
    obtain rfl : "gen/.out.tmp".toList = temporary := Option.some.inj (htemp.symm.trans ht)
    exact absurd hl (by decide +kernel)
  refine ⟨hlink, ?_⟩
  rcases save_all_or_nothing fs p [120] hlink with h | ⟨fault, s, hs, -⟩
  · exact h
  · have hok : (Rendering.save p [120] fs).1 = .ok () := by decide +kernel
    rw [hs] at hok
    exact absurd hok (by simp)

/-- **A directory at the target.** In an empty directory, a path gets to its own place through a directory that has to be made,
and a failure leaves that directory where nothing was. -/
theorem save_names_new_directory :
    let fs : FileSystem := ⟨.empty, []⟩
    let p : Path := "gen/../gen".toList
    let result := Rendering.save p [120] fs
    target fs p = p ∧ temporary? p = some "gen/../.gen.tmp".toList ∧
      (made fs p).lstat "gen/../.gen.tmp".toList = .error (.system .notFound) ∧
      result.1 = .error (.outputUnwritable p (ReplaceFault.replacing (.system .isDirectory)).message) ∧
      fs.lstat p = .error (.system .notFound) ∧ result.2.lstat p = .ok .directory := by
  decide +kernel

end BranchRender.Replacement
