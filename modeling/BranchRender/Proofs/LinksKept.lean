/-
LINKS: which links a replacement keeps, and whether the path it was asked for reads what was written.

- A replacement takes the place of one entry, the one its target names; every other link is kept (`Landed.keeps_link`), if
  the temporary file is none: one that is a link is moved itself (`loses_temporary`).
- So all links are kept exactly if neither the target nor the temporary file is one. The target of a link that leads to
  anything is none. But of a link that leads nowhere only the first step is taken: if the path it names is a link again,
  that one is lost, and the content stands in its place.

Main statements: `Landed.keepsLinks_iff`, `loses_temporary`, `links_kept_iff`.
-/
import BranchRender.Proofs.Interruption
import BranchRender.Proofs.ReadBack

namespace BranchRender

namespace FileSystem

variable {fs s : FileSystem} {p : Path} {l : Location}

/-- every link of `fs` is one to the same path in `s` -/
def KeepsLinks (fs s : FileSystem) : Prop :=
  ∀ k link, fs.tree.at? k = some (.link link) → s.tree.at? k = some (.link link)

theorem isLink_eq_false_iff (hn : fs.Names p l) (hs : p.endsInSlash = false) :
    fs.isLink p = false ↔ ∀ link, fs.tree.at? l ≠ some (.link link) := by
  constructor
  · intro h link he
    exact absurd (isLink_of_names hn hs he) (by simp [h])
  · intro h
    by_contra hl
    obtain ⟨l', link, hn', he, -⟩ := names_of_isLink (by simpa using hl)
    exact h link (hn.unique hn' ▸ he)

end FileSystem

namespace Replacement

open FileSystem (KeepsLinks)

variable {fs m s : FileSystem} {p q temporary : Path} {content : List UInt8} {k r t : Location} {link : Path}

/-! ## One replacement -/

theorem link_of_made (he : (made fs q).tree.at? k = some (.link link)) : fs.tree.at? k = some (.link link) := by
  rcases (grown_made fs q).at? k with hk | ⟨-, hk, -⟩
  · exact hk.symm.trans he
  · exact absurd (hk.symm.trans he) (by simp)

/-- a link that is not at the target's place stays -/
theorem Landed.keeps_link (h : Landed (made fs q) s q content r t) (hk : k ≠ r)
    (he : fs.tree.at? k = some (.link link)) : s.tree.at? k = some (.link link) :=
  h.stays hk ((grown_made fs q).stays he) (.inr ⟨link, rfl⟩)

/-- where the temporary file is no link, all links stay exactly if the target is none -/
theorem Landed.keepsLinks_iff (h : Landed (made fs q) s q content r t) :
    KeepsLinks fs s ↔ (made fs q).isLink q = false := by
  rw [FileSystem.isLink_eq_false_iff h.target h.slash]
  constructor
  · intro hkeeps link he
    exact absurd (h.file.symm.trans (hkeeps r link (link_of_made he))) (by simp)
  · intro hr k link he
    have hk : k ≠ r := fun hk => hr link (hk ▸ (grown_made fs q).stays he)
    exact h.keeps_link hk he

/-- a temporary path that is a link is moved itself, away from where it was -/
theorem loses_temporary (h : temporary? q = some temporary) (hl : m.isLink temporary = true)
    (hrun : (fillAndMove temporary q content).run m = (.ok (), s)) :
    ∃ t link, m.tree.at? t = some (.link link) ∧ s.tree.at? t = none := by
  obtain ⟨t, link, hn, ht, -⟩ := FileSystem.names_of_isLink hl
  refine ⟨t, link, ht, ?_⟩
  by_cases hc : ∃ c, m.newFile temporary = .ok (c, true)
  case neg =>
    obtain ⟨fault, hfault⟩ := run_fillAndMove_refused q content fun c he => hc ⟨c, he⟩
    exact absurd (hfault.symm.trans hrun) (by simp)
  obtain ⟨c, hc⟩ := hc
  obtain ⟨t', e, hn', hm, hct⟩ := movable_of_newFile content h hc
  obtain rfl := hn.unique hn'
  obtain ⟨-, he, hed, -⟩ := FileSystem.movable_iff.1 hm
  have hne : t ≠ c := by
    rintro rfl
    exact not_isWay_of_newFile hc _ ht (.inr ⟨link, rfl⟩)
  cases hr : (m.put c (.file content)).destination q with
  | error fault =>
    have hkept := run_fillAndMove_kept hc hm hr
    exact absurd (hkept.symm.trans hrun) (by simp)
  | ok r =>
    obtain ⟨hq, -, hdir⟩ := FileSystem.destination_iff.1 hr
    have hrt : r ≠ t := ne_of_beside h hq (FileSystem.movable_iff.1 hm).1
    have hmoved := run_fillAndMove_moved hc hm hr
    obtain rfl := (Prod.mk.inj (hmoved.symm.trans hrun)).2
    rw [FileSystem.tree_withTree, FileSystem.at?_move he hed (hq.admits hdir), if_neg hrt.symm, if_pos rfl]

/-! ## Behind new directories -/

/-- a target that spells no `..` is a link behind its new directories only if it was one -/
theorem isLink_made (hup : ['.', '.'] ∉ q.names) : (made fs q).isLink q = fs.isLink q := by
  have hgrown := grown_made fs q
  cases hl : fs.isLink q with
  | true => exact isLink_keep hgrown.keeps hgrown.cwd hl
  | false =>
    by_cases hne : made fs q = fs
    · rw [hne, hl]
    · by_contra hm
      obtain ⟨r, link, hn, he, -⟩ := FileSystem.names_of_isLink (by simpa using hm)
      have hvacant := vacant_of_makeParent hup (Plan.mayStop_after _ _) hne hn
      exact absurd (hvacant.symm.trans he) (by simp)

theorem isLink_temporary_made (hup : ['.', '.'] ∉ q.names) (h : temporary? q = some temporary) :
    (made fs q).isLink temporary = fs.isLink temporary := by
  have hgrown := grown_made fs q
  cases hl : fs.isLink temporary with
  | true => exact isLink_keep hgrown.keeps hgrown.cwd hl
  | false => exact isLink_temporary hup h (Plan.mayStop_after _ _) hl

/-! ## Writing through links -/

/-- what a replacement leaves whose temporary file is no link; `r` is the place of its target -/
structure WritesThrough (fs s : FileSystem) (p : Path) (content : List UInt8) (r : Location) : Prop where
  place : (made fs (target fs p)).Names (target fs p) r
  /-- the content is there -/
  written : s.tree.at? r = some (.file content)
  /-- no link is lost but one at that place -/
  others : ∀ k link, k ≠ r → fs.tree.at? k = some (.link link) → s.tree.at? k = some (.link link)
  /-- all are kept if the path was a link that leads to anything -/
  leads : fs.isLink p = true → (∃ q, fs.canonicalPath p = .ok q) → KeepsLinks fs s
  /-- with all links kept, the path reads what was written, if the system follows as many as there are then -/
  reads : KeepsLinks fs s → s.locate .target p ≠ .error (.system .tooManyLinks) → s.read p = .ok content
  /-- it reads so exactly if its way, and that of its target, have no need of the link that is lost -/
  reads_iff : s.read p = .ok content ↔ s.locate .target p ≠ .error (.system .tooManyLinks) ∧
    (made fs (target fs p)).Avoids p r ∧ (made fs (target fs p)).Avoids (target fs p) r

theorem writesThrough_of_landed (hsave : Rendering.save p content fs = (.ok (), s))
    (hlink : ∀ temporary, temporary? (target fs p) = some temporary →
      (made fs (target fs p)).isLink temporary = false)
    (h : Landed (made fs (target fs p)) s (target fs p) content r t) : WritesThrough fs s p content r := by
  have hreadsBack : s.locate .target p ≠ .error (.system .tooManyLinks) → ReadsBack fs s p content r := by
    intro hafter
    obtain ⟨r', hr'⟩ := reads_back hsave hlink hafter
    exact hr'.place.unique h.target ▸ hr'
  refine ⟨h.target, h.file, ?_, ?_, ?_, ?_⟩
  · intro k link hk he
    exact h.keeps_link hk he
  · rintro hl ⟨q, hq⟩
    obtain ⟨k, link, hn, -⟩ := FileSystem.names_of_isLink hl
    rw [h.keepsLinks_iff, FileSystem.isLink_eq_false_iff h.target h.slash]
    have htarget := target_of_canonicalPath hl hq
    rw [htarget] at h ⊢
    exact (h.canonicalPath hn hq).2.2
  · intro hkeeps hafter
    have hnolink := (FileSystem.isLink_eq_false_iff h.target h.slash).1 (h.keepsLinks_iff.1 hkeeps)
    exact (hreadsBack hafter).unless_link hnolink
  · constructor
    · intro hread
      have hafter : s.locate .target p ≠ .error (.system .tooManyLinks) := by
        intro he
        obtain ⟨l, e, hl, -⟩ := FileSystem.locate_of_read hread
        exact absurd (he.symm.trans hl) (by simp)
      exact ⟨hafter, (hreadsBack hafter).exactly.1 hread⟩
    · rintro ⟨hafter, havoids⟩
      exact (hreadsBack hafter).exactly.2 havoids

/-- **Links are kept.** A replacement that gets through keeps all links exactly if neither its target nor its temporary file is
one, as they are named behind the new directories, or, without `..`, in front of them. A target that is one, the second link of
a chain that leads nowhere, is lost, and the content stands in its place. -/
theorem links_kept_iff (hsave : Rendering.save p content fs = (.ok (), s)) :
    ∃ temporary, temporary? (target fs p) = some temporary ∧
      (KeepsLinks fs s ↔ (made fs (target fs p)).isLink (target fs p) = false ∧
        (made fs (target fs p)).isLink temporary = false) ∧
      (['.', '.'] ∉ (target fs p).names → (made fs (target fs p)).isLink (target fs p) = fs.isLink (target fs p) ∧
        (made fs (target fs p)).isLink temporary = fs.isLink temporary) ∧
      ((made fs (target fs p)).isLink temporary = false → ∃ r, WritesThrough fs s p content r) := by
  obtain ⟨temporary, htemp, hrun⟩ := run_of_save hsave
  refine ⟨temporary, htemp, ?_, ?_, ?_⟩
  · cases hlink : (made fs (target fs p)).isLink temporary with
    | false =>
      obtain ⟨r, t, h⟩ := landed_of_fillAndMove htemp hlink hrun
      rw [h.keepsLinks_iff]
      simp
    | true =>
      obtain ⟨t, link, ht, hgone⟩ := loses_temporary htemp hlink hrun
      refine iff_of_false ?_ (by simp)
      intro hkeeps
      exact absurd (hgone.symm.trans (hkeeps t link (link_of_made ht))) (by simp)
  · intro hup
    exact ⟨isLink_made hup, isLink_temporary_made hup htemp⟩
  · intro hlink
    obtain ⟨r, t, h⟩ := landed_of_fillAndMove htemp hlink hrun
    have hlinks : ∀ temporary', temporary? (target fs p) = some temporary' →
        (made fs (target fs p)).isLink temporary' = false := by
      intro temporary' h'
      obtain rfl : temporary = temporary' := Option.some.inj (htemp.symm.trans h')
      exact hlink
    exact ⟨r, writesThrough_of_landed hsave hlinks h⟩

/-- a chain of two links that leads nowhere: `o` is a link to `a`, and `a` one to `b`, which is not there -/
def danglingChain : FileSystem :=
  ((⟨.empty, []⟩ : FileSystem).put ["o".toList] (.link "a".toList)).put ["a".toList] (.link "b".toList)

/-- **The second link is lost.** The content is written through the first link, and takes the place of the second. -/
theorem second_link_is_lost :
    let fs := danglingChain
    let result := Rendering.save "o".toList [120] fs
    result.1 = .ok () ∧ fs.tree.at? ["a".toList] = some (.link "b".toList) ∧
      result.2.tree.at? ["a".toList] = some (.file [120]) ∧ ¬ KeepsLinks fs result.2 ∧
      result.2.read "o".toList = .ok [120] := by
  intro fs result
  have hok : result.1 = .ok () := by decide +kernel
  have htarget : target fs "o".toList = "a".toList := by decide +kernel
  have hsave : result = (.ok (), result.2) := by rw [← hok]
  obtain ⟨temporary, htemp, hkeeps, hbefore, hthrough⟩ := links_kept_iff hsave
  rw [htarget] at htemp hkeeps hbefore hthrough
  obtain rfl : ".a.tmp".toList = temporary := by
    have ha : temporary? "a".toList = some ".a.tmp".toList := by decide +kernel
    exact Option.some.inj (ha.symm.trans htemp)
  have hlink : (made fs "a".toList).isLink ".a.tmp".toList = false := by decide +kernel
  obtain ⟨r, hr⟩ := hthrough hlink
  have hplace : (made fs "a".toList).Names "a".toList ["a".toList] :=
    ⟨[], "a".toList, by decide +kernel, by decide +kernel⟩
  obtain rfl : r = ["a".toList] := (htarget ▸ hr.place).unique hplace
  refine ⟨hok, by decide +kernel, hr.written, ?_, by decide +kernel⟩
  rw [hkeeps, (hbefore (by decide +kernel)).1]
  exact fun h => absurd h.1 (by decide +kernel)

end Replacement
end BranchRender
