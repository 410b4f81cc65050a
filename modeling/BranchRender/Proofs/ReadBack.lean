/-
READING BACK: what a path leads to after a replacement is what was put in its place.

- Of all that shows a path the way, a replacement that gets through (`Landed`) may take away one link: the one it takes the
  place of.
- So a path whose way, and whose target's way, avoids that place reads what was written: the path itself if it is no link
  (`reads_back_plain`), the canonical path of a link (`reads_back_canonical`), or the path a link names that leads nowhere
  yet (`reads_back_link`).
- The other way round, a path that reads what was written has avoided it: `reads_back` says exactly when.

Main statement: `reads_back`.
-/
import Mathlib.Control.Monad.Basic
import BranchRender.Proofs.AllOrNothing
import BranchRender.Proofs.Detours

namespace BranchRender

namespace FileSystem

open FileTree (Passes maxLinks)

variable {s : FileSystem} {p : Path} {r : Location} {content : List UInt8}

/-! ## Reading -/

theorem read_of_locate (h : s.locate .target p = .ok (.taken r (.file content))) : s.read p = .ok content := by
  simp only [read, stat, find, h, Except.map]

theorem locate_of_read (h : s.read p = .ok content) : ∃ l e, s.locate .target p = .ok (.taken l e) ∧ e ≠ .directory := by
  cases hl : s.locate .target p with
  | error e => simp [read, stat, find, hl, Except.map] at h
  | ok place =>
    cases place with
    | vacant l => simp [read, stat, find, hl, Except.map] at h
    | taken l e =>
      refine ⟨l, e, rfl, ?_⟩
      rintro rfl
      simp [read, stat, find, hl, Except.map] at h

theorem reaches_of_read (h : s.read p = .ok content) : ∃ n dir name, s.Reaches p n dir name := by
  obtain ⟨l, e, hl, hd⟩ := locate_of_read h
  rcases reaches_or_fails s p with hr | ⟨e', -, he⟩ | ⟨-, start, -, -, he⟩
  · exact hr
  · exact absurd (hl.symm.trans (he .target)) (by simp)
  · have := hl.symm.trans (he .target)
    simp only [Except.ok.injEq, FileTree.Place.taken.injEq] at this
    exact absurd this.2 hd

theorem read_of_names (hn : s.Names p r) (hs : p.endsInSlash = false) (he : s.tree.at? r = some (.file content)) :
    s.read p = .ok content :=
  read_of_locate ((locate_of_names hn hs .target).2 _ he (.inr (by simp)))

end FileSystem

namespace Replacement

open FileSystem (SameWays)
open FileTree (Keeps maxLinks)

variable {fs m s : FileSystem} {p q temporary : Path} {content : List UInt8} {k r t : Location}

/-! ## What gets through -/

/-- what stood at the target is all that may be missing of the ways -/
theorem Landed.sameWays (h : Landed m s q content r t) : (m.drop r).SameWays s := by
  refine FileSystem.sameWays_of_at? h.cwd ?_
  intro k
  rw [h.at?, FileSystem.at?_drop h.place]
  by_cases hr : k = r
  · refine .inr ⟨by simp [hr], ?_⟩
    intro e he
    rw [if_pos hr, Option.some.injEq] at he
    simp [← he, Entry.IsWay]
  · rw [if_neg hr, if_neg hr]
    split
    · next ht => exact .inr ⟨ht ▸ h.bare, by simp⟩
    · exact .inl rfl

theorem Landed.avoids_iff (h : Landed m s q content r t) : m.Avoids p r ↔ ∃ n dir name, s.Reaches p n dir name := by
  constructor
  · rintro ⟨n, dir, name, hr⟩
    exact ⟨n, dir, name, hr.keep h.sameWays.keeps h.sameWays.cwd⟩
  · rintro ⟨n, dir, name, hr⟩
    exact ⟨n, dir, name, hr.keep h.sameWays.kept h.sameWays.cwd.symm⟩

theorem Landed.reaches {n : Nat} {dir : Location} {name : Text} (h : Landed m s q content r t)
    (hr : s.Reaches p n dir name) : m.Reaches p n dir name :=
  hr.keep (h.sameWays.kept.trans (FileSystem.keeps_drop h.place)) h.cwd.symm

theorem Landed.names (h : Landed m s q content r t) (ha : m.Avoids q r) : s.Names q r :=
  h.sameWays.names.2 (h.target.drop h.place ha)

/-- a path that gets to what it names without what stood at the target names it still -/
theorem Landed.names_of_avoids (h : Landed m s q content r t) (hn : m.Names p k) (ha : m.Avoids p r)
    (hthere : s.tree.at? k ≠ none) : s.Names p k := by
  obtain ⟨n, dir, name, hr, hdots, -, hsize, rfl⟩ := FileSystem.names_iff.1 hn
  obtain ⟨n', dir', name', hr'⟩ := h.avoids_iff.1 ha
  obtain ⟨rfl, rfl, rfl⟩ := (h.reaches hr').unique hr
  exact FileSystem.names_iff.2 ⟨_, _, _, hr', hdots, FileTree.at?_parent hthere, hsize, rfl⟩

/-- what showed the way in `m` does so still, but for what stood at the target -/
theorem Landed.stays (h : Landed m s q content r t) {e : Entry} (hk : k ≠ r) (he : m.tree.at? k = some e) (hw : e.IsWay) :
    s.tree.at? k = some e := by
  have hkt : k ≠ t := fun hkt => h.bare e (hkt ▸ he) hw
  rw [h.at?, if_neg hk, if_neg hkt, he]

theorem landed_of_fillAndMove (h : temporary? q = some temporary) (hlink : m.isLink temporary = false)
    (hrun : (fillAndMove temporary q content).run m = (.ok (), s)) : ∃ r t, Landed m s q content r t := by
  have hfile : m.isLink temporary = true → ∀ c, m.newFile temporary ≠ .ok (c, true) :=
    fun h => absurd (hlink.symm.trans h) (by simp)
  rcases run_fillAndMove_cases content h hfile with ⟨s', r, t, hs, hlanded⟩ | ⟨fault, s', hs, -⟩
  · obtain rfl : s' = s := (Prod.mk.inj (hs.symm.trans hrun)).2
    exact ⟨r, t, hlanded⟩
  · exact absurd (hs.symm.trans hrun) (by simp)

/-- a replacement that gets through has made what it needs, and filled and moved its temporary file -/
theorem run_of_save (hsave : Rendering.save p content fs = (.ok (), s)) : ∃ temporary,
    temporary? (target fs p) = some temporary ∧
    (fillAndMove temporary (target fs p) content).run (made fs (target fs p)) = (.ok (), s) := by
  simp only [Rendering.save, run_plan, run_planTarget, Prod.mk.injEq] at hsave
  obtain ⟨hok, hs⟩ := hsave
  have hok := mapError_eq_ok.1 hok
  cases hparent : ((makeParent (target fs p)).run fs).1 with
  | error fault => simp [hparent] at hok
  | ok _ =>
    simp only [hparent] at hok hs
    cases htemp : temporary? (target fs p) with
    | none => simp [htemp] at hok
    | some temporary =>
      simp only [htemp] at hok hs
      exact ⟨temporary, rfl, Prod.ext hok hs⟩

theorem landed_of_save (hsave : Rendering.save p content fs = (.ok (), s))
    (hlink : ∀ temporary, temporary? (target fs p) = some temporary →
      (made fs (target fs p)).isLink temporary = false) :
    ∃ r t, Landed (made fs (target fs p)) s (target fs p) content r t := by
  obtain ⟨temporary, htemp, hrun⟩ := run_of_save hsave
  exact landed_of_fillAndMove htemp (hlink temporary htemp) hrun

/-! ## Paths that are no link -/

theorem reads_back_plain (h : Landed m s p content r t) : s.read p = .ok content ↔ m.Avoids p r := by
  constructor
  · intro hread
    exact h.avoids_iff.2 (FileSystem.reaches_of_read hread)
  · intro ha
    exact FileSystem.read_of_names (h.names ha) h.slash h.file

/-! ## Links with a canonical path -/

/-- the file a link leads to is no link, so nothing of the way to it is lost -/
theorem Landed.canonicalPath (hn : fs.Names p k) (hp : fs.canonicalPath p = .ok q)
    (h : Landed (made fs q) s q content r t) : s.canonicalPath p = .ok r.path ∧ Keeps fs.tree s.tree ∧
      ∀ link, (made fs q).tree.at? r ≠ some (.link link) := by
  have hgrown := grown_made fs q
  obtain ⟨_, _, _, ⟨start, _, hs, -⟩, -⟩ := FileSystem.names_iff.1 hn
  obtain ⟨l, e, rfl, he, hlink, -⟩ := FileSystem.locate_of_canonicalPath hs hp
  have hm : (made fs l.path).tree.at? l = some e := hgrown.stays he
  obtain rfl : r = l := FileSystem.names_canonicalPath (by rw [hm]; simp) h.target
  have hnolink : ∀ link, (made fs r.path).tree.at? r ≠ some (.link link) := by
    intro link ht
    exact hlink link (Option.some.inj (hm.symm.trans ht))
  have hkeeps : Keeps fs.tree s.tree := by
    intro j e' he' hw
    have hj : j ≠ r := by
      rintro rfl
      rcases hw with rfl | ⟨target, rfl⟩
      · exact h.place (hgrown.stays he')
      · exact hnolink target (hgrown.stays he')
    exact h.stays hj (hgrown.stays he') hw
  have hnames := FileTree.isName_of_at? (t := s.tree) (l := r) (by rw [h.file]; simp)
  exact ⟨FileSystem.canonicalPath_keep hkeeps (h.cwd.trans hgrown.cwd) h.file (by simp) (by simp) hnames hp, hkeeps,
    hnolink⟩

theorem reads_back_canonical (hn : fs.Names p k) (hp : fs.canonicalPath p = .ok q)
    (h : Landed (made fs q) s q content r t) : s.read p = .ok content := by
  obtain ⟨_, _, _, ⟨start, _, hs, -⟩, -⟩ := FileSystem.names_iff.1 hn
  obtain ⟨l, e, hl, he, -, hlocate⟩ := FileSystem.locate_of_canonicalPath
    ((FileSystem.boundedStart_eq (h.cwd.trans (grown_made fs q).cwd) p).trans hs) (h.canonicalPath hn hp).1
  obtain rfl : r = l := Location.path_injective (FileTree.isName_of_at? (t := s.tree) (by rw [h.file]; simp))
    (FileTree.isName_of_at? (t := s.tree) (by rw [he]; simp)) hl
  obtain rfl : .file content = e := Option.some.inj (h.file.symm.trans he)
  exact FileSystem.read_of_locate hlocate

/-! ## Links that lead nowhere -/

section Dangling

variable {dirp link : Path} {dir : Location} {name : Text} {n : Nat}

/-- a link without a canonical path is replaced by the path it names -/
theorem target_of_dangling {e : IoFault} (ht : p.Tops dirp name) (hn : fs.Names p k)
    (he : fs.tree.at? k = some (.link link)) (hs : p.endsInSlash = false) (hc : fs.canonicalPath p = .error e) :
    target fs p = dirp.join link := by
  have hl := FileSystem.isLink_of_names hn hs he
  have hread : fs.readLink p = .ok link := by simp only [FileSystem.readLink, FileSystem.lstat_of_names hn hs he]
  simp [target, hl, hc, hread, ht.parent]

/-- the path a link names has a last name, and no slash behind it, if it is to be written -/
theorem Landed.spelled (h : Landed m s (dirp.join link) content r t) : link.names ≠ [] ∧ link.endsInSlash = false ∧
    ∃ start, m.boundedStart (dirp.join link) = .ok start := by
  obtain ⟨_, _, _, ⟨start, _, hs, -⟩, -⟩ := FileSystem.names_iff.1 h.target
  obtain ⟨hne, hslash⟩ := Path.of_endsInSlash_join (FileSystem.ne_nil_of_boundedStart hs) h.slash
  exact ⟨Path.names_ne_nil hne hslash, hslash, start, hs⟩

/-- with the ways of the link and of its target still there, the link leads to what was written -/
theorem Landed.locate_link (h : Landed m s (dirp.join link) content r t) (ht : p.Tops dirp name) (hn : s.Names p k)
    (hr : s.Reaches p n dir name) (he : s.tree.at? k = some (.link link)) (hs : p.endsInSlash = false)
    (hafter : s.locate .target p ≠ .error (.system .tooManyLinks)) (ha : m.Avoids (dirp.join link) r) :
    s.locate .target p = .ok (.taken r (.file content)) := by
  obtain ⟨hne, hslash, start, hstart⟩ := h.spelled
  rw [FileSystem.locate_of_link hn hr he hs, hslash] at hafter
  obtain ⟨n', dir', name', hq, hdots, hdir, hsize, rfl⟩ := FileSystem.names_iff.1 (h.names ha)
  obtain ⟨ys, n'', hys, hpass⟩ := (FileSystem.reaches_join_iff ht hr
    ((FileSystem.boundedStart_eq h.cwd _).trans hstart) hne).1 ⟨n', hq⟩
  rw [FileSystem.locate_of_link hn hr he hs, hslash]
  cases n with
  | zero => exact absurd rfl hafter
  | succ n =>
    rw [FileTree.jump, hys] at hafter ⊢
    rcases hpass.with_links n with ⟨n₁, hpass⟩ | hblocked
    · rw [FileTree.walk_of_passes hpass _ (List.cons_ne_nil _ _), FileTree.walk_name _ _ _ _ _ _ hdots]
      simp [hdir, Nat.not_lt.2 hsize, h.file, Except.mapError]
    · rw [hblocked.before _ _ _ (List.cons_ne_nil _ _)] at hafter
      exact absurd rfl hafter

/-- a link that can be read behind its target has a target whose way is still there -/
theorem Landed.avoids_link (h : Landed m s (dirp.join link) content r t) (ht : p.Tops dirp name) (hn : s.Names p k)
    (hr : s.Reaches p n dir name) (he : s.tree.at? k = some (.link link)) (hs : p.endsInSlash = false)
    (hread : s.read p = .ok content) : m.Avoids (dirp.join link) r := by
  obtain ⟨hne, -, start, hstart⟩ := h.spelled
  obtain ⟨l, e, hl, -⟩ := FileSystem.locate_of_read hread
  rw [FileSystem.locate_of_link hn hr he hs] at hl
  have hl := mapError_eq_ok.1 hl
  have hle : n ≤ maxLinks := by
    obtain ⟨_, _, _, _, hpass⟩ := hr
    exact hpass.le
  cases n with
  | zero => exact absurd hl (by simp [FileTree.jump])
  | succ n =>
    rw [FileTree.jump] at hl
    rcases List.eq_nil_or_concat link.names with hnil | ⟨ys, name', hys⟩
    · exact absurd hnil hne
    rw [List.concat_eq_append] at hys
    rw [hys] at hl
    rcases FileTree.passes_or_blocked s.tree n (dir.afterLink link) ys with ⟨n', dir', hpass⟩ | ⟨e', hblocked⟩
    · have hle' : n ≤ if link.isAbsolute then maxLinks else n + 1 := by split <;> omega
      have hmore := hpass.more ((if link.isAbsolute then maxLinks else n + 1) - n)
      rw [Nat.add_sub_cancel' hle'] at hmore
      obtain ⟨n'', hq⟩ := (FileSystem.reaches_join_iff ht hr ((FileSystem.boundedStart_eq h.cwd _).trans hstart)
        hne).2 ⟨ys, _, hys, hmore⟩
      exact h.avoids_iff.2 ⟨n'', dir', name', hq⟩
    · rw [hblocked.before _ _ _ (List.cons_ne_nil _ _)] at hl
      exact absurd hl (by simp)

/-- a link that was its own target had no need of itself to get there -/
theorem Landed.avoids_itself (h : Landed m s (dirp.join link) content r t) (ht : p.Tops dirp name)
    (hrm : m.Reaches p n dir name) (hr : s.Reaches p n dir name) (he : m.tree.at? r = some (.link link))
    (hk : r = name :: dir) : m.Avoids (dirp.join link) r := by
  obtain ⟨hne, -, start, hstart⟩ := h.spelled
  obtain ⟨n', dir', name', hq, -⟩ := FileSystem.names_iff.1 h.target
  obtain ⟨ys, n'', hys, hpass⟩ := (FileSystem.reaches_join_iff ht hrm hstart hne).1 ⟨n', hq⟩
  subst hk
  have hpass := hpass.without_link he (fun k e hk he hw => h.stays hk he hw) (hys ▸ List.prefix_append ys [name'])
  obtain ⟨n₁, hq⟩ := (FileSystem.reaches_join_iff ht hr ((FileSystem.boundedStart_eq h.cwd _).trans hstart)
    hne).2 ⟨ys, n'', hys, hpass⟩
  exact h.avoids_iff.2 ⟨n₁, dir', name', hq⟩

theorem reads_back_link (hp : p.parent? = some dirp) (hn : m.Names p k) (he : m.tree.at? k = some (.link link))
    (hs : p.endsInSlash = false) (h : Landed m s (dirp.join link) content r t)
    (hafter : s.locate .target p ≠ .error (.system .tooManyLinks)) :
    s.read p = .ok content ↔ m.Avoids p r ∧ m.Avoids (dirp.join link) r := by
  obtain ⟨dirp', name, n, dir, ht, rfl, hr⟩ := FileSystem.tops_of_names hn
  obtain rfl : dirp' = dirp := Option.some.inj (ht.parent.symm.trans hp)
  have hsame : ∀ {n' : Nat} {dir' : Location} {name' : Text}, s.Reaches p n' dir' name' → s.Reaches p n dir name := by
    intro n' dir' name' hr'
    obtain ⟨rfl, rfl, rfl⟩ := (h.reaches hr').unique hr
    exact hr'
  by_cases hk : r = name :: dir
  · constructor
    · intro hread
      obtain ⟨n', dir', name', hr'⟩ := FileSystem.reaches_of_read hread
      exact ⟨h.avoids_iff.2 ⟨n', dir', name', hr'⟩, h.avoids_itself ht hr (hsame hr') (hk ▸ he) hk⟩
    · rintro ⟨hap, -⟩
      have hfile := h.file
      rw [hk] at hfile
      exact FileSystem.read_of_names (h.names_of_avoids hn hap (by rw [hfile]; simp)) hs hfile
  · have hlink : s.tree.at? (name :: dir) = some (.link link) := h.stays (Ne.symm hk) he (.inr ⟨link, rfl⟩)
    have hthere : s.tree.at? (name :: dir) ≠ none := by rw [hlink]; simp
    constructor
    · intro hread
      obtain ⟨n', dir', name', hr'⟩ := FileSystem.reaches_of_read hread
      have hap := h.avoids_iff.2 ⟨n', dir', name', hr'⟩
      exact ⟨hap, h.avoids_link ht (h.names_of_avoids hn hap hthere) (hsame hr') hlink hs hread⟩
    · rintro ⟨hap, haq⟩
      obtain ⟨n', dir', name', hr'⟩ := h.avoids_iff.1 hap
      exact FileSystem.read_of_locate
        (h.locate_link ht (h.names_of_avoids hn hap hthere) (hsame hr') hlink hs hafter haq)

end Dangling

/-! ## All paths -/

/-- a path has no need of what stood at its target, unless that was a link -/
theorem avoids_of_landed (h : Landed (made fs (target fs p)) s (target fs p) content r t)
    (hr : ∀ link, (made fs (target fs p)).tree.at? r ≠ some (.link link)) :
    (made fs (target fs p)).Avoids p r ∧ (made fs (target fs p)).Avoids (target fs p) r := by
  have hgrown := grown_made fs (target fs p)
  have hway : ∀ e, (made fs (target fs p)).tree.at? r = some e → ¬ e.IsWay := by
    rintro e he (rfl | ⟨link, rfl⟩)
    · exact h.place he
    · exact hr link he
  obtain ⟨_, _, _, htarget, -⟩ := FileSystem.names_iff.1 h.target
  refine ⟨?_, FileSystem.avoids_of_not_way hway htarget⟩
  cases hl : fs.isLink p with
  | false =>
    rw [target_of_not_isLink hl] at htarget hway ⊢
    exact FileSystem.avoids_of_not_way hway htarget
  | true =>
    obtain ⟨k, link, hn, -⟩ := FileSystem.names_of_isLink hl
    obtain ⟨_, _, _, hp, -⟩ := FileSystem.names_iff.1 (hn.keep hgrown.keeps hgrown.cwd)
    exact FileSystem.avoids_of_not_way hway hp

/-- what a path reads after a replacement: what was written, exactly if its way and that of its target have no need of what
the replacement took the place of, a link if anything -/
structure ReadsBack (fs s : FileSystem) (p : Path) (content : List UInt8) (r : Location) : Prop where
  place : (made fs (target fs p)).Names (target fs p) r
  exactly : s.read p = .ok content ↔
    (made fs (target fs p)).Avoids p r ∧ (made fs (target fs p)).Avoids (target fs p) r
  unless_link : (∀ link, (made fs (target fs p)).tree.at? r ≠ some (.link link)) → s.read p = .ok content

/-- **Reading back.** What was saved is read, exactly if nothing on the way is gone. -/
theorem reads_back (hsave : Rendering.save p content fs = (.ok (), s))
    (hlink : ∀ temporary, temporary? (target fs p) = some temporary →
      (made fs (target fs p)).isLink temporary = false)
    (hafter : s.locate .target p ≠ .error (.system .tooManyLinks)) : ∃ r, ReadsBack fs s p content r := by
  obtain ⟨r, t, h⟩ := landed_of_save hsave hlink
  have hiff : s.read p = .ok content ↔
      (made fs (target fs p)).Avoids p r ∧ (made fs (target fs p)).Avoids (target fs p) r := by
    cases hl : fs.isLink p with
    | false =>
      rw [target_of_not_isLink hl] at h ⊢
      rw [and_self]
      exact reads_back_plain h
    | true =>
      obtain ⟨k, link, hn, he, hs⟩ := FileSystem.names_of_isLink hl
      cases hc : fs.canonicalPath p with
      | ok q =>
        have htarget := target_of_canonicalPath hl hc
        have hq := h
        rw [htarget] at hq
        obtain ⟨-, -, hnolink⟩ := hq.canonicalPath hn hc
        rw [← htarget] at hnolink
        exact iff_of_true (reads_back_canonical hn hc hq) (avoids_of_landed h hnolink)
      | error e =>
        have hgrown := grown_made fs (target fs p)
        obtain ⟨dirp, name, n, dir, ht, -⟩ := FileSystem.tops_of_names hn
        have htarget := target_of_dangling ht hn he hs hc
        have hn' := hn.keep hgrown.keeps hgrown.cwd
        have he' := hgrown.stays he
        rw [htarget] at h hn' he' ⊢
        exact reads_back_link ht.parent hn' he' hs h hafter
  exact ⟨r, h.target, hiff, fun hnolink => hiff.2 (avoids_of_landed h hnolink)⟩

end Replacement
end BranchRender
