/-
DETOURS: walks with other links to use, and walks without what stands at one place.

- What gets through with some links to use gets through with more of them, and with fewer of them to the same place, or it
  runs out of links (`Passes.more`, `Passes.with_links`).
- A walk behind a link may do without that link: going along it again would use up the links (`Passes.without_link`).
- `Avoids` says that a path gets to the directory of its last name without what stands at a location. It matters only where
  that is a link (`avoids_of_not_way`).
- A path spelled behind a link, from the directory of the link on, goes where the link goes (`reaches_join_iff`).

Main statements: `Passes.with_links`, `Passes.without_link`, `walk_of_canonical`, `reaches_join_iff`.
-/
import Mathlib.Tactic.ByContra
import BranchRender.Proofs.Canonicals
import BranchRender.Proofs.Leading

namespace BranchRender

namespace FileTree

variable {t u : FileTree} {links n m : Nat} {dir base l : Location} {name last : Text} {xs ys : List Text} {target : Path}

/-! ## Other links to use -/

theorem Passes.le (h : Passes t links dir xs n l) : n ≤ links := by
  induction h with
  | done => exact Nat.le_refl _
  | here _ ih => exact ih
  | up _ ih => exact ih
  | into _ _ _ _ ih => exact ih
  | along _ _ _ _ ih => exact Nat.le_succ_of_le ih

theorem Passes.more (h : Passes t links dir xs n l) (m : Nat) : Passes t (links + m) dir xs (n + m) l := by
  induction h with
  | done => exact .done
  | here _ ih => exact .here ih
  | up _ ih => exact .up ih
  | into hn hs hd _ ih => exact .into hn hs hd ih
  | @along links n dir l name rest target hn hs hl _ ih =>
    rw [Nat.add_right_comm]
    exact .along hn hs hl ih

/-- with other links to use, names lead to the same place, or use up the links -/
theorem Passes.with_links (h : Passes t links dir xs n l) (m : Nat) :
    (∃ n', Passes t m dir xs n' l) ∨ Blocked t m dir xs .tooManyLinks := by
  induction h generalizing m with
  | done => exact .inl ⟨m, .done⟩
  | here _ ih => exact (ih m).imp (fun ⟨n', h⟩ => ⟨n', .here h⟩) Blocked.here
  | up _ ih => exact (ih m).imp (fun ⟨n', h⟩ => ⟨n', .up h⟩) Blocked.up
  | into hn hs hd _ ih => exact (ih m).imp (fun ⟨n', h⟩ => ⟨n', .into hn hs hd h⟩) fun h => h.into hn hs hd
  | along hn hs hl _ ih =>
    cases m with
    | zero => exact .inr (blocked_of_last_link hn hs hl)
    | succ m => exact (ih m).imp (fun ⟨n', h⟩ => ⟨n', .along hn hs hl h⟩) fun h => h.along hn hs hl

/-! ## Without a link -/

/-- names get through without a link, or a walk behind that link does, with fewer links to use -/
theorem Passes.without_link_or (hlink : t.at? (name :: base) = some (.link target))
    (hu : ∀ k e, k ≠ name :: base → t.at? k = some e → e.IsWay → u.at? k = some e) (h : Passes t links dir xs n l) :
    Passes u links dir xs n l ∨
      ∃ m rest, m < links ∧ Passes t m (base.afterLink target) (target.names ++ rest) n l := by
  induction h with
  | done => exact .inl .done
  | here _ ih => exact ih.imp .here id
  | up _ ih => exact ih.imp .up id
  | @into links n dir l nm rest hn hs hd _ ih =>
    have hne : nm :: dir ≠ name :: base := by
      intro he
      rw [he, hlink] at hd
      exact absurd hd (by simp)
    exact ih.imp (.into hn hs (hu _ _ hne hd (.inl rfl))) id
  | @along links n dir l nm rest target' hn hs hl hrest ih =>
    by_cases he : nm :: dir = name :: base
    · rw [he, hlink, Option.some.injEq, Entry.link.injEq] at hl
      obtain ⟨rfl, rfl⟩ := List.cons.inj he
      exact .inr ⟨links, rest, Nat.lt_succ_self links, hl ▸ hrest⟩
    · refine ih.imp (.along hn hs (hu _ _ he hl (.inr ⟨_, rfl⟩))) ?_
      rintro ⟨m, rest', hm, h⟩
      exact ⟨m, rest', Nat.lt_succ_of_lt hm, h⟩

/-- behind a link, the names it leads along get through without it -/
theorem Passes.without_link (hlink : t.at? (name :: base) = some (.link target))
    (hu : ∀ k e, k ≠ name :: base → t.at? k = some e → e.IsWay → u.at? k = some e) (hx : xs <+: target.names)
    (h : Passes t links (base.afterLink target) xs n l) : Passes u links (base.afterLink target) xs n l := by
  induction links using Nat.strongRecOn generalizing n l with
  | ind links ih =>
    rcases h.without_link_or hlink hu with h' | ⟨m, rest, hm, h'⟩
    · exact h'
    · -- the same names again, with fewer links: they lead to the same place
      obtain ⟨ys, hys⟩ := hx
      rw [← hys, List.append_assoc] at h'
      obtain ⟨n', l', h1, -⟩ := h'.split
      have hmore := h1.more (links - m)
      have hagain := (ih m hm h1).more (links - m)
      rw [Nat.add_sub_cancel' (Nat.le_of_lt hm)] at hmore hagain
      obtain ⟨rfl, rfl⟩ := hmore.unique h
      exact hagain

/-! ## Canonical locations -/

theorem walk_of_canonical {slash : Bool} (hd : t.at? dir = some .directory)
    (h : t.canonical links dir xs slash = .ok l) :
    ∃ e, t.at? l = some e ∧ t.walk .target links dir xs slash = .ok (.taken l e) := by
  induction links, dir, xs using names_induction generalizing slash with
  | nil links dir =>
    rw [canonical_nil, Except.ok.injEq] at h
    subst h
    exact ⟨.directory, hd, walk_nil _ _ _ _ _⟩
  | here links dir rest ih =>
    rw [walk_here]
    exact ih hd (canonical_here rest ▸ h)
  | up links dir rest ih =>
    rw [walk_up]
    exact ih (at?_up hd) (canonical_up rest ▸ h)
  | name links dir name rest hn ih ihl =>
    obtain ⟨-, -, hs, ⟨target, he, hj⟩ | ⟨e, he, hl, hcheck, hc⟩⟩ := canonical_name hn h
    · rw [walk_link hn hs he (.inl rfl)]
      cases links with
      | zero => exact absurd hj (by simp [canonicalJump])
      | succ m => exact ihl m (Nat.lt_succ_self m) _ _ (at?_afterLink hd target) hj
    · by_cases hdirectory : e = .directory
      · subst hdirectory
        rw [walk_directory _ _ hn hs (.inl (by simp)) he]
        exact ih _ he hc
      · obtain ⟨rfl, rfl⟩ := rest_of_checkFront hdirectory he hcheck hc
        rw [canonical_nil, Except.ok.injEq] at hc
        subst hc
        exact ⟨e, he, walk_last hn hs he hdirectory hl⟩

end FileTree

namespace FileSystem

open FileTree (Aim Place Passes Keeps maxLinks)

variable {fs s : FileSystem} {p q base : Path} {n : Nat} {dir l r start : Location} {name : Text}

/-- a canonical path is where a look-up leads that follows links -/
theorem locate_of_canonicalPath (hs : fs.boundedStart p = .ok start) (h : fs.canonicalPath p = .ok q) :
    ∃ l e, q = l.path ∧ fs.tree.at? l = some e ∧ (∀ target, e ≠ .link target) ∧
      fs.locate .target p = .ok (.taken l e) := by
  obtain ⟨start', l, e, rfl, hs', hd, hcanonical, he, hlink⟩ := canonicalPath_eq_ok h
  obtain rfl : start' = start := by
    unfold boundedStart at hs
    split at hs
    · exact absurd hs (by simp)
    · exact Except.ok.inj (hs'.symm.trans hs)
  obtain ⟨e', he', hw⟩ := FileTree.walk_of_canonical hd hcanonical
  obtain rfl : e = e' := Option.some.inj (he.symm.trans he')
  refine ⟨l, e, rfl, he, hlink, ?_⟩
  simp only [locate, hs, hw, Except.mapError]

/-! ## The way to the last name -/

theorem Reaches.unique {n' : Nat} {dir' : Location} {name' : Text} (h : fs.Reaches p n dir name)
    (h' : fs.Reaches p n' dir' name') : n = n' ∧ dir = dir' ∧ name = name' := by
  obtain ⟨start, xs, hs, hx, hp⟩ := h
  obtain ⟨start', xs', hs', hx', hp'⟩ := h'
  obtain rfl : start = start' := Except.ok.inj (hs.symm.trans hs')
  obtain ⟨rfl, hname⟩ := List.append_inj' (hx.symm.trans hx') rfl
  obtain ⟨rfl, rfl⟩ := hp.unique hp'
  exact ⟨rfl, rfl, by simpa using hname⟩

/-- the path gets to the directory of its last name without what stands at `r` -/
def Avoids (fs : FileSystem) (p : Path) (r : Location) : Prop := ∃ n dir name, (fs.drop r).Reaches p n dir name

theorem keeps_drop (hd : fs.tree.at? r ≠ some .directory) : Keeps (fs.drop r).tree fs.tree := by
  intro k e he _
  rw [at?_drop hd] at he
  split at he
  · exact absurd he (by simp)
  · exact he

theorem avoids_of_not_way (hr : ∀ e, fs.tree.at? r = some e → ¬ e.IsWay) (h : fs.Reaches p n dir name) :
    fs.Avoids p r := by
  have hd : fs.tree.at? r ≠ some .directory := fun hd => hr _ hd (.inl rfl)
  have hkeeps : Keeps fs.tree (fs.drop r).tree := by
    intro k e he hw
    have hk : k ≠ r := fun hk => hr e (hk ▸ he) hw
    rw [at?_drop hd, if_neg hk, he]
  exact ⟨n, dir, name, h.keep hkeeps rfl⟩

/-- a path that avoids the location it names still names it without what stands there -/
theorem Names.drop (h : fs.Names p r) (hd : fs.tree.at? r ≠ some .directory) (ha : fs.Avoids p r) :
    (fs.drop r).Names p r := by
  obtain ⟨n, dir, name, hr, hdots, hdir, hsize, rfl⟩ := names_iff.1 h
  obtain ⟨n', dir', name', hr'⟩ := ha
  obtain ⟨rfl, rfl, rfl⟩ := hr.unique (hr'.keep (keeps_drop hd) rfl)
  refine names_iff.2 ⟨n, dir, name, hr', hdots, ?_, hsize, rfl⟩
  have hne : dir ≠ name :: dir := fun he => absurd (congrArg List.length he) (by simp)
  rw [at?_drop hd, if_neg hne, hdir]

end FileSystem

/-! ## Paths behind a link -/

namespace FileSystem

open FileTree (Passes maxLinks)

variable {fs : FileSystem} {p dirp target : Path} {n n' : Nat} {dir dir' start : Location} {name name' : Text}

/-- a link is followed from its directory on, or from the root, if there is one left to use -/
theorem locate_of_link {k : Location} (hn : fs.Names p k) (hp : fs.Reaches p n dir name)
    (he : fs.tree.at? k = some (.link target)) (hs : p.endsInSlash = false) : fs.locate .target p =
      (fs.tree.jump .target n (dir.afterLink target) target.names target.endsInSlash).mapError .system := by
  obtain ⟨n', dir', name', hr, hdots, -, hsize, rfl⟩ := names_iff.1 hn
  obtain ⟨rfl, rfl, rfl⟩ := hr.unique hp
  rw [locate_of_reaches hr, FileTree.walk_link hdots hsize he (.inl rfl), hs, List.append_nil, List.isEmpty_nil,
    Bool.true_and, Bool.false_or]

/-- the path a link is replaced by goes where the link goes: from the directory of the link on, or from the root -/
theorem reaches_join_iff (ht : p.Tops dirp name) (hp : fs.Reaches p n dir name)
    (hs : fs.boundedStart (dirp.join target) = .ok start) (hne : target.names ≠ []) :
    (∃ n', fs.Reaches (dirp.join target) n' dir' name') ↔ ∃ ys n', target.names = ys ++ [name'] ∧
      Passes fs.tree (if target.isAbsolute then maxLinks else n) (dir.afterLink target) ys n' dir' := by
  by_cases habs : target.isAbsolute = true
  · rw [Path.join_absolute habs] at hs ⊢
    obtain rfl : start = [] := by rw [start_of_boundedStart hs, if_pos habs]
    rw [if_pos habs, Location.afterLink, if_pos habs]
    constructor
    · rintro ⟨n', start, ys, hs', hx, hpass⟩
      obtain rfl : [] = start := Except.ok.inj (hs.symm.trans hs')
      exact ⟨ys, n', hx, hpass⟩
    · rintro ⟨ys, n', hx, hpass⟩
      exact ⟨n', [], ys, hs, hx, hpass⟩
  · have habs : target.isAbsolute = false := by simpa using habs
    have hnames : (dirp.join target).names = dirp.names ++ target.names := Path.names_join habs
    -- the way to the directory of the link is the way of its parent
    obtain ⟨start', xs, hs', hx, hpass⟩ := hp
    obtain ⟨m, hm⟩ := ht.names
    obtain ⟨rfl, -⟩ := List.append_inj' (hx.symm.trans hm) rfl
    have hpass : Passes fs.tree maxLinks start' dirp.names n dir := FileTree.passes_append_dots.1 hpass
    obtain rfl : start = start' := by
      rw [start_of_boundedStart hs, start_of_boundedStart hs', Path.isAbsolute_join_parent ht.parent habs]
    rw [if_neg (by simp [habs]), Location.afterLink, if_neg (by simp [habs])]
    constructor
    · rintro ⟨n', start', zs, hs'', hx', hpass'⟩
      obtain rfl : start = start' := Except.ok.inj (hs.symm.trans hs'')
      rcases List.eq_nil_or_concat target.names with hnil | ⟨ys, nm, hys⟩
      · exact absurd hnil hne
      · rw [List.concat_eq_append] at hys
        rw [hnames, hys, ← List.append_assoc] at hx'
        obtain ⟨rfl, hlast⟩ := List.append_inj' hx' rfl
        obtain ⟨n'', d, h1, h2⟩ := hpass'.split
        obtain ⟨rfl, rfl⟩ := hpass.unique h1
        obtain rfl : nm = name' := by simpa using hlast
        exact ⟨ys, n', hys, h2⟩
    · rintro ⟨ys, n', hys, hpass'⟩
      refine ⟨n', start, dirp.names ++ ys, hs, ?_, hpass.append hpass'⟩
      rw [hnames, hys, List.append_assoc]

end FileSystem
end BranchRender
