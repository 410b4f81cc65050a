/-
CANONICAL PATHS: what they name, and what of a tree they depend on.

- A canonical location is one with an entry that is no link (`at?_canonical`), and it is where a walk ends that follows
  links (`canonical_eq_of_walk`).
- It stays the same in a tree with the same directories and links, as long as a file stays a file (`canonical_keep`).
- The canonical path of a location names that location and no other (`names_canonicalPath`), and spells no `..`. Where
  a path has one, it does name it (`names_of_canonicalPath`).

Main statements: `at?_canonical`, `canonical_eq_of_walk`, `canonical_keep`, `names_canonicalPath`.
-/
import Mathlib.Tactic.ByContra
import BranchRender.Proofs.Operations

namespace BranchRender

namespace FileTree

variable {t u : FileTree} {links n : Nat} {dir l : Location} {xs : List Text} {slash : Bool}

/-! ## One name -/

/-- where the canonical location is looked for behind a link -/
def canonicalJump (t : FileTree) : Nat → Location → List Text → Bool → Except SystemError Location
  | 0 => fun _ _ _ => .error .tooManyLinks
  | links + 1 => t.canonical links

theorem canonical_eq_along (t : FileTree) (links : Nat) : t.canonical links = t.canonicalAlong (t.canonicalJump links) := by
  cases links <;> rfl

theorem canonical_here (rest : List Text) :
    t.canonical links dir (['.'] :: rest) slash = t.canonical links dir rest slash := by
  cases links <;> rfl

theorem canonical_up (rest : List Text) :
    t.canonical links dir (['.', '.'] :: rest) slash = t.canonical links dir.tail rest slash := by
  cases links <;> rfl

/-- what a canonical location asks of a name in front of others -/
theorem canonical_name {name : Text} {rest : List Text} (hn : Path.isDots name = false)
    (h : t.canonical links dir (name :: rest) slash = .ok l) :
    (Location.path (name :: dir)).size < maxPath ∧ t.at? dir = some .directory ∧ name.size ≤ maxName ∧
      ((∃ target, t.at? (name :: dir) = some (.link target) ∧
        t.canonicalJump links (dir.afterLink target) (target.names ++ rest)
          (slash || (rest.isEmpty && target.endsInSlash)) = .ok l) ∨
      ∃ e, t.at? (name :: dir) = some e ∧ (∀ target, e ≠ .link target) ∧
        checkFront e (name :: dir) rest slash = .ok () ∧ t.canonical links (name :: dir) rest slash = .ok l) := by
  obtain ⟨h1, h2⟩ := Path.isDots_eq_false_iff.1 hn
  rw [canonical_eq_along, canonicalAlong, if_neg h1, if_neg h2] at h
  split at h
  · exact absurd h (by simp)
  next hsize =>
  split at h
  · exact absurd h (by simp)
  split at h
  · exact absurd h (by simp)
  next hdir =>
  split at h
  · exact absurd h (by simp)
  next hname =>
  refine ⟨Nat.lt_of_not_le hsize, Decidable.not_not.1 hdir, Nat.not_lt.1 hname, ?_⟩
  split at h
  · exact absurd h (by simp)
  · next target he => exact .inl ⟨target, he, h⟩
  · next e hl he =>
    split at h
    · exact absurd h (by simp)
    · next hcheck => exact .inr ⟨e, he, hl, hcheck, by rw [canonical_eq_along]; exact h⟩

theorem canonical_of_link {name : Text} {rest : List Text} {target : Path} (hn : Path.isDots name = false)
    (hp : (Location.path (name :: dir)).size < maxPath) (hs : name.size ≤ maxName)
    (he : t.at? (name :: dir) = some (.link target)) : t.canonical links dir (name :: rest) slash =
      t.canonicalJump links (dir.afterLink target) (target.names ++ rest)
        (slash || (rest.isEmpty && target.endsInSlash)) := by
  obtain ⟨h1, h2⟩ := Path.isDots_eq_false_iff.1 hn
  have hdir : t.at? dir = some .directory := at?_parent (by rw [he]; simp)
  rw [canonical_eq_along, canonicalAlong, if_neg h1, if_neg h2, if_neg (Nat.not_le.2 hp), if_neg (by simp [hdir]),
    if_neg (by simp [hdir]), if_neg (Nat.not_lt.2 hs), he]

theorem canonical_of_entry {name : Text} {rest : List Text} {e : Entry} (hn : Path.isDots name = false)
    (hp : (Location.path (name :: dir)).size < maxPath) (hs : name.size ≤ maxName) (he : t.at? (name :: dir) = some e)
    (hl : ∀ target, e ≠ .link target) (hc : checkFront e (name :: dir) rest slash = .ok ()) :
    t.canonical links dir (name :: rest) slash = t.canonical links (name :: dir) rest slash := by
  obtain ⟨h1, h2⟩ := Path.isDots_eq_false_iff.1 hn
  have hdir : t.at? dir = some .directory := at?_parent (by rw [he]; simp)
  rw [canonical_eq_along, canonicalAlong, if_neg h1, if_neg h2, if_neg (Nat.not_le.2 hp), if_neg (by simp [hdir]),
    if_neg (by simp [hdir]), if_neg (Nat.not_lt.2 hs), he]
  cases e with
  | link target => exact absurd rfl (hl target)
  | _ => simp only [hc]

/-- what is no directory can only stand at the very end of a canonical path -/
theorem rest_of_checkFront {e : Entry} {name : Text} {rest : List Text} (hd : e ≠ .directory)
    (he : t.at? (name :: dir) = some e) (hcheck : checkFront e (name :: dir) rest slash = .ok ())
    (h : t.canonical links (name :: dir) rest slash = .ok l) : rest = [] ∧ slash = false := by
  have hask : asksDirectory rest slash = false := by
    by_contra hask
    rw [checkFront, if_pos (by simpa using hask)] at hcheck
    split at hcheck
    · exact absurd hcheck (by simp)
    · exact absurd hcheck (by simp)
  unfold asksDirectory at hask
  split at hask
  · simpa using (Bool.or_eq_false_iff.1 hask).symm
  · next nm r hdrop =>
    -- another name would be looked for in what is no directory
    exfalso
    have hup : nm ≠ ['.', '.'] := by simpa using hask
    have hhere : nm ≠ ['.'] := by
      have := List.head_dropWhile_not (· = ['.']) (l := rest) (by simp [hdrop])
      simpa [hdrop] using this
    have hdots : Path.isDots nm = false := Path.isDots_eq_false_iff.2 ⟨hhere, hup⟩
    have hskip : ∀ ys : List Text, t.canonical links (name :: dir) ys slash =
        t.canonical links (name :: dir) (ys.dropWhile (· = ['.'])) slash := by
      intro ys
      induction ys with
      | nil => rfl
      | cons y ys ih =>
        by_cases hy : y = ['.']
        · rw [hy, canonical_here, ih]; simp
        · simp [hy]
    rw [hskip, hdrop] at h
    obtain ⟨-, hdir, -⟩ := canonical_name hdots h
    rw [he, Option.some.injEq] at hdir
    exact hd hdir

/-! ## What is there -/

theorem at?_canonical (hd : t.at? dir = some .directory) (h : t.canonical links dir xs slash = .ok l) :
    ∃ e, t.at? l = some e ∧ ∀ target, e ≠ .link target := by
  induction links, dir, xs using names_induction generalizing slash with
  | nil links dir =>
    rw [canonical_nil, Except.ok.injEq] at h
    exact ⟨.directory, h ▸ hd, by simp⟩
  | here links dir rest ih => exact ih hd (canonical_here rest ▸ h)
  | up links dir rest ih => exact ih (at?_up hd) (canonical_up rest ▸ h)
  | name links dir name rest hn ih ihl =>
    obtain ⟨-, hdir, -, ⟨target, -, hj⟩ | ⟨e, he, hl, hcheck, hc⟩⟩ := canonical_name hn h
    · cases links with
      | zero => exact absurd hj (by simp [canonicalJump])
      | succ m => exact ihl m (Nat.lt_succ_self m) _ _ (at?_afterLink hd target) hj
    · by_cases hdir : e = .directory
      · exact ih _ (hdir ▸ he) hc
      · obtain ⟨rfl, -⟩ := rest_of_checkFront hdir he hcheck hc
        rw [canonical_nil, Except.ok.injEq] at hc
        exact ⟨e, hc ▸ he, hl⟩

/-- a walk that follows links ends at the canonical location -/
theorem canonical_eq_of_walk {k : Location} {e : Entry} (h : t.canonical links dir xs slash = .ok l)
    (hw : t.walk .target links dir xs slash = .ok (.taken k e)) : k = l := by
  induction links, dir, xs using names_induction generalizing slash with
  | nil links dir =>
    rw [canonical_nil, Except.ok.injEq] at h
    rw [walk_nil, Except.ok.injEq, Place.taken.injEq] at hw
    exact hw.1.symm.trans h
  | here links dir rest ih => exact ih (canonical_here rest ▸ h) (walk_here _ _ _ _ _ _ ▸ hw)
  | up links dir rest ih => exact ih (canonical_up rest ▸ h) (walk_up _ _ _ _ _ _ ▸ hw)
  | name links dir name rest hn ih ihl =>
    obtain ⟨-, -, hs, ⟨target, he, hj⟩ | ⟨e', he, hl, hcheck, hc⟩⟩ := canonical_name hn h
    · rw [walk_link hn hs he (.inl rfl)] at hw
      cases links with
      | zero => exact absurd hj (by simp [canonicalJump])
      | succ m => exact ihl m (Nat.lt_succ_self m) _ _ hj hw
    · by_cases hd : e' = .directory
      · subst hd
        rw [walk_directory _ _ hn hs (.inl (by simp)) he] at hw
        exact ih _ hc hw
      · obtain ⟨rfl, rfl⟩ := rest_of_checkFront hd he hcheck hc
        rw [canonical_nil, Except.ok.injEq] at hc
        rw [walk_last hn hs he hd hl, Except.ok.injEq, Place.taken.injEq] at hw
        exact hw.1.symm.trans hc

/-- a canonical location stays so while what shows the way stays, and what it holds stays a directory or none -/
theorem canonical_keep {e : Entry} (hk : Keeps t u) (hu : u.at? l = some e) (hl : ∀ target, e ≠ .link target)
    (hd : e = .directory → t.at? l = some .directory) (h : t.canonical links dir xs slash = .ok l) :
    u.canonical links dir xs slash = .ok l := by
  induction links, dir, xs using names_induction generalizing slash with
  | nil links dir =>
    rw [canonical_nil] at h ⊢
    exact h
  | here links dir rest ih => exact (canonical_here rest).trans (ih (canonical_here rest ▸ h))
  | up links dir rest ih => exact (canonical_up rest).trans (ih (canonical_up rest ▸ h))
  | name links dir name rest hn ih ihl =>
    obtain ⟨hp, -, hs, ⟨target, he, hj⟩ | ⟨e', he, hl', hcheck, hc⟩⟩ := canonical_name hn h
    · rw [canonical_of_link hn hp hs (hk.link he)]
      cases links with
      | zero => exact absurd hj (by simp [canonicalJump])
      | succ m => exact ihl m (Nat.lt_succ_self m) _ _ hj
    · by_cases hdir : e' = .directory
      · subst hdir
        rw [canonical_of_entry hn hp hs (hk.directory he) hl' hcheck]
        exact ih _ hc
      · obtain ⟨rfl, rfl⟩ := rest_of_checkFront hdir he hcheck hc
        rw [canonical_nil, Except.ok.injEq] at hc
        subst hc
        rw [canonical_of_entry hn hp hs hu hl (by simp [checkFront, asksDirectory]), canonical_nil]

/-- the canonical location of what is no directory has a path that is not too long, and no name that is -/
theorem size_of_canonical (hd : t.at? dir = some .directory) (hdir : ∀ x ∈ dir, Text.size x ≤ maxName)
    (hl : t.at? l ≠ some .directory) (h : t.canonical links dir xs slash = .ok l) :
    l.path.size < maxPath ∧ ∀ x ∈ l, Text.size x ≤ maxName := by
  induction links, dir, xs using names_induction generalizing slash with
  | nil links dir =>
    rw [canonical_nil, Except.ok.injEq] at h
    exact absurd (h ▸ hd) hl
  | here links dir rest ih => exact ih hd hdir (canonical_here rest ▸ h)
  | up links dir rest ih =>
    exact ih (at?_up hd) (fun x hx => hdir x (List.mem_of_mem_tail hx)) (canonical_up rest ▸ h)
  | name links dir name rest hn ih ihl =>
    obtain ⟨hp, -, hs, ⟨target, -, hj⟩ | ⟨e, he, -, hcheck, hc⟩⟩ := canonical_name hn h
    · cases links with
      | zero => exact absurd hj (by simp [canonicalJump])
      | succ m =>
        refine ihl m (Nat.lt_succ_self m) _ _ (at?_afterLink hd target) ?_ hj
        intro x hx
        unfold Location.afterLink at hx
        split at hx
        · exact absurd hx (by simp)
        · exact hdir x hx
    · have hname : ∀ x ∈ name :: dir, Text.size x ≤ maxName := by
        rintro x (_ | ⟨_, hx⟩)
        · exact hs
        · exact hdir x hx
      by_cases hdirectory : e = .directory
      · subst hdirectory
        exact ih _ he hname hc
      · obtain ⟨rfl, -⟩ := rest_of_checkFront hdirectory he hcheck hc
        rw [canonical_nil, Except.ok.injEq] at hc
        subst hc
        exact ⟨hp, hname⟩

/-- names that are not too long lead through the directories they name -/
theorem passes_reverse (links : Nat) (hd : t.at? l = some .directory) (hl : ∀ x ∈ l, Text.size x ≤ maxName) :
    Passes t links [] l.reverse links l := by
  induction l with
  | nil => exact .done
  | cons name dir ih =>
    have hthere : t.at? (name :: dir) ≠ none := by rw [hd]; simp
    have hname := FileTree.isName_of_at? hthere name List.mem_cons_self
    rw [List.reverse_cons]
    exact (ih (at?_parent hthere) fun x hx => hl x (List.mem_cons_of_mem _ hx)).append
      (.into hname.2.2 (hl name List.mem_cons_self) hd .done)

end FileTree

/-! ## Canonical paths -/

theorem Location.isAbsolute_path (l : Location) : l.path.isAbsolute = true := rfl

theorem Location.path_injective {l k : Location} (hl : ∀ n ∈ l, Path.IsName n) (hk : ∀ n ∈ k, Path.IsName n)
    (h : l.path = k.path) : l = k := by
  rw [← List.reverse_inj, ← Path.names_path hl, ← Path.names_path hk, h]

namespace FileSystem

open FileTree (Keeps Passes maxLinks)

variable {fs s : FileSystem} {p q : Path} {l r : Location}

/-- a canonical path is one of a location with an entry that is no link -/
theorem canonicalPath_eq_ok (h : fs.canonicalPath p = .ok q) : ∃ start l e, q = l.path ∧ fs.start p = .ok start ∧
    fs.tree.at? start = some .directory ∧ fs.tree.canonical maxLinks start p.names p.endsInSlash = .ok l ∧
    fs.tree.at? l = some e ∧ ∀ target, e ≠ .link target := by
  obtain ⟨l, hl, rfl⟩ := map_eq_ok.1 h
  unfold canonical at hl
  split at hl
  · exact absurd hl (by simp)
  next start hs =>
  split at hl
  · exact absurd hl (by simp)
  next hd =>
  have hd : fs.tree.at? start = some .directory := Decidable.not_not.1 hd
  have hc := mapError_eq_ok.1 hl
  obtain ⟨e, he, hlink⟩ := FileTree.at?_canonical hd hc
  exact ⟨start, l, e, rfl, hs, hd, hc, he, hlink⟩

/-- what is found through links has the canonical path of where it is -/
theorem canonicalPath_of_find {e : Entry} (h : fs.canonicalPath p = .ok q) (hf : fs.find .target p = .ok (l, e)) :
    q = l.path := by
  obtain ⟨start, k, -, rfl, hs, -, hc, -⟩ := canonicalPath_eq_ok h
  obtain ⟨start', hs', hw⟩ := walk_of_find hf
  obtain rfl : start = start' := by
    unfold boundedStart at hs'
    split at hs'
    · exact absurd hs' (by simp)
    · exact Except.ok.inj (hs.symm.trans hs')
  rw [FileTree.canonical_eq_of_walk hc hw]

/-- a canonical path stays so while what shows the way stays, and its entry stays a directory or none -/
theorem canonicalPath_keep {e : Entry} (hk : Keeps fs.tree s.tree) (hc : s.cwd = fs.cwd) (hl : s.tree.at? l = some e)
    (hlink : ∀ target, e ≠ .link target) (hd : e = .directory → fs.tree.at? l = some .directory)
    (hn : ∀ n ∈ l, Path.IsName n) (h : fs.canonicalPath p = .ok l.path) : s.canonicalPath p = .ok l.path := by
  obtain ⟨start, k, e', hq, hs, hstart, hcanon, he', -⟩ := canonicalPath_eq_ok h
  obtain rfl : l = k := Location.path_injective hn (FileTree.isName_of_at? (t := fs.tree) (by rw [he']; simp)) hq
  have hs' : s.start p = .ok start := by rw [← hs]; simp [FileSystem.start, hc]
  simp only [canonicalPath, canonical, hs', hk.directory hstart,
    FileTree.canonical_keep hk hl hlink hd hcanon]
  rfl

theorem names_path_of_at? (h : fs.tree.at? l ≠ none) : l.path.names = l.reverse ∧ ['.', '.'] ∉ l.path.names := by
  have hn := FileTree.isName_of_at? h
  refine ⟨Path.names_path hn, ?_⟩
  intro hm
  rw [Path.names_path hn, List.mem_reverse] at hm
  have := (hn _ hm).2.2
  simp [Path.isDots] at this

/-- names that lead through directories alone lead where they say -/
theorem passes_directories {t : FileTree} {links n : Nat} {k : Location} {xs : List Text}
    (h : Passes t links k xs n l) (hx : ∀ x ∈ xs, Path.isDots x = false) (hd : t.at? (xs.reverse ++ k) = some .directory) :
    l = xs.reverse ++ k := by
  induction h with
  | done => rfl
  | here => have := hx _ List.mem_cons_self; simp [Path.isDots] at this
  | up => have := hx _ List.mem_cons_self; simp [Path.isDots] at this
  | into _ _ _ _ ih =>
    simp only [List.reverse_cons, List.append_assoc, List.cons_append, List.nil_append] at hd ⊢
    exact ih (fun x hm => hx x (List.mem_cons_of_mem _ hm)) hd
  | @along links n dir l name rest target hn _ hl _ _ =>
    exfalso
    have hs : name :: dir <:+ (name :: rest).reverse ++ dir := by simp
    have hdir : t.at? (name :: dir) = some .directory := by
      by_cases he : name :: dir = (name :: rest).reverse ++ dir
      · rw [he]; exact hd
      · exact FileTree.directory_of_below (by rw [hd]; simp) hs he
    rw [hl] at hdir
    exact absurd hdir (by simp)

theorem names_canonicalPath (h : fs.tree.at? l ≠ none) (hr : fs.Names l.path r) : r = l := by
  obtain ⟨n, d, nm, ⟨start, xs, hs, hx, hp⟩, -, hd, -, rfl⟩ := names_iff.1 hr
  obtain rfl : start = [] := by rw [start_of_boundedStart hs, Location.isAbsolute_path, if_pos rfl]
  rw [(names_path_of_at? h).1] at hx
  obtain rfl : l = nm :: xs.reverse := by
    rw [← List.reverse_inj, hx]; simp
  have hnames := FileTree.isName_of_at? h
  have hdir := passes_directories hp
    (fun x hm => (hnames x (List.mem_cons_of_mem _ (List.mem_reverse.2 hm))).2.2)
    (by rw [List.append_nil]; exact FileTree.at?_parent h)
  rw [hdir, List.append_nil]

/-- the canonical path of what is no directory names it, unless a name has a NUL -/
theorem names_of_canonicalPath (ha : p.isAbsolute = true) (h : fs.canonicalPath p = .ok l.path)
    (he : fs.tree.at? l = some e) (hd : e ≠ .directory) (hnul : '\x00' ∉ l.path) :
    fs.Names l.path l := by
  have hthere : fs.tree.at? l ≠ none := by rw [he]; simp
  have hl : fs.tree.at? l ≠ some .directory := by rw [he]; simpa using hd
  obtain ⟨start, k, e', hk, hs, hstart, hc, he', -⟩ := canonicalPath_eq_ok h
  obtain rfl : l = k := Location.path_injective (FileTree.isName_of_at? hthere)
    (FileTree.isName_of_at? (t := fs.tree) (by rw [he']; simp)) hk
  obtain rfl : [] = start := by
    unfold FileSystem.start at hs
    (repeat' split at hs) <;> simp_all
  obtain ⟨hsize, hfit⟩ := FileTree.size_of_canonical hstart (by simp) hl hc
  cases l with
  | nil => exact absurd (FileTree.at?_root _) hl
  | cons name dir =>
    have hdir := FileTree.at?_parent hthere
    have hnames : (Location.path (name :: dir)).names = dir.reverse ++ [name] := by
      rw [(names_path_of_at? hthere).1, List.reverse_cons]
    have hstart : fs.boundedStart (Location.path (name :: dir)) = .ok [] :=
      boundedStart_eq_ok.2 ⟨hnul, List.cons_ne_nil _ _, hsize, by rw [Location.isAbsolute_path, if_pos rfl]⟩
    have hpass := FileTree.passes_reverse maxLinks hdir fun x hx => hfit x (List.mem_cons_of_mem _ hx)
    exact names_iff.2 ⟨maxLinks, dir, name, ⟨[], dir.reverse, hstart, hnames, hpass⟩,
      (FileTree.isName_of_at? hthere name List.mem_cons_self).2.2, hdir, hfit name List.mem_cons_self, rfl⟩

end FileSystem
end BranchRender
