/-
MISSING FILES: where a file will be that is not there yet.

- `Missing` says that something is missing at a path, and no system limit stands against putting it there: the longest
  front leads to a directory, nothing has the names behind it, and none of them is too long. The parent of such a path
  is missing again, or the directory itself (`Missing.parent`).
- `deepen` puts directories into one another. In the tree deepened by the steps that are left, a missing path leads to
  the last directory put there (`Missing.deepened`); making the missing directories deepens the tree so
  (`Missing.run_makeAll`), and nothing else.
- A file saved at the path is where the normal form said (`normalize_foretells`).

Main statements: `Missing.deepened`, `Missing.run_makeAll`, `normalize_foretells`.
-/
import BranchRender.Proofs.NormalForms
import BranchRender.Proofs.Replacing

namespace BranchRender

/-! ## Deeper trees -/

namespace FileTree

/-- `t` with new directories below `l`, one in the other -/
def deepen (t : FileTree) (l : Location) : List Text → FileTree
  | [] => t
  | name :: names => (t.insert (name :: l) .directory).deepen (name :: l) names

theorem deepen_concat (t : FileTree) (l : Location) (names : List Text) (name : Text) :
    t.deepen l (names ++ [name]) = (t.deepen l names).insert (name :: (names.reverse ++ l)) .directory := by
  induction names generalizing t l with
  | nil => rfl
  | cons x names ih =>
    rw [List.cons_append, deepen, ih, deepen]
    simp

theorem at?_deepen (t : FileTree) {l k : Location} {names : List Text} (h : names.length + l.length < k.length) :
    (t.deepen l names).at? k = t.at? k := by
  induction names generalizing t l with
  | nil => rfl
  | cons x names ih =>
    rw [List.length_cons] at h
    rw [deepen, ih _ (by rw [List.length_cons]; omega)]
    by_cases ha : t.Admits (x :: l)
    · rw [at?_insert ha, if_neg]
      rintro rfl
      rw [List.length_cons] at h
      omega
    · rw [insert_of_not_admits ha]

end FileTree

namespace FileSystem

open FileTree (maxName maxPath)
open BranchRender.Path (spelled Tidy IsName)

variable {fs : FileSystem} {p q dir : Path} {l d : Location} {front rest : List Text} {name : Text}

/-! ## One step further -/

/-- a canonical path to a directory leads there, if it is not too long -/
theorem leads_of_resolves {start : Location} (hs : fs.boundedStart q = .ok start) (hc : fs.canonical q = .ok d)
    (hd : fs.tree.at? d = some .directory) : fs.Leads q d := by
  obtain ⟨k, e, hpath, he, -, hloc⟩ := locate_of_canonicalPath hs (map_eq_ok.2 ⟨d, hc, rfl⟩)
  obtain rfl : d = k := Location.path_injective (FileTree.isName_of_at? (t := fs.tree) (by rw [hd]; simp))
    (FileTree.isName_of_at? (t := fs.tree) (by rw [he]; simp)) hpath
  obtain rfl : e = .directory := Option.some.inj (he.symm.trans hd)
  exact leads_iff.2 (by simp [find, hloc])

/-- what is put where a path leads that has nothing there has the canonical path it is put at -/
theorem canonical_put {e : Entry} (hq : Tidy q) (hdir : Tidy dir) (hsteps : q.steps = dir.steps ++ [name])
    (hnul : '\x00' ∉ q) (hname : IsName name) (hfit : name.size ≤ maxName)
    (hsize : (Location.path (name :: d)).size < maxPath) (hc : fs.canonical dir = .ok d)
    (hd : fs.tree.at? d = some .directory) (hvacant : fs.tree.at? (name :: d) = none)
    (he : ∀ target, e ≠ .link target) :
    (fs.put (name :: d) e).canonical q = .ok (name :: d) ∧ (fs.put (name :: d) e).tree.at? (name :: d) = some e := by
  have ha : fs.tree.Admits (name :: d) := ⟨List.cons_ne_nil _ _, hd, by rw [hvacant]; simp, by rintro _ ⟨⟩; exact hname⟩
  have hput : (fs.put (name :: d) e).tree.at? (name :: d) = some e := by rw [at?_put ha, if_pos rfl]
  have hkeeps : FileTree.Keeps fs.tree (fs.put (name :: d) e).tree := keeps_put (by simp [hvacant]) e
  have hfront := FileTree.canonical_keep hkeeps (hkeeps.directory hd) (by simp) (fun _ => hd)
    ((canonical_of_tidy hdir).1 hc).2
  refine ⟨(canonical_of_tidy hq).2 ⟨hnul, ?_⟩, hput⟩
  rw [hsteps]
  exact FileTree.canonical_child hfront (hkeeps.directory hd) hname.2.2 hfit hsize hput he

/-! ## Missing paths -/

/-- nothing has the names behind the longest front of `q`, and no limit is met where they are put there -/
structure Missing (fs : FileSystem) (q : Path) (front rest : List Text) (l : Location) : Prop where
  tidy : Tidy q
  longest : fs.LongestFront q front rest l
  isName : ∀ n ∈ rest, IsName n
  directory : fs.tree.at? l = some .directory
  vacant : ∀ names, names ≠ [] → names <+: rest → fs.tree.at? (names.reverse ++ l) = none
  start : fs.boundedStart q = .ok []
  fits : ∀ n ∈ rest, Text.size n ≤ maxName
  size : (Location.path (rest.reverse ++ l)).size < maxPath

/-- the tree with the names behind the front made directories -/
def deepened (fs : FileSystem) (l : Location) (names : List Text) : FileSystem := fs.withTree (fs.tree.deepen l names)

theorem deepened_concat (fs : FileSystem) (l : Location) (names : List Text) (name : Text) :
    fs.deepened l (names ++ [name]) = (fs.deepened l names).put (name :: (names.reverse ++ l)) .directory := by
  rw [deepened, FileTree.deepen_concat]
  rfl

namespace Missing

theorem nul_not_mem (h : fs.Missing q front rest l) : '\x00' ∉ q := (boundedStart_eq_ok.1 h.start).1

/-- the directory above is missing for the same reason, or there -/
theorem parent (h : fs.Missing q front (rest ++ [name]) l) :
    ∃ dir, q.Tops dir name ∧ fs.Missing dir front rest l ∧ dir.length < q.length := by
  have hname := h.isName name (by simp)
  obtain ⟨dir, ht, -, hdir, hsteps⟩ := h.tidy.tops (by rw [h.longest.steps, List.append_assoc])
    (Path.isDots_eq_false_iff.1 hname.2.2).2
  have hsize := h.size
  rw [List.reverse_append, List.reverse_singleton, List.singleton_append] at hsize
  have hfront : fs.Missing dir front rest l := by
    refine ⟨hdir, h.longest.dropLast hsteps, fun n hn => h.isName n (List.mem_append_left _ hn), h.directory,
      fun names hne hpre => ?_, ?_, fun n hn => h.fits n (List.mem_append_left _ hn), ?_⟩
    · exact h.vacant names hne (hpre.trans (List.prefix_append _ _))
    · exact boundedStart_parent ht.parent (ne_nil_of_isAbsolute hdir.absolute) h.start
    · exact Nat.lt_of_le_of_lt (FileTree.size_path_le _ _) hsize
  exact ⟨dir, ht, hfront, Path.length_parent_lt h.tidy.absolute ht.parent⟩

theorem vacant_deepened (h : fs.Missing q front (rest ++ [name]) l) :
    (fs.deepened l rest).tree.at? (name :: (rest.reverse ++ l)) = none := by
  have hvacant := h.vacant (rest ++ [name]) (by simp) (List.prefix_refl _)
  rw [List.reverse_append, List.reverse_singleton, List.singleton_append, List.cons_append] at hvacant
  rw [FileSystem.deepened, tree_withTree, FileTree.at?_deepen _ (by simp), hvacant]

/-- what is put in the deeper tree where the path goes on has the canonical path it is put at -/
theorem put_deepened {e : Entry} (h : fs.Missing q front (rest ++ [name]) l) (hdir : fs.Missing dir front rest l)
    (hparent : (fs.deepened l rest).canonical dir = .ok (rest.reverse ++ l) ∧
      (fs.deepened l rest).tree.at? (rest.reverse ++ l) = some .directory) (he : ∀ target, e ≠ .link target) :
    ((fs.deepened l rest).put (name :: (rest.reverse ++ l)) e).canonical q = .ok (name :: (rest.reverse ++ l)) ∧
      ((fs.deepened l rest).put (name :: (rest.reverse ++ l)) e).tree.at? (name :: (rest.reverse ++ l)) = some e := by
  have hsteps : q.steps = dir.steps ++ [name] := by
    rw [h.longest.steps, hdir.longest.steps, List.append_assoc]
  have hsize := h.size
  rw [List.reverse_append, List.reverse_singleton, List.singleton_append] at hsize
  exact canonical_put h.tidy hdir.tidy hsteps h.nul_not_mem (h.isName name (by simp)) (h.fits name (by simp)) hsize
    hparent.1 hparent.2 h.vacant_deepened he

/-- in the deeper tree the path leads to the last directory put there -/
theorem deepened (h : fs.Missing q front rest l) : (fs.deepened l rest).canonical q = .ok (rest.reverse ++ l) ∧
    (fs.deepened l rest).tree.at? (rest.reverse ++ l) = some .directory := by
  induction rest using List.reverseRecOn generalizing q with
  | nil => exact ⟨(h.longest.canonical_iff h.tidy).2 ⟨rfl, rfl⟩, h.directory⟩
  | append_singleton rest name ih =>
    obtain ⟨dir, -, hdir, -⟩ := h.parent
    rw [deepened_concat, List.reverse_append, List.reverse_singleton, List.singleton_append]
    exact h.put_deepened hdir (ih hdir) (by simp)

/-! ## Making them -/

theorem leads_deepened (h : fs.Missing q front rest l) : (fs.deepened l rest).Leads q (rest.reverse ++ l) :=
  leads_of_resolves h.start h.deepened.1 h.deepened.2

/-- in the deeper tree the path names the place where it goes on -/
theorem names_deepened (h : fs.Missing q front (rest ++ [name]) l) :
    (fs.deepened l rest).Names q (name :: (rest.reverse ++ l)) := by
  obtain ⟨dir, ht, hdir, -⟩ := h.parent
  obtain ⟨n, hr⟩ := @reaches_of_leads (fs.deepened l rest) _ _ _ _ _ ht h.start hdir.leads_deepened
  exact names_iff.2 ⟨n, _, name, hr, ht.isName.2.2, hdir.deepened.2, h.fits name (by simp), rfl⟩

theorem newLocation_deepened (h : fs.Missing q front (rest ++ [name]) l) :
    (fs.deepened l rest).newLocation q none = .ok (name :: (rest.reverse ++ l)) :=
  newLocation_iff.2 ⟨h.names_deepened, h.vacant_deepened⟩

/-- where several directories are missing, a path is stuck because something is missing -/
theorem stuck (h : fs.Missing q front (rest ++ [name]) l) : fs.Stuck q ∧
    ∀ e, fs.newLocation q none = .error e → e = .system .notFound := by
  induction rest using List.reverseRecOn generalizing q name with
  | nil =>
    obtain ⟨dir, ht, hdir, -⟩ := h.parent
    have hnew : fs.newLocation q none = .ok (name :: l) := h.newLocation_deepened
    exact ⟨stuck_of_vacant ht h.start hdir.leads_deepened h.vacant_deepened, by rw [hnew]; simp⟩
  | append_singleton rest x ih =>
    obtain ⟨dir, ht, hdir, -⟩ := h.parent
    obtain ⟨hstuck, hmissing⟩ := ih hdir
    -- a path behind a stuck one fails for what is missing, or for what keeps that one from being made: the same again
    obtain ⟨hq, e, he, hwhy⟩ := hstuck.tops ht (ne_nil_of_isAbsolute hdir.tidy.absolute) h.start
    refine ⟨hq, fun e' he' => ?_⟩
    obtain rfl : .system e = e' := Except.error.inj (he.symm.trans he')
    exact hwhy.elim (fun h => h ▸ rfl) (hmissing _)

/-- making the directories that are missing makes the tree deeper, and does nothing else -/
theorem run_makeAll {n : Nat} (h : fs.Missing q front rest l) (hn : q.length ≤ n) :
    (Plan.makeAll (Path.ancestorsUpTo n q)).run fs = (.ok (), fs.deepened l rest) := by
  induction rest using List.reverseRecOn generalizing q n with
  | nil => exact Plan.run_ancestors_of_leads n h.leads_deepened
  | append_singleton rest name ih =>
    obtain ⟨dir, ht, hdir, hshorter⟩ := h.parent
    obtain ⟨m, rfl⟩ : ∃ m, n = m + 1 := ⟨n - 1, by omega⟩
    rw [Path.ancestorsUpTo, if_neg (ne_nil_of_isAbsolute h.tidy.absolute), ht.parent, deepened_concat]
    have hnew := h.newLocation_deepened
    rcases List.eq_nil_or_concat rest with rfl | ⟨rest, x, rfl⟩
    · exact Plan.run_makeAll_new hnew
    · -- nothing can be made before the directories above
      have hmissing : fs.newLocation q none = .error (.system .notFound) := by
        rw [List.concat_eq_append] at hdir h
        obtain ⟨-, e, he, -⟩ := hdir.stuck.1.tops ht (ne_nil_of_isAbsolute hdir.tidy.absolute) h.start
        rw [he, h.stuck.2 _ he]
      rw [Plan.run_makeAll_missing hmissing, ih hdir (by omega)]
      show Plan.retry q _ = _
      rw [Plan.retry, hnew]

theorem run_makeParent (h : fs.Missing p front (rest ++ [name]) l) :
    (Replacement.makeParent p).run fs = (.ok (), fs.deepened l rest) := by
  obtain ⟨dir, ht, hdir, -⟩ := h.parent
  rcases List.eq_nil_or_concat rest with rfl | ⟨rest, x, rfl⟩
  · apply Replacement.run_makeParent_there
    intro dir' hdir' _
    obtain rfl : dir = dir' := Option.some.inj (ht.parent.symm.trans hdir')
    exact hdir.leads_deepened.contains
  · rw [List.concat_eq_append] at hdir ⊢
    rw [Replacement.run_makeParent_missing ht.parent (ne_nil_of_isAbsolute hdir.tidy.absolute) hdir.stuck.1.1,
      Plan.makeDirectories, Path.ancestors, hdir.run_makeAll (Nat.le_refl _)]
    rfl

/-- with the directories made, a file is saved where the path goes on -/
theorem run_save (h : fs.Missing p front (rest ++ [name]) l) (bytes : List UInt8) :
    (Plan.save p bytes).run (fs.deepened l rest) =
      (.ok (), (fs.deepened l rest).put (name :: (rest.reverse ++ l)) (.file bytes)) := by
  have hslash : p.endsInSlash = false := by
    refine h.tidy.slash fun hnil => ?_
    have hsteps := h.longest.steps
    simp [Path.steps, hnil] at hsteps
  have hnew := Replacement.newFile_of_names h.names_deepened hslash (by rw [h.vacant_deepened]; simp)
  have happend := Replacement.perform_append (Replacement.admits_of_newFile hnew) bytes
  rw [Plan.save, Plan.run_bind, Plan.run_change, Replacement.perform_create hnew]
  exact happend

end Missing

/-! ## Files that are missing -/

/-- the system takes the path, the names that are left of it and where they lead -/
structure WithinBounds (p : Path) (rest : List Text) (l : Location) : Prop where
  nul : '\x00' ∉ p
  path : p.size < maxPath
  names : ∀ n ∈ rest, Text.size n ≤ maxName
  normal : (Location.path (rest.reverse ++ l)).size < maxPath

/-- behind a longest front that leads to a directory, something is missing, unless a link is there -/
theorem LongestFront.missing (h : fs.LongestFront p front rest l) (hp : Tidy p) (hup : ['.', '.'] ∉ rest)
    (hlink : ∀ name ∈ rest.head?, ∀ target, fs.tree.at? (name :: l) ≠ some (.link target))
    (hd : fs.tree.at? l = some .directory) (hb : WithinBounds p rest l) : fs.Missing p front rest l := by
  have hnames : ∀ n ∈ rest, IsName n := fun n hn => h.isName hup n (by simp [hn])
  have hstart : fs.boundedStart p = .ok [] := boundedStart_eq_ok.2
    ⟨hb.nul, ne_nil_of_isAbsolute hp.absolute, hb.path, (if_pos hp.absolute).symm⟩
  refine ⟨hp, h, hnames, hd, fun names hne hpre => ?_, hstart, hb.names, hb.normal⟩
  obtain ⟨name, names, rfl⟩ := List.exists_cons_of_ne_nil hne
  obtain ⟨rest, rfl⟩ := hpre
  have hsize : (Location.path (name :: l)).size < maxPath := by
    have hwhole := hb.normal
    rw [List.cons_append, List.reverse_cons, List.append_assoc] at hwhole
    exact Nat.lt_of_le_of_lt (Location.size_path_append _ _) hwhole
  have hnul : '\x00' ∉ name := fun hn => hb.nul (nul_mem_iff_steps.2 ⟨name, by rw [h.steps]; simp, hn⟩)
  have hvacant := h.vacant hd (hnames name (by simp)) hnul (hb.names name (by simp)) hsize (hlink name (by simp))
  -- what nothing has has nothing below it
  by_contra hthere
  have hbelow : name :: l <:+ (name :: names).reverse ++ l := ⟨names.reverse, by simp⟩
  by_cases heq : name :: l = (name :: names).reverse ++ l
  · exact hthere (heq ▸ hvacant)
  · rw [FileTree.directory_of_below hthere hbelow heq] at hvacant
    exact absurd hvacant (by simp)

/-- **Where a missing file will be.** The normal form of an absolute path, which ends in neither `/` nor `/.`, is where
its longest front leads and the names behind that, as long as none of them is `..` and the first is no link. It is the
canonical path if there is one, spells no `.` or `..`, and is its own normal form. If something is missing in a
directory, then making the directories that are missing and saving a file at the path puts the file there, and that is
the canonical path it has by then. -/
theorem normalize_foretells (ha : p.isAbsolute = true) (hslash : p.endsInSlash = false)
    (hhere : ¬ ['/', '.'] <:+ p) : (∃ front rest l, fs.LongestFront p front rest l) ∧
      ∀ front rest l, fs.LongestFront p front rest l → ['.', '.'] ∉ rest →
        (∀ name ∈ rest.head?, ∀ target, fs.tree.at? (name :: l) ≠ some (.link target)) →
          (fs.normalize p = Location.path (rest.reverse ++ l) ∧ fs.normalize p = rest.foldl Path.join l.path) ∧
          (∀ q, fs.canonicalPath p = .ok q → fs.normalize p = q) ∧
          (∀ n ∈ (fs.normalize p).names, Path.isDots n = false) ∧
          fs.normalize (fs.normalize p) = fs.normalize p ∧
          ((∀ q, fs.canonicalPath p ≠ .ok q) → fs.tree.at? l = some .directory → WithinBounds p rest l → ∀ bytes,
            ∃ s s', (Replacement.makeParent p).run fs = (.ok (), s) ∧ (Plan.save p bytes).run s = (.ok (), s') ∧
              s' = fs.withTree ((fs.tree.deepen l rest.dropLast).insert (rest.reverse ++ l) (.file bytes)) ∧
              s'.tree.at? (rest.reverse ++ l) = some (.file bytes) ∧ s'.canonicalPath p = .ok (fs.normalize p)) := by
  have hp := Path.tidy_of_end ha hslash hhere
  refine ⟨exists_longestFront fs p, fun front rest l h hup hlink => ?_⟩
  have hnames := h.isName hup
  have hnormal : fs.normalize p = Location.path (rest.reverse ++ l) :=
    normalizeUpTo_of_front hp h hup (Nat.le_refl _)
  refine ⟨⟨hnormal, ?_⟩, fun q hq => normalize_of_canonicalPath hq, ?_, ?_, fun hnot hd hb bytes => ?_⟩
  · rw [hnormal, Location.foldl_join hnames]
  · rw [hnormal, Path.names_path hnames]
    exact fun n hn => (hnames n (List.mem_reverse.1 hn)).2.2
  · rw [hnormal, normalize_of_normal h hup hlink]
  · have hmissing := h.missing hp hup hlink hd hb
    obtain ⟨rest, name, rfl⟩ : ∃ xs name, rest = xs ++ [name] := by
      rcases List.eq_nil_or_concat rest with rfl | ⟨xs, name, hx⟩
      · exact absurd (map_eq_ok.2 ⟨l, (h.canonical_iff hp).2 ⟨rfl, rfl⟩, rfl⟩) (hnot l.path)
      · exact ⟨xs, name, by rw [hx, List.concat_eq_append]⟩
    obtain ⟨dir, -, hdir, -⟩ := hmissing.parent
    obtain ⟨hc, hat⟩ := hmissing.put_deepened (e := .file bytes) hdir hdir.deepened (by simp)
    rw [hnormal, List.reverse_append, List.reverse_singleton, List.singleton_append, List.dropLast_concat]
    exact ⟨_, _, hmissing.run_makeParent, hmissing.run_save bytes, rfl, hat, map_eq_ok.2 ⟨_, hc, rfl⟩⟩

def linkedHome : FileSystem :=
  ⟨(FileTree.empty.insert ["d".toList] .directory).insert ["s".toList] (.link "d".toList), []⟩

/-- a path along the link, with two names missing behind it, is one in the directory; so it is when the file is saved -/
theorem missing_along_link :
    let p := "/s/./x/y".toList
    let q := "/d/x/y".toList
    linkedHome.LongestFront p ["s".toList] ["x".toList, "y".toList] ["d".toList] ∧ linkedHome.normalize p = q ∧
      linkedHome.normalize q = q ∧ ∃ s s', (Replacement.makeParent p).run linkedHome = (.ok (), s) ∧
        (Plan.save p [0]).run s = (.ok (), s') ∧ s'.tree.at? ["y".toList, "x".toList, "d".toList] = some (.file [0]) ∧
          s'.canonicalPath p = .ok q := by
  intro p q
  have hfront : linkedHome.LongestFront p ["s".toList] ["x".toList, "y".toList] ["d".toList] := by
    refine ⟨by decide, by decide +kernel, fun more hne hpre k hk => ?_⟩
    obtain ⟨more, rfl, hmore⟩ : ∃ ys, more = "x".toList :: ys ∧ (ys = [] ∨ ys = ["y".toList]) := by
      simpa [hne, List.prefix_cons_iff] using hpre
    have hx : linkedHome.canonical (spelled ["s".toList, "x".toList]) = .error (.system .notFound) := by decide +kernel
    have hy : linkedHome.canonical (spelled ["s".toList, "x".toList, "y".toList]) = .error (.system .notFound) := by
      decide +kernel
    rcases hmore with rfl | rfl
    · exact absurd (hx.symm.trans hk) (by simp)
    · exact absurd (hy.symm.trans hk) (by simp)
  have hlink : ∀ name ∈ ["x".toList, "y".toList].head?, ∀ target,
      linkedHome.tree.at? (name :: ["d".toList]) ≠ some (.link target) := by
    have hnone : linkedHome.tree.at? ["x".toList, "d".toList] = none := by decide +kernel
    rintro _ ⟨⟩ target ht
    exact absurd (hnone.symm.trans ht) (by simp)
  obtain ⟨-, hforetells⟩ := @normalize_foretells linkedHome p (by decide) (by decide) (by decide)
  obtain ⟨⟨hnormal, -⟩, -, -, hagain, hsaved⟩ := hforetells _ _ _ hfront (by decide) hlink
  have hmissing : linkedHome.canonicalPath p = .error (.system .notFound) := by decide +kernel
  have hq : linkedHome.normalize p = q := hnormal.trans (by decide)
  obtain ⟨s, s', hmade, hsave, -, hfile, hc⟩ := hsaved (fun k hk => absurd (hmissing.symm.trans hk) (by simp))
    (by decide +kernel) ⟨by decide, by decide, by decide, by decide⟩ [0]
  rw [hq] at hagain hc
  exact ⟨hfront, hq, hagain, s, s', hmade, hsave, hfile, hc⟩

end FileSystem
end BranchRender
