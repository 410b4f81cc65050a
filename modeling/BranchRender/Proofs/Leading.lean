/-
LEADING: what it takes for a path to lead to a directory, and what follows for the paths in it.

- A path that leads to a directory (`Leads`) does so for every tree that has the directories and links; that directory is
  not made again (`newLocation_of_leads`).
- A path's own entry is what stands where the path names, or a directory it leads to; it depends on the directories and
  links, and on that one place (`SameWays.lstat`).
- A path with a last name behind its parent (`Tops`) gets to the directory of that name exactly if the parent leads there
  (`reaches_of_leads`, `leads_of_reaches`).

Main statements: `leads_iff`, `newLocation_of_leads`, `SameWays.lstat`, `reaches_of_leads`, `leads_of_reaches`.
-/
import Mathlib.Tactic.ByContra
import BranchRender.Proofs.Operations

namespace BranchRender

/-! ## Directories -/

namespace FileSystem

open FileTree (Place Passes Blocked Keeps maxLinks maxName)

variable {fs s : FileSystem} {q dir : Path} {d l : Location} {name : Text}

/-- the path leads to the directory `d` -/
def Leads (fs : FileSystem) (q : Path) (d : Location) : Prop :=
  ∃ start n, fs.boundedStart q = .ok start ∧ Passes fs.tree maxLinks start q.names n d

theorem leads_iff : fs.Leads q d ↔ fs.find .target q = .ok (d, .directory) := by
  constructor
  · rintro ⟨start, n, hs, hp⟩
    simp only [find, locate, hs, FileTree.walk_target_of_passes hp, Except.mapError]
  · intro h
    obtain ⟨start, hs, hw⟩ := walk_of_find h
    obtain ⟨n, hp⟩ := FileTree.passes_of_walk hw
    exact ⟨start, n, hs, hp⟩

theorem isDirectory_iff_leads : fs.isDirectory q = true ↔ ∃ d, fs.Leads q d := by
  rw [isDirectory_iff, stat, map_eq_ok]
  simp only [leads_iff]
  constructor
  · rintro ⟨⟨d, e⟩, hf, rfl⟩
    exact ⟨d, hf⟩
  · rintro ⟨d, hf⟩
    exact ⟨_, hf, rfl⟩

theorem Leads.contains (h : fs.Leads q d) : fs.contains q = true := by
  simp [FileSystem.contains, stat, leads_iff.1 h, Except.map, Except.toOption]

theorem isDirectory_of_not_contains (h : fs.contains q = false) : fs.isDirectory q = false := by
  by_contra hd
  obtain ⟨d, hl⟩ := isDirectory_iff_leads.1 (by simpa using hd)
  rw [hl.contains] at h
  exact absurd h (by simp)

theorem Leads.keep (hk : Keeps fs.tree s.tree) (hc : s.cwd = fs.cwd) (h : fs.Leads q d) : s.Leads q d := by
  obtain ⟨start, n, hs, hp⟩ := h
  exact ⟨start, n, (boundedStart_eq hc q).trans hs, hp.keep hk⟩

theorem Leads.unique {d' : Location} (h : fs.Leads q d) (h' : fs.Leads q d') : d = d' := by
  rw [leads_iff] at h h'
  rw [h] at h'
  exact (Prod.mk.inj (Except.ok.inj h')).1

theorem newLocation_of_leads (h : fs.Leads q d) : fs.newLocation q none = .error (.system .alreadyExists) := by
  obtain ⟨start, n, hs, hp⟩ := h
  rcases List.eq_nil_or_concat q.names with hx | ⟨xs, nm, hx⟩
  · have hl : fs.lastOf q = .ok (start, none) := by simp [lastOf, hs, FileTree.lastOf, hx, Except.mapError]
    simp [newLocation, hl, bind, Except.bind]
  · rw [List.concat_eq_append] at hx
    rw [hx] at hp
    obtain ⟨n', d', hp', hlast⟩ := hp.split
    have hr : fs.Reaches q n' d' nm := ⟨start, xs, hs, hx, hp'⟩
    have hl := lastOf_of_reaches hr
    by_cases hd : Path.isDots nm = true
    · simp [newLocation, hl, hd, bind, Except.bind]
    · have hthere : nm.size ≤ maxName ∧ fs.tree.at? (nm :: d') ≠ none := by
        cases hlast with
        | here => simp [Path.isDots] at hd
        | up => simp [Path.isDots] at hd
        | into _ hs' he _ => exact ⟨hs', by rw [he]; simp⟩
        | along _ hs' he _ => exact ⟨hs', by rw [he]; simp⟩
      have hi : fs.inDirectory d' nm = .ok (nm :: d') :=
        inDirectory_iff.2 ⟨FileTree.at?_parent hthere.2, hthere.1, rfl⟩
      simp [newLocation, hl, hd, hi, hthere.2, bind, Except.bind]

theorem leads_of_names (hn : fs.Names q l) (he : fs.tree.at? l = some .directory) : fs.Leads q l := by
  obtain ⟨n, dir, nm, ⟨start, xs, hs, hx, hp⟩, hd, -, hz, rfl⟩ := names_iff.1 hn
  exact ⟨start, n, hs, hx ▸ hp.append (.into hd hz he .done)⟩

/-- names are started from somewhere, unless the path cannot be one or is empty -/
theorem boundedStart_of_missing (h : fs.newLocation q none = .error (.system .notFound)) (hq : q ≠ []) :
    ∃ start, fs.boundedStart q = .ok start := by
  cases hs : fs.boundedStart q with
  | ok start => exact ⟨start, rfl⟩
  | error e =>
    have he : e = .system .notFound := by
      simpa [newLocation, lastOf, hs, bind, Except.bind] using h
    rw [he] at hs
    unfold boundedStart start at hs
    split at hs
    · exact absurd hs (by rw [Except.error.injEq]; decide)
    · split at hs
      · exact absurd hs (by simp)
      · split at hs <;> exact absurd hs (by simp)

/-! ## What a path names -/

theorem lstat_toOption_of_names (hn : fs.Names q l) (hs : q.endsInSlash = false) :
    (fs.lstat q).toOption = fs.tree.at? l := by
  cases he : fs.tree.at? l with
  | none => simp [lstat, find, (locate_of_names hn hs .entry).1 he, Except.map, Except.toOption]
  | some e => simp [lstat_of_names hn hs he, Except.toOption]

/-- what has a path that names no location is a directory it leads to -/
theorem leads_of_lstat {e : Entry} (hn : ∀ l, fs.Names q l → q.endsInSlash = true) (h : fs.lstat q = .ok e) :
    e = .directory ∧ ∃ d, fs.Leads q d := by
  obtain ⟨l, hf⟩ := find_of_lstat h
  have hl := locate_of_find hf
  rcases reaches_or_fails fs q with ⟨n, d, nm, hr⟩ | ⟨e', -, he⟩ | ⟨hx, start, hs, -, he⟩
  · have hw := walk_of_locate hr hl
    obtain ⟨start, xs, hs, hx, hp⟩ := hr
    by_cases hd : Path.isDots nm = true
    · have hlast : ∃ d', FileTree.Passes fs.tree n d [nm] n d' ∧
          fs.tree.walk .entry n d [nm] q.endsInSlash = .ok (.taken d' .directory) := by
        rcases Path.isDots_eq_true_iff.1 hd with rfl | rfl
        · exact ⟨d, .here .done, by rw [FileTree.walk_here, FileTree.walk_nil]⟩
        · exact ⟨d.tail, .up .done, by rw [FileTree.walk_up, FileTree.walk_nil]⟩
      obtain ⟨d', hp', hw'⟩ := hlast
      rw [hw', Except.ok.injEq, Place.taken.injEq] at hw
      exact ⟨hw.2.symm, d', start, n, hs, hx ▸ hp.append hp'⟩
    · obtain ⟨k, hk⟩ := names_of_locate hl hx (by simpa using hd)
      have hslash := hn k hk
      obtain rfl : e = .directory := by
        by_contra hdir
        have hno := (at?_of_locate hl hdir).2
        rw [hslash] at hno
        exact absurd hno (by simp)
      rw [hslash] at hw
      rw [FileTree.walk_entry_slash] at hw
      obtain ⟨n', hp'⟩ := FileTree.passes_of_walk hw
      exact ⟨rfl, l, start, n', hs, hx ▸ hp.append hp'⟩
  · rw [he] at hl; exact absurd hl (by simp)
  · rw [he, Except.ok.injEq, Place.taken.injEq] at hl
    exact ⟨hl.2.symm, start, start, _, hs, by rw [hx]; exact .done⟩

/-- a directory that is led to has the path's entry, unless that is a link -/
theorem Leads.lstat (hn : ∀ l, fs.Names q l → q.endsInSlash = true) (h : fs.Leads q d) :
    fs.lstat q = .ok .directory := by
  have hfind := leads_iff.1 h
  have hsame : fs.locate .entry q = fs.locate .target q := by
    obtain ⟨start, n, hs, hp⟩ := h
    cases hslash : q.endsInSlash with
    | true => simp only [locate, hs, hslash, FileTree.walk_entry_slash]
    | false =>
      rcases List.eq_nil_or_concat q.names with hx | ⟨xs, nm, hx⟩
      · simp only [locate, hs, hx, FileTree.walk_nil]
      · rw [List.concat_eq_append] at hx
        have hd : Path.isDots nm = true := by
          by_contra hd
          have hloc : fs.locate .target q = .ok (.taken d .directory) := by
            simp only [locate, hs, FileTree.walk_target_of_passes hp, Except.mapError]
          obtain ⟨k, hk⟩ := names_of_locate hloc hx (by simpa using hd)
          exact absurd (hn k hk) (by simp [hslash])
        rw [hx] at hp
        obtain ⟨n', d', hp', -⟩ := hp.split
        have hr : fs.Reaches q n' d' nm := ⟨start, xs, hs, hx, hp'⟩
        rw [locate_of_reaches hr, locate_of_reaches hr]
        rcases Path.isDots_eq_true_iff.1 hd with rfl | rfl
        · simp only [FileTree.walk_here, FileTree.walk_nil]
        · simp only [FileTree.walk_up, FileTree.walk_nil]
  unfold find at hfind
  simp only [FileSystem.lstat, find, hsame]
  rw [hfind]
  rfl

/-- a path's entry stays the same while what shows the way does, and what the path names -/
theorem SameWays.lstat (h : fs.SameWays s)
    (hr : ∀ l, fs.Names q l → q.endsInSlash = false → s.tree.at? l = fs.tree.at? l) :
    (s.lstat q).toOption = (fs.lstat q).toOption := by
  by_cases hn : ∃ l, fs.Names q l ∧ q.endsInSlash = false
  · obtain ⟨l, hl, hs⟩ := hn
    rw [lstat_toOption_of_names hl hs, lstat_toOption_of_names (h.names.2 hl) hs, hr l hl hs]
  · have key : ∀ {u v : FileSystem}, u.SameWays v → (∀ l, u.Names q l → q.endsInSlash = true) →
        ∀ e, (u.lstat q).toOption = some e → (v.lstat q).toOption = some e := by
      intro u v huv hu e he
      have hok : u.lstat q = .ok e := by
        cases hq : u.lstat q with
        | error _ => rw [hq] at he; exact absurd he (by simp [Except.toOption])
        | ok e' =>
          rw [hq] at he
          rw [Option.some.inj he]
      obtain ⟨rfl, d, hd⟩ := leads_of_lstat hu hok
      rw [(hd.keep huv.keeps huv.cwd).lstat fun l hl => hu l (huv.names.1 hl)]
      rfl
    have hfs : ∀ l, fs.Names q l → q.endsInSlash = true := by
      intro l hl
      by_contra hs
      exact hn ⟨l, hl, by simpa using hs⟩
    refine Option.ext fun e => ⟨key h.symm (fun l hl => hfs l (h.names.1 hl)) e, key h hfs e⟩

end FileSystem

/-! ## The last name behind a parent -/

/-- a path is its parent, and a last name in that -/
structure Path.Tops (q dir : Path) (name : Text) : Prop where
  isName : Path.IsName name
  parent : q.parent? = some dir
  names : ∃ m, q.names = dir.names ++ List.replicate m ['.'] ++ [name]

theorem Path.tops_of_parent {p q : Path} (h : parent? p = some q) {name : Text} (hn : fileName? q = some name) :
    ∃ dir, Tops q dir name := by
  obtain ⟨dir, m, hd, hq⟩ := names_parent h hn
  exact ⟨dir, (names_of_fileName hn).1, hd, m, hq⟩

/-- a path whose last name is a name has it for its file name, if it has one -/
theorem Path.tops_of_last {p : Path} {xs : List Text} {nm name : Text} (hx : names p = xs ++ [nm])
    (hd : isDots nm = false) (hn : fileName? p = some name) : name = nm ∧ ∃ dir, Tops p dir name := by
  obtain ⟨hname, dir, m, i, hdir, hp, -⟩ := names_of_fileName hn
  -- a `.` behind the file name would be the last name
  have hi : i = 0 := by
    by_contra hi
    obtain ⟨j, rfl⟩ := Nat.exists_eq_succ_of_ne_zero hi
    rw [hp, List.replicate_succ', ← List.cons_append, ← List.append_assoc] at hx
    obtain ⟨-, hlast⟩ := List.append_inj' hx rfl
    obtain rfl : ['.'] = nm := by simpa using hlast
    simp [isDots] at hd
  subst hi
  refine ⟨?_, dir, hname, hdir, m, hp⟩
  rw [hp] at hx
  obtain ⟨-, hlast⟩ := List.append_inj' hx rfl
  simpa using hlast

namespace FileSystem

open FileTree (Passes Blocked Keeps maxLinks maxName)

variable {fs s : FileSystem} {q dir : Path} {d l start : Location} {name : Text}

theorem tops_of_names (h : fs.Names q l) :
    ∃ dir name n d, q.Tops dir name ∧ l = name :: d ∧ fs.Reaches q n d name := by
  obtain ⟨n, d, nm, hr, hd, -, -, rfl⟩ := names_iff.1 h
  have hr' := hr
  obtain ⟨start, xs, -, hx, -⟩ := hr'
  cases hn : Path.fileName? q with
  | none => exact absurd (Path.isDots_of_no_fileName hn hx) (by simp [hd])
  | some name =>
    obtain ⟨rfl, dir, ht⟩ := Path.tops_of_last hx hd hn
    exact ⟨dir, name, n, d, ht, rfl, hr⟩

theorem ne_nil_of_boundedStart (hs : fs.boundedStart q = .ok start) : q ≠ [] := by
  rintro rfl
  unfold boundedStart FileSystem.start at hs
  split at hs <;> simp at hs

/-- the front of a path, unless it is empty, starts where the path does -/
theorem boundedStart_front (h : dir <+: q) (hd : dir ≠ []) (hs : fs.boundedStart q = .ok start) :
    fs.boundedStart dir = .ok start := by
  obtain ⟨r, rfl⟩ := h
  have hnul : '\x00' ∉ dir ++ r := by
    intro hq
    simp [boundedStart, FileSystem.start, hq] at hs
  have hnul' : '\x00' ∉ dir := fun hm => hnul (List.mem_append_left _ hm)
  have hq : dir ++ r ≠ [] := ne_nil_of_boundedStart hs
  have hlong : ¬ FileTree.maxPath ≤ Text.size (dir ++ r) := by
    intro hl
    simp only [boundedStart, hnul, not_false_eq_true, hl, and_self, ite_true, reduceCtorEq] at hs
  have hlong' : ¬ FileTree.maxPath ≤ Text.size dir := by
    rw [Text.size_append] at hlong
    omega
  have habs : Path.isAbsolute (dir ++ r) = Path.isAbsolute dir := by
    obtain ⟨c, d, rfl⟩ := List.exists_cons_of_ne_nil hd
    rfl
  simp only [boundedStart, FileSystem.start, hnul, hnul', hlong, hlong', hq, hd, habs, not_false_eq_true, and_false,
    ite_false] at hs ⊢
  exact hs

theorem boundedStart_parent (h : q.parent? = some dir) (hd : dir ≠ []) (hs : fs.boundedStart q = .ok start) :
    fs.boundedStart dir = .ok start := boundedStart_front (Path.front_of_parent h) hd hs

/-- a path whose parent leads to a directory gets to there -/
theorem reaches_of_leads (ht : q.Tops dir name) (hs : fs.boundedStart q = .ok start) (h : fs.Leads dir d) :
    ∃ n, fs.Reaches q n d name := by
  obtain ⟨start', n, hs', hp⟩ := h
  obtain ⟨m, hm⟩ := ht.names
  have hd : dir ≠ [] := ne_nil_of_boundedStart hs'
  rw [boundedStart_parent ht.parent hd hs, Except.ok.injEq] at hs'
  subst hs'
  exact ⟨n, start, _, hs, hm, hp.append (FileTree.passes_dots _ _ _ m)⟩

/-- a path that gets to the directory of its last name has a parent that leads there -/
theorem leads_of_reaches {n : Nat} {name' : Text} (ht : q.Tops dir name) (hd : dir ≠ [])
    (h : fs.Reaches q n d name') : name' = name ∧ fs.Leads dir d := by
  obtain ⟨start, xs, hs, hx, hp⟩ := h
  obtain ⟨m, hm⟩ := ht.names
  obtain ⟨rfl, hn⟩ := List.append_inj' (hx.symm.trans hm) rfl
  exact ⟨by simpa using hn, start, n, boundedStart_parent ht.parent hd hs, FileTree.passes_append_dots.1 hp⟩

end FileSystem
end BranchRender
