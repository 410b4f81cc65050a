/-
TWINS: paths that get to one directory in different ways and go on alike.

- What the parent of an absolute path goes through, and its file name, are told by the names of the path
  (`parent?_of_isAbsolute`).
- Two paths are `Twin`s if they are the same, or have the same names behind fronts that lead to one directory. While no
  limit of the system is met, they are looked up alike, from wherever (`Twin.samePlace`).
- Their parents are twins again, or both lead to that directory (`Twin.parent`); so are paths that stand beside them
  (`Beside.join`).

Main statements: `Twin.samePlace`, `Twin.parent`, `Beside.join`.
-/
import Mathlib.Data.List.DropRight
import BranchRender.Proofs.Limits

namespace BranchRender

/-! ## Parents of absolute paths -/

namespace Path

variable {p dir : Path}

/-- names without the `.`s they end in -/
def trimHere (xs : List Text) : List Text := xs.rdropWhile (· = ['.'])

theorem trimHere_append_replicate (xs : List Text) (m : Nat) :
    trimHere (xs ++ List.replicate m ['.']) = trimHere xs := by
  induction m with
  | zero => simp
  | succ m ih =>
    rw [List.replicate_succ', ← List.append_assoc, trimHere, List.rdropWhile_concat_pos _ _ _ (by simp)]
    exact ih

theorem trimHere_concat {xs : List Text} {last : Text} (h : last ≠ ['.']) : trimHere (xs ++ [last]) = xs ++ [last] :=
  List.rdropWhile_concat_neg _ _ _ (by simpa using h)

theorem exists_trimHere (xs : List Text) : ∃ m, xs = trimHere xs ++ List.replicate m ['.'] := by
  induction xs using List.reverseRecOn with
  | nil => exact ⟨0, by simp [trimHere]⟩
  | append_singleton xs x ih =>
    by_cases hx : x = ['.']
    · obtain ⟨m, hm⟩ := ih
      refine ⟨m + 1, ?_⟩
      subst hx
      rw [trimHere, List.rdropWhile_concat_pos _ _ _ (by simp), List.replicate_succ', ← List.append_assoc]
      congr 1
    · exact ⟨0, by rw [trimHere_concat hx]; simp⟩

theorem exists_last {zs : List Text} (h : ∃ z ∈ zs, z ≠ ['.']) :
    ∃ ws last m, zs = ws ++ [last] ++ List.replicate m ['.'] ∧ last ≠ ['.'] := by
  obtain ⟨m, hm⟩ := exists_trimHere zs
  obtain ⟨z, hz, hd⟩ := h
  have hne : trimHere zs ≠ [] := fun he => hd (by simpa using List.rdropWhile_eq_nil_iff.1 he z hz)
  have hlast : (trimHere zs).getLast hne ≠ ['.'] := by
    simpa [trimHere] using List.rdropWhile_last_not (p := (· = ['.'])) (l := zs) hne
  exact ⟨_, _, m, hm.trans (by rw [List.dropLast_concat_getLast hne]), hlast⟩

/-- what goes on behind other names keeps them all -/
theorem trimHere_append {xs zs : List Text} (h : ∃ z ∈ zs, z ≠ ['.']) : trimHere (xs ++ zs) = xs ++ trimHere zs := by
  obtain ⟨ws, last, m, rfl, hlast⟩ := exists_last h
  rw [← List.append_assoc, ← List.append_assoc, trimHere_append_replicate, trimHere_append_replicate,
    trimHere_concat hlast, trimHere_concat hlast, List.append_assoc]

/-- a path without idle segments at its end has no `.` there -/
theorem trimHere_names {r : Text} (h : dropIdle r = r) :
    trimHere (names ('/' :: r.reverse)) = names ('/' :: r.reverse) := by
  by_cases hr : r = []
  · subst hr
    rfl
  · obtain ⟨h1, h2⟩ := takeWhile_dropIdle (h.symm ▸ hr : dropIdle r ≠ [])
    rw [h] at h1 h2
    have hcut : CutAs ['/'] r := .inr (.inl rfl)
    have hnames := names_takeWhile hcut h1
    rw [List.singleton_append] at hnames
    rw [hnames, List.singleton_append]
    exact trimHere_concat fun e => h2 (by rw [← List.reverse_reverse (r.takeWhile _), e]; rfl)

/-- a path without idle segments at its end has no slash there, unless it is the root -/
theorem endsInSlash_of_dropIdle {r : Text} (h : dropIdle r ≠ []) :
    endsInSlash ('/' :: (dropIdle r).reverse) = false := by
  have htw := (takeWhile_dropIdle h).1
  obtain ⟨c, x, hc⟩ := List.exists_cons_of_ne_nil h
  have hslash : c ≠ '/' := by
    rintro rfl
    exact htw (by rw [hc]; rfl)
  rw [hc, List.reverse_cons, ← List.cons_append, endsInSlash, List.getLast?_concat]
  simpa using hslash

/-- an absolute path has a parent unless it has no names but `.`; the parent has the names before the last other one, and
that one is the file name unless it is `..` -/
theorem parent?_of_isAbsolute (ha : isAbsolute p = true) :
    (parent? p = none ∧ fileName? p = none ∧ ∀ n ∈ names p, n = ['.']) ∨
      ∃ dir front last j, parent? p = some dir ∧ isAbsolute dir = true ∧
        names p = front ++ last :: List.replicate j ['.'] ∧ last ≠ ['.'] ∧ names dir = trimHere front ∧
        (names dir ≠ [] → endsInSlash dir = false) ∧
        fileName? p = if last = ['.', '.'] then none else some last := by
  have hcut := cut_of_isAbsolute ha
  by_cases hne : dropIdle (cut p).2 = []
  · refine .inl ⟨?_, ?_, names_of_idle hne⟩
    · simp [parent?, hne, hcut]
    · simp [fileName?, hne]
  · -- the last segment, and what stands in front of it without the idle segments at its end
    obtain ⟨htw, hdot⟩ := takeWhile_dropIdle hne
    obtain ⟨j, hj⟩ := names_dropIdle (cutAs_cut p)
    have hlast := names_takeWhile ((cutAs_cut p).of_suffix (dropIdle_suffix _)) htw
    obtain ⟨m, hm⟩ := names_dropIdle (((cutAs_cut p).of_suffix (dropIdle_suffix _)).of_suffix
      (List.dropWhile_suffix (· != '/')))
    rw [cut_append, hlast, hm] at hj
    rw [hcut, List.singleton_append] at hj
    have hidle := trimHere_names (dropIdle_dropIdle ((dropIdle (cut p).2).dropWhile (· != '/')))
    refine .inr ⟨_, _, ((dropIdle (cut p).2).takeWhile (· != '/')).reverse, j, parent?_eq hne, ?_,
      hj.trans (by rw [List.append_assoc]; rfl), ?_, ?_, ?_, ?_⟩
    · rw [hcut]
      rfl
    · exact fun e => hdot (by rw [← List.reverse_inj, e]; rfl)
    · rw [trimHere_append_replicate, hcut, List.singleton_append, hidle]
    · rw [hcut, List.singleton_append]
      intro hnames
      exact endsInSlash_of_dropIdle fun he => hnames (by rw [he]; rfl)
    · unfold fileName?
      split
      next he => exact absurd he hne
      next => rfl

theorem length_parent_lt (ha : isAbsolute p = true) (h : parent? p = some dir) : dir.length < p.length := by
  have hfront := front_of_parent h
  refine Nat.lt_of_le_of_ne hfront.length_le fun hl => ?_
  -- a parent spells fewer names
  obtain rfl := hfront.eq_of_length hl
  rcases parent?_of_isAbsolute ha with ⟨hnone, -⟩ | ⟨dir', front, last, j, hd, -, hn, -, hnames, -⟩
  · rw [h] at hnone
    exact absurd hnone (by simp)
  · obtain rfl : dir' = dir := Option.some.inj (hd.symm.trans h)
    have hlen := congrArg List.length (hnames.symm.trans hn)
    have htrim : (trimHere front).length ≤ front.length := (List.rdropWhile_prefix _ _).length_le
    rw [List.length_append, List.length_cons] at hlen
    omega

theorem nul_mem_iff {p : Path} : '\x00' ∈ p ↔ ∃ n ∈ names p, '\x00' ∈ n := by
  constructor
  · intro h
    rw [← Text.joinWith_splitOn '/' p] at h
    rcases Text.mem_joinWith h with h | ⟨n, hn, h⟩
    · exact absurd h (by decide)
    · exact ⟨n, List.mem_filter.2 ⟨hn, by simpa using List.ne_nil_of_mem h⟩, h⟩
  · rintro ⟨n, hn, h⟩
    exact subset_of_mem_names hn h

theorem names_ne_nil_of_relative {p : Path} (hne : p ≠ []) (ha : isAbsolute p = false) : names p ≠ [] := by
  obtain ⟨c, r, rfl⟩ := List.exists_cons_of_ne_nil hne
  have hc : c ∈ Text.joinWith ['/'] (Text.splitOn '/' (c :: r)) := by
    rw [Text.joinWith_splitOn]
    exact List.mem_cons_self
  rcases Text.mem_joinWith hc with hc | ⟨n, hn, hc⟩
  · rw [List.mem_singleton.1 hc] at ha
    exact absurd ha (by simp [isAbsolute])
  · exact List.ne_nil_of_mem (List.mem_filter.2 ⟨hn, by simpa using List.ne_nil_of_mem hc⟩)

end Path

/-! ## Twins -/

namespace FileTree

variable {t u : FileTree} {xs ys zs : List Text} {k : Location} {slash slash' : Bool}

/-- names that lead from the root to a directory -/
structure Front (t : FileTree) (xs : List Text) (k : Location) : Prop where
  passes : ∃ n, Passes t maxLinks [] xs n k
  nulFree : ∀ x ∈ xs, '\x00' ∉ x

theorem Front.keep (h : Front t xs k) (hk : Keeps t u) : Front u xs k := by
  obtain ⟨n, hp⟩ := h.passes
  exact ⟨⟨n, hp.keep hk⟩, h.nulFree⟩

theorem Front.trimHere (h : Front t xs k) : Front t (Path.trimHere xs) k := by
  obtain ⟨m, hm⟩ := Path.exists_trimHere xs
  obtain ⟨n, hp⟩ := h.passes
  rw [hm] at hp
  exact ⟨⟨n, passes_append_dots.1 hp⟩, fun x hx => h.nulFree x (by rw [hm]; exact List.mem_append_left _ hx)⟩

/-- behind a front a walk goes on from the directory that leads to -/
theorem Front.walk (h : Front t xs k) : ∃ n, ∀ aim zs slash, zs ≠ [] ∨ aim = .target →
    t.walk aim maxLinks [] (xs ++ zs) slash = t.walk aim n k zs slash := by
  obtain ⟨n, hp⟩ := h.passes
  refine ⟨n, fun aim zs slash hz => ?_⟩
  by_cases hzs : zs = []
  · obtain rfl := hz.resolve_left (not_not.2 hzs)
    rw [hzs, List.append_nil, walk_target_of_passes hp, walk_nil]
  · exact walk_of_passes hp aim hzs slash

/-- behind two fronts that lead to one directory walks end alike, while they do not run out of links -/
theorem Front.walk_eq (hx : Front t xs k) (hy : Front t ys k)
    (h : t.walk .target maxLinks [] (xs ++ zs) slash ≠ .error .tooManyLinks)
    (h' : t.walk .target maxLinks [] (ys ++ zs) slash' ≠ .error .tooManyLinks) {ws : List Text} (hw : ws <+: zs)
    {aim : Aim} (hws : ws ≠ [] ∨ aim = .target) (b : Bool) :
    t.walk aim maxLinks [] (xs ++ ws) b = t.walk aim maxLinks [] (ys ++ ws) b := by
  obtain ⟨n, hn⟩ := hx.walk
  obtain ⟨m, hm⟩ := hy.walk
  obtain ⟨rest, rfl⟩ := hw
  have hfront : ∀ {links : Nat} {b' : Bool}, t.walk .target links k (ws ++ rest) b' ≠ .error .tooManyLinks →
      t.walk aim links k ws b ≠ .error .tooManyLinks := fun hne he => hne (tooManyLinks_append he (.inr rfl) _)
  rw [hn _ _ _ (.inr rfl)] at h
  rw [hm _ _ _ (.inr rfl)] at h'
  rw [hn _ _ _ hws, hm _ _ _ hws]
  exact walk_links (hfront h) (hfront h')

end FileTree

namespace FileSystem

open FileTree (Aim Front Keeps maxLinks maxPath)

variable {fs s : FileSystem} {t u : FileTree} {p q d e : Path} {k : Location} {xs ys zs : List Text}

/-- two paths with the same names behind fronts that lead to one directory -/
structure Behind (t : FileTree) (p q : Path) (zs : List Text) : Prop where
  absolute : p.isAbsolute = true ∧ q.isAbsolute = true
  slash : p.endsInSlash = q.endsInSlash
  fronts : ∃ xs ys k, Front t xs k ∧ Front t ys k ∧ p.names = xs ++ zs ∧ q.names = ys ++ zs

/-- two absolute paths that are the same, or go on alike from one directory -/
inductive Twin (t : FileTree) : Path → Path → Prop
  | same {p : Path} (h : p.isAbsolute = true) : Twin t p p
  | behind {p q : Path} {zs : List Text} (h : Behind t p q zs) (hz : ∃ z ∈ zs, z ≠ ['.']) : Twin t p q

/-- two paths that are the same, or meet no limit -/
def Fair (fs s : FileSystem) (p q : Path) : Prop := p = q ∨ fs.Within p ∧ s.Within q

/-- two paths that are looked up alike, each in a file system of its own -/
structure SamePlace (fs s : FileSystem) (p q : Path) : Prop where
  tree : fs.tree = s.tree
  slash : p.endsInSlash = q.endsInSlash
  locate : ∀ aim, fs.locate aim p = s.locate aim q
  lastOf : fs.lastOf p = s.lastOf q

theorem Behind.keep (h : Behind t p q zs) (hk : Keeps t u) : Behind u p q zs := by
  obtain ⟨xs, ys, k, hx, hy, hp, hq⟩ := h.fronts
  exact ⟨h.absolute, h.slash, xs, ys, k, hx.keep hk, hy.keep hk, hp, hq⟩

theorem Twin.keep (h : Twin t p q) (hk : Keeps t u) : Twin u p q := by
  cases h with
  | same h => exact .same h
  | behind h hz => exact .behind (h.keep hk) hz

theorem Behind.nul_mem_iff (h : Behind t p q zs) : '\x00' ∈ p ↔ '\x00' ∈ q := by
  obtain ⟨xs, ys, k, hx, hy, hp, hq⟩ := h.fronts
  have key : ∀ {r : Path} {ws : List Text}, r.names = ws ++ zs → (∀ x ∈ ws, '\x00' ∉ x) →
      ('\x00' ∈ r ↔ ∃ z ∈ zs, '\x00' ∈ z) := by
    intro r ws hr hw
    rw [Path.nul_mem_iff, hr]
    constructor
    · rintro ⟨n, hn, h⟩
      rcases List.mem_append.1 hn with hn | hn
      · exact absurd h (hw n hn)
      · exact ⟨n, hn, h⟩
    · rintro ⟨n, hn, h⟩
      exact ⟨n, List.mem_append_right _ hn, h⟩
  rw [key hp hx.nulFree, key hq hy.nulFree]

/-- what an absolute path leads to does not depend on the working directory -/
theorem locate_of_isAbsolute (ht : fs.tree = s.tree) (ha : p.isAbsolute = true) (aim : Aim) :
    fs.locate aim p = s.locate aim p := by
  have hs : fs.boundedStart p = s.boundedStart p := by simp [boundedStart, start, ha]
  simp only [locate, hs, ht]

theorem samePlace_of_isAbsolute (ht : fs.tree = s.tree) (ha : p.isAbsolute = true) : SamePlace fs s p p := by
  have hs : fs.boundedStart p = s.boundedStart p := by simp [boundedStart, start, ha]
  refine ⟨ht, rfl, locate_of_isAbsolute ht ha, ?_⟩
  simp only [FileSystem.lastOf, hs, ht]

/-- a look-up ends alike, of a directory they lead to at least if it follows links -/
theorem Behind.locate (h : Behind fs.tree p q zs) (ht : fs.tree = s.tree) (hp : fs.Within p) (hq : s.Within q)
    {aim : Aim} (hz : zs ≠ [] ∨ aim = .target) : fs.locate aim p = s.locate aim q := by
  rw [FileSystem.locate, FileSystem.locate, boundedStart_of_within hp h.absolute.1,
    boundedStart_of_within hq h.absolute.2]
  by_cases hnul : '\x00' ∈ p
  · rw [if_pos hnul, if_pos (h.nul_mem_iff.1 hnul)]
  · have hnul' : '\x00' ∉ q := fun hm => hnul (h.nul_mem_iff.2 hm)
    have hwp := hp.walk h.absolute.1
    have hwq := hq.walk h.absolute.2
    obtain ⟨xs, ys, k, hx, hy, hpn, hqn⟩ := h.fronts
    rw [if_neg hnul, if_neg hnul']
    rw [hpn] at hwp ⊢
    rw [← ht, hqn] at hwq ⊢
    simp only [h.slash, hx.walk_eq hy hwp hwq (List.prefix_refl zs) hz]

/-- paths behind fronts end in the same name, if any name is left -/
theorem Behind.lastOf (h : Behind fs.tree p q zs) (ht : fs.tree = s.tree) (hp : fs.Within p) (hq : s.Within q)
    (hz : zs ≠ []) : fs.lastOf p = s.lastOf q := by
  rw [FileSystem.lastOf, FileSystem.lastOf, boundedStart_of_within hp h.absolute.1,
    boundedStart_of_within hq h.absolute.2]
  by_cases hnul : '\x00' ∈ p
  · rw [if_pos hnul, if_pos (h.nul_mem_iff.1 hnul)]
  · have hnul' : '\x00' ∉ q := fun hm => hnul (h.nul_mem_iff.2 hm)
    have hwp := hp.walk h.absolute.1
    have hwq := hq.walk h.absolute.2
    obtain ⟨xs, ys, k, hx, hy, hpn, hqn⟩ := h.fronts
    rw [if_neg hnul, if_neg hnul']
    rw [hpn] at hwp
    rw [← ht, hqn] at hwq
    have hdrop : fs.tree.walk .target maxLinks [] (xs ++ zs.dropLast) true =
        fs.tree.walk .target maxLinks [] (ys ++ zs.dropLast) true :=
      hx.walk_eq hy hwp hwq (List.dropLast_prefix zs) (.inr rfl) true
    have hlast : ∀ ws : List Text, (ws ++ zs).getLast? = zs.getLast? := by
      intro ws
      obtain ⟨zs, z, rfl⟩ := (List.eq_nil_or_concat zs).resolve_left hz
      simp
    simp only [FileTree.lastOf, ← ht, hpn, hqn, hlast, List.dropLast_append_of_ne_nil hz, hdrop]

theorem Twin.samePlace (h : Twin fs.tree p q) (ht : fs.tree = s.tree) (hf : Fair fs s p q) : SamePlace fs s p q := by
  cases h with
  | same h => exact samePlace_of_isAbsolute ht h
  | behind h hz =>
    rcases hf with rfl | ⟨hp, hq⟩
    · exact samePlace_of_isAbsolute ht h.absolute.1
    · obtain ⟨z, hz, -⟩ := hz
      have hne : _ ≠ [] := List.ne_nil_of_mem hz
      exact ⟨ht, h.slash, fun aim => h.locate ht hp hq (.inl hne), h.lastOf ht hp hq hne⟩

/-! ## Parents -/

/-- twins, or two paths that lead to one directory -/
inductive Beside (t : FileTree) (p q : Path) : Prop
  | twin (h : Twin t p q)
  | directory {k : Location} (ha : p.isAbsolute = true ∧ q.isAbsolute = true) (hp : Front t p.names k)
      (hq : Front t q.names k)

/-- the file name, and what the parent goes through, behind other names -/
theorem parent?_behind {ws : List Text} {last : Text} {m : Nat} (ha : p.isAbsolute = true)
    (hp : p.names = xs ++ (ws ++ [last] ++ List.replicate m ['.'])) (hlast : last ≠ ['.']) :
    ∃ d, p.parent? = some d ∧ d.isAbsolute = true ∧ d.names = Path.trimHere (xs ++ ws) ∧
      (d.names ≠ [] → d.endsInSlash = false) ∧ p.fileName? = if last = ['.', '.'] then none else some last := by
  rw [← List.append_assoc, ← List.append_assoc] at hp
  rcases Path.parent?_of_isAbsolute ha with ⟨-, -, hdots⟩ | ⟨d, front, last', j, hd, habs, hn, hl, hnames, hslash, hfile⟩
  · exact absurd (hdots last (by rw [hp]; simp)) hlast
  · -- both spell the path up to its last name
    have htrim : front ++ [last'] = xs ++ ws ++ [last] := by
      have hcut := congrArg Path.trimHere (hn.symm.trans hp)
      rwa [← List.singleton_append, ← List.append_assoc, Path.trimHere_append_replicate, Path.trimHere_append_replicate,
        Path.trimHere_concat hl, Path.trimHere_concat hlast] at hcut
    obtain ⟨rfl, hlast'⟩ := List.append_inj' htrim rfl
    obtain rfl : last' = last := by simpa using hlast'
    exact ⟨d, hd, habs, hnames, hslash, hfile⟩

theorem Twin.absolute (h : Twin t p q) : p.isAbsolute = true ∧ q.isAbsolute = true := by
  cases h with
  | same h => exact ⟨h, h⟩
  | behind h => exact h.absolute

theorem Beside.absolute (h : Beside t p q) : p.isAbsolute = true ∧ q.isAbsolute = true := by
  cases h with
  | twin h => exact h.absolute
  | directory h => exact h

theorem Beside.keep (h : Beside t p q) (hk : Keeps t u) : Beside u p q := by
  cases h with
  | twin h => exact .twin (h.keep hk)
  | directory ha hp hq => exact .directory ha (hp.keep hk) (hq.keep hk)

theorem isAbsolute_of_parent {d : Path} (ha : p.isAbsolute = true) (h : p.parent? = some d) : d.isAbsolute = true := by
  rw [Path.isAbsolute_parent h, ha]
  rintro rfl
  rw [Path.isAbsolute_of_parent_nil h] at ha
  exact absurd ha (by simp)

theorem Twin.parent (h : Twin t p q) : p.parent? = none ∧ q.parent? = none ∨
    ∃ d e, p.parent? = some d ∧ q.parent? = some e ∧ Beside t d e := by
  cases h with
  | same ha =>
    cases hd : p.parent? with
    | none => exact .inl ⟨rfl, rfl⟩
    | some d => exact .inr ⟨d, d, rfl, rfl, .twin (.same (isAbsolute_of_parent ha hd))⟩
  | behind h hz =>
    obtain ⟨xs, ys, k, hx, hy, hp, hq⟩ := h.fronts
    obtain ⟨ws, last, m, rfl, hlast⟩ := Path.exists_last hz
    obtain ⟨d, hd, hda, hdn, hds, -⟩ := parent?_behind h.absolute.1 hp hlast
    obtain ⟨e, he, hea, hen, hes, -⟩ := parent?_behind h.absolute.2 hq hlast
    refine .inr ⟨d, e, hd, he, ?_⟩
    by_cases hw : ∃ w ∈ ws, w ≠ ['.']
    · obtain ⟨ws, last', m', rfl, hlast'⟩ := Path.exists_last hw
      rw [Path.trimHere_append hw, Path.trimHere_append_replicate, Path.trimHere_concat hlast'] at hdn hen
      refine .twin (.behind ⟨⟨hda, hea⟩, ?_, xs, ys, k, hx, hy, hdn, hen⟩ ⟨last', by simp, hlast'⟩)
      rw [hds (by rw [hdn]; simp), hes (by rw [hen]; simp)]
    · obtain ⟨i, rfl⟩ : ∃ i, ws = List.replicate i ['.'] :=
        ⟨_, List.eq_replicate_of_mem fun w hw' => Decidable.not_not.1 fun hne => hw ⟨w, hw', hne⟩⟩
      rw [Path.trimHere_append_replicate] at hdn hen
      exact .directory ⟨hda, hea⟩ (hdn ▸ hx.trimHere) (hen ▸ hy.trimHere)

theorem Twin.fileName (h : Twin t p q) : p.fileName? = q.fileName? := by
  cases h with
  | same => rfl
  | behind h hz =>
    obtain ⟨xs, ys, k, hx, hy, hp, hq⟩ := h.fronts
    obtain ⟨ws, last, m, rfl, hlast⟩ := Path.exists_last hz
    obtain ⟨-, -, -, -, -, hpf⟩ := parent?_behind h.absolute.1 hp hlast
    obtain ⟨-, -, -, -, -, hqf⟩ := parent?_behind h.absolute.2 hq hlast
    rw [hpf, hqf]

theorem ne_nil_of_isAbsolute (h : p.isAbsolute = true) : p ≠ [] := by
  rintro rfl
  simp [Path.isAbsolute] at h

theorem isAbsolute_join {d r : Path} (hd : d.isAbsolute = true) : (d.join r).isAbsolute = true := by
  obtain ⟨x, rfl⟩ := Path.isAbsolute_iff.1 hd
  unfold Path.join
  split
  · next h => exact h
  · split <;> exact hd

theorem endsInSlash_join_of_isAbsolute {d e : Path} (hd : d.isAbsolute = true) (he : e.isAbsolute = true) (r : Path) :
    (d.join r).endsInSlash = (e.join r).endsInSlash := by
  -- nothing at all still puts a slash behind
  have hnil : ∀ {p : Path}, p.isAbsolute = true → (p.join []).endsInSlash = true := by
    intro p hp
    have hne : p ≠ [] := ne_nil_of_isAbsolute hp
    cases hs : p.endsInSlash <;> simp [Path.join, Path.isAbsolute, hne, hs]
    simp [Path.endsInSlash]
  by_cases hr : r = []
  · rw [hr, hnil hd, hnil he]
  · rw [Path.endsInSlash_join hr, Path.endsInSlash_join hr]

theorem behind_join {d e r : Path} (ha : d.isAbsolute = true ∧ e.isAbsolute = true) (hd : Front t d.names k)
    (he : Front t e.names k) (hr : r.isAbsolute = false) : Behind t (d.join r) (e.join r) r.names :=
  ⟨⟨isAbsolute_join ha.1, isAbsolute_join ha.2⟩, endsInSlash_join_of_isAbsolute ha.1 ha.2 r,
    _, _, k, hd, he, Path.names_join hr, Path.names_join hr⟩

theorem Behind.join {r : Path} (h : Behind t p q zs) (hr : r.isAbsolute = false) :
    Behind t (p.join r) (q.join r) (zs ++ r.names) := by
  obtain ⟨xs, ys, k, hx, hy, hp, hq⟩ := h.fronts
  refine ⟨⟨isAbsolute_join h.absolute.1, isAbsolute_join h.absolute.2⟩,
    endsInSlash_join_of_isAbsolute h.absolute.1 h.absolute.2 r, xs, ys, k, hx, hy, ?_, ?_⟩
  · rw [Path.names_join hr, hp, List.append_assoc]
  · rw [Path.names_join hr, hq, List.append_assoc]

theorem Beside.join {d e r : Path} (h : Beside t d e) (hr : r.isAbsolute = false → ∃ n ∈ r.names, n ≠ ['.']) :
    Twin t (d.join r) (e.join r) := by
  cases habs : r.isAbsolute with
  | true =>
    rw [Path.join_absolute habs, Path.join_absolute habs]
    exact .same habs
  | false =>
    obtain ⟨n, hn, hdot⟩ := hr habs
    cases h with
    | directory ha hd he => exact .behind (behind_join ha hd he habs) ⟨n, hn, hdot⟩
    | twin h =>
      cases h with
      | same ha => exact .same (isAbsolute_join ha)
      | behind h => exact .behind (h.join habs) ⟨n, List.mem_append_right _ hn, hdot⟩

/-! ## Limits on the way -/

/-- a parent meets no limit that its path does not meet -/
theorem Within.parent {d : Path} (h : fs.Within p) (ha : p.isAbsolute = true) (hd : p.parent? = some d) :
    fs.Within d := by
  have hda := isAbsolute_of_parent ha hd
  refine ⟨?_, ?_⟩
  · obtain ⟨r, rfl⟩ := Path.front_of_parent hd
    have := h.size
    rw [Text.size_append] at this
    omega
  · rw [if_pos hda]
    intro he
    rcases Path.parent?_of_isAbsolute ha with ⟨hnone, -⟩ | ⟨d', front, last, j, hd', -, hn, -, hnames, -⟩
    · rw [hd] at hnone
      exact absurd hnone (by simp)
    · obtain rfl : d' = d := Option.some.inj (hd'.symm.trans hd)
      obtain ⟨m, hm⟩ := Path.exists_trimHere front
      rw [← hnames] at hm
      refine h.walk ha ?_
      rw [hn, hm, List.append_assoc]
      exact FileTree.tooManyLinks_append he (.inr rfl) _

theorem Fair.parent {d e : Path} (h : Fair fs s p q) (ha : p.isAbsolute = true ∧ q.isAbsolute = true)
    (hd : p.parent? = some d) (he : q.parent? = some e) : Fair fs s d e := by
  rcases h with rfl | ⟨hp, hq⟩
  · exact .inl (Option.some.inj (hd.symm.trans he))
  · exact .inr ⟨hp.parent ha.1 hd, hq.parent ha.2 he⟩

theorem Fair.of_keeps {fs' s' : FileSystem} (h : Fair fs' s' p q) (ha : p.isAbsolute = true ∧ q.isAbsolute = true)
    (hk : Keeps fs.tree fs'.tree) (hk' : Keeps s.tree s'.tree) : Fair fs s p q :=
  h.imp id fun ⟨hp, hq⟩ => ⟨hp.of_keeps ha.1 hk, hq.of_keeps ha.2 hk'⟩

end FileSystem
end BranchRender
