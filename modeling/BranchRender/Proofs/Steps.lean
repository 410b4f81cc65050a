/-
STEPS: a path as its names without the `.`s, and how far it resolves.

- The `steps` of a path are what it says: a `.` in front of other names changes nothing (`canonical_drop_here`), so an
  absolute path that ends in neither a slash nor a `.` (`Tidy`) resolves as its steps do (`canonical_of_tidy`).
- Such a path is its parent and its last step, unless that is `..` (`Tidy.tops`); the parent is tidy again.
- `LongestFront` is the longest front of the steps that resolves, where it leads, and what is left behind it. There is
  always one (`exists_longestFront`).
- The names of what is no link resolve to it (`canonical_reverse_of_at?`), and what resolves behind them is an entry
  there (`at?_of_canonical_below`).

Main statements: `canonical_of_tidy`, `Tidy.tops`, `exists_longestFront`, `at?_of_canonical_below`.
-/
import BranchRender.Proofs.Counterparts

namespace BranchRender

/-! ## Names without `.` -/

namespace Path

variable {p dir : Path} {name : Text} {xs : List Text}

/-- the names of a path but the `.`s, which say nothing -/
def steps (p : Path) : List Text := p.names.filter (· ≠ ['.'])

/-- what a path may say at a step: a name, or `..` -/
def IsStep (n : Text) : Prop := (n ≠ [] ∧ '/' ∉ n) ∧ n ≠ ['.']

theorem IsName.isStep {n : Text} (h : IsName n) : IsStep n := ⟨⟨h.1, h.2.1⟩, (isDots_eq_false_iff.1 h.2.2).1⟩

/-- an absolute path that ends in neither a slash nor a `.`, unless it is the root -/
structure Tidy (p : Path) : Prop where
  absolute : p.isAbsolute = true
  slash : p.names ≠ [] → p.endsInSlash = false
  here : p.names.getLast? ≠ some ['.']

theorem isStep_of_mem {n : Text} (h : n ∈ p.steps) : IsStep n := by
  obtain ⟨hn, hhere⟩ := List.mem_filter.1 h
  exact ⟨mem_names hn, by simpa using hhere⟩

/-- what ends neither in a slash nor in `/.` -/
theorem tidy_of_end (ha : p.isAbsolute = true) (hs : p.endsInSlash = false) (hhere : ¬ ['/', '.'] <:+ p) : Tidy p := by
  obtain ⟨front, last, rfl, hlast⟩ : ∃ front last, p = front ++ '/' :: last ∧ '/' ∉ last := by
    have hslash : '/' ∈ p.reverse := List.mem_reverse.2 (List.mem_of_head? (by simpa [isAbsolute] using ha))
    obtain ⟨r, q, hp, hr⟩ := List.eq_append_cons_of_mem hslash
    exact ⟨q.reverse, r.reverse, by rw [← List.reverse_reverse p, hp]; simp, by simpa using hr⟩
  have hne : last ≠ [] := by
    rintro rfl
    simp [endsInSlash] at hs
  refine ⟨ha, fun _ => hs, fun hdot => hhere ?_⟩
  rw [names_append, names_of_not_mem hne hlast, List.getLast?_concat, Option.some.injEq] at hdot
  exact ⟨front, by rw [hdot]⟩

theorem tidy_spelled (h : ∀ n ∈ xs, IsStep n) : Tidy (spelled xs) ∧ (spelled xs).steps = xs := by
  have hnames := names_spelled fun n hn => (h n hn).1
  refine ⟨⟨rfl, fun hne => ?_, fun hlast => ?_⟩, ?_⟩
  · rw [hnames] at hne
    obtain ⟨ys, name, rfl⟩ := (List.eq_nil_or_concat xs).resolve_left hne
    rw [List.concat_eq_append] at h ⊢
    exact endsInSlash_spelled ys (h name (by simp)).1
  · rw [hnames] at hlast
    exact (h _ (List.mem_of_getLast? hlast)).2 rfl
  · rw [steps, hnames]
    exact List.filter_eq_self.2 fun n hn => by simpa using (h n hn).2

/-- a tidy path whose last step is a name has it for its file name, in a tidy parent with the other steps -/
theorem Tidy.tops (h : Tidy p) (hp : p.steps = xs ++ [name]) (hup : name ≠ ['.', '.']) :
    ∃ dir, p.Tops dir name ∧ p.fileName? = some name ∧ Tidy dir ∧ dir.steps = xs := by
  have hmem : name ∈ p.names := (List.mem_filter.1 (hp ▸ List.mem_concat_self : name ∈ p.steps)).1
  have hhere := (isStep_of_mem (hp ▸ List.mem_concat_self : name ∈ p.steps)).2
  rcases parent?_of_isAbsolute h.absolute with ⟨-, -, hdots⟩ |
    ⟨dir, front, last, j, hdir, habs, hnames, hlast, hparent, hslash, hfile⟩
  · exact absurd (hdots name hmem) hhere
  -- the path ends in its last step, and its parent in the one before
  obtain rfl : j = 0 := by
    by_contra hj
    obtain ⟨k, rfl⟩ := Nat.exists_eq_succ_of_ne_zero hj
    exact h.here (by rw [hnames, List.replicate_succ', ← List.cons_append, ← List.append_assoc, List.getLast?_concat])
  rw [List.replicate_zero] at hnames
  have hsteps : p.steps = front.filter (· ≠ ['.']) ++ [last] := by
    rw [steps, hnames, List.filter_append, List.filter_cons_of_pos (by simpa using hlast), List.filter_nil]
  obtain ⟨rfl, hname⟩ := List.append_inj' (hsteps.symm.trans hp) rfl
  obtain rfl : last = name := by simpa using hname
  rw [if_neg hup] at hfile
  obtain ⟨m, hm⟩ := exists_trimHere front
  have hfront : (trimHere front).filter (· ≠ ['.']) = front.filter (· ≠ ['.']) := by
    conv_rhs => rw [hm]
    simp
  refine ⟨dir, ⟨(names_of_fileName hfile).1, hdir, m, ?_⟩, hfile, ⟨habs, hslash, fun hdot => ?_⟩, ?_⟩
  · rw [hparent, ← hm, hnames]
  · rw [hparent] at hdot
    have hne : trimHere front ≠ [] := fun he => by simp [he] at hdot
    rw [List.getLast?_eq_some_getLast hne, Option.some.injEq] at hdot
    have hnot := List.rdropWhile_last_not (p := (· = ['.'])) (l := front) hne
    exact hnot (by simpa [trimHere] using hdot)
  · rw [steps, hparent, hfront]

end Path

/-! ## Canonical locations -/

theorem Location.size_path_append (k l : Location) : l.path.size ≤ (Location.path (k ++ l)).size := by
  induction k with
  | nil => exact Nat.le_refl _
  | cons name k ih => exact Nat.le_trans ih (FileTree.size_path_le name _)

namespace FileTree

variable {t : FileTree} {links n : Nat} {dir l k : Location} {e : Entry} {name : Text} {xs ys : List Text}
  {slash : Bool}

theorem isEmpty_drop_here (hy : ys ≠ []) : (xs ++ ['.'] :: ys).isEmpty = (xs ++ ys).isEmpty := by
  rw [List.isEmpty_eq_false_iff.2 (by simp), List.isEmpty_eq_false_iff.2 (by simp [hy])]

theorem asksDirectory_drop_here (hy : ys ≠ []) :
    asksDirectory (xs ++ ['.'] :: ys) slash = asksDirectory (xs ++ ys) slash := by
  unfold asksDirectory
  rw [isEmpty_drop_here hy, List.dropWhile_append, List.dropWhile_append]
  cases xs.dropWhile (· = ['.']) <;> simp

theorem canonical_drop_here (hy : ys ≠ []) :
    t.canonical links dir (xs ++ ['.'] :: ys) slash = t.canonical links dir (xs ++ ys) slash := by
  induction links, dir, xs using names_induction generalizing slash with
  | nil links dir => exact canonical_here ys
  | here links dir rest ih => exact (canonical_here _).trans (ih.trans (canonical_here _).symm)
  | up links dir rest ih => exact (canonical_up _).trans (ih.trans (canonical_up _).symm)
  | name links dir name rest hn ih ihl =>
    have hjump : ∀ target b, t.canonicalJump links (dir.afterLink target) (target.names ++ (rest ++ ['.'] :: ys)) b =
        t.canonicalJump links (dir.afterLink target) (target.names ++ (rest ++ ys)) b := by
      intro target b
      cases links with
      | zero => rfl
      | succ m =>
        rw [← List.append_assoc, ← List.append_assoc]
        exact ihl m (Nat.lt_succ_self m) _ _
    have hcheck : ∀ e, checkFront e (name :: dir) (rest ++ ['.'] :: ys) slash =
        checkFront e (name :: dir) (rest ++ ys) slash := by
      intro e
      rw [checkFront, asksDirectory_drop_here hy, ← checkFront]
    obtain ⟨h1, h2⟩ := Path.isDots_eq_false_iff.1 hn
    have hrest := @ih (name :: dir) slash
    rw [canonical_eq_along] at hrest ⊢
    simp only [List.cons_append, canonicalAlong, h1, h2, ite_false, isEmpty_drop_here hy, hjump, hcheck, hrest]

/-- names resolve as they do without the `.`s in front of others -/
theorem canonical_filter (hlast : ys.getLast? ≠ some ['.']) :
    t.canonical links dir (xs ++ ys.filter (· ≠ ['.'])) slash = t.canonical links dir (xs ++ ys) slash := by
  induction ys generalizing xs with
  | nil => rfl
  | cons y ys ih =>
    have hys : ys.getLast? ≠ some ['.'] := by
      intro he
      rw [List.getLast?_cons, he] at hlast
      exact hlast rfl
    by_cases hy : y = ['.']
    · subst hy
      have hne : ys ≠ [] := by
        rintro rfl
        exact hlast rfl
      rw [List.filter_cons_of_neg (by simp), ih hys, canonical_drop_here hne]
    · have hcons : ∀ zs, xs ++ y :: zs = xs ++ [y] ++ zs := by simp
      rw [List.filter_cons_of_pos (by simpa using hy), hcons, ih hys, ← hcons]

theorem fits_of_canonical (h : t.canonical links [] xs slash = .ok l) : ∀ x ∈ l, Text.size x ≤ maxName := by
  obtain ⟨e, he, hw⟩ := walk_of_canonical (at?_root t) h
  by_cases hd : e = .directory
  · subst hd
    obtain ⟨n, hp⟩ := passes_of_walk hw
    exact hp.fits (by simp)
  · exact (size_of_canonical (at?_root t) (by simp) (by rw [he]; simpa using hd) h).2

/-- what stands in a canonical directory, and is no link, is found there -/
theorem canonical_child (hc : t.canonical links [] xs slash = .ok dir) (hd : t.at? dir = some .directory)
    (hn : Path.isDots name = false) (hs : name.size ≤ maxName) (hp : (Location.path (name :: dir)).size < maxPath)
    (he : t.at? (name :: dir) = some e) (hl : ∀ target, e ≠ .link target) :
    t.canonical links [] (xs ++ [name]) false = .ok (name :: dir) := by
  obtain ⟨e', he', hw⟩ := walk_of_canonical (at?_root t) hc
  obtain rfl : e' = .directory := Option.some.inj (he'.symm.trans hd)
  obtain ⟨n, hpass⟩ := passes_of_walk hw
  rw [canonical_append hpass hc ⟨name, [], rfl, hn⟩,
    canonical_of_entry hn hp hs he hl (by simp [checkFront, asksDirectory]), canonical_nil]

theorem canonical_reverse_of_at? (links : Nat) (he : t.at? l = some e) (hl : ∀ target, e ≠ .link target)
    (hs : ∀ x ∈ l, Text.size x ≤ maxName) (hp : l.path.size < maxPath) :
    t.canonical links [] l.reverse false = .ok l := by
  cases l with
  | nil => exact canonical_nil _ _ _ _
  | cons name dir =>
    have hthere : t.at? (name :: dir) ≠ none := by rw [he]; simp
    obtain ⟨hname, hdir⟩ := List.forall_mem_cons.1 hs
    have hparent := canonical_reverse links (at?_parent hthere) hdir (Nat.lt_of_le_of_lt (size_path_le name dir) hp)
    rw [List.reverse_cons]
    exact canonical_child hparent (at?_parent hthere) (isName_of_at? hthere name List.mem_cons_self).2.2 hname hp he hl

theorem canonical_reverse_of_below (links : Nat) (he : t.at? (k ++ l) = some e) (hl : ∀ target, e ≠ .link target)
    (hs : ∀ x ∈ k ++ l, Text.size x ≤ maxName) (hp : (Location.path (k ++ l)).size < maxPath) :
    t.canonical links [] l.reverse false = .ok l := by
  cases k with
  | nil => exact canonical_reverse_of_at? links he hl hs hp
  | cons name k =>
    have hne : l ≠ name :: k ++ l := by
      intro heq
      have hlength := congrArg List.length heq
      rw [List.length_append, List.length_cons] at hlength
      omega
    have hd := directory_of_below (by rw [he]; simp) (List.suffix_append (name :: k) l) hne
    exact canonical_reverse links hd (fun x hx => hs x (List.mem_append_right _ hx))
      (Nat.lt_of_le_of_lt (Location.size_path_append _ _) hp)

/-- behind the names of what is no link, something is only found in a directory, and has an entry there -/
theorem at?_of_canonical_below (he : t.at? l = some e) (hl : ∀ target, e ≠ .link target)
    (hs : ∀ x ∈ l, Text.size x ≤ maxName) (hp : l.path.size < maxPath) (hn : Path.isDots name = false)
    (h : t.canonical links [] (l.reverse ++ name :: xs) false = .ok k) :
    t.at? l = some .directory ∧ name.size ≤ maxName ∧ (Location.path (name :: l)).size < maxPath ∧
      ∃ e, t.at? (name :: l) = some e := by
  by_cases hd : e = .directory
  · subst hd
    rw [canonical_append (passes_reverse links he hs) (canonical_reverse links he hs hp) ⟨name, xs, rfl, hn⟩] at h
    obtain ⟨hpath, -, hsize, ⟨target, hlink, -⟩ | ⟨e, hentry, -⟩⟩ := canonical_name hn h
    · exact ⟨he, hsize, hpath, _, hlink⟩
    · exact ⟨he, hsize, hpath, _, hentry⟩
  · -- what is no directory has nothing behind it
    exfalso
    cases l with
    | nil => exact hd (Option.some.inj (he.symm.trans (at?_root t)))
    | cons x d =>
      have hthere : t.at? (x :: d) ≠ none := by rw [he]; simp
      obtain ⟨hx, hd'⟩ := List.forall_mem_cons.1 hs
      have hdots := (isName_of_at? hthere x List.mem_cons_self).2.2
      have hdir := at?_parent hthere
      rw [List.reverse_cons, List.append_assoc, List.singleton_append, canonical_append (passes_reverse links hdir hd')
        (canonical_reverse links hdir hd' (Nat.lt_of_le_of_lt (size_path_le x d) hp)) ⟨x, _, rfl, hdots⟩] at h
      obtain ⟨-, -, -, ⟨target, hlink, -⟩ | ⟨e', he', -, hcheck, hc⟩⟩ := canonical_name hdots h
      · exact hl target (Option.some.inj (he.symm.trans hlink))
      · obtain rfl : e = e' := Option.some.inj (he.symm.trans he')
        exact absurd (rest_of_checkFront hd he hcheck hc).1 (by simp)

end FileTree

/-! ## Paths -/

namespace FileSystem

open FileTree (maxLinks maxName maxPath)
open BranchRender.Path (steps spelled Tidy)

variable {fs : FileSystem} {p q : Path} {l k : Location} {front rest : List Text} {name : Text}

theorem canonical_of_tidy (h : Tidy p) :
    fs.canonical p = .ok l ↔ '\x00' ∉ p ∧ fs.tree.canonical maxLinks [] p.steps false = .ok l := by
  rw [canonical_eq_ok_of_isAbsolute h.absolute]
  refine and_congr_right fun _ => ?_
  have hfilter : fs.tree.canonical maxLinks [] p.steps false = fs.tree.canonical maxLinks [] p.names false :=
    @FileTree.canonical_filter fs.tree maxLinks [] [] p.names false h.here
  rw [hfilter]
  by_cases hnames : p.names = []
  · rw [hnames, FileTree.canonical_nil, FileTree.canonical_nil]
  · rw [h.slash hnames]

theorem nul_mem_iff_steps : '\x00' ∈ p ↔ ∃ n ∈ p.steps, '\x00' ∈ n := by
  rw [Path.nul_mem_iff]
  constructor
  · rintro ⟨n, hn, hnul⟩
    exact ⟨n, List.mem_filter.2 ⟨hn, by simpa using fun he : n = ['.'] => by simp [he] at hnul⟩, hnul⟩
  · rintro ⟨n, hn, hnul⟩
    exact ⟨n, (List.mem_filter.1 hn).1, hnul⟩

theorem canonical_spelled (h : ∀ n ∈ front, Path.IsStep n) : fs.canonical (spelled front) = .ok l ↔
    (∀ n ∈ front, '\x00' ∉ n) ∧ fs.tree.canonical maxLinks [] front false = .ok l := by
  obtain ⟨htidy, hsteps⟩ := Path.tidy_spelled h
  rw [canonical_of_tidy htidy, nul_mem_iff_steps, hsteps]
  simp

/-- two tidy paths of the same steps resolve alike -/
theorem canonical_congr (hp : Tidy p) (hq : Tidy q) (h : p.steps = q.steps) :
    fs.canonical p = .ok l ↔ fs.canonical q = .ok l := by
  rw [canonical_of_tidy hp, canonical_of_tidy hq, nul_mem_iff_steps, nul_mem_iff_steps, h]

/-- the longest front of the steps of a path that resolves, where it leads, and the steps behind it -/
structure LongestFront (fs : FileSystem) (p : Path) (front rest : List Text) (l : Location) : Prop where
  steps : p.steps = front ++ rest
  resolves : fs.canonical (spelled front) = .ok l
  longest : ∀ more, more ≠ [] → more <+: rest → ∀ k, fs.canonical (spelled (front ++ more)) ≠ .ok k

/-- induction on what is left: it is the rest, unless more of it resolves -/
theorem exists_longestFront_behind (h : p.steps = front ++ rest) (hf : fs.canonical (spelled front) = .ok l) :
    ∃ front rest l, fs.LongestFront p front rest l := by
  induction hn : rest.length using Nat.strongRecOn generalizing front rest l with
  | ind n ih =>
    by_cases hmore : ∃ more k, more ≠ [] ∧ more <+: rest ∧ fs.canonical (spelled (front ++ more)) = .ok k
    · obtain ⟨more, k, hne, ⟨rest', rfl⟩, hk⟩ := hmore
      have hsteps : p.steps = front ++ more ++ rest' := by rw [h, List.append_assoc]
      have hlength : rest'.length < n := by
        have := List.length_pos_iff.2 hne
        rw [← hn, List.length_append]
        omega
      exact ih rest'.length hlength hsteps hk rfl
    · exact ⟨front, rest, l, h, hf, fun more hne hpre k hk => hmore ⟨more, k, hne, hpre, hk⟩⟩

/-- there is a longest front that resolves: the root does -/
theorem exists_longestFront (fs : FileSystem) (p : Path) : ∃ front rest l, fs.LongestFront p front rest l := by
  have hroot : fs.canonical (spelled []) = .ok [] :=
    (canonical_eq_ok_of_isAbsolute rfl).2 ⟨by decide, FileTree.canonical_nil _ _ _ _⟩
  exact exists_longestFront_behind (List.nil_append p.steps).symm hroot

namespace LongestFront

theorem isStep (h : fs.LongestFront p front rest l) {n : Text} (hn : n ∈ front ∨ n ∈ rest) : Path.IsStep n :=
  Path.isStep_of_mem (h.steps ▸ List.mem_append.2 hn)

/-- where the front leads: to what is no link, by a path that is not too long -/
theorem leads (h : fs.LongestFront p front rest l) : ∃ e, fs.tree.at? l = some e ∧ (∀ target, e ≠ .link target) ∧
    (∀ x ∈ l, Text.size x ≤ maxName) ∧ l.path.size < maxPath ∧ fs.tree.canonical maxLinks [] front false = .ok l := by
  have hc := ((canonical_spelled fun n hn => h.isStep (.inl hn)).1 h.resolves).2
  obtain ⟨e, he, hl⟩ := FileTree.at?_canonical (FileTree.at?_root _) hc
  exact ⟨e, he, hl, FileTree.fits_of_canonical hc, FileTree.size_path_of_canonical (by decide) hc, hc⟩

/-- a path resolves just when nothing is left behind the front -/
theorem canonical_iff (h : fs.LongestFront p front rest l) (hp : Tidy p) :
    fs.canonical p = .ok k ↔ rest = [] ∧ k = l := by
  have hsame : fs.canonical p = .ok k ↔ fs.canonical (spelled (front ++ rest)) = .ok k := by
    obtain ⟨htidy, hsteps⟩ := Path.tidy_spelled fun n hn => h.isStep (List.mem_append.1 hn)
    exact canonical_congr hp htidy (h.steps.trans hsteps.symm)
  rw [hsame]
  constructor
  · intro hk
    have hrest : rest = [] := by
      by_contra hne
      exact h.longest rest hne (List.prefix_refl _) k hk
    subst hrest
    rw [List.append_nil, h.resolves] at hk
    exact ⟨rfl, (Except.ok.inj hk).symm⟩
  · rintro ⟨rfl, rfl⟩
    rw [List.append_nil, h.resolves]

/-- the parent of a path that does not resolve has the same front -/
theorem dropLast {dir : Path} (h : fs.LongestFront p front (rest ++ [name]) l) (hdir : dir.steps = front ++ rest) :
    fs.LongestFront dir front rest l :=
  ⟨hdir, h.resolves, fun more hne hpre => h.longest more hne (hpre.trans (List.prefix_append _ _))⟩

end LongestFront

end FileSystem

end BranchRender
