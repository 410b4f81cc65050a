/-
COUNTERPARTS: a path seen from two paths of one directory, each in a file system of its own.

- Two absolute paths are of `OneDirectory` if both lead there and have its canonical path. What is spelled behind them
  without `.` and `..` has one canonical path, if any (`canonical_behind`), and one normal form (`normalizeUpTo_behind`).
- `Counterparts` are twins that also agree in these, as a path and itself do, wherever the run takes place
  (`counterparts_of_isAbsolute`), and a path behind two of one directory (`OneDirectory.counterparts`).

Main statements: `canonical_behind`, `normalizeUpTo_behind`, `OneDirectory.counterparts`.
-/
import BranchRender.FileSystem.Normal
import BranchRender.Proofs.Twins

namespace BranchRender.FileSystem

open FileTree (Front maxLinks)

variable {fs s : FileSystem} {p q d e r : Path} {k l : Location} {zs : List Text} {n m : Nat}

/-! ## Canonical paths -/

theorem canonical_eq_ok_of_isAbsolute (ha : p.isAbsolute = true) : fs.canonical p = .ok l ↔
    '\x00' ∉ p ∧ fs.tree.canonical maxLinks [] p.names p.endsInSlash = .ok l := by
  by_cases hnul : '\x00' ∈ p
  · simp [canonical, start, hnul]
  · simp only [canonical, start_absolute fs hnul ha, FileTree.at?_root, ne_eq, not_true_eq_false, ite_false, hnul,
      not_false_eq_true, true_and]
    exact mapError_eq_ok

/-- two absolute paths that lead to one directory, and have its canonical path -/
structure OneDirectory (fs s : FileSystem) (d e : Path) (k : Location) : Prop where
  tree : fs.tree = s.tree
  absolute : d.isAbsolute = true ∧ e.isAbsolute = true
  fronts : Front fs.tree d.names k ∧ Front fs.tree e.names k
  canonical : fs.canonical d = .ok k ∧ s.canonical e = .ok k

/-- two paths with the same names behind two of one directory, none of them `.` or `..` -/
structure Behinds (fs s : FileSystem) (d e : Path) (p q : Path) (zs : List Text) : Prop where
  absolute : p.isAbsolute = true ∧ q.isAbsolute = true
  slash : p.endsInSlash = q.endsInSlash
  names : p.names = d.names ++ zs ∧ q.names = e.names ++ zs
  ne_nil : zs ≠ []
  plain : ∀ z ∈ zs, Path.isDots z = false
  within : fs.Within p ∧ s.Within q

theorem Behinds.behind (h : Behinds fs s d e p q zs) (hone : OneDirectory fs s d e k) : Behind fs.tree p q zs :=
  ⟨h.absolute, h.slash, _, _, k, hone.fronts.1, hone.fronts.2, h.names.1, h.names.2⟩

theorem canonical_behind (hone : OneDirectory fs s d e k) (h : Behinds fs s d e p q zs) :
    fs.canonical p = .ok l ↔ s.canonical q = .ok l := by
  rw [canonical_eq_ok_of_isAbsolute h.absolute.1, canonical_eq_ok_of_isAbsolute h.absolute.2,
    (h.behind hone).nul_mem_iff]
  obtain ⟨n, hn⟩ := hone.fronts.1.passes
  obtain ⟨m, hm⟩ := hone.fronts.2.passes
  obtain ⟨-, hcd⟩ := (canonical_eq_ok_of_isAbsolute hone.absolute.1).1 hone.canonical.1
  obtain ⟨-, hce⟩ := (canonical_eq_ok_of_isAbsolute hone.absolute.2).1 hone.canonical.2
  have hy : ∃ y ys, zs = y :: ys ∧ Path.isDots y = false := by
    obtain ⟨y, ys, rfl⟩ := List.exists_cons_of_ne_nil h.ne_nil
    exact ⟨y, ys, rfl, h.plain y List.mem_cons_self⟩
  have hw := h.within.1.walk h.absolute.1
  have hw' := h.within.2.walk h.absolute.2
  rw [h.names.1, FileTree.walk_of_passes hn _ h.ne_nil] at hw
  rw [← hone.tree] at hce hw' ⊢
  rw [h.names.2, FileTree.walk_of_passes hm _ h.ne_nil, ← h.slash] at hw'
  rw [h.names.1, h.names.2, FileTree.canonical_append hn hcd hy, FileTree.canonical_append hm hce hy, ← h.slash,
    FileTree.canonical_links hw hw']

theorem canonicalPath_behind (hone : OneDirectory fs s d e k) (h : Behinds fs s d e p q zs) :
    (fs.canonicalPath p).toOption = (s.canonicalPath q).toOption := by
  refine Option.ext fun r => ?_
  simp only [toOption_eq_some, canonicalPath, map_eq_ok, canonical_behind hone h]

/-! ## Normal forms -/

theorem normalizeUpTo_succ (fs : FileSystem) (n : Nat) (p : Path) : fs.normalizeUpTo (n + 1) p =
    (fs.canonicalPath p).toOption.getD (match p.parent?, p.fileName? with
      | some dir, some name => if dir = [] then p else (fs.normalizeUpTo n dir).join name
      | _, _ => p) := by
  rw [normalizeUpTo]
  cases fs.canonicalPath p <;> rfl

theorem normalizeUpTo_of_canonicalPath (n : Nat) (h : fs.canonicalPath p = .ok q) : fs.normalizeUpTo n p = q := by
  cases n <;> simp [normalizeUpTo, h, Except.toOption]

/-- the names of a directory without the `.`s behind them lead to its canonical path -/
theorem canonicalPath_of_trimHere (hd : fs.canonical d = .ok k) (ha : d.isAbsolute = true) (hp : p.isAbsolute = true)
    (hn : p.names = Path.trimHere d.names) (hs : p.names ≠ [] → p.endsInSlash = false) :
    fs.canonicalPath p = .ok k.path := by
  obtain ⟨hnul, hc⟩ := (canonical_eq_ok_of_isAbsolute ha).1 hd
  obtain ⟨m, hm⟩ := Path.exists_trimHere d.names
  rw [← hn] at hm
  refine map_eq_ok.2 ⟨k, (canonical_eq_ok_of_isAbsolute hp).2 ⟨?_, ?_⟩, rfl⟩
  · rw [Path.nul_mem_iff] at hnul ⊢
    rintro ⟨n, hn, hz⟩
    exact hnul ⟨n, by rw [hm]; exact List.mem_append_left _ hn, hz⟩
  · rw [hm] at hc
    by_cases hnil : p.names = []
    · rw [hnil, FileTree.canonical_nil]
      rwa [hnil, List.nil_append, FileTree.canonical_dots] at hc
    · exact FileTree.canonical_of_dots hc fun hslash => absurd hslash (by rw [hs hnil]; simp)

/-- the parents are behind the two paths again, or have the canonical path of their directory -/
theorem Behinds.parent {ws : List Text} {name : Text} (hone : OneDirectory fs s d e k)
    (h : Behinds fs s d e p q (ws ++ [name])) : ∃ dp dq, (p.parent? = some dp ∧ p.fileName? = some name) ∧
      (q.parent? = some dq ∧ q.fileName? = some name) ∧ dp.isAbsolute = true ∧ dq.isAbsolute = true ∧
      (Behinds fs s d e dp dq ws ∨ fs.canonicalPath dp = .ok k.path ∧ s.canonicalPath dq = .ok k.path) := by
  have hname := Path.isDots_eq_false_iff.1 (h.plain name (by simp))
  have hnames : ∀ xs : List Text, xs ++ (ws ++ [name]) = xs ++ (ws ++ [name] ++ List.replicate 0 ['.']) := by simp
  obtain ⟨dp, hdp, hpa, hpn, hps, hpf⟩ := parent?_behind h.absolute.1 (h.names.1.trans (hnames _)) hname.1
  obtain ⟨dq, hdq, hqa, hqn, hqs, hqf⟩ := parent?_behind h.absolute.2 (h.names.2.trans (hnames _)) hname.1
  rw [if_neg hname.2] at hpf hqf
  refine ⟨dp, dq, ⟨hdp, hpf⟩, ⟨hdq, hqf⟩, hpa, hqa, ?_⟩
  by_cases hw : ws = []
  · subst hw
    rw [List.append_nil] at hpn hqn
    exact .inr ⟨canonicalPath_of_trimHere hone.canonical.1 hone.absolute.1 hpa hpn hps,
      canonicalPath_of_trimHere hone.canonical.2 hone.absolute.2 hqa hqn hqs⟩
  · have hplain : ∀ w ∈ ws, Path.isDots w = false := fun w hw' => h.plain w (List.mem_append_left _ hw')
    obtain ⟨vs, last, rfl⟩ := (List.eq_nil_or_concat ws).resolve_left hw
    rw [List.concat_eq_append] at hpn hqn hplain ⊢
    have hlast := (Path.isDots_eq_false_iff.1 (hplain last (by simp))).1
    rw [← List.append_assoc, Path.trimHere_concat hlast, List.append_assoc] at hpn hqn
    refine .inl ⟨⟨hpa, hqa⟩, ?_, ⟨hpn, hqn⟩, by simp, hplain, h.within.1.parent h.absolute.1 hdp,
      h.within.2.parent h.absolute.2 hdq⟩
    rw [hps (by rw [hpn]; simp), hqs (by rw [hqn]; simp)]

/-- one normal form, with enough parents to look at -/
theorem normalizeUpTo_behind (hone : OneDirectory fs s d e k) (h : Behinds fs s d e p q zs) (hn : p.length ≤ n)
    (hm : q.length ≤ m) : fs.normalizeUpTo n p = s.normalizeUpTo m q := by
  induction n generalizing m p q zs with
  | zero => exact absurd (List.eq_nil_of_length_eq_zero (Nat.le_zero.1 hn)) (ne_nil_of_isAbsolute h.absolute.1)
  | succ n ih =>
    cases m with
    | zero => exact absurd (List.eq_nil_of_length_eq_zero (Nat.le_zero.1 hm)) (ne_nil_of_isAbsolute h.absolute.2)
    | succ m =>
      obtain ⟨ws, name, rfl⟩ := (List.eq_nil_or_concat zs).resolve_left h.ne_nil
      rw [List.concat_eq_append] at h
      obtain ⟨dp, dq, ⟨hdp, hpf⟩, ⟨hdq, hqf⟩, hpa, hqa, hparents⟩ := h.parent hone
      have hnormal : fs.normalizeUpTo n dp = s.normalizeUpTo m dq := by
        rcases hparents with hparents | ⟨hcp, hcq⟩
        · have := Path.length_parent_lt h.absolute.1 hdp
          have := Path.length_parent_lt h.absolute.2 hdq
          exact ih hparents (by omega) (by omega)
        · rw [normalizeUpTo_of_canonicalPath n hcp, normalizeUpTo_of_canonicalPath m hcq]
      rw [normalizeUpTo_succ, normalizeUpTo_succ, canonicalPath_behind hone h, hdp, hdq, hpf, hqf]
      simp only [ne_nil_of_isAbsolute hpa, ne_nil_of_isAbsolute hqa, ite_false, hnormal]

/-! ## Counterparts -/

/-- twins with one canonical path, if any, and one normal form -/
structure Counterparts (fs s : FileSystem) (p q : Path) : Prop where
  tree : fs.tree = s.tree
  twin : Twin fs.tree p q
  fair : Fair fs s p q
  canonical : (fs.canonicalPath p).toOption = (s.canonicalPath q).toOption
  normal : fs.normalize p = s.normalize q

theorem canonicalPath_of_isAbsolute (ht : fs.tree = s.tree) (ha : p.isAbsolute = true) :
    fs.canonicalPath p = s.canonicalPath p := by
  simp only [canonicalPath, canonical, start, ha, ite_true, ht]

theorem normalizeUpTo_of_isAbsolute (ht : fs.tree = s.tree) (ha : p.isAbsolute = true) (n : Nat) :
    fs.normalizeUpTo n p = s.normalizeUpTo n p := by
  induction n generalizing p with
  | zero => simp only [normalizeUpTo, canonicalPath_of_isAbsolute ht ha]
  | succ n ih =>
    rw [normalizeUpTo_succ, normalizeUpTo_succ, canonicalPath_of_isAbsolute ht ha]
    cases hd : p.parent? with
    | none => rfl
    | some dir =>
      cases p.fileName? with
      | none => rfl
      | some name => simp only [ih (isAbsolute_of_parent ha hd)]

/-- an absolute path is its own counterpart, wherever the run takes place -/
theorem counterparts_of_isAbsolute (ht : fs.tree = s.tree) (ha : p.isAbsolute = true) : Counterparts fs s p p :=
  ⟨ht, .same ha, .inl rfl, by rw [canonicalPath_of_isAbsolute ht ha], normalizeUpTo_of_isAbsolute ht ha _⟩

theorem OneDirectory.counterparts (hone : OneDirectory fs s d e k) (hne : r ≠ [])
    (hplain : ∀ n ∈ r.names, Path.isDots n = false) (hw : fs.Within (d.join r)) (hw' : s.Within (e.join r)) :
    Counterparts fs s (d.join r) (e.join r) := by
  cases ha : r.isAbsolute with
  | true =>
    rw [Path.join_absolute ha, Path.join_absolute ha]
    exact counterparts_of_isAbsolute hone.tree ha
  | false =>
    have h := behind_join hone.absolute hone.fronts.1 hone.fronts.2 ha
    have hnames := Path.names_ne_nil_of_relative hne ha
    obtain ⟨n, hn⟩ := List.exists_mem_of_ne_nil _ hnames
    have hbehinds : Behinds fs s d e (d.join r) (e.join r) r.names :=
      ⟨h.absolute, h.slash, ⟨Path.names_join ha, Path.names_join ha⟩, hnames, hplain, hw, hw'⟩
    exact ⟨hone.tree, .behind h ⟨n, hn, (Path.isDots_eq_false_iff.1 (hplain n hn)).1⟩, .inr ⟨hw, hw'⟩,
      canonicalPath_behind hone hbehinds, normalizeUpTo_behind hone hbehinds (Nat.le_refl _) (Nat.le_refl _)⟩

end BranchRender.FileSystem
