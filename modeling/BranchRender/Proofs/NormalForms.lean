/-
NORMAL FORMS: the canonical location of the longest front that resolves, and the steps behind it.

- As long as no `..` is left behind the longest front, the normal form spells where that leads and the steps that are
  left (`normalizeUpTo_of_front`).
- The normal form is a canonical path with names behind it. Where the first of them is no link, nothing of them resolves
  (`LongestFront.eq_nil_of_resolves`), and a front of the canonical path leads to itself. So the normal form is its own
  (`normalize_of_normal`).

Main statements: `normalizeUpTo_of_front`, `normalize_of_normal`.
-/
import BranchRender.Proofs.Steps

namespace BranchRender

open BranchRender.Path (IsName)

/-! ## Canonical paths -/

theorem Location.join_path {name : Text} {l : Location} (hl : ∀ n ∈ l, IsName n) (hn : IsName name) :
    l.path.join name = Location.path (name :: l) := by
  have habs : Path.isAbsolute name = false := by
    simpa [Path.isAbsolute] using fun h => hn.2.1 (List.mem_of_head? h)
  cases l with
  | nil => simp [Path.join, habs, Path.endsInSlash, path, Text.joinWith]
  | cons x l =>
    rw [Path.join, habs, if_neg (by simp), Path.endsInSlash_path (hl x List.mem_cons_self),
      if_neg (by simp [path]), path, path, @List.reverse_cons _ name]
    obtain ⟨y, ys, hy⟩ := List.exists_cons_of_ne_nil (List.reverse_ne_nil_iff.2 (List.cons_ne_nil x l))
    rw [hy, Text.joinWith_cons, @List.cons_append _ y ys, Text.joinWith_cons]
    simp

theorem Location.foldl_join {names : List Text} {l : Location} (h : ∀ n ∈ names.reverse ++ l, IsName n) :
    names.foldl Path.join l.path = Location.path (names.reverse ++ l) := by
  induction names generalizing l with
  | nil => rfl
  | cons name names ih =>
    rw [List.reverse_cons, List.append_assoc, List.singleton_append] at h ⊢
    have hbelow : ∀ n ∈ name :: l, IsName n := fun n hn => h n (List.mem_append_right _ hn)
    obtain ⟨hname, hl⟩ := List.forall_mem_cons.1 hbelow
    rw [List.foldl_cons, join_path hl hname, ih h]

/-- the canonical path of a location is tidy, and has its names for steps -/
theorem Path.tidy_path {l : Location} (h : ∀ n ∈ l, IsName n) : Tidy l.path ∧ l.path.steps = l.reverse :=
  tidy_spelled fun n hn => (h n (List.mem_reverse.1 hn)).isStep

namespace FileSystem

open FileTree (maxLinks maxName maxPath)
open BranchRender.Path (spelled Tidy)

variable {fs : FileSystem} {p : Path} {l k : Location} {front rest : List Text} {name : Text}

/-! ## The longest front -/

namespace LongestFront

/-- where the longest front leads, and what is left behind it, is spelled by names, unless there is a `..` -/
theorem isName (h : fs.LongestFront p front rest l) (hup : ['.', '.'] ∉ rest) : ∀ n ∈ rest.reverse ++ l, IsName n := by
  obtain ⟨e, he, -⟩ := h.leads
  have hl := FileTree.isName_of_at? (t := fs.tree) (l := l) (by rw [he]; simp)
  intro n hn
  rcases List.mem_append.1 hn with hn | hn
  · obtain ⟨⟨hne, hslash⟩, hhere⟩ := h.isStep (.inr (List.mem_reverse.1 hn))
    exact ⟨hne, hslash, Path.isDots_eq_false_iff.2 ⟨hhere, fun hn' => hup (hn' ▸ List.mem_reverse.1 hn)⟩⟩
  · exact hl n hn

/-- where the longest front leads, nothing has the next name but a link, or the front would be longer -/
theorem vacant (h : fs.LongestFront p front (name :: rest) l) (hd : fs.tree.at? l = some .directory)
    (hname : IsName name) (hnul : '\x00' ∉ name) (hfit : name.size ≤ maxName)
    (hsize : (Location.path (name :: l)).size < maxPath)
    (hlink : ∀ target, fs.tree.at? (name :: l) ≠ some (.link target)) : fs.tree.at? (name :: l) = none := by
  by_contra hthere
  obtain ⟨e, he⟩ := Option.ne_none_iff_exists'.1 hthere
  obtain ⟨-, -, -, -, -, hc⟩ := h.leads
  have hchild := FileTree.canonical_child hc hd hname.2.2 hfit hsize he fun target ht => hlink target (ht ▸ he)
  have hfront := (canonical_spelled fun n hn => h.isStep (.inl hn)).1 h.resolves
  refine h.longest [name] (by simp) ⟨rest, rfl⟩ (name :: l) ((canonical_spelled ?_).2 ⟨?_, hchild⟩)
  · rw [List.forall_mem_append, List.forall_mem_singleton]
    exact ⟨fun n hn => h.isStep (.inl hn), h.isStep (.inr List.mem_cons_self)⟩
  · rw [List.forall_mem_append, List.forall_mem_singleton]
    exact ⟨hfront.1, hnul⟩

/-- what resolves behind the canonical path of the longest front would make that longer -/
theorem eq_nil_of_resolves {more : List Text} (h : fs.LongestFront p front (more ++ rest) l)
    (hup : ['.', '.'] ∉ more ++ rest)
    (hlink : ∀ name ∈ (more ++ rest).head?, ∀ target, fs.tree.at? (name :: l) ≠ some (.link target))
    (hk : fs.canonical (spelled (l.reverse ++ more)) = .ok k) : more = [] := by
  cases more with
  | nil => rfl
  | cons name more =>
    exfalso
    obtain ⟨e, he, hl, hfit, hsize, -⟩ := h.leads
    have hnames := h.isName hup
    have hname := hnames name (by simp)
    have hsteps : ∀ n ∈ l.reverse ++ name :: more, Path.IsStep n := by
      intro n hn
      rcases List.mem_append.1 hn with hn | hn
      · exact (hnames n (List.mem_append_right _ (List.mem_reverse.1 hn))).isStep
      · exact h.isStep (.inr (List.mem_append_left _ hn))
    obtain ⟨hnul, hc⟩ := (canonical_spelled hsteps).1 hk
    obtain ⟨hd, hfit', hpath, e', he'⟩ := FileTree.at?_of_canonical_below he hl hfit hsize hname.2.2 hc
    rw [h.vacant hd hname (hnul name (by simp)) hfit' hpath (hlink name rfl)] at he'
    exact absurd he' (by simp)

end LongestFront

/-! ## Normal forms -/

/-- the normal form of a path: where its longest front leads, and the names behind it -/
theorem normalizeUpTo_of_front {n : Nat} (hp : Tidy p) (h : fs.LongestFront p front rest l) (hup : ['.', '.'] ∉ rest)
    (hn : p.length ≤ n) : fs.normalizeUpTo n p = Location.path (rest.reverse ++ l) := by
  induction rest using List.reverseRecOn generalizing p n with
  | nil => exact normalizeUpTo_of_canonicalPath n (map_eq_ok.2 ⟨l, (h.canonical_iff hp).2 ⟨rfl, rfl⟩, rfl⟩)
  | append_singleton rest name ih =>
    have hnames := h.isName hup
    rw [List.reverse_append, List.reverse_singleton, List.singleton_append] at hnames ⊢
    obtain ⟨hname, hrest⟩ := List.forall_mem_cons.1 hnames
    obtain ⟨dir, ht, hfile, hdir, hsteps⟩ := hp.tops (by rw [h.steps, List.append_assoc])
      (Path.isDots_eq_false_iff.1 hname.2.2).2
    have hshorter := Path.length_parent_lt hp.absolute ht.parent
    -- the path does not resolve, and its parent has the same front
    have hnot : (fs.canonicalPath p).toOption = none := by
      cases hc : fs.canonicalPath p with
      | error e => rfl
      | ok q =>
        obtain ⟨k, hk, -⟩ := map_eq_ok.1 hc
        exact absurd ((h.canonical_iff hp).1 hk).1 (by simp)
    obtain ⟨m, rfl⟩ : ∃ m, n = m + 1 := ⟨n - 1, by omega⟩
    have hnormal := ih hdir (h.dropLast hsteps) (fun hm => hup (List.mem_append_left _ hm)) (n := m) (by omega)
    rw [normalizeUpTo_succ, hnot, ht.parent, hfile]
    simp only [Option.getD_none, ne_nil_of_isAbsolute hdir.absolute, ite_false, hnormal]
    exact Location.join_path hrest hname

/-- **Normal forms stay.** The normal form of a path is its own. -/
theorem normalize_of_normal (h : fs.LongestFront p front rest l) (hup : ['.', '.'] ∉ rest)
    (hlink : ∀ name ∈ rest.head?, ∀ target, fs.tree.at? (name :: l) ≠ some (.link target)) :
    fs.normalize (Location.path (rest.reverse ++ l)) = Location.path (rest.reverse ++ l) := by
  have hnames := h.isName hup
  obtain ⟨htidy, hsteps⟩ := Path.tidy_path hnames
  obtain ⟨front', rest', k, h'⟩ := exists_longestFront fs (Location.path (rest.reverse ++ l))
  have hwhole : l.reverse ++ rest = front' ++ rest' := by
    rw [← h'.steps, hsteps, List.reverse_append, List.reverse_reverse]
  -- its longest front is no longer than the canonical path in it
  obtain ⟨below, hbelow⟩ : front' <+: l.reverse := by
    rcases List.append_eq_append_iff.1 hwhole with ⟨more, rfl, rfl⟩ | ⟨below, hbelow, -⟩
    · have hmore : more = [] := h.eq_nil_of_resolves hup hlink h'.resolves
      exact ⟨[], by rw [hmore, List.append_nil, List.append_nil]⟩
    · exact ⟨below, hbelow.symm⟩
  -- and so it leads to itself
  have hk : k = front'.reverse := by
    obtain ⟨e, he, hl, hfit, hsize, -⟩ := h.leads
    obtain ⟨-, -, -, -, -, hc'⟩ := h'.leads
    obtain rfl : l = below.reverse ++ front'.reverse := by rw [← List.reverse_append, hbelow, List.reverse_reverse]
    have hc := FileTree.canonical_reverse_of_below maxLinks he hl hfit hsize
    rw [List.reverse_reverse] at hc
    exact Except.ok.inj (hc'.symm.trans hc)
  have hup' : ['.', '.'] ∉ rest' := by
    intro hm
    have hstep : ['.', '.'] ∈ l.reverse ++ rest := hwhole ▸ List.mem_append_right _ hm
    exact absurd (hnames ['.', '.'] (by simpa [or_comm] using hstep)).2.2 (by decide)
  calc fs.normalize (Location.path (rest.reverse ++ l))
      = Location.path (rest'.reverse ++ k) := normalizeUpTo_of_front htidy h' hup' (Nat.le_refl _)
    _ = Location.path (rest.reverse ++ l) := by
      rw [hk, ← List.reverse_append, ← hwhole, List.reverse_append, List.reverse_reverse]

end FileSystem
end BranchRender
