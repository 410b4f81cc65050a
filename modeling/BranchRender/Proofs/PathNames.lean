/-
NAMES OF PATHS: what taking a path apart and putting it together does to the names a walk goes through.

- Joining puts names one after the other (`names_join`), and the canonical path of a location spells it
  (`names_path`).
- A path with a file name is its parent's names, idle `.`s, and that name, with idle `.`s at the end
  (`names_of_fileName`); a parent has none of those at its end (`names_parent`).
- A parent is a prefix (`front_of_parent`), so it starts where the path starts and is no longer.

Main statements: `names_join`, `names_path`, `names_of_fileName`, `names_parent`.
-/
import Mathlib.Tactic.ByContra
import BranchRender.FileTree.Canonical

namespace BranchRender

namespace Text

theorem splitOn_append (sep : Char) (p q : Text) : splitOn sep (p ++ sep :: q) = splitOn sep p ++ splitOn sep q := by
  induction p with
  | nil => simp [splitOn]
  | cons c p ih =>
    rw [List.cons_append, splitOn, splitOn]
    by_cases hc : c = sep
    · simp [hc, ih]
    · rw [if_neg hc, if_neg hc, ih]
      cases hs : splitOn sep p with
      | nil => exact absurd hs (splitOn_ne_nil sep p)
      | cons a as => rfl

theorem joinWith_concat (sep : Text) (ps : List Text) (p : Text) :
    ∃ front, joinWith sep (ps ++ [p]) = front ++ p := by
  induction ps with
  | nil => exact ⟨[], rfl⟩
  | cons q ps ih =>
    obtain ⟨front, hfront⟩ := ih
    refine ⟨q ++ sep ++ front, ?_⟩
    rw [List.append_assoc, ← hfront]
    cases ps <;> rfl

theorem subset_joinWith (sep : Text) {ps : List Text} {p : Text} (h : p ∈ ps) : p ⊆ joinWith sep ps := by
  induction ps with
  | nil => exact absurd h (by simp)
  | cons q ps ih =>
    rcases List.mem_cons.1 h with rfl | h
    · cases ps with
      | nil => exact List.Subset.refl _
      | cons q ps =>
        rw [joinWith, List.append_assoc]
        exact List.subset_append_left _ _
    · cases ps with
      | nil => exact absurd h (by simp)
      | cons q' ps => exact fun c hc => List.mem_append_right _ (ih h hc)

theorem mem_joinWith {sep : Text} {ps : List Text} {c : Char} (h : c ∈ joinWith sep ps) :
    c ∈ sep ∨ ∃ p ∈ ps, c ∈ p := by
  induction ps with
  | nil => exact absurd h (by simp [joinWith])
  | cons q ps ih =>
    cases ps with
    | nil => exact .inr ⟨q, List.mem_cons_self, h⟩
    | cons q' ps =>
      rw [joinWith, List.mem_append, List.mem_append] at h
      obtain (h | h) | h := h
      · exact .inr ⟨q, List.mem_cons_self, h⟩
      · exact .inl h
      · rcases ih h with h | ⟨p, hp, hc⟩
        · exact .inl h
        · exact .inr ⟨p, List.mem_cons_of_mem _ hp, hc⟩

theorem splitOn_of_not_mem {sep : Char} {p : Text} (h : sep ∉ p) : splitOn sep p = [p] := by
  induction p with
  | nil => rfl
  | cons c p ih =>
    rw [List.mem_cons, not_or] at h
    rw [splitOn, if_neg (Ne.symm h.1), ih h.2]

theorem not_mem_of_mem_splitOn {sep : Char} {p s : Text} (h : s ∈ splitOn sep p) : sep ∉ s := by
  induction p generalizing s with
  | nil => simp only [splitOn, List.mem_singleton] at h; simp [h]
  | cons c p ih =>
    rw [splitOn] at h
    split at h
    · rcases List.mem_cons.1 h with h | h
      · simp [h]
      · exact ih h
    · next hc =>
      cases hs : splitOn sep p with
      | nil => exact absurd hs (splitOn_ne_nil sep p)
      | cons a as =>
        rw [hs] at h ih
        rcases List.mem_cons.1 h with h | h
        · subst h
          have ha : sep ∉ a := ih List.mem_cons_self
          simp [ha, Ne.symm hc]
        · exact ih (List.mem_cons_of_mem _ h)

end Text

namespace Path

/-! ## Joining -/

@[simp] theorem names_nil : names [] = [] := rfl

@[simp] theorem names_slash : names ['/'] = [] := rfl

theorem names_append (p q : Path) : names (p ++ '/' :: q) = names p ++ names q := by
  rw [names, Text.splitOn_append, List.filter_append]; rfl

theorem names_concat_slash (p : Path) : names (p ++ ['/']) = names p := by
  rw [names_append, names_nil, List.append_nil]

theorem names_of_not_mem {p : Path} (hp : p ≠ []) (h : '/' ∉ p) : names p = [p] := by
  simp [names, Text.splitOn_of_not_mem h, hp]

theorem mem_names {p : Path} {n : Text} (h : n ∈ names p) : n ≠ [] ∧ '/' ∉ n := by
  rw [names, List.mem_filter] at h
  exact ⟨by simpa using h.2, Text.not_mem_of_mem_splitOn h.1⟩

theorem subset_of_mem_names {p : Path} {n : Text} (h : n ∈ names p) : n ⊆ p := by
  have hsub := Text.subset_joinWith ['/'] (List.mem_filter.1 h).1
  rwa [Text.joinWith_splitOn] at hsub

theorem isDots_eq_true_iff {name : Text} : isDots name = true ↔ name = ['.'] ∨ name = ['.', '.'] := by
  simp [isDots]

theorem isDots_eq_false_iff {name : Text} : isDots name = false ↔ name ≠ ['.'] ∧ name ≠ ['.', '.'] := by
  simp [isDots]

theorem isName_of_mem_names {p : Path} {n : Text} (h : n ∈ names p) (hd : isDots n = false) : IsName n :=
  ⟨(mem_names h).1, (mem_names h).2, hd⟩

theorem names_join {p q : Path} (hq : isAbsolute q = false) : names (join p q) = names p ++ names q := by
  rw [join, hq, if_neg (by simp)]
  split
  · next hp =>
    rcases hp with rfl | hp
    · simp
    · obtain ⟨p', rfl⟩ : ∃ p', p = p' ++ ['/'] := by
        have hne : p ≠ [] := by
          intro e
          simp [e, endsInSlash] at hp
        refine ⟨p.dropLast, ?_⟩
        have hl : p.getLast hne = '/' := by
          simpa [endsInSlash, List.getLast?_eq_some_getLast hne] using hp
        rw [← hl, List.dropLast_concat_getLast]
      rw [List.append_assoc, List.cons_append, List.nil_append, names_append, names_concat_slash]
  · exact names_append p q

theorem endsInSlash_join {p q : Path} (hq : q ≠ []) : endsInSlash (join p q) = endsInSlash q := by
  obtain ⟨c, hc⟩ : ∃ c, q.getLast? = some c := ⟨_, List.getLast?_eq_some_getLast hq⟩
  unfold join
  split
  · rfl
  · split <;> simp [endsInSlash, List.getLast?_append, List.getLast?_cons, hc]

theorem names_ne_nil {p : Path} (h : p ≠ []) (hs : endsInSlash p = false) : names p ≠ [] := by
  by_cases hm : '/' ∈ p
  · obtain ⟨r, q, hp, hr⟩ := List.eq_append_cons_of_mem (List.mem_reverse.2 hm)
    have hp : p = q.reverse ++ '/' :: r.reverse := by
      rw [← List.reverse_reverse p, hp]
      simp
    have hne : r.reverse ≠ [] := by
      intro he
      rw [hp, he] at hs
      simp [endsInSlash] at hs
    rw [hp, names_append, names_of_not_mem hne (by simpa using hr)]
    simp
  · rw [names_of_not_mem h hm]
    simp

/-- a path without a slash at its end keeps what it was joined with -/
theorem of_endsInSlash_join {p q : Path} (hne : join p q ≠ []) (hs : endsInSlash (join p q) = false) :
    q ≠ [] ∧ endsInSlash q = false := by
  have hq : q ≠ [] := by
    rintro rfl
    rw [join, if_neg (by simp [isAbsolute])] at hs hne
    split at hs
    · next hp =>
      rw [if_pos hp] at hne
      rw [List.append_nil] at hs hne
      exact absurd (hp.resolve_left hne) (by simp [hs])
    · simp [endsInSlash] at hs
  exact ⟨hq, endsInSlash_join hq ▸ hs⟩

theorem prefix_join {p q : Path} (hq : isAbsolute q = false) : p <+: join p q := by
  rw [join, hq, if_neg (by simp)]
  split
  · exact List.prefix_append _ _
  · exact List.prefix_append _ _

theorem names_joinWith {ns : List Text} (h : ∀ n ∈ ns, n ≠ [] ∧ '/' ∉ n) : names (Text.joinWith ['/'] ns) = ns := by
  induction ns with
  | nil => rfl
  | cons a ns ih =>
    obtain ⟨ha, hns⟩ := List.forall_mem_cons.1 h
    cases ns with
    | nil => exact names_of_not_mem ha.1 ha.2
    | cons b ns =>
      rw [Text.joinWith, List.append_assoc, List.cons_append, List.nil_append, names_append,
        names_of_not_mem ha.1 ha.2, ih hns]
      rfl

/-- an absolute path spelled by its names -/
def spelled (ns : List Text) : Path := '/' :: Text.joinWith ['/'] ns

theorem names_spelled {ns : List Text} (h : ∀ n ∈ ns, n ≠ [] ∧ '/' ∉ n) : names (spelled ns) = ns := by
  rw [spelled, ← List.nil_append ('/' :: _), names_append, names_nil, List.nil_append, names_joinWith h]

theorem endsInSlash_spelled {name : Text} (ns : List Text) (hn : name ≠ [] ∧ '/' ∉ name) :
    endsInSlash (spelled (ns ++ [name])) = false := by
  obtain ⟨front, hfront⟩ := Text.joinWith_concat ['/'] ns name
  obtain ⟨c, hc⟩ : ∃ c, name.getLast? = some c := ⟨_, List.getLast?_eq_some_getLast hn.1⟩
  have hslash : c ≠ '/' := fun he => hn.2 (he ▸ List.mem_of_getLast? hc)
  rw [spelled, hfront, ← List.cons_append, endsInSlash, List.getLast?_append, hc]
  simpa using hslash

/-- the canonical path of a location spells it, from the root on -/
theorem names_path {l : Location} (h : ∀ n ∈ l, IsName n) : names l.path = l.reverse :=
  names_spelled fun n hn => ⟨(h n (List.mem_reverse.1 hn)).1, (h n (List.mem_reverse.1 hn)).2.1⟩

theorem endsInSlash_path {name : Text} {dir : Location} (hn : IsName name) :
    endsInSlash (Location.path (name :: dir)) = false := by
  have h := endsInSlash_spelled dir.reverse ⟨hn.1, hn.2.1⟩
  rwa [← List.reverse_cons] at h

/-! ## Taking apart -/

theorem cut_append (p : Path) : (cut p).1 ++ (cut p).2.reverse = p := by
  unfold cut
  split <;> simp

/-- what `cut` puts in front, by what is left behind it -/
def CutAs (front rest : Text) : Prop :=
  front = [] ∨ front = ['/'] ∨ front = ['.'] ∧ (rest = [] ∨ rest.getLast? = some '/')

theorem cutAs_cut (p : Path) : CutAs (cut p).1 (cut p).2 := by
  unfold cut CutAs
  split <;> simp

theorem CutAs.of_suffix {front r r' : Text} (h : CutAs front r) (hs : r' <:+ r) : CutAs front r' := by
  refine h.imp id (Or.imp id (And.imp id ?_))
  rintro (rfl | h)
  · exact .inl (List.suffix_nil.1 hs)
  · by_cases hr : r' = []
    · exact .inl hr
    · right
      obtain ⟨a, rfl⟩ := hs
      rw [List.getLast?_append, List.getLast?_eq_some_getLast hr] at h
      rwa [List.getLast?_eq_some_getLast hr]

theorem dropIdle_suffix (r : Text) : dropIdle r <:+ r := by
  fun_induction dropIdle r with
  | case1 r ih => exact ih.trans (List.suffix_cons _ _)
  | case2 => exact List.nil_suffix
  | case3 r ih => exact ih.trans ((List.suffix_cons _ _).trans (List.suffix_cons _ _))
  | case4 => exact List.suffix_rfl

theorem names_dropIdle {front r : Text} (h : CutAs front r) :
    ∃ n, names (front ++ r.reverse) = names (front ++ (dropIdle r).reverse) ++ List.replicate n ['.'] := by
  fun_induction dropIdle r with
  | case1 r ih =>
    obtain ⟨n, hn⟩ := ih (h.of_suffix (List.suffix_cons _ _))
    refine ⟨n, ?_⟩
    rw [List.reverse_cons, ← List.append_assoc, names_concat_slash, hn]
  | case2 =>
    rcases h with rfl | rfl | ⟨rfl, h⟩
    · exact ⟨1, rfl⟩
    · exact ⟨1, rfl⟩
    · simp at h
  | case3 r ih =>
    obtain ⟨n, hn⟩ := ih (h.of_suffix ((List.suffix_cons _ _).trans (List.suffix_cons _ _)))
    refine ⟨n + 1, ?_⟩
    have he : front ++ ('.' :: '/' :: r).reverse = (front ++ r.reverse) ++ '/' :: ['.'] := by simp
    rw [he, names_append, hn, List.append_assoc, List.replicate_succ']
    rfl
  | case4 => exact ⟨0, by simp⟩

theorem takeWhile_dropIdle {r : Text} (h : dropIdle r ≠ []) :
    (dropIdle r).takeWhile (· != '/') ≠ [] ∧ (dropIdle r).takeWhile (· != '/') ≠ ['.'] := by
  fun_induction dropIdle r with
  | case1 r ih => exact ih h
  | case2 => exact absurd rfl h
  | case3 r ih => exact ih h
  | case4 r h1 h2 h3 =>
    cases r with
    | nil => exact absurd rfl h
    | cons c r =>
      have hc : c ≠ '/' := fun e => h1 r (by rw [e])
      rw [List.takeWhile_cons, if_pos (by simpa using hc)]
      refine ⟨by simp, ?_⟩
      intro e
      rw [List.cons.injEq] at e
      cases r with
      | nil => exact h2 (by rw [e.1])
      | cons d r =>
        by_cases hd : d = '/'
        · exact h3 r (by rw [e.1, hd])
        · simp [hd] at e

theorem dropIdle_dropIdle (r : Text) : dropIdle (dropIdle r) = dropIdle r := by
  fun_induction dropIdle r with
  | case1 r ih => exact ih
  | case2 => rfl
  | case3 r ih => exact ih
  | case4 r h1 h2 h3 => exact dropIdle.eq_4 r h1 h2 h3

theorem slash_not_mem_takeWhile (r : Text) : '/' ∉ r.takeWhile (· != '/') := by
  intro h
  simpa using List.all_eq_true.1 (List.all_takeWhile (p := (· != '/')) (l := r)) _ h

/-- the last name of a reversed path, and what stands in front of it -/
theorem names_takeWhile {front r : Text} (h : CutAs front r) (hne : r.takeWhile (· != '/') ≠ []) :
    names (front ++ r.reverse) =
      names (front ++ (r.dropWhile (· != '/')).reverse) ++ [(r.takeWhile (· != '/')).reverse] := by
  have hname : names (r.takeWhile (· != '/')).reverse = [(r.takeWhile (· != '/')).reverse] :=
    names_of_not_mem (by simpa using hne) (by simpa using slash_not_mem_takeWhile r)
  have hr : r.reverse = (r.dropWhile (· != '/')).reverse ++ (r.takeWhile (· != '/')).reverse := by
    rw [← List.reverse_append, List.takeWhile_append_dropWhile]
  cases hd : r.dropWhile (· != '/') with
  | nil =>
    rw [hr, hd]
    rcases h with rfl | rfl | ⟨rfl, h⟩
    · simpa using hname
    · have := names_append [] (r.takeWhile (· != '/')).reverse
      simpa [hname] using this
    · have ht : r.takeWhile (· != '/') = r := by
        conv_rhs => rw [← List.takeWhile_append_dropWhile (p := (· != '/')) (l := r), hd, List.append_nil]
      rcases h with rfl | h
      · exact absurd rfl hne
      · have hmem := List.mem_of_getLast? h
        rw [← ht] at hmem
        exact absurd hmem (slash_not_mem_takeWhile r)
  | cons c d =>
    have hc : c = '/' := by
      have := List.head_dropWhile_not (· != '/') (l := r) (by simp [hd])
      simpa [hd] using this
    subst hc
    rw [hr, hd, List.reverse_cons, ← List.append_assoc, ← List.append_assoc, names_concat_slash, List.append_assoc,
      List.cons_append, List.nil_append, names_append, hname]

theorem parent?_eq {p : Path} (h : dropIdle (cut p).2 ≠ []) : parent? p =
    some ((cut p).1 ++ (dropIdle ((dropIdle (cut p).2).dropWhile (· != '/'))).reverse) := by
  unfold parent?
  split
  · next he => exact absurd he h
  · rfl

theorem fileName?_eq_some {p : Path} {name : Text} (h : fileName? p = some name) : dropIdle (cut p).2 ≠ [] ∧
    name = ((dropIdle (cut p).2).takeWhile (· != '/')).reverse ∧ name ≠ ['.', '.'] := by
  unfold fileName? at h
  split at h
  · exact absurd h (by simp)
  · next he =>
    simp only [Option.ite_none_left_eq_some, Option.some.injEq] at h
    exact ⟨he, h.2.symm, h.2 ▸ h.1⟩

/-- the names of a path end in its file name, and in `.`s behind that if the path does -/
theorem names_of_fileName {p : Path} {name : Text} (h : fileName? p = some name) : IsName name ∧
    ∃ dir m n, parent? p = some dir ∧
      names p = names dir ++ List.replicate m ['.'] ++ name :: List.replicate n ['.'] ∧
      (dropIdle (cut p).2 = (cut p).2 → n = 0) := by
  obtain ⟨hne, hname, hup⟩ := fileName?_eq_some h
  obtain ⟨htw, hdot⟩ := takeWhile_dropIdle hne
  have hcut := (cutAs_cut p).of_suffix (dropIdle_suffix _)
  refine ⟨⟨by simpa [hname] using htw, by simpa [hname] using slash_not_mem_takeWhile _, ?_⟩, ?_⟩
  · have h1 : name ≠ ['.'] := fun e => hdot (by rw [← List.reverse_inj, ← hname, e]; rfl)
    exact isDots_eq_false_iff.2 ⟨h1, hup⟩
  · obtain ⟨m, hm⟩ := names_dropIdle (hcut.of_suffix (List.dropWhile_suffix (· != '/')))
    have hlast := names_takeWhile hcut htw
    rw [hm, ← hname] at hlast
    by_cases ht : dropIdle (cut p).2 = (cut p).2
    · refine ⟨_, m, 0, parent?_eq hne, ?_, fun _ => rfl⟩
      rw [ht, cut_append] at hlast
      simpa [ht] using hlast
    · obtain ⟨n, hn⟩ := names_dropIdle (cutAs_cut p)
      refine ⟨_, m, n, parent?_eq hne, ?_, fun e => absurd e ht⟩
      rw [cut_append, hlast] at hn
      simpa using hn

theorem names_of_idle {p : Path} (h : dropIdle (cut p).2 = []) : ∀ n ∈ names p, n = ['.'] := by
  obtain ⟨n, hn⟩ := names_dropIdle (cutAs_cut p)
  rw [cut_append, h, List.reverse_nil, List.append_nil] at hn
  have hfront : ∀ n ∈ names (cut p).1, n = ['.'] := by
    rcases cutAs_cut p with h | h | h
    · simp [h]
    · simp [h]
    · rw [h.1]
      intro n hn
      simpa [names_of_not_mem] using hn
  intro k hk
  rw [hn] at hk
  rcases List.mem_append.1 hk with hk | hk
  · exact hfront k hk
  · exact List.eq_of_mem_replicate hk

/-- a path without a file name ends in `..`, unless it has nothing but idle segments -/
theorem names_of_up {p : Path} (h : fileName? p = none) (hne : dropIdle (cut p).2 ≠ []) :
    ∃ ns n, names p = ns ++ ['.', '.'] :: List.replicate n ['.'] := by
  have hname : ((dropIdle (cut p).2).takeWhile (· != '/')).reverse = ['.', '.'] := by
    unfold fileName? at h
    split at h
    · next he => exact absurd he hne
    · simpa using h
  obtain ⟨n, hn⟩ := names_dropIdle (cutAs_cut p)
  have hlast := names_takeWhile ((cutAs_cut p).of_suffix (dropIdle_suffix _)) (takeWhile_dropIdle hne).1
  rw [cut_append, hlast, hname, List.append_assoc] at hn
  exact ⟨_, n, hn⟩

theorem up_mem_of_no_fileName {p : Path} (h : fileName? p = none) (hne : dropIdle (cut p).2 ≠ []) :
    ['.', '.'] ∈ names p := by
  obtain ⟨ns, n, hn⟩ := names_of_up h hne
  rw [hn]
  simp

/-- a path without a file name has no names but `.`, unless it ends in `..` -/
theorem names_of_no_fileName {p : Path} (h : fileName? p = none) (hup : ['.', '.'] ∉ names p) :
    ∀ n ∈ names p, n = ['.'] := by
  apply names_of_idle
  by_contra hne
  exact hup (up_mem_of_no_fileName h hne)

theorem isDots_of_no_fileName {p : Path} {xs : List Text} {name : Text} (h : fileName? p = none)
    (hx : names p = xs ++ [name]) : isDots name = true := by
  by_cases hne : dropIdle (cut p).2 = []
  · have hname : name = ['.'] := names_of_idle hne name (by rw [hx]; simp)
    rw [hname]
    rfl
  · obtain ⟨ns, n, hn⟩ := names_of_up h hne
    have hlast : name ∈ ['.', '.'] :: List.replicate n ['.'] := by
      have hget := congrArg List.getLast? (hx.symm.trans hn)
      rw [List.getLast?_concat, List.getLast?_append] at hget
      obtain ⟨last, hl⟩ : ∃ last, (['.', '.'] :: List.replicate n ['.']).getLast? = some last :=
        ⟨_, List.getLast?_eq_some_getLast (List.cons_ne_nil _ _)⟩
      rw [hl, Option.some_or, Option.some.injEq] at hget
      exact hget ▸ List.mem_of_getLast? hl
    rcases List.mem_cons.1 hlast with rfl | hlast
    · rfl
    · rw [List.eq_of_mem_replicate hlast]
      rfl

/-! ## Parents -/

theorem front_of_parent {p dir : Path} (h : parent? p = some dir) : dir <+: p := by
  unfold parent? at h
  split at h
  · split at h
    · rw [← Option.some.inj h]; exact List.nil_prefix
    · exact absurd h (by simp)
  · have hs : dropIdle ((dropIdle (cut p).2).dropWhile (· != '/')) <:+ (cut p).2 :=
      (dropIdle_suffix _).trans ((List.dropWhile_suffix _).trans (dropIdle_suffix _))
    rw [← Option.some.inj h]
    conv_rhs => rw [← cut_append p]
    exact (List.prefix_append_right_inj _).2 (List.reverse_prefix.2 hs)

theorem isAbsolute_parent {p dir : Path} (h : parent? p = some dir) (hd : dir ≠ []) : isAbsolute dir = isAbsolute p := by
  obtain ⟨r, rfl⟩ := front_of_parent h
  cases dir with
  | nil => exact absurd rfl hd
  | cons c d => rfl

theorem isAbsolute_iff {p : Path} : isAbsolute p = true ↔ ∃ r, p = '/' :: r := by
  rw [isAbsolute, decide_eq_true_iff, List.head?_eq_some_iff]

theorem cut_of_isAbsolute {p : Path} (h : isAbsolute p = true) : (cut p).1 = ['/'] := by
  obtain ⟨r, rfl⟩ := isAbsolute_iff.1 h
  rfl

theorem isAbsolute_of_parent_nil {p : Path} (h : parent? p = some []) : isAbsolute p = false := by
  by_contra ha
  have hc := cut_of_isAbsolute (p := p) (by simpa using ha)
  unfold parent? at h
  split at h
  · simp [hc] at h
  · simp [hc] at h

/-- what is put in place of the last name starts where the path does -/
theorem isAbsolute_join_parent {p q dir : Path} (h : parent? p = some dir) (hq : isAbsolute q = false) :
    isAbsolute (join dir q) = isAbsolute p := by
  by_cases hd : dir = []
  · subst hd
    rw [isAbsolute_of_parent_nil h]
    simp [join, hq]
  · rw [← isAbsolute_parent h hd]
    obtain ⟨c, x, rfl⟩ := List.exists_cons_of_ne_nil hd
    rw [join, hq, if_neg (by simp)]
    split <;> rfl

/-- a prefix of a path without a root or a `.` in front has none either, unless it is that `.` -/
theorem cut_of_front {p q : Path} (h : (cut p).1 = []) (hq : q <+: p) (hd : q ≠ ['.']) : cut q = ([], q.reverse) := by
  obtain ⟨r, rfl⟩ := hq
  unfold cut
  split
  · simp [cut] at h
  · exact absurd rfl hd
  · simp [cut] at h
  · rfl

theorem dropIdle_cut_parent {p q : Path} (h : parent? p = some q) : dropIdle (cut q).2 = (cut q).2 := by
  have h' := h
  unfold parent? at h
  split at h
  · split at h
    · rw [← Option.some.inj h]; rfl
    · exact absurd h (by simp)
  · generalize hx : dropIdle ((dropIdle (cut p).2).dropWhile (· != '/')) = x at h
    have hs : x <:+ (cut p).2 := by
      rw [← hx]
      exact (dropIdle_suffix _).trans ((List.dropWhile_suffix _).trans (dropIdle_suffix _))
    have hidle : dropIdle x = x := by rw [← hx]; exact dropIdle_dropIdle _
    have hcut : cut q = ((cut p).1, x) := by
      have hq := Option.some.inj h
      rcases (cutAs_cut p).of_suffix hs with hf | hf | ⟨hf, hl⟩
      · rw [hf, List.nil_append] at hq
        have hd : q ≠ ['.'] := by
          intro e
          have hx' : x = ['.'] := by rw [← List.reverse_inj, hq, e]; rfl
          rw [hx'] at hidle
          simp [dropIdle] at hidle
        rw [hf, cut_of_front hf (front_of_parent h') hd, ← hq, List.reverse_reverse]
      · rw [← hq, hf]; simp [cut]
      · rw [← hq, hf]
        rcases hl with hl | hl
        · rw [hl]; rfl
        · obtain ⟨y, hy⟩ : ∃ y, x.reverse = '/' :: y := by
            have hne : x.reverse ≠ [] := by
              intro e
              simp [List.reverse_eq_nil_iff.1 e] at hl
            obtain ⟨c, y, hcy⟩ := List.exists_cons_of_ne_nil hne
            rw [← List.head?_reverse, hcy] at hl
            exact ⟨y, by rw [hcy, Option.some.inj hl]⟩
          rw [hy, show x = ('/' :: y).reverse by rw [← hy, List.reverse_reverse]]
          rfl
    rw [hcut]
    exact hidle

theorem names_parent {p q : Path} {name : Text} (h : parent? p = some q) (hn : fileName? q = some name) :
    ∃ dir m, parent? q = some dir ∧ names q = names dir ++ List.replicate m ['.'] ++ [name] := by
  obtain ⟨-, dir, m, n, hd, hq, hzero⟩ := names_of_fileName hn
  refine ⟨dir, m, hd, ?_⟩
  rw [hq, hzero (dropIdle_cut_parent h)]
  rfl

/-- a path has a file name if its parent is not empty, unless it ends in `..` -/
theorem fileName?_of_parent {p q : Path} (h : parent? p = some q) (hq : q ≠ []) (hup : ['.', '.'] ∉ names p) :
    ∃ name, fileName? p = some name := by
  cases hn : fileName? p with
  | some name => exact ⟨name, rfl⟩
  | none =>
    have hd : dropIdle (cut p).2 = [] := by
      by_contra hne
      exact hup (up_mem_of_no_fileName hn hne)
    simp only [parent?, hd] at h
    split at h
    · exact absurd (Option.some.inj h).symm hq
    · exact absurd h (by simp)

theorem up_not_mem_parent {p q : Path} (h : parent? p = some q) (hup : ['.', '.'] ∉ names p) :
    ['.', '.'] ∉ names q := by
  by_cases hq : q = []
  · simp [hq]
  · obtain ⟨name, hn⟩ := fileName?_of_parent h hq hup
    obtain ⟨-, dir, m, n, hd, hp, -⟩ := names_of_fileName hn
    obtain rfl : dir = q := Option.some.inj (hd.symm.trans h)
    intro hm
    exact hup (by rw [hp]; simp [hm])

end Path
end BranchRender
