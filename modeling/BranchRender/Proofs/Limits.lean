/-
LIMITS: walks with more or fewer links to use, and when a path is looked up within the limits of the system.

- A walk that does not run out of links ends the same with any more of them (`walk_more`). One that runs out of them does
  so whatever comes behind (`tooManyLinks_append`), and in any tree that has its directories and links
  (`tooManyLinks_keep`).
- A canonical location is found with fewer links too, if a walk is not short of them (`canonical_of_more`). Behind names
  that have a canonical location it is looked for from there on (`canonical_append`).
- A path keeps `Within` the limits if it is short enough and leads along few enough links.

Main statements: `walk_more`, `tooManyLinks_append`, `canonical_append`, `canonical_of_passes`.
-/
import Mathlib.Control.Monad.Basic
import BranchRender.Proofs.Detours

namespace BranchRender

namespace FileTree

variable {t u : FileTree} {aim aim' : Aim} {links n : Nat} {dir l k : Location} {xs ys : List Text} {slash slash' : Bool}

/-! ## Walks -/

theorem tooManyLinks_name {name : Text} {rest : List Text} (hn : Path.isDots name = false) :
    t.walk aim links dir (name :: rest) slash = .error .tooManyLinks ↔
      ¬ (rest = [] ∧ slash = true ∧ aim = .file) ∧ t.at? dir = some .directory ∧ name.size ≤ maxName ∧
        (t.at? (name :: dir) = some .directory ∧ t.walk aim links (name :: dir) rest slash = .error .tooManyLinks ∨
          ∃ target, t.at? (name :: dir) = some (.link target) ∧ ¬ (rest = [] ∧ slash = false ∧ aim = .entry) ∧
            t.jump aim links (dir.afterLink target) (target.names ++ rest)
              (slash || (rest.isEmpty && target.endsInSlash)) = .error .tooManyLinks) := by
  have hne : ∀ e : SystemError, e ≠ .tooManyLinks → (.error e : Except SystemError Place) ≠ .error .tooManyLinks :=
    fun _ he h => he (Except.error.inj h)
  rw [walk_name _ _ _ _ _ _ hn]
  by_cases hfile : rest = [] ∧ slash = true ∧ aim = .file
  · simp only [hfile, and_self, ite_true, not_true_eq_false, false_and, iff_false]
    exact hne _ (by decide)
  by_cases hdir : t.at? dir = some .directory
  case neg =>
    simp only [hfile, hdir, ite_false, ne_eq, not_false_eq_true, ite_true, false_and, and_false, iff_false]
    exact hne _ (by decide)
  by_cases hs : maxName < name.size
  · simp only [hfile, hdir, hs, ite_false, ne_eq, not_true_eq_false, ite_true, Nat.not_le.2 hs, false_and, and_false,
      iff_false]
    exact hne _ (by decide)
  simp only [hfile, hdir, hs, ite_false, ne_eq, not_true_eq_false, not_false_eq_true, true_and, Nat.not_lt.1 hs]
  cases he : t.at? (name :: dir) with
  | none => by_cases hr : rest = [] <;> simp [hr]; decide
  | some e =>
    cases e with
    | directory => simp
    | link target =>
      by_cases hentry : rest = [] ∧ slash = false ∧ aim = .entry <;> simp [hentry]
    | file c => by_cases hr : rest = [] ∧ slash = false <;> simp [hr]; decide
    | device d => by_cases hr : rest = [] ∧ slash = false <;> simp [hr]; decide

/-- a walk that runs out of links does so whatever comes behind -/
theorem tooManyLinks_append (h : t.walk aim links dir xs slash = .error .tooManyLinks) (hy : ys ≠ [] ∨ aim' = .target)
    (slash' : Bool) : t.walk aim' links dir (xs ++ ys) slash' = .error .tooManyLinks := by
  induction links, dir, xs using names_induction generalizing slash slash' with
  | nil links dir => rw [walk_nil] at h; exact absurd h (by simp)
  | here links dir rest ih => exact (walk_here _ _ _ _ _ _).trans (ih (walk_here _ _ _ _ _ _ ▸ h) _)
  | up links dir rest ih => exact (walk_up _ _ _ _ _ _).trans (ih (walk_up _ _ _ _ _ _ ▸ h) _)
  | name links dir name rest hn ih ihl =>
    have hlast : ∀ b : Bool, ∀ a, a ≠ .target → ¬ (rest ++ ys = [] ∧ slash' = b ∧ aim' = a) := fun b a ha hc =>
      hy.elim (fun hy => hy (List.append_eq_nil_iff.1 hc.1).2) fun hy => ha (hc.2.2.symm.trans hy)
    obtain ⟨-, hdir, hs, hgo⟩ := (tooManyLinks_name hn).1 h
    refine (tooManyLinks_name hn).2 ⟨hlast _ _ (by simp), hdir, hs, hgo.imp (And.imp id fun h => ih _ h _) ?_⟩
    rintro ⟨target, he, -, hj⟩
    refine ⟨target, he, hlast _ _ (by simp), ?_⟩
    cases links with
    | zero => rfl
    | succ m => exact (List.append_assoc target.names rest ys) ▸ ihl m (Nat.lt_succ_self m) _ _ hj _

/-- a walk that does not run out of links ends the same with more of them -/
theorem walk_more (h : t.walk aim links dir xs slash ≠ .error .tooManyLinks) (m : Nat) :
    t.walk aim (links + m) dir xs slash = t.walk aim links dir xs slash := by
  induction links, dir, xs using names_induction generalizing slash with
  | nil links dir => rw [walk_nil, walk_nil]
  | here links dir rest ih =>
    rw [walk_here] at h
    rw [walk_here, walk_here, ih h]
  | up links dir rest ih =>
    rw [walk_up] at h
    rw [walk_up, walk_up, ih h]
  | name links dir name rest hn ih ihl =>
    rw [walk_name _ _ _ _ _ _ hn] at h
    rw [walk_name _ _ _ _ _ _ hn, walk_name _ _ _ _ _ _ hn]
    split
    · rfl
    next hfile =>
    rw [if_neg hfile] at h
    split
    · rfl
    next hdir =>
    rw [if_neg hdir] at h
    split
    · rfl
    next hs =>
    rw [if_neg hs] at h
    split
    · rfl
    · next he =>
      simp only [he] at h
      exact ih _ h
    · next target he =>
      simp only [he] at h
      split
      · rfl
      next hentry =>
      rw [if_neg hentry] at h
      cases links with
      | zero => exact absurd rfl h
      | succ m' =>
        rw [Nat.add_right_comm]
        exact ihl m' (Nat.lt_succ_self m') _ _ h
    · rfl

theorem walk_links {m : Nat} (h : t.walk aim links dir xs slash ≠ .error .tooManyLinks)
    (h' : t.walk aim m dir xs slash ≠ .error .tooManyLinks) :
    t.walk aim links dir xs slash = t.walk aim m dir xs slash := by
  rcases Nat.le_total links m with hle | hle
  · obtain ⟨k, rfl⟩ := Nat.exists_eq_add_of_le hle
    exact (walk_more h k).symm
  · obtain ⟨k, rfl⟩ := Nat.exists_eq_add_of_le hle
    exact walk_more h' k

/-- a walk runs out of links in any tree that has the directories and links -/
theorem tooManyLinks_keep (hk : Keeps t u) (h : t.walk aim links dir xs slash = .error .tooManyLinks) :
    u.walk aim links dir xs slash = .error .tooManyLinks := by
  induction links, dir, xs using names_induction generalizing slash with
  | nil links dir => rw [walk_nil] at h; exact absurd h (by simp)
  | here links dir rest ih => exact (walk_here _ _ _ _ _ _).trans (ih (walk_here _ _ _ _ _ _ ▸ h))
  | up links dir rest ih => exact (walk_up _ _ _ _ _ _).trans (ih (walk_up _ _ _ _ _ _ ▸ h))
  | name links dir name rest hn ih ihl =>
    obtain ⟨hfile, hdir, hs, hgo⟩ := (tooManyLinks_name hn).1 h
    refine (tooManyLinks_name hn).2 ⟨hfile, hk.directory hdir, hs, hgo.imp (And.imp hk.directory fun h => ih _ h) ?_⟩
    rintro ⟨target, he, hentry, hj⟩
    refine ⟨target, hk.link he, hentry, ?_⟩
    cases links with
    | zero => rfl
    | succ m => exact ihl m (Nat.lt_succ_self m) _ _ hj

/-! ## Canonical locations -/

/-- with more links to use, a canonical location is found all the same -/
theorem canonical_more (h : t.canonical links dir xs slash = .ok l) (m : Nat) :
    t.canonical (links + m) dir xs slash = .ok l := by
  induction links, dir, xs using names_induction generalizing slash with
  | nil links dir => rw [canonical_nil] at h ⊢; exact h
  | here links dir rest ih => exact (canonical_here rest).trans (ih (canonical_here rest ▸ h))
  | up links dir rest ih => exact (canonical_up rest).trans (ih (canonical_up rest ▸ h))
  | name links dir name rest hn ih ihl =>
    obtain ⟨hp, -, hs, ⟨target, he, hj⟩ | ⟨e, he, hl, hcheck, hc⟩⟩ := canonical_name hn h
    · rw [canonical_of_link hn hp hs he]
      cases links with
      | zero => exact absurd hj (by simp [canonicalJump])
      | succ m' =>
        rw [Nat.add_right_comm]
        exact ihl m' (Nat.lt_succ_self m') _ _ hj
    · rw [canonical_of_entry hn hp hs he hl hcheck]
      exact ih _ hc

/-- with fewer links to use, a canonical location is still found if a walk does not run out of them -/
theorem canonical_of_more {m : Nat} (h : t.canonical (links + m) dir xs slash = .ok l)
    (hw : t.walk .target links dir xs slash' ≠ .error .tooManyLinks) : t.canonical links dir xs slash = .ok l := by
  induction links, dir, xs using names_induction generalizing slash slash' with
  | nil links dir => rw [canonical_nil] at h ⊢; exact h
  | here links dir rest ih =>
    rw [walk_here] at hw
    exact (canonical_here rest).trans (ih (canonical_here rest ▸ h) hw)
  | up links dir rest ih =>
    rw [walk_up] at hw
    exact (canonical_up rest).trans (ih (canonical_up rest ▸ h) hw)
  | name links dir name rest hn ih ihl =>
    obtain ⟨hp, hdir, hs, ⟨target, he, hj⟩ | ⟨e, he, hl, hcheck, hc⟩⟩ := canonical_name hn h
    · rw [canonical_of_link hn hp hs he]
      have hw' : ∀ b, t.jump .target links (dir.afterLink target) (target.names ++ rest)
          (slash' || (rest.isEmpty && target.endsInSlash)) = b → b ≠ .error .tooManyLinks := by
        rintro _ rfl hb
        exact hw ((tooManyLinks_name hn).2 ⟨by simp, hdir, hs, .inr ⟨target, he, by simp, hb⟩⟩)
      cases links with
      | zero => exact absurd rfl (hw' _ rfl)
      | succ m' =>
        rw [Nat.add_right_comm] at hj
        exact ihl m' (Nat.lt_succ_self m') _ _ hj (hw' _ rfl)
    · rw [canonical_of_entry hn hp hs he hl hcheck]
      by_cases hd : e = .directory
      · subst hd
        rw [walk_directory _ _ hn hs (.inl (by simp)) he] at hw
        exact ih _ hc hw
      · obtain ⟨rfl, -⟩ := rest_of_checkFront hd he hcheck hc
        rw [canonical_nil] at hc ⊢
        exact hc

/-- two searches for a canonical location find the same, if no walk runs out of links -/
theorem canonical_links {m : Nat} (h : t.walk .target links dir xs slash' ≠ .error .tooManyLinks)
    (h' : t.walk .target m dir xs slash' ≠ .error .tooManyLinks) :
    t.canonical links dir xs slash = .ok l ↔ t.canonical m dir xs slash = .ok l := by
  rcases Nat.le_total links m with hle | hle
  · obtain ⟨k, rfl⟩ := Nat.exists_eq_add_of_le hle
    exact ⟨fun hc => canonical_more hc k, fun hc => canonical_of_more hc h⟩
  · obtain ⟨k, rfl⟩ := Nat.exists_eq_add_of_le hle
    exact ⟨fun hc => canonical_of_more hc h', fun hc => canonical_more hc k⟩

/-- what stands in front asks for no more than what stands behind it -/
theorem checkFront_of_asks {e : Entry} {rest rest' : List Text}
    (h : asksDirectory rest' slash' = true → asksDirectory rest slash = true)
    (hc : checkFront e l rest slash = .ok ()) : checkFront e l rest' slash' = .ok () := by
  unfold checkFront at hc ⊢
  split
  next hask => rwa [if_pos (h hask)] at hc
  next => rfl

theorem asksDirectory_append {rest : List Text} (hy : ∃ y zs, ys = y :: zs ∧ Path.isDots y = false)
    (h : asksDirectory (rest ++ ys) slash = true) (slash' : Bool) : asksDirectory rest slash' = true := by
  obtain ⟨y, zs, rfl, hy⟩ := hy
  obtain ⟨h1, h2⟩ := Path.isDots_eq_false_iff.1 hy
  unfold asksDirectory at h ⊢
  rw [List.dropWhile_append] at h
  cases hr : rest.dropWhile (· = ['.']) with
  | nil => simp [hr, h1, h2] at h
  | cons x xs => simpa [hr] using h

theorem asksDirectory_dots {rest : List Text} {m : Nat} (hs : slash' = true → slash = true ∨ m ≠ 0)
    (h : asksDirectory rest slash' = true) : asksDirectory (rest ++ List.replicate m ['.']) slash = true := by
  unfold asksDirectory at h ⊢
  rw [List.dropWhile_append]
  cases hr : rest.dropWhile (· = ['.']) with
  | nil =>
    simp only [hr] at h
    cases m with
    | zero => cases hrest : rest.isEmpty <;> simp_all
    | succ m => simp
  | cons x xs => simpa [hr] using h

/-- behind names that have a canonical location, the search goes on from there -/
theorem canonical_append (hp : Passes t links dir xs n k) (hc : t.canonical links dir xs slash' = .ok l)
    (hy : ∃ y zs, ys = y :: zs ∧ Path.isDots y = false) :
    t.canonical links dir (xs ++ ys) slash = t.canonical n k ys slash := by
  induction hp generalizing slash' with
  | done => rfl
  | here _ ih => exact (canonical_here _).trans (ih (canonical_here _ ▸ hc))
  | up _ ih => exact (canonical_up _).trans (ih (canonical_up _ ▸ hc))
  | @into links n dir k name rest hn hs hd _ ih =>
    obtain ⟨hp, -, -, ⟨target, he, -⟩ | ⟨e, he, hl, hcheck, hc'⟩⟩ := canonical_name hn hc
    · rw [hd] at he; exact absurd he (by simp)
    obtain rfl : Entry.directory = e := Option.some.inj (hd.symm.trans he)
    rw [List.cons_append, canonical_of_entry hn hp hs hd hl, ih hc']
    exact checkFront_of_asks (fun hask => asksDirectory_append hy hask slash') hcheck
  | @along links n dir k name rest target hn hs hl _ ih =>
    obtain ⟨hp, -, -, ⟨target', he, hj⟩ | ⟨e, he, hl', -⟩⟩ := canonical_name hn hc
    · obtain rfl : target = target' := by simpa [hl] using he
      obtain ⟨y, zs, rfl, -⟩ := hy
      have hrest : (rest ++ y :: zs).isEmpty = false := by simp
      rw [List.cons_append, canonical_of_link hn hp hs hl, ← List.append_assoc, hrest, Bool.false_and, Bool.or_false]
      exact ih hj
    · exact absurd (Option.some.inj (he.symm.trans hl)) (hl' target)

theorem canonical_dots (t : FileTree) (links : Nat) (dir : Location) (m : Nat) (slash : Bool) :
    t.canonical links dir (List.replicate m ['.']) slash = .ok dir := by
  induction m with
  | zero => exact canonical_nil _ _ _ _
  | succ m ih => exact (canonical_here _).trans ih

/-- `.`s at the end ask for a directory, and change nothing else -/
theorem canonical_of_dots {m : Nat} (h : t.canonical links dir (xs ++ List.replicate m ['.']) slash = .ok l)
    (hs : slash' = true → slash = true ∨ m ≠ 0) : t.canonical links dir xs slash' = .ok l := by
  induction links, dir, xs using names_induction generalizing slash slash' with
  | nil links dir =>
    rw [List.nil_append, canonical_dots] at h
    rw [canonical_nil, h]
  | here links dir rest ih => exact (canonical_here rest).trans (ih (canonical_here _ ▸ h) hs)
  | up links dir rest ih => exact (canonical_up rest).trans (ih (canonical_up _ ▸ h) hs)
  | name links dir name rest hn ih ihl =>
    rw [List.cons_append] at h
    obtain ⟨hp, -, hsize, ⟨target, he, hj⟩ | ⟨e, he, hl, hcheck, hc⟩⟩ := canonical_name hn h
    · rw [canonical_of_link hn hp hsize he]
      cases links with
      | zero => exact absurd hj (by simp [canonicalJump])
      | succ m' =>
        rw [← List.append_assoc] at hj
        refine ihl m' (Nat.lt_succ_self m') _ _ hj fun hb => ?_
        -- a link at the end may bring the slash with it
        cases m with
        | zero => cases slash <;> cases slash' <;> simp_all
        | succ m => exact .inr (Nat.succ_ne_zero m)
    · rw [canonical_of_entry hn hp hsize he hl (checkFront_of_asks (asksDirectory_dots hs) hcheck)]
      exact ih _ hc hs

theorem canonical_tooLong {name : Text} {rest : List Text} (hn : Path.isDots name = false)
    (hp : maxPath ≤ (Location.path (name :: dir)).size) :
    t.canonical links dir (name :: rest) slash = .error .nameTooLong := by
  obtain ⟨h1, h2⟩ := Path.isDots_eq_false_iff.1 hn
  rw [canonical_eq_along, canonicalAlong, if_neg h1, if_neg h2, if_pos hp]

/-- names that lead to a directory have its canonical location, unless a path on the way is too long -/
theorem canonical_of_passes (hp : Passes t links dir xs n l) (slash : Bool) :
    t.canonical links dir xs slash = .ok l ∨ t.canonical links dir xs slash = .error .nameTooLong := by
  induction hp generalizing slash with
  | done => exact .inl (canonical_nil _ _ _ _)
  | here _ ih =>
    rw [canonical_here]
    exact ih slash
  | up _ ih =>
    rw [canonical_up]
    exact ih slash
  | @into links n dir l name rest hn hs hd _ ih =>
    by_cases hp : maxPath ≤ (Location.path (name :: dir)).size
    · exact .inr (canonical_tooLong hn hp)
    cases hcheck : checkFront .directory (name :: dir) rest slash with
    | ok u =>
      rw [canonical_of_entry hn (Nat.lt_of_not_le hp) hs hd (by simp) hcheck]
      exact ih slash
    | error e =>
      obtain ⟨h1, h2⟩ := Path.isDots_eq_false_iff.1 hn
      have hdir : t.at? dir = some .directory := at?_parent (by rw [hd]; simp)
      have hcheck' := hcheck
      unfold checkFront at hcheck'
      split at hcheck'
      · split at hcheck'
        · obtain rfl : .nameTooLong = e := Except.error.inj hcheck'
          refine .inr ?_
          rw [canonical_eq_along, canonicalAlong, if_neg h1, if_neg h2, if_neg hp, if_neg (by simp [hdir]),
            if_neg (by simp [hdir]), if_neg (Nat.not_lt.2 hs), hd]
          simp only [hcheck]
        · exact absurd hcheck' (by simp)
      · exact absurd hcheck' (by simp)
  | @along links n dir l name rest target hn hs hl _ ih =>
    by_cases hp : maxPath ≤ (Location.path (name :: dir)).size
    · exact .inr (canonical_tooLong hn hp)
    rw [canonical_of_link hn (Nat.lt_of_not_le hp) hs hl]
    exact ih _

theorem Passes.fits (h : Passes t links dir xs n l) (hd : ∀ x ∈ dir, Text.size x ≤ maxName) :
    ∀ x ∈ l, Text.size x ≤ maxName := by
  induction h with
  | done => exact hd
  | here _ ih => exact ih hd
  | up _ ih => exact ih fun x hx => hd x (List.mem_of_mem_tail hx)
  | into _ hs _ _ ih => exact ih (List.forall_mem_cons.2 ⟨hs, hd⟩)
  | along _ _ _ _ ih =>
    refine ih fun x hx => ?_
    unfold Location.afterLink at hx
    split at hx
    · exact absurd hx (by simp)
    · exact hd x hx

theorem size_path_le (name : Text) (dir : Location) : (Location.path dir).size ≤ (Location.path (name :: dir)).size := by
  have key : ∀ ps : List Text,
      Text.size (Text.joinWith ['/'] ps) ≤ Text.size (Text.joinWith ['/'] (ps ++ [name])) := by
    intro ps
    induction ps with
    | nil => exact Nat.zero_le _
    | cons p ps ih =>
      cases ps with
      | nil => simp [Text.joinWith]
      | cons q ps =>
        simp only [List.cons_append, Text.joinWith, Text.size_append] at ih ⊢
        omega
  rw [Location.path, Location.path, List.reverse_cons, Text.size_cons, Text.size_cons]
  exact Nat.add_le_add_left (key dir.reverse) _

/-- the path of a canonical location is short enough, if the search starts at one that is -/
theorem size_path_of_canonical (hdir : dir.path.size < maxPath) (h : t.canonical links dir xs slash = .ok l) :
    l.path.size < maxPath := by
  have hup : ∀ d : Location, d.path.size < maxPath → (Location.path d.tail).size < maxPath
    | [], hd => hd
    | _ :: _, hd => Nat.lt_of_le_of_lt (size_path_le _ _) hd
  induction links, dir, xs using names_induction generalizing slash with
  | nil links dir =>
    rw [canonical_nil, Except.ok.injEq] at h
    exact h ▸ hdir
  | here links dir rest ih => exact ih hdir (canonical_here rest ▸ h)
  | up links dir rest ih => exact ih (hup _ hdir) (canonical_up rest ▸ h)
  | name links dir name rest hn ih ihl =>
    obtain ⟨hp, -, -, ⟨target, -, hj⟩ | ⟨e, -, -, -, hc⟩⟩ := canonical_name hn h
    · cases links with
      | zero => exact absurd hj (by simp [canonicalJump])
      | succ m =>
        refine ihl m (Nat.lt_succ_self m) _ _ ?_ hj
        unfold Location.afterLink
        split
        · decide
        · exact hdir
    · exact ih _ hp hc

/-- the names of a directory lead to it, and to its canonical location -/
theorem canonical_reverse (links : Nat) (hd : t.at? l = some .directory) (hl : ∀ x ∈ l, Text.size x ≤ maxName)
    (hp : l.path.size < maxPath) : t.canonical links [] l.reverse false = .ok l := by
  induction l with
  | nil => exact canonical_nil _ _ _ _
  | cons name dir ih =>
    have hthere : t.at? (name :: dir) ≠ none := by rw [hd]; simp
    have hn := (FileTree.isName_of_at? hthere name List.mem_cons_self).2.2
    have hl' : ∀ x ∈ dir, Text.size x ≤ maxName := fun x hx => hl x (List.mem_cons_of_mem _ hx)
    have hdir := at?_parent hthere
    rw [List.reverse_cons, canonical_append (passes_reverse links hdir hl')
      (ih hdir hl' (Nat.lt_of_le_of_lt (size_path_le name dir) hp)) ⟨name, [], rfl, hn⟩,
      canonical_of_entry hn hp (hl name List.mem_cons_self) hd (by simp) (by simp [checkFront, asksDirectory]),
      canonical_nil]

end FileTree

/-! ## Paths -/

namespace FileSystem

open FileTree (Aim Keeps maxLinks maxPath)

variable {fs s : FileSystem} {p : Path}

/-- no limit of the system is met in looking a path up: it is short enough, and its names lead along few enough links -/
structure Within (fs : FileSystem) (p : Path) : Prop where
  size : Text.size p < maxPath
  links : fs.tree.walk .target maxLinks (if p.isAbsolute then [] else fs.cwd) p.names p.endsInSlash ≠ .error .tooManyLinks

instance (fs : FileSystem) (p : Path) : Decidable (fs.Within p) :=
  decidable_of_iff (Text.size p < maxPath ∧ fs.tree.walk .target maxLinks (if p.isAbsolute then [] else fs.cwd) p.names
    p.endsInSlash ≠ .error .tooManyLinks) ⟨fun h => ⟨h.1, h.2⟩, fun h => ⟨h.size, h.links⟩⟩

theorem Within.walk (h : fs.Within p) (ha : p.isAbsolute = true) :
    fs.tree.walk .target maxLinks [] p.names p.endsInSlash ≠ .error .tooManyLinks := by
  have hlinks := h.links
  rwa [if_pos ha] at hlinks

/-- an absolute path that meets no limit meets none where there are fewer directories and links -/
theorem Within.of_keeps (h : s.Within p) (ha : p.isAbsolute = true) (hk : Keeps fs.tree s.tree) : fs.Within p := by
  refine ⟨h.size, ?_⟩
  rw [if_pos ha]
  exact fun he => h.walk ha (FileTree.tooManyLinks_keep hk he)

theorem boundedStart_of_within (h : fs.Within p) (ha : p.isAbsolute = true) :
    fs.boundedStart p = if '\x00' ∈ p then .error .nulInPath else .ok [] := by
  split
  next hnul => simp [boundedStart, start, hnul]
  next hnul => rw [boundedStart, if_neg (by simp [Nat.not_le.2 h.size]), start_absolute fs hnul ha]

end FileSystem
end BranchRender
