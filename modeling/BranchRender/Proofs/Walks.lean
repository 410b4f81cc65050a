/-
WALKS: how a walk splits, and what of the tree it depends on.

- A name that is there is a directory to go into, a link to follow (`walk_link`), or the end of the walk (`walk_last`).
- `Passes` is the part of a walk that has to get through: name by name into directories and along links, with the links
  left at its end. Whatever comes behind, a walk goes on from there (`walk_of_passes`); where it does not get through, it
  fails for one reason, whatever comes behind (`passes_or_blocked`).
- Only directories and links show it the way: a tree that `Keeps` those of another lets through what the other does
  (`Passes.keep`).

Main statements: `walk_link`, `walk_of_passes`, `passes_or_blocked`, `passes_of_walk`, `Passes.keep`.
-/
import Mathlib.Tactic.ByContra
import BranchRender.Proofs.PathNames

namespace BranchRender

/-- what shows a walk the way: directories and links -/
def Entry.IsWay (e : Entry) : Prop := e = .directory ∨ ∃ target, e = .link target

namespace FileTree

/-! ## One name -/

/-- where a walk with some links to use goes on behind a link -/
def jump (t : FileTree) (aim : Aim) : Nat → Location → List Text → Bool → Except SystemError Place
  | 0 => fun _ _ _ => .error .tooManyLinks
  | links + 1 => t.walk aim links

theorem walk_eq_along (t : FileTree) (aim : Aim) (links : Nat) : t.walk aim links = t.along aim (t.jump aim links) := by
  cases links <;> rfl

theorem walk_name (t : FileTree) (aim : Aim) (links : Nat) (dir : Location) {name : Text} (rest : List Text)
    (slash : Bool) (hn : Path.isDots name = false) : t.walk aim links dir (name :: rest) slash =
      if rest = [] ∧ slash = true ∧ aim = .file then .error .isDirectory
      else if t.at? dir ≠ some .directory then .error .notFound
      else if maxName < name.size then .error .nameTooLong
      else match t.at? (name :: dir) with
        | none => if rest = [] then .ok (.vacant (name :: dir)) else .error .notFound
        | some .directory => t.walk aim links (name :: dir) rest slash
        | some (.link target) =>
          if rest = [] ∧ slash = false ∧ aim = .entry then .ok (.taken (name :: dir) (.link target))
          else t.jump aim links (dir.afterLink target) (target.names ++ rest)
            (slash || (rest.isEmpty && target.endsInSlash))
        | some e => if rest = [] ∧ slash = false then .ok (.taken (name :: dir) e) else .error .notDirectory := by
  obtain ⟨h1, h2⟩ := Path.isDots_eq_false_iff.1 hn
  rw [walk_eq_along]
  exact (if_neg h1).trans (if_neg h2)

/-- a link is followed, unless the walk ends at it and is after the link itself -/
theorem walk_link {t : FileTree} {aim : Aim} {links : Nat} {dir : Location} {name : Text} {rest : List Text}
    {target : Path} (hn : Path.isDots name = false) (hs : name.size ≤ maxName)
    (hl : t.at? (name :: dir) = some (.link target)) (ha : aim = .target ∨ rest ≠ []) (slash : Bool) :
    t.walk aim links dir (name :: rest) slash =
      t.jump aim links (dir.afterLink target) (target.names ++ rest) (slash || (rest.isEmpty && target.endsInSlash)) := by
  have hdir : t.at? dir = some .directory := at?_parent (by rw [hl]; simp)
  have hfile : ¬ (rest = [] ∧ slash = true ∧ aim = .file) := by
    rintro ⟨hr, -, rfl⟩
    exact ha.elim (by simp) (· hr)
  have hentry : ¬ (rest = [] ∧ slash = false ∧ aim = .entry) := by
    rintro ⟨hr, -, rfl⟩
    exact ha.elim (by simp) (· hr)
  rw [walk_name _ _ _ _ _ _ hn, if_neg hfile, if_neg (not_not.2 hdir), if_neg (Nat.not_lt.2 hs), hl]
  exact if_neg hentry

/-- a walk ends at what is neither a directory nor a link -/
theorem walk_last {t : FileTree} {aim : Aim} {links : Nat} {dir : Location} {name : Text} {e : Entry}
    (hn : Path.isDots name = false) (hs : name.size ≤ maxName) (he : t.at? (name :: dir) = some e)
    (hd : e ≠ .directory) (hl : ∀ target, e ≠ .link target) :
    t.walk aim links dir [name] false = .ok (.taken (name :: dir) e) := by
  have hdir : t.at? dir = some .directory := at?_parent (by rw [he]; simp)
  rw [walk_name _ _ _ _ _ _ hn, if_neg (by simp), if_neg (not_not.2 hdir), if_neg (Nat.not_lt.2 hs), he]
  cases e with
  | directory => exact absurd rfl hd
  | link target => exact absurd rfl (hl target)
  | file c => rfl
  | device d => rfl

/-- induction on the links left, and for each number of them on the names -/
theorem names_induction {motive : Nat → Location → List Text → Prop} (nil : ∀ links dir, motive links dir [])
    (here : ∀ links dir rest, motive links dir rest → motive links dir (['.'] :: rest))
    (up : ∀ links (dir : Location) rest, motive links dir.tail rest → motive links dir (['.', '.'] :: rest))
    (name : ∀ links dir name rest, Path.isDots name = false → (∀ d, motive links d rest) →
      (∀ m, m < links → ∀ d ys, motive m d ys) → motive links dir (name :: rest))
    (links : Nat) (dir : Location) (xs : List Text) : motive links dir xs := by
  induction links using Nat.strongRecOn generalizing dir xs with
  | ind links ihl =>
    induction xs generalizing dir with
    | nil => exact nil links dir
    | cons n rest ih =>
      by_cases hn : Path.isDots n = true
      · rcases Path.isDots_eq_true_iff.1 hn with rfl | rfl
        · exact here links dir rest (ih dir)
        · exact up links dir rest (ih dir.tail)
      · exact name links dir n rest (by simpa using hn) ih fun m hm d ys => ihl m hm d ys

/-! ## Getting through -/

/-- from a directory, with some links to use, names lead to a directory, with some links left -/
inductive Passes (t : FileTree) : Nat → Location → List Text → Nat → Location → Prop
  | done {links : Nat} {dir : Location} : Passes t links dir [] links dir
  | here {links n : Nat} {dir l : Location} {rest : List Text} (h : Passes t links dir rest n l) :
      Passes t links dir (['.'] :: rest) n l
  | up {links n : Nat} {dir l : Location} {rest : List Text} (h : Passes t links dir.tail rest n l) :
      Passes t links dir (['.', '.'] :: rest) n l
  | into {links n : Nat} {dir l : Location} {name : Text} {rest : List Text} (hn : Path.isDots name = false)
      (hs : name.size ≤ maxName) (hd : t.at? (name :: dir) = some .directory) (h : Passes t links (name :: dir) rest n l) :
      Passes t links dir (name :: rest) n l
  | along {links n : Nat} {dir l : Location} {name : Text} {rest : List Text} {target : Path}
      (hn : Path.isDots name = false) (hs : name.size ≤ maxName) (hl : t.at? (name :: dir) = some (.link target))
      (h : Passes t links (dir.afterLink target) (target.names ++ rest) n l) :
      Passes t (links + 1) dir (name :: rest) n l

variable {t : FileTree} {links n : Nat} {dir l : Location} {xs ys : List Text}

theorem walk_of_passes (h : Passes t links dir xs n l) (aim : Aim) (hy : ys ≠ []) (slash : Bool) :
    t.walk aim links dir (xs ++ ys) slash = t.walk aim n l ys slash := by
  induction h with
  | done => rfl
  | here _ ih => exact (walk_here _ _ _ _ _ _).trans ih
  | up _ ih => exact (walk_up _ _ _ _ _ _).trans ih
  | @into links n dir l name rest hn hs hd _ ih =>
    have hr : rest ++ ys ≠ [] := by simp [hy]
    exact (walk_directory _ _ hn hs (.inr hr) hd).trans ih
  | @along links n dir l name rest target hn hs hl _ ih =>
    have hr : rest ++ ys ≠ [] := by simp [hy]
    rw [List.cons_append, walk_link hn hs hl (.inr hr), List.isEmpty_eq_false_iff.2 hr, Bool.false_and, Bool.or_false,
      ← List.append_assoc]
    exact ih

theorem walk_target_of_passes (h : Passes t links dir xs n l) (slash : Bool) :
    t.walk .target links dir xs slash = .ok (.taken l .directory) := by
  induction h generalizing slash with
  | done => exact walk_nil _ _ _ _ _
  | here _ ih => exact (walk_here _ _ _ _ _ _).trans (ih slash)
  | up _ ih => exact (walk_up _ _ _ _ _ _).trans (ih slash)
  | into hn hs hd _ ih => exact (walk_directory _ _ hn hs (.inl (by simp)) hd).trans (ih slash)
  | along hn hs hl _ ih =>
    rw [walk_link hn hs hl (.inl rfl)]
    exact ih _

/-- a walk is stopped inside these names, for one reason whatever comes behind them -/
structure Blocked (t : FileTree) (links : Nat) (dir : Location) (xs : List Text) (e : SystemError) : Prop where
  before : ∀ aim ys slash, ys ≠ [] → t.walk aim links dir (xs ++ ys) slash = .error e
  itself : t.walk .target links dir xs true = .error e ∨
    e = .notFound ∧ ∃ l, t.walk .target links dir xs true = .ok (.vacant l)

/-- a walk that fails at the first name that is not `.` or `..` is stopped there -/
theorem blocked_of_name {name : Text} {rest : List Text} {e : SystemError} (hn : Path.isDots name = false)
    (h : t.at? dir ≠ some .directory ∧ e = .notFound ∨
      t.at? dir = some .directory ∧ maxName < name.size ∧ e = .nameTooLong ∨
      t.at? dir = some .directory ∧ name.size ≤ maxName ∧ t.at? (name :: dir) = none ∧ e = .notFound ∨
      t.at? dir = some .directory ∧ name.size ≤ maxName ∧ e = .notDirectory ∧
        ((∃ c, t.at? (name :: dir) = some (.file c)) ∨ ∃ d, t.at? (name :: dir) = some (.device d))) :
    Blocked t links dir (name :: rest) e := by
  constructor
  · intro aim ys slash hy
    have hr : rest ++ ys ≠ [] := by simp [hy]
    rw [List.cons_append, walk_name _ _ _ _ _ _ hn]
    rcases h with ⟨h1, rfl⟩ | ⟨h1, h2, rfl⟩ | ⟨h1, h2, h3, rfl⟩ | ⟨h1, h2, rfl, ⟨c, h3⟩ | ⟨d, h3⟩⟩
    · simp [hr, h1]
    · simp [hr, h1, h2]
    · simp [hr, h1, Nat.not_lt.2 h2, h3]
    · simp [hr, h1, Nat.not_lt.2 h2, h3]
    · simp [hr, h1, Nat.not_lt.2 h2, h3]
  · rw [walk_name _ _ _ _ _ _ hn]
    rcases h with ⟨h1, rfl⟩ | ⟨h1, h2, rfl⟩ | ⟨h1, h2, h3, rfl⟩ | ⟨h1, h2, rfl, ⟨c, h3⟩ | ⟨d, h3⟩⟩
    · simp [h1]
    · simp [h1, h2]
    · by_cases hr : rest = [] <;> simp [hr, h1, Nat.not_lt.2 h2, h3]
    · simp [h1, Nat.not_lt.2 h2, h3]
    · simp [h1, Nat.not_lt.2 h2, h3]

/-- what stops a walk behind a link stops it in front of the link -/
theorem Blocked.along {name : Text} {rest : List Text} {target : Path} {e : SystemError}
    (hn : Path.isDots name = false) (hs : name.size ≤ maxName) (hl : t.at? (name :: dir) = some (.link target))
    (h : Blocked t links (dir.afterLink target) (target.names ++ rest) e) :
    Blocked t (links + 1) dir (name :: rest) e := by
  constructor
  · intro aim ys slash hy
    have hr : rest ++ ys ≠ [] := by simp [hy]
    rw [List.cons_append, walk_link hn hs hl (.inr hr), List.isEmpty_eq_false_iff.2 hr, Bool.false_and, Bool.or_false,
      ← List.append_assoc]
    exact h.before aim ys slash hy
  · rw [walk_link hn hs hl (.inl rfl), Bool.true_or]
    exact h.itself

theorem blocked_of_last_link {name : Text} {rest : List Text} {target : Path} (hn : Path.isDots name = false)
    (hs : name.size ≤ maxName) (hl : t.at? (name :: dir) = some (.link target)) :
    Blocked t 0 dir (name :: rest) .tooManyLinks := by
  constructor
  · intro aim ys slash hy
    exact walk_link hn hs hl (.inr (by simp [hy])) slash
  · exact .inl (walk_link hn hs hl (.inl rfl) true)

theorem Blocked.here {rest : List Text} {e : SystemError} (h : Blocked t links dir rest e) :
    Blocked t links dir (['.'] :: rest) e :=
  ⟨fun aim ys slash hy => (walk_here _ _ _ _ _ _).trans (h.before aim ys slash hy), by rw [walk_here]; exact h.itself⟩

theorem Blocked.up {rest : List Text} {e : SystemError} (h : Blocked t links dir.tail rest e) :
    Blocked t links dir (['.', '.'] :: rest) e :=
  ⟨fun aim ys slash hy => (walk_up _ _ _ _ _ _).trans (h.before aim ys slash hy), by rw [walk_up]; exact h.itself⟩

theorem Blocked.into {name : Text} {rest : List Text} {e : SystemError} (hn : Path.isDots name = false)
    (hs : name.size ≤ maxName) (hd : t.at? (name :: dir) = some .directory)
    (h : Blocked t links (name :: dir) rest e) : Blocked t links dir (name :: rest) e := by
  constructor
  · intro aim ys slash hy
    exact (walk_directory _ _ hn hs (.inr (by simp [hy])) hd).trans (h.before aim ys slash hy)
  · rw [walk_directory _ _ hn hs (.inl (by simp)) hd]
    exact h.itself

/-- **Through or stopped.** Names get a walk through or stop it, whatever comes behind them. -/
theorem passes_or_blocked (t : FileTree) (links : Nat) (dir : Location) (xs : List Text) :
    (∃ n l, Passes t links dir xs n l) ∨ ∃ e, Blocked t links dir xs e := by
  induction links, dir, xs using names_induction with
  | nil links dir => exact .inl ⟨_, _, .done⟩
  | here links dir rest ih => exact ih.imp (fun ⟨n, l, h⟩ => ⟨n, l, .here h⟩) fun ⟨e, h⟩ => ⟨e, h.here⟩
  | up links dir rest ih => exact ih.imp (fun ⟨n, l, h⟩ => ⟨n, l, .up h⟩) fun ⟨e, h⟩ => ⟨e, h.up⟩
  | name links dir name rest hn ih ihl =>
    by_cases hdir : t.at? dir = some .directory
    case neg => exact .inr ⟨_, blocked_of_name hn (.inl ⟨hdir, rfl⟩)⟩
    by_cases hs : maxName < name.size
    · exact .inr ⟨_, blocked_of_name hn (.inr (.inl ⟨hdir, hs, rfl⟩))⟩
    have hs : name.size ≤ maxName := Nat.not_lt.1 hs
    cases he : t.at? (name :: dir) with
    | none => exact .inr ⟨_, blocked_of_name hn (.inr (.inr (.inl ⟨hdir, hs, he, rfl⟩)))⟩
    | some e =>
      cases e with
      | file c => exact .inr ⟨_, blocked_of_name hn (.inr (.inr (.inr ⟨hdir, hs, rfl, .inl ⟨c, he⟩⟩)))⟩
      | device d => exact .inr ⟨_, blocked_of_name hn (.inr (.inr (.inr ⟨hdir, hs, rfl, .inr ⟨d, he⟩⟩)))⟩
      | directory =>
        exact (ih (name :: dir)).imp (fun ⟨n, l, h⟩ => ⟨n, l, .into hn hs he h⟩) fun ⟨e, h⟩ => ⟨e, h.into hn hs he⟩
      | link target =>
        cases links with
        | zero => exact .inr ⟨_, blocked_of_last_link hn hs he⟩
        | succ m =>
          exact (ihl m (Nat.lt_succ_self m) (dir.afterLink target) (target.names ++ rest)).imp
            (fun ⟨n, l, h⟩ => ⟨n, l, .along hn hs he h⟩) fun ⟨e, h⟩ => ⟨e, h.along hn hs he⟩

/-- a walk that ends in a directory has got through -/
theorem passes_of_walk {slash : Bool} (h : t.walk .target links dir xs slash = .ok (.taken l .directory)) :
    ∃ n, Passes t links dir xs n l := by
  induction links, dir, xs using names_induction generalizing slash with
  | nil links dir =>
    rw [walk_nil, Except.ok.injEq, Place.taken.injEq] at h
    exact ⟨links, h.1 ▸ .done⟩
  | here links dir rest ih =>
    obtain ⟨n, hp⟩ := ih (walk_here _ _ _ _ _ _ ▸ h)
    exact ⟨n, .here hp⟩
  | up links dir rest ih =>
    obtain ⟨n, hp⟩ := ih (walk_up _ _ _ _ _ _ ▸ h)
    exact ⟨n, .up hp⟩
  | name links dir name rest hn ih ihl =>
    rw [walk_name _ _ _ _ _ _ hn] at h
    simp only [reduceCtorEq, and_false, ite_false] at h
    split at h
    · exact absurd h (by simp)
    split at h
    · exact absurd h (by simp)
    next hs =>
    have hs : name.size ≤ maxName := Nat.not_lt.1 hs
    split at h
    · split at h <;> exact absurd h (by simp)
    · next he =>
      obtain ⟨n, hp⟩ := ih _ h
      exact ⟨n, .into hn hs he hp⟩
    · next target he =>
      cases links with
      | zero => exact absurd h (by simp [jump])
      | succ m =>
        obtain ⟨n, hp⟩ := ihl m (Nat.lt_succ_self m) _ _ h
        exact ⟨n, .along hn hs he hp⟩
    · next e hd _ _ =>
      split at h
      · rw [Except.ok.injEq, Place.taken.injEq] at h
        exact absurd h.2 (by simpa using hd)
      · exact absurd h (by simp)

/-! ## Putting walks together -/

theorem Passes.append {n' : Nat} {l' : Location} (h : Passes t links dir xs n l) (h' : Passes t n l ys n' l') :
    Passes t links dir (xs ++ ys) n' l' := by
  induction h with
  | done => exact h'
  | here _ ih => exact .here (ih h')
  | up _ ih => exact .up (ih h')
  | into hn hs hd _ ih => exact .into hn hs hd (ih h')
  | @along links n dir l name rest target hn hs hl _ ih =>
    exact .along hn hs hl ((List.append_assoc target.names rest ys) ▸ ih h')

theorem Passes.unique {n' : Nat} {l' : Location} (h : Passes t links dir xs n l) (h' : Passes t links dir xs n' l') :
    n = n' ∧ l = l' := by
  induction h with
  | done => cases h'; exact ⟨rfl, rfl⟩
  | here _ ih =>
    cases h' with
    | here h' => exact ih h'
    | into hn => simp [Path.isDots] at hn
    | along hn => simp [Path.isDots] at hn
  | up _ ih =>
    cases h' with
    | up h' => exact ih h'
    | into hn => simp [Path.isDots] at hn
    | along hn => simp [Path.isDots] at hn
  | into hn hs hd _ ih =>
    cases h' with
    | here => simp [Path.isDots] at hn
    | up => simp [Path.isDots] at hn
    | into _ _ _ h' => exact ih h'
    | along _ _ hl _ => rw [hd] at hl; exact absurd hl (by simp)
  | along hn hs hl _ ih =>
    cases h' with
    | here => simp [Path.isDots] at hn
    | up => simp [Path.isDots] at hn
    | into _ _ hd _ => rw [hl] at hd; exact absurd hd (by simp)
    | along _ _ hl' h' =>
      rw [hl, Option.some.injEq, Entry.link.injEq] at hl'
      subst hl'
      exact ih h'

theorem Passes.split {n' : Nat} {l' : Location} (h : Passes t links dir (xs ++ ys) n' l') :
    ∃ n l, Passes t links dir xs n l ∧ Passes t n l ys n' l' := by
  by_cases hy : ys = []
  · subst hy
    rw [List.append_nil] at h
    exact ⟨n', l', h, .done⟩
  have hw := walk_target_of_passes h true
  rcases passes_or_blocked t links dir xs with ⟨n, l, hx⟩ | ⟨e, hx⟩
  · rw [walk_of_passes hx _ hy] at hw
    obtain ⟨m, hm⟩ := passes_of_walk hw
    obtain ⟨rfl, -⟩ := (hx.append hm).unique h
    exact ⟨n, l, hx, hm⟩
  · rw [hx.before _ _ _ hy] at hw
    exact absurd hw (by simp)

theorem Blocked.append {e : SystemError} (h : Blocked t links dir xs e) (hy : ys ≠ []) :
    Blocked t links dir (xs ++ ys) e := by
  constructor
  · intro aim zs slash hz
    rw [List.append_assoc]
    exact h.before aim (ys ++ zs) slash (by simp [hy])
  · exact .inl (h.before .target ys true hy)

theorem Passes.blocked {e : SystemError} (h : Passes t links dir xs n l) (hy : ys ≠ []) (hb : Blocked t n l ys e) :
    Blocked t links dir (xs ++ ys) e := by
  constructor
  · intro aim zs slash hz
    rw [List.append_assoc, walk_of_passes h aim (by simp [hy])]
    exact hb.before aim zs slash hz
  · rw [walk_of_passes h .target hy]
    exact hb.itself

theorem Blocked.not_passes {e : SystemError} (h : Blocked t links dir xs e) : ¬ Passes t links dir xs n l := by
  intro hp
  have hw := walk_target_of_passes hp true
  rcases h.itself with hi | ⟨-, k, hi⟩
  · rw [hi] at hw; exact absurd hw (by simp)
  · rw [hi] at hw; exact absurd hw (by simp)

/-- `.` leads nowhere else -/
theorem passes_dots (t : FileTree) (links : Nat) (dir : Location) (m : Nat) :
    Passes t links dir (List.replicate m ['.']) links dir := by
  induction m with
  | zero => exact .done
  | succ m ih => exact .here ih

theorem passes_append_dots {m : Nat} :
    Passes t links dir (xs ++ List.replicate m ['.']) n l ↔ Passes t links dir xs n l := by
  constructor
  · intro h
    obtain ⟨n', l', hx, hd⟩ := h.split
    obtain ⟨rfl, rfl⟩ := hd.unique (passes_dots t n' l' m)
    exact hx
  · exact fun h => h.append (passes_dots t n l m)

theorem at?_up (hd : t.at? dir = some .directory) : t.at? dir.tail = some .directory := by
  cases dir with
  | nil => rfl
  | cons name dir =>
    have hne : t.at? (name :: dir) ≠ none := by rw [hd]; simp
    exact at?_parent hne

theorem at?_afterLink (hd : t.at? dir = some .directory) (target : Path) :
    t.at? (dir.afterLink target) = some .directory := by
  rw [Location.afterLink]
  split
  · rfl
  · exact hd

/-- names that get through from a directory that is there lead to one that is there -/
theorem Passes.at? (h : Passes t links dir xs n l) (hd : t.at? dir = some .directory) : t.at? l = some .directory := by
  induction h with
  | done => exact hd
  | here _ ih => exact ih hd
  | up _ ih => exact ih (at?_up hd)
  | into _ _ hd' _ ih => exact ih hd'
  | along _ _ _ _ ih => exact ih (at?_afterLink hd _)

/-! ## What shows the way -/

/-- `t` has the directories and links of `s` -/
def Keeps (s t : FileTree) : Prop := ∀ k e, s.at? k = some e → e.IsWay → t.at? k = some e

theorem Keeps.refl (s : FileTree) : Keeps s s := fun _ _ h _ => h

theorem Keeps.trans {s t u : FileTree} (h : Keeps s t) (h' : Keeps t u) : Keeps s u :=
  fun k e he hw => h' k e (h k e he hw) hw

theorem Keeps.directory {s t : FileTree} (h : Keeps s t) {k : Location} (hk : s.at? k = some .directory) :
    t.at? k = some .directory := h k _ hk (.inl rfl)

theorem Keeps.link {s t : FileTree} (h : Keeps s t) {k : Location} {target : Path}
    (hk : s.at? k = some (.link target)) : t.at? k = some (.link target) := h k _ hk (.inr ⟨target, rfl⟩)

theorem Passes.keep {s t : FileTree} (hst : Keeps s t) (h : Passes s links dir xs n l) : Passes t links dir xs n l := by
  induction h with
  | done => exact .done
  | here _ ih => exact .here ih
  | up _ ih => exact .up ih
  | into hn hs hd _ ih => exact .into hn hs (hst.directory hd) ih
  | along hn hs hl _ ih => exact .along hn hs (hst.link hl) ih

/-! ## Where a walk ends -/

theorem walk_entry_slash (t : FileTree) (links : Nat) (dir : Location) (xs : List Text) :
    t.walk .entry links dir xs true = t.walk .target links dir xs true := by
  induction links, dir, xs using names_induction with
  | nil links dir => rw [walk_nil, walk_nil]
  | here links dir rest ih => rw [walk_here, walk_here, ih]
  | up links dir rest ih => rw [walk_up, walk_up, ih]
  | name links dir name rest hn ih ihl =>
    have hjump : ∀ d ys, t.jump .entry links d ys true = t.jump .target links d ys true := by
      intro d ys
      cases links with
      | zero => rfl
      | succ m => exact ihl m (Nat.lt_succ_self m) d ys
    simp only [walk_name _ _ _ _ _ _ hn, reduceCtorEq, Bool.true_eq_false, false_and, and_false, ite_false, ih,
      Bool.true_or, hjump]

/-- a walk ends at an entry that is there, or at a place where one may be made -/
theorem place_of_walk {aim : Aim} {slash : Bool} {place : Place} (hx : ∀ n ∈ xs, n ≠ [] ∧ '/' ∉ n)
    (h : t.walk aim links dir xs slash = .ok place) :
    (∃ k e, place = .taken k e ∧ (e = .directory ∨ t.at? k = some e ∧ slash = false)) ∨
      ∃ name d, place = .vacant (name :: d) ∧ Path.IsName name ∧ name.size ≤ maxName ∧
        t.at? d = some .directory ∧ t.at? (name :: d) = none := by
  induction links, dir, xs using names_induction generalizing slash with
  | nil links dir =>
    rw [walk_nil, Except.ok.injEq] at h
    exact .inl ⟨_, _, h.symm, .inl rfl⟩
  | here links dir rest ih => exact ih (fun n hn => hx n (List.mem_cons_of_mem _ hn)) (walk_here _ _ _ _ _ _ ▸ h)
  | up links dir rest ih => exact ih (fun n hn => hx n (List.mem_cons_of_mem _ hn)) (walk_up _ _ _ _ _ _ ▸ h)
  | name links dir name rest hn ih ihl =>
    have hrest : ∀ n ∈ rest, n ≠ [] ∧ '/' ∉ n := fun n hn => hx n (List.mem_cons_of_mem _ hn)
    have hname : Path.IsName name := ⟨(hx name List.mem_cons_self).1, (hx name List.mem_cons_self).2, hn⟩
    rw [walk_name _ _ _ _ _ _ hn] at h
    split at h
    · exact absurd h (by simp)
    split at h
    · exact absurd h (by simp)
    next hdir =>
    split at h
    · exact absurd h (by simp)
    next hs =>
    split at h
    · next he =>
      split at h
      · rw [Except.ok.injEq] at h
        exact .inr ⟨name, dir, h.symm, hname, Nat.not_lt.1 hs, by simpa using hdir, he⟩
      · exact absurd h (by simp)
    · exact ih _ hrest h
    · next target he =>
      split at h
      · next hc =>
        rw [Except.ok.injEq] at h
        exact .inl ⟨_, _, h.symm, .inr ⟨he, hc.2.1⟩⟩
      · cases links with
        | zero => exact absurd h (by simp [jump])
        | succ m =>
          have hnames : ∀ n ∈ target.names ++ rest, n ≠ [] ∧ '/' ∉ n := by
            intro n hn
            rcases List.mem_append.1 hn with hn | hn
            · exact Path.mem_names hn
            · exact hrest n hn
          rcases ihl m (Nat.lt_succ_self m) _ _ hnames h with ⟨k, e, hp, he'⟩ | hv
          · refine .inl ⟨k, e, hp, he'.imp id fun he' => ⟨he'.1, ?_⟩⟩
            simpa using (Bool.or_eq_false_iff.1 he'.2).1
          · exact .inr hv
    · next e _ _ he =>
      split at h
      · next hc =>
        rw [Except.ok.injEq] at h
        exact .inl ⟨_, _, h.symm, .inr ⟨he, hc.2⟩⟩
      · exact absurd h (by simp)

end FileTree
end BranchRender
