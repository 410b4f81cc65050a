/-
LOOK-UPS: what a path names, as the operations on a file system see it.

- `Reaches` is the walk to the directory a path's last name stands in. Where a path does not get that far, every
  look-up of it fails for the same reason (`reaches_or_fails`).
- `Names` says that a path names a location, be there an entry or not. What is looked up, moved or made goes by it
  (`locate_of_names`, `movable_iff`, `destination_iff`, `newLocation_iff`).
- Both hold on in a tree that keeps the directories and links (`Reaches.keep`, `Names.keep`).

Main statements: `reaches_or_fails`, `lastOf_iff`, `locate_of_names`, `Names.keep`.
-/
import Mathlib.Tactic.ByContra
import BranchRender.FileSystem.Change
import BranchRender.Proofs.Walks

namespace BranchRender.FileSystem

open FileTree (Aim Place Passes Blocked Keeps maxLinks maxName maxPath)

variable {fs fs' : FileSystem} {p : Path} {n : Nat} {dir l : Location} {name : Text}

/-! ## The way to the last name -/

/-- the last name of a path stands in `dir`, and a walk to there leaves `n` links to use -/
def Reaches (fs : FileSystem) (p : Path) (n : Nat) (dir : Location) (name : Text) : Prop :=
  ∃ start xs, fs.boundedStart p = .ok start ∧ p.names = xs ++ [name] ∧ Passes fs.tree maxLinks start xs n dir

theorem locate_of_reaches (h : fs.Reaches p n dir name) (aim : Aim) :
    fs.locate aim p = (fs.tree.walk aim n dir [name] p.endsInSlash).mapError .system := by
  obtain ⟨start, xs, hs, hx, hp⟩ := h
  rw [locate, hs, hx]
  simp only [FileTree.walk_of_passes hp aim (List.cons_ne_nil name []) p.endsInSlash]

theorem walk_of_locate {aim : Aim} {place : Place} (h : fs.Reaches p n dir name) (hl : fs.locate aim p = .ok place) :
    fs.tree.walk aim n dir [name] p.endsInSlash = .ok place := by
  rw [locate_of_reaches h] at hl
  exact mapError_eq_ok.1 hl

theorem lastOf_of_reaches (h : fs.Reaches p n dir name) :
    fs.lastOf p = .ok (dir, if Path.isDots name then none else some name) := by
  obtain ⟨start, xs, hs, hx, hp⟩ := h
  have hlast : p.names.getLast? = some name := by rw [hx]; simp
  have hinit : p.names.dropLast = xs := by rw [hx]; simp
  simp only [lastOf, hs, FileTree.lastOf, hlast, hinit, FileTree.walk_target_of_passes hp true, Except.mapError]

/-- **Got to or not.** A path gets to the directory of its last name, or every look-up of it fails for one reason. -/
theorem reaches_or_fails (fs : FileSystem) (p : Path) :
    (∃ n dir name, fs.Reaches p n dir name) ∨
      (∃ e, fs.lastOf p = .error e ∧ ∀ aim, fs.locate aim p = .error e) ∨
      p.names = [] ∧ ∃ start, fs.boundedStart p = .ok start ∧ fs.lastOf p = .ok (start, none) ∧
        ∀ aim, fs.locate aim p = .ok (.taken start .directory) := by
  cases hs : fs.boundedStart p with
  | error e => exact .inr (.inl ⟨e, by simp [lastOf, hs], fun aim => by simp [locate, hs]⟩)
  | ok start =>
    rcases List.eq_nil_or_concat p.names with hx | ⟨xs, name, hx⟩
    · refine .inr (.inr ⟨hx, start, rfl, ?_, ?_⟩)
      · simp [lastOf, hs, FileTree.lastOf, hx, Except.mapError]
      · intro aim
        simp [locate, hs, hx, FileTree.walk_nil, Except.mapError]
    · rw [List.concat_eq_append] at hx
      have hlast : p.names.getLast? = some name := by rw [hx]; simp
      have hinit : p.names.dropLast = xs := by rw [hx]; simp
      rcases FileTree.passes_or_blocked fs.tree maxLinks start xs with ⟨n, dir, hp⟩ | ⟨e, hb⟩
      · exact .inl ⟨n, dir, name, start, xs, hs, hx, hp⟩
      · refine .inr (.inl ⟨.system e, ?_, ?_⟩)
        · rcases hb.itself with hi | ⟨rfl, l, hi⟩ <;>
            simp [lastOf, hs, FileTree.lastOf, hlast, hinit, hi, Except.mapError]
        · intro aim
          rw [locate, hs, hx]
          simp only [hb.before aim [name] p.endsInSlash (List.cons_ne_nil name []), Except.mapError]

theorem lastOf_iff : fs.lastOf p = .ok (dir, some name) ↔ (∃ n, fs.Reaches p n dir name) ∧ Path.isDots name = false := by
  constructor
  · intro h
    rcases reaches_or_fails fs p with ⟨n, d, nm, hr⟩ | ⟨e, he, -⟩ | ⟨-, start, -, he, -⟩
    · rw [lastOf_of_reaches hr, Except.ok.injEq, Prod.mk.injEq] at h
      by_cases hd : Path.isDots nm = true
      · simp [hd] at h
      · simp only [hd, Bool.false_eq_true, ite_false, Option.some.injEq] at h
        obtain ⟨rfl, rfl⟩ := h
        exact ⟨⟨n, hr⟩, by simpa using hd⟩
    · rw [he] at h; exact absurd h (by simp)
    · rw [he] at h; exact absurd h (by simp)
  · rintro ⟨⟨n, hr⟩, hd⟩
    rw [lastOf_of_reaches hr]
    simp [hd]

theorem Reaches.isName (h : fs.Reaches p n dir name) (hd : Path.isDots name = false) : Path.IsName name := by
  obtain ⟨start, xs, -, hx, -⟩ := h
  exact Path.isName_of_mem_names (p := p) (by rw [hx]; simp) hd

theorem boundedStart_eq (hc : fs'.cwd = fs.cwd) (p : Path) : fs'.boundedStart p = fs.boundedStart p := by
  simp [boundedStart, start, hc]

theorem start_of_boundedStart {start : Location} (h : fs.boundedStart p = .ok start) :
    start = if p.isAbsolute then [] else fs.cwd := by
  unfold boundedStart FileSystem.start at h
  (repeat' split at h) <;> simp_all

/-- the system starts from a path that is there, has no NUL and is not too long -/
theorem boundedStart_eq_ok {start : Location} : fs.boundedStart p = .ok start ↔
    '\x00' ∉ p ∧ p ≠ [] ∧ Text.size p < maxPath ∧ start = if p.isAbsolute then [] else fs.cwd := by
  unfold boundedStart FileSystem.start
  by_cases hnul : '\x00' ∈ p
  · simp [hnul]
  · by_cases hsize : maxPath ≤ Text.size p
    · simp [hnul, hsize, Nat.not_lt.2 hsize]
    · by_cases hp : p = []
      · simp [hp, maxPath]
      · by_cases ha : p.isAbsolute = true <;> simp [hnul, hsize, hp, ha, Nat.lt_of_not_le hsize, eq_comm]

theorem Reaches.keep (hk : Keeps fs.tree fs'.tree) (hc : fs'.cwd = fs.cwd) (h : fs.Reaches p n dir name) :
    fs'.Reaches p n dir name := by
  obtain ⟨start, xs, hs, hx, hp⟩ := h
  exact ⟨start, xs, (boundedStart_eq hc p).trans hs, hx, hp.keep hk⟩

/-! ## The location a path names -/

/-- the path names the location, in a directory that is there and by a name that is not too long -/
def Names (fs : FileSystem) (p : Path) (l : Location) : Prop :=
  ∃ dir name, fs.lastOf p = .ok (dir, some name) ∧ fs.inDirectory dir name = .ok l

theorem inDirectory_iff : fs.inDirectory dir name = .ok l ↔
    fs.tree.at? dir = some .directory ∧ name.size ≤ maxName ∧ l = name :: dir := by
  unfold inDirectory
  split
  · simp [*]
  · split
    · simp only [reduceCtorEq, false_iff, not_and]
      omega
    · next h1 h2 => simp [not_not.1 h1, Nat.not_lt.1 h2, eq_comm]

theorem names_iff : fs.Names p l ↔ ∃ n dir name, fs.Reaches p n dir name ∧ Path.isDots name = false ∧
    fs.tree.at? dir = some .directory ∧ name.size ≤ maxName ∧ l = name :: dir := by
  constructor
  · rintro ⟨dir, name, hl, hi⟩
    obtain ⟨⟨n, hr⟩, hd⟩ := lastOf_iff.1 hl
    obtain ⟨h1, h2, h3⟩ := inDirectory_iff.1 hi
    exact ⟨n, dir, name, hr, hd, h1, h2, h3⟩
  · rintro ⟨n, dir, name, hr, hd, h1, h2, h3⟩
    exact ⟨dir, name, lastOf_iff.2 ⟨⟨n, hr⟩, hd⟩, inDirectory_iff.2 ⟨h1, h2, h3⟩⟩

theorem Names.unique {l' : Location} (h : fs.Names p l) (h' : fs.Names p l') : l = l' := by
  obtain ⟨dir, name, hl, hi⟩ := h
  obtain ⟨dir', name', hl', hi'⟩ := h'
  rw [hl, Except.ok.injEq, Prod.mk.injEq, Option.some.injEq] at hl'
  obtain ⟨rfl, rfl⟩ := hl'
  rw [hi, Except.ok.injEq] at hi'
  exact hi'

theorem Names.keep (hk : Keeps fs.tree fs'.tree) (hc : fs'.cwd = fs.cwd) (h : fs.Names p l) : fs'.Names p l := by
  obtain ⟨n, dir, name, hr, hd, h1, h2, h3⟩ := names_iff.1 h
  exact names_iff.2 ⟨n, dir, name, hr.keep hk hc, hd, hk.directory h1, h2, h3⟩

/-- a location that is named has a directory, and a name of its own -/
theorem Names.tail (h : fs.Names p l) :
    l ≠ [] ∧ fs.tree.at? l.tail = some .directory ∧ ∀ name ∈ l.head?, Path.IsName name := by
  obtain ⟨n, dir, name, hr, hd, h1, -, rfl⟩ := names_iff.1 h
  refine ⟨List.cons_ne_nil _ _, h1, ?_⟩
  rintro _ ⟨⟩
  exact hr.isName hd

theorem Names.admits (h : fs.Names p l) (hl : fs.tree.at? l ≠ some .directory) : fs.tree.Admits l :=
  ⟨h.tail.1, h.tail.2.1, hl, h.tail.2.2⟩

theorem locate_of_names (h : fs.Names p l) (hs : p.endsInSlash = false) (aim : Aim) :
    (fs.tree.at? l = none → fs.locate aim p = .ok (.vacant l)) ∧
      ∀ e, fs.tree.at? l = some e → (aim = .entry ∨ ∀ target, e ≠ .link target) →
        fs.locate aim p = .ok (.taken l e) := by
  obtain ⟨n, dir, name, hr, hd, h1, h2, rfl⟩ := names_iff.1 h
  rw [locate_of_reaches hr, FileTree.walk_name _ _ _ _ _ _ hd]
  simp only [hs, Bool.false_eq_true, false_and, and_false, ite_false, h1, ne_eq, not_true_eq_false, Nat.not_lt.2 h2]
  refine ⟨fun he => by simp [he, Except.mapError], ?_⟩
  intro e he haim
  cases e with
  | file c => simp [he, Except.mapError]
  | device d => simp [he, Except.mapError]
  | directory => simp [he, FileTree.walk_nil, Except.mapError]
  | link target =>
    have haim : aim = .entry := haim.resolve_right fun h => h target rfl
    simp [he, haim, Except.mapError]

theorem walk_eq_of_locate {aim : Aim} {place : Place} (h : fs.locate aim p = .ok place) :
    ∃ start, fs.boundedStart p = .ok start ∧ fs.tree.walk aim maxLinks start p.names p.endsInSlash = .ok place := by
  unfold locate at h
  split at h
  · exact absurd h (by simp)
  · next start hs => exact ⟨start, hs, mapError_eq_ok.1 h⟩

theorem locate_of_find {aim : Aim} {e : Entry} (h : fs.find aim p = .ok (l, e)) :
    fs.locate aim p = .ok (.taken l e) := by
  unfold find at h
  split at h
  · exact absurd h (by simp)
  · next k e' hl =>
    obtain ⟨rfl, rfl⟩ := Prod.mk.inj (Except.ok.inj h)
    exact hl
  · exact absurd h (by simp)

theorem walk_of_find {aim : Aim} {e : Entry} (h : fs.find aim p = .ok (l, e)) : ∃ start, fs.boundedStart p = .ok start ∧
    fs.tree.walk aim maxLinks start p.names p.endsInSlash = .ok (.taken l e) := walk_eq_of_locate (locate_of_find h)

theorem at?_of_locate {aim : Aim} {e : Entry} (h : fs.locate aim p = .ok (.taken l e)) (hd : e ≠ .directory) :
    fs.tree.at? l = some e ∧ p.endsInSlash = false := by
  obtain ⟨start, -, hw⟩ := walk_eq_of_locate h
  rcases FileTree.place_of_walk (fun n hn => Path.mem_names hn) hw with ⟨k, e', hk, he⟩ | ⟨_, _, hk, -⟩
  · obtain ⟨rfl, rfl⟩ : l = k ∧ e = e' := by simpa using hk
    exact he.resolve_left hd
  · exact absurd hk (by simp)

theorem at?_of_find {aim : Aim} {e : Entry} (h : fs.find aim p = .ok (l, e)) (hd : e ≠ .directory) :
    fs.tree.at? l = some e := (at?_of_locate (locate_of_find h) hd).1

theorem vacant_of_locate {aim : Aim} (h : fs.locate aim p = .ok (.vacant l)) : l ≠ [] ∧
    fs.tree.at? l.tail = some .directory ∧ (∀ name ∈ l.head?, Path.IsName name) ∧ fs.tree.at? l = none := by
  obtain ⟨start, -, hw⟩ := walk_eq_of_locate h
  rcases FileTree.place_of_walk (fun n hn => Path.mem_names hn) hw with ⟨_, _, hk, -⟩ | ⟨nm, d, hk, h1, -, h2, h3⟩
  · exact absurd hk (by simp)
  · obtain rfl : l = nm :: d := by simpa using hk
    refine ⟨List.cons_ne_nil _ _, h2, ?_, h3⟩
    rintro _ ⟨⟩
    exact h1

theorem find_of_lstat {e : Entry} (h : fs.lstat p = .ok e) : ∃ l, fs.find .entry p = .ok (l, e) := by
  obtain ⟨⟨l, e'⟩, hf, rfl⟩ := map_eq_ok.1 h
  exact ⟨l, hf⟩

theorem lstat_of_names {e : Entry} (h : fs.Names p l) (hs : p.endsInSlash = false) (he : fs.tree.at? l = some e) :
    fs.lstat p = .ok e := by
  simp [lstat, find, (locate_of_names h hs .entry).2 e he (.inl rfl), Except.map]

theorem isLink_of_names {target : Path} (h : fs.Names p l) (hs : p.endsInSlash = false)
    (he : fs.tree.at? l = some (.link target)) : fs.isLink p = true := by
  simp [isLink, lstat_of_names h hs he]

/-- a path that leads anywhere names a location, if its last name is one -/
theorem names_of_locate {aim : Aim} {place : Place} (h : fs.locate aim p = .ok place) {xs : List Text}
    (hx : p.names = xs ++ [name]) (hd : Path.isDots name = false) : ∃ l, fs.Names p l := by
  rcases reaches_or_fails fs p with ⟨n, dir, nm, hr⟩ | ⟨e, -, he⟩ | ⟨he, -⟩
  · have hnm : nm = name := by
      obtain ⟨start, ys, -, hy, -⟩ := hr
      have := hy.symm.trans hx
      simpa using (List.append_inj' this rfl).2
    subst hnm
    rw [locate_of_reaches hr, FileTree.walk_name _ _ _ _ _ _ hd] at h
    refine ⟨nm :: dir, names_iff.2 ⟨n, dir, nm, hr, hd, ?_, ?_, rfl⟩⟩
    · by_contra hc
      split at h <;> simp [Except.mapError] at h
    · by_contra hc
      simp only [Nat.lt_of_not_le hc] at h
      split at h
      · simp [Except.mapError] at h
      · split at h <;> simp [Except.mapError] at h
  · rw [he] at h; exact absurd h (by simp)
  · rw [he] at hx; simp at hx

theorem names_of_isLink (h : fs.isLink p = true) :
    ∃ l target, fs.Names p l ∧ fs.tree.at? l = some (.link target) ∧ p.endsInSlash = false := by
  obtain ⟨l, target, hl⟩ : ∃ l target, fs.locate .entry p = .ok (.taken l (.link target)) := by
    unfold isLink at h
    split at h
    · next target hl =>
      obtain ⟨l, hf⟩ := find_of_lstat hl
      exact ⟨l, target, locate_of_find hf⟩
    · exact absurd h (by simp)
  have hs := (at?_of_locate hl (by simp)).2
  rcases reaches_or_fails fs p with ⟨n, dir, nm, hr⟩ | ⟨e, -, he⟩ | ⟨-, start, -, -, he⟩
  · have hw := walk_of_locate hr hl
    have hd : Path.isDots nm = false := by
      by_contra hd
      rcases Path.isDots_eq_true_iff.1 (by simpa using hd) with rfl | rfl
      · rw [FileTree.walk_here, FileTree.walk_nil] at hw; simp at hw
      · rw [FileTree.walk_up, FileTree.walk_nil] at hw; simp at hw
    obtain ⟨start, xs, -, hx, -⟩ := hr
    obtain ⟨k, hn⟩ := names_of_locate hl hx hd
    obtain ⟨hvacant, htaken⟩ := locate_of_names hn hs .entry
    cases he : fs.tree.at? k with
    | none => rw [hvacant he] at hl; exact absurd hl (by simp)
    | some e =>
      rw [htaken e he (.inl rfl), Except.ok.injEq, Place.taken.injEq] at hl
      exact ⟨k, target, hn, hl.2 ▸ he, hs⟩
  · rw [he] at hl; exact absurd hl (by simp)
  · rw [he] at hl; exact absurd hl (by simp)

/-! ## What the operations go by -/

/-- what is done with the location a path names -/
def named {β : Type} (fs : FileSystem) (p : Path) (fault : IoFault) (g : Location → Except IoFault β) :
    Except IoFault β := do
  match ← fs.lastOf p with
  | (_, none) => .error fault
  | (dir, some name) => g (← fs.inDirectory dir name)

theorem named_eq_ok {β : Type} {fault : IoFault} {g : Location → Except IoFault β} {b : β} :
    fs.named p fault g = .ok b ↔ ∃ l, fs.Names p l ∧ g l = .ok b := by
  unfold named
  rw [bind_eq_ok]
  constructor
  · rintro ⟨⟨dir, _ | name⟩, hl, h⟩
    · exact absurd h (by simp)
    · obtain ⟨l, hi, hg⟩ := bind_eq_ok.1 h
      exact ⟨l, ⟨dir, name, hl, hi⟩, hg⟩
  · rintro ⟨l, ⟨dir, name, hl, hi⟩, hg⟩
    exact ⟨(dir, some name), hl, bind_eq_ok.2 ⟨l, hi, hg⟩⟩

theorem movable_iff {e : Entry} : fs.movable p = .ok (l, e) ↔
    fs.Names p l ∧ fs.tree.at? l = some e ∧ e ≠ .directory ∧ p.endsInSlash = false := by
  have hnamed : fs.movable p = fs.named p (.system .busy) _ := rfl
  rw [hnamed, named_eq_ok]
  constructor
  · rintro ⟨k, hn, hk⟩
    split at hk
    · exact absurd hk (by simp)
    · exact absurd hk (by simp)
    · next e' hd he =>
      split at hk
      · exact absurd hk (by simp)
      · next hs =>
        obtain ⟨rfl, rfl⟩ := Prod.mk.inj (Except.ok.inj hk)
        exact ⟨hn, he, hd, by simpa using hs⟩
  · rintro ⟨hn, he, hd, hs⟩
    refine ⟨l, hn, ?_⟩
    cases e with
    | directory => exact absurd rfl hd
    | _ => simp [he, hs]

theorem destination_iff : fs.destination p = .ok l ↔
    fs.Names p l ∧ p.endsInSlash = false ∧ fs.tree.at? l ≠ some .directory := by
  have hnamed : fs.destination p = fs.named p (.system .busy) fun l =>
      if p.endsInSlash then .error (.system .notDirectory)
      else if fs.tree.at? l = some .directory then .error (.system .isDirectory) else .ok l := rfl
  rw [hnamed, named_eq_ok]
  constructor
  · rintro ⟨k, hn, hk⟩
    split at hk
    · exact absurd hk (by simp)
    · next hs =>
      split at hk
      · exact absurd hk (by simp)
      · next hd =>
        obtain rfl : k = l := Except.ok.inj hk
        exact ⟨hn, by simpa using hs, hd⟩
  · rintro ⟨hn, hs, hd⟩
    exact ⟨l, hn, by simp [hs, hd]⟩

theorem newLocation_iff : fs.newLocation p none = .ok l ↔ fs.Names p l ∧ fs.tree.at? l = none := by
  have hnamed : fs.newLocation p none = fs.named p (.system .alreadyExists) fun l =>
      if fs.tree.at? l ≠ none then .error (.system .alreadyExists) else .ok l := rfl
  rw [hnamed, named_eq_ok]
  constructor
  · rintro ⟨k, hn, hk⟩
    split at hk
    · exact absurd hk (by simp)
    · next he =>
      obtain rfl : k = l := Except.ok.inj hk
      exact ⟨hn, by simpa using he⟩
  · rintro ⟨hn, he⟩
    exact ⟨l, hn, by simp [he]⟩

/-- where an empty file is put: a place with nothing or a file in it, in a directory that is there -/
theorem newFile_ok {written : Bool} (h : fs.newFile p = .ok (l, written)) :
    l ≠ [] ∧ fs.tree.at? l.tail = some .directory ∧ (∀ name ∈ l.head?, Path.IsName name) ∧
      (written = true ∧ (fs.tree.at? l = none ∨ ∃ c, fs.tree.at? l = some (.file c)) ∨
        written = false ∧ ∃ d, fs.tree.at? l = some (.device d)) := by
  have hthere : ∀ e, fs.tree.at? l = some e → e ≠ .directory →
      l ≠ [] ∧ fs.tree.at? l.tail = some .directory ∧ ∀ name ∈ l.head?, Path.IsName name := by
    intro e he hd
    cases l with
    | nil => rw [FileTree.at?_root, Option.some.injEq] at he; exact absurd he.symm hd
    | cons nm d =>
      have hne : fs.tree.at? (nm :: d) ≠ none := by rw [he]; simp
      refine ⟨List.cons_ne_nil _ _, FileTree.at?_parent hne, ?_⟩
      rintro _ ⟨⟩
      exact FileTree.isName_of_at? hne _ List.mem_cons_self
  unfold newFile at h
  split at h
  · exact absurd h (by simp)
  · next k hl =>
    obtain ⟨rfl, rfl⟩ := Prod.mk.inj (Except.ok.inj h)
    obtain ⟨h1, h2, h3, h4⟩ := vacant_of_locate hl
    exact ⟨h1, h2, h3, .inl ⟨rfl, .inl h4⟩⟩
  · next k c hl =>
    obtain ⟨rfl, rfl⟩ := Prod.mk.inj (Except.ok.inj h)
    have he := (at?_of_locate hl (by simp)).1
    obtain ⟨h1, h2, h3⟩ := hthere _ he (by simp)
    exact ⟨h1, h2, h3, .inl ⟨rfl, .inr ⟨c, he⟩⟩⟩
  · next k d hl =>
    obtain ⟨rfl, rfl⟩ := Prod.mk.inj (Except.ok.inj h)
    have he := (at?_of_locate hl (by simp)).1
    obtain ⟨h1, h2, h3⟩ := hthere _ he (by simp)
    exact ⟨h1, h2, h3, .inr ⟨rfl, d, he⟩⟩
  · exact absurd h (by simp)

end BranchRender.FileSystem
