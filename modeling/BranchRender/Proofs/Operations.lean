/-
OPERATIONS: what one operation leaves of a file system, and what a plan may leave that is stopped.

- Nothing is below an entry that is no directory, so taking one out (`drop`) changes nothing else, and moving one changes
  the two places (`at?_move`).
- Putting an entry in place of a file or of nothing (`put`) keeps the directories and links; walks go on as before.
- Trees that differ only in files have the same ways (`SameWays`), and paths name the same in them.
- A plan that is stopped has stopped in its first part, or behind it (`mayStop_bind`).

Main statements: `at?_drop`, `at?_move`, `keeps_put`, `sameWays_of_at?`, `mayStop_bind`.
-/
import Mathlib.Tactic.ByContra
import BranchRender.FileSystem.Plan
import BranchRender.Proofs.Lookups

namespace BranchRender

namespace FileTree

/-! ## Leaves -/

theorem directory_of_below {t : FileTree} {l k : Location} (hk : t.at? k ≠ none) (hs : l <:+ k) (hne : l ≠ k) :
    t.at? l = some .directory := by
  induction k with
  | nil => exact absurd (List.suffix_nil.1 hs) hne
  | cons name dir ih =>
    have hdir := at?_parent hk
    rcases List.suffix_cons_iff.1 hs with h | h
    · exact absurd h hne
    · by_cases he : l = dir
      · rw [he]; exact hdir
      · exact ih (by rw [hdir]; simp) h he

theorem at?_erase_leaf {t : FileTree} {l : Location} (hd : t.at? l ≠ some .directory) (k : Location) :
    (t.erase l).at? k = if k = l then none else t.at? k := by
  have hl : l ≠ [] := fun h => hd (by rw [h]; rfl)
  rw [at?_erase t hl]
  by_cases hk : k = l
  · simp [hk]
  · rw [if_neg hk]
    split
    · next hs =>
      by_contra hn
      exact hd (directory_of_below (Ne.symm hn) hs (Ne.symm hk))
    · rfl

theorem bare_of_vacant {t : FileTree} {l : Location} (h : t.at? l = none) (x : Text) : t.at? (x :: l) = none := by
  by_contra hn
  rw [at?_parent hn] at h
  exact absurd h (by simp)

end FileTree

namespace FileSystem

open FileTree (Keeps)

variable {fs fs' : FileSystem} {p q : Path} {l k : Location} {e : Entry}

/-- file systems with the same view and the same working directory are equal -/
theorem ext_at? (hc : fs.cwd = fs'.cwd) (h : ∀ k, fs.tree.at? k = fs'.tree.at? k) : fs = fs' := by
  cases fs; cases fs'
  simp only [mk.injEq]
  exact ⟨FileTree.ext_at? h, hc⟩

@[simp] theorem tree_withTree (fs : FileSystem) (t : FileTree) : (fs.withTree t).tree = t := rfl

/-! ## Putting and dropping -/

/-- with `e` at `l` -/
def put (fs : FileSystem) (l : Location) (e : Entry) : FileSystem := fs.withTree (fs.tree.insert l e)

def drop (fs : FileSystem) (l : Location) : FileSystem := fs.withTree (fs.tree.erase l)

theorem at?_put (h : fs.tree.Admits l) (e : Entry) (k : Location) :
    (fs.put l e).tree.at? k = if k = l then some e else fs.tree.at? k := FileTree.at?_insert h e k

theorem at?_drop (h : fs.tree.at? l ≠ some .directory) (k : Location) :
    (fs.drop l).tree.at? k = if k = l then none else fs.tree.at? k := FileTree.at?_erase_leaf h k

theorem put_self (he : fs.tree.at? l = some e) : fs.put l e = fs := by
  by_cases h : fs.tree.Admits l
  · refine ext_at? rfl ?_
    intro k
    rw [at?_put h]
    split
    · next hk => rw [hk, he]
    · rfl
  · rw [put, FileTree.insert_of_not_admits h]
    rfl

theorem admits_put (h : fs.tree.Admits l) (hd : e ≠ .directory) : (fs.put l e).tree.Admits l := by
  have hne : l.tail ≠ l := by
    intro ht
    have := congrArg List.length ht
    rw [List.length_tail] at this
    have := List.length_pos_iff.2 h.1
    omega
  refine ⟨h.1, ?_, ?_, h.2.2.2⟩
  · rw [at?_put h, if_neg hne]; exact h.2.1
  · rw [at?_put h, if_pos rfl]; simpa using hd

theorem put_put (h : fs.tree.Admits l) {e' : Entry} (hd : e ≠ .directory) :
    (fs.put l e).put l e' = fs.put l e' := by
  refine ext_at? rfl ?_
  intro k
  rw [at?_put (admits_put h hd), at?_put h, at?_put h]
  split <;> rfl

/-- putting something where nothing shows the way keeps directories and links -/
theorem keeps_put (h : ∀ e', fs.tree.at? l = some e' → ¬ e'.IsWay) (e : Entry) : Keeps fs.tree (fs.put l e).tree := by
  intro k e' he hw
  by_cases ha : fs.tree.Admits l
  · have hk : k ≠ l := fun hk => h e' (hk ▸ he) hw
    rw [at?_put ha, if_neg hk, he]
  · rw [put, FileTree.insert_of_not_admits ha]
    exact he

/-- what shows no way brings no directories or links -/
theorem kept_by_put (hw : ¬ e.IsWay) : Keeps (fs.put l e).tree fs.tree := by
  intro k e' he hw'
  by_cases ha : fs.tree.Admits l
  · rw [at?_put ha] at he
    split at he
    · rw [Option.some.injEq] at he
      exact absurd (he ▸ hw') hw
    · exact he
  · rw [put, FileTree.insert_of_not_admits ha] at he
    exact he

/-! ## The same ways -/

/-- the same directories and links, seen from the same directory -/
structure SameWays (fs s : FileSystem) : Prop where
  cwd : s.cwd = fs.cwd
  keeps : Keeps fs.tree s.tree
  kept : Keeps s.tree fs.tree

theorem SameWays.refl (fs : FileSystem) : fs.SameWays fs := ⟨rfl, .refl _, .refl _⟩

theorem SameWays.symm (h : fs.SameWays fs') : fs'.SameWays fs := ⟨h.cwd.symm, h.kept, h.keeps⟩

theorem SameWays.names (h : fs.SameWays fs') : fs'.Names p l ↔ fs.Names p l :=
  ⟨fun hn => hn.keep h.kept h.cwd.symm, fun hn => hn.keep h.keeps h.cwd⟩

/-- trees that differ only where neither shows the way have the same ways -/
theorem sameWays_of_at? (hc : fs'.cwd = fs.cwd) (h : ∀ k, fs'.tree.at? k = fs.tree.at? k ∨
    (∀ e, fs.tree.at? k = some e → ¬ e.IsWay) ∧ ∀ e, fs'.tree.at? k = some e → ¬ e.IsWay) : fs.SameWays fs' := by
  refine ⟨hc, ?_, ?_⟩
  · intro k e he hw
    rcases h k with hk | ⟨hk, -⟩
    · rw [hk, he]
    · exact absurd hw (hk e he)
  · intro k e he hw
    rcases h k with hk | ⟨-, hk⟩
    · rw [← hk, he]
    · exact absurd hw (hk e he)

/-! ## Moving -/

theorem at?_move {t : FileTree} {l l' : Location} {e : Entry} (he : t.at? l = some e) (hd : e ≠ .directory)
    (ha : t.Admits l') (k : Location) :
    (move t l e l').at? k = if k = l' then some e else if k = l then none else t.at? k := by
  have hl : t.at? l ≠ some .directory := by rw [he]; simpa using hd
  unfold move
  split
  · next hll =>
    subst hll
    split
    · next hk => rw [hk, he]
    · rfl
  · next hll =>
    have ha' : (t.erase l).Admits l' := by
      refine ⟨ha.1, ?_, ?_, ha.2.2.2⟩
      · have hne : l'.tail ≠ l := fun h => hl (h ▸ ha.2.1)
        rw [FileTree.at?_erase_leaf hl, if_neg hne]
        exact ha.2.1
      · rw [FileTree.at?_erase_leaf hl, if_neg (Ne.symm hll)]
        exact ha.2.2.1
    rw [FileTree.at?_insert ha', FileTree.at?_erase_leaf hl]

/-! ## Answers -/

theorem perform_makeDirectory (h : fs.newLocation p none = .ok l) :
    fs.perform (.makeDirectory p) = (.ok (), fs.put l .directory) := by
  simp only [perform, h]
  rfl

theorem perform_makeDirectory_error {fault : IoFault} (h : fs.newLocation p none = .error fault) :
    fs.perform (.makeDirectory p) = (.error fault, fs) := by simp only [perform, h]

theorem perform_remove (h : fs.movable p = .ok (l, e)) : fs.perform (.remove p) = (.ok (), fs.drop l) := by
  simp only [perform, h]
  rfl

theorem perform_remove_error {fault : IoFault} (h : fs.movable p = .error fault) :
    fs.perform (.remove p) = (.error fault, fs) := by simp only [perform, h]

theorem perform_rename (h : fs.movable p = .ok (l, e)) (h' : fs.destination q = .ok k) :
    fs.perform (.rename p q) = (.ok (), fs.withTree (move fs.tree l e k)) := by simp only [perform, h, h']

theorem perform_rename_error {fault : IoFault} (h : fs.movable p = .ok (l, e)) (h' : fs.destination q = .error fault) :
    fs.perform (.rename p q) = (.error fault, fs) := by simp only [perform, h, h']

/-- a removal takes one entry that is no directory, or nothing -/
theorem remove_cases (fs : FileSystem) (p : Path) : (fs.perform (.remove p)).2 = fs ∨
    ∃ l e, fs.Names p l ∧ fs.tree.at? l = some e ∧ e ≠ .directory ∧ (fs.perform (.remove p)).2 = fs.drop l := by
  cases h : fs.movable p with
  | error fault => rw [perform_remove_error h]; exact .inl rfl
  | ok r =>
    obtain ⟨l, e⟩ := r
    obtain ⟨hn, he, hd, -⟩ := movable_iff.1 h
    rw [perform_remove h]
    exact .inr ⟨l, e, hn, he, hd, rfl⟩

end FileSystem

/-! ## Stops -/

namespace Plan

variable {α β : Type} {fs s : FileSystem}

/-- a plan is stopped in its first part, or behind it -/
theorem mayStop_bind {x : Plan α} {f : α → Plan β} :
    (x >>= f).MayStop fs s ↔ x.MayStop fs s ∨ (f (x.run fs).1).MayStop (x.run fs).2 s := by
  show (x.andThen f).MayStop fs s ↔ _
  induction x generalizing fs with
  | done a =>
    refine ⟨.inr, ?_⟩
    rintro (h | h)
    · rw [show s = fs from h]
      exact mayStop_before _ _
    · exact h
  | look next ih => exact ih fs
  | step c next ih =>
    show _ ∨ _ ↔ (_ ∨ _) ∨ _
    rw [ih]
    exact or_assoc.symm

theorem mayStop_observe {f : FileSystem → α} {next : α → Plan β} :
    (observe f >>= next).MayStop fs s ↔ (next (f fs)).MayStop fs s := Iff.rfl

theorem mayStop_change {c : Change α} : (change c).MayStop fs s ↔ MayBreak c fs s ∨ s = (fs.perform c).2 := Iff.rfl

end Plan
end BranchRender
