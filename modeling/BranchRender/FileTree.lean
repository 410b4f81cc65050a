/-
FILE TREES: the directories, files, links and devices there are.

- A `Location` is the way from an entry up to the root, its own name first; the root is the empty location and always a
  directory.
- `FileTree.at?` is the view: the entry at a location. Whatever has an entry stands in a directory under a name of its
  own, so a tree never holds an entry that no walk from the root can reach.
- `insert` puts an entry into a directory, in place of anything but a directory. `erase` takes out a location and all
  below it.

Main statements: `at?_insert`, `at?_erase`, `ext_at?` (trees with the same view are equal).
-/
import BranchRender.OrderedMap
import BranchRender.Path

namespace BranchRender

/-- the names from an entry up to the root -/
abbrev Location := List Text

instance : LE Location := List.instLE

instance : Std.LawfulOrderLT Location := List.instLawfulOrderLTOfAsymmLt

instance : Std.IsLinearOrder Location := List.instIsLinearOrder

/-- what stands in a directory like a file but keeps nothing -/
inductive Device
  /-- takes everything -/
  | null
  /-- has no room -/
  | full
  deriving DecidableEq, Repr

/-- what may be at a location -/
inductive Entry
  | file (contents : List UInt8)
  | directory
  | link (target : Path)
  | device (d : Device)
  deriving DecidableEq, Repr

/-- the entries below the root -/
structure FileTree where
  below : OrderedMap Location Entry
  nested : ∀ l, below.get? l ≠ none → l ≠ [] ∧ (l.tail = [] ∨ below.get? l.tail = some .directory)
  named : ∀ l, below.get? l ≠ none → ∀ name ∈ l.head?, Path.IsName name

namespace FileTree

instance : DecidableEq FileTree := fun s t =>
  decidable_of_iff (s.below = t.below) ⟨fun h => by cases s; cases t; simp_all, fun h => by rw [h]⟩

/-- nothing but the root -/
def empty : FileTree :=
  ⟨.empty, fun _ h => absurd (OrderedMap.get?_empty _) h, fun _ h => absurd (OrderedMap.get?_empty _) h⟩

/-! ## The view -/

/-- the entry at a location -/
def at? (t : FileTree) : Location → Option Entry
  | [] => some .directory
  | l => t.below.get? l

@[simp] theorem at?_root (t : FileTree) : t.at? [] = some .directory := rfl

theorem at?_of_ne {t : FileTree} {l : Location} (h : l ≠ []) : t.at? l = t.below.get? l := by
  cases l with
  | nil => exact absurd rfl h
  | cons => rfl

theorem at?_tail (t : FileTree) (l : Location) : t.at? l.tail = some .directory ↔
    l.tail = [] ∨ t.below.get? l.tail = some .directory := by
  by_cases h : l.tail = []
  · simp [h]
  · simp [h, at?_of_ne h]

theorem at?_parent {t : FileTree} {name : Text} {dir : Location} (h : t.at? (name :: dir) ≠ none) :
    t.at? dir = some .directory :=
  (t.at?_tail (name :: dir)).2 (t.nested (name :: dir) h).2

theorem isName_of_at? {t : FileTree} {l : Location} (h : t.at? l ≠ none) : ∀ name ∈ l, Path.IsName name := by
  induction l with
  | nil => simp
  | cons name dir ih =>
    intro n hn
    rcases List.mem_cons.1 hn with rfl | hn
    · exact t.named (n :: dir) h n rfl
    · exact ih (by rw [at?_parent h]; simp) n hn

/-- trees with the same view are equal -/
theorem ext_at? {s t : FileTree} (h : ∀ l, s.at? l = t.at? l) : s = t := by
  have hb : s.below = t.below := by
    refine OrderedMap.ext_get? fun l => ?_
    cases l with
    | nil =>
      have hn : ∀ u : FileTree, u.below.get? [] = none := fun u =>
        Decidable.not_not.1 fun h => (u.nested [] h).1 rfl
      rw [hn s, hn t]
    | cons a l => exact h (a :: l)
  cases s; cases t; simp_all

/-! ## Inserting -/

/-- an entry may be put at `l`: there is a directory for it, and a name, and no directory in its place -/
def Admits (t : FileTree) (l : Location) : Prop :=
  l ≠ [] ∧ t.at? l.tail = some .directory ∧ t.at? l ≠ some .directory ∧ ∀ name ∈ l.head?, Path.IsName name

instance (t : FileTree) (l : Location) : Decidable (t.Admits l) := by unfold Admits; infer_instance

theorem insert_nested {t : FileTree} {l : Location} (h : t.Admits l) (e : Entry) (k : Location)
    (hk : (t.below.insert l e).get? k ≠ none) :
    k ≠ [] ∧ (k.tail = [] ∨ (t.below.insert l e).get? k.tail = some .directory) := by
  have htail : ∀ m : Location, m.tail = [] ∨ t.below.get? m.tail = some .directory →
      m.tail = [] ∨ (t.below.insert l e).get? m.tail = some .directory := by
    intro m hm
    refine hm.imp id fun hm => ?_
    have hne : m.tail ≠ l := fun he => h.2.2.1 (by rw [at?_of_ne h.1, ← he, hm])
    rw [OrderedMap.get?_insert, if_neg hne, hm]
  rw [OrderedMap.get?_insert] at hk
  by_cases he : k = l
  · subst he
    exact ⟨h.1, htail k ((t.at?_tail k).1 h.2.1)⟩
  · rw [if_neg he] at hk
    exact ⟨(t.nested k hk).1, htail k (t.nested k hk).2⟩

theorem insert_named {t : FileTree} {l : Location} (h : t.Admits l) (e : Entry) (k : Location)
    (hk : (t.below.insert l e).get? k ≠ none) : ∀ name ∈ k.head?, Path.IsName name := by
  rw [OrderedMap.get?_insert] at hk
  by_cases he : k = l
  · exact he ▸ h.2.2.2
  · rw [if_neg he] at hk
    exact t.named k hk

/-- `t` with `e` at `l`, where that may be put -/
def insert (t : FileTree) (l : Location) (e : Entry) : FileTree :=
  if h : t.Admits l then ⟨t.below.insert l e, insert_nested h e, insert_named h e⟩ else t

theorem at?_insert {t : FileTree} {l : Location} (h : t.Admits l) (e : Entry) (k : Location) :
    (t.insert l e).at? k = if k = l then some e else t.at? k := by
  rw [insert, dif_pos h]
  by_cases hk : k = []
  · simp [hk, Ne.symm h.1]
  · rw [at?_of_ne hk, at?_of_ne hk]
    exact OrderedMap.get?_insert _ _ _ _

theorem insert_of_not_admits {t : FileTree} {l : Location} (h : ¬ t.Admits l) (e : Entry) : t.insert l e = t := by
  rw [insert, dif_neg h]

/-! ## Erasing -/

theorem erase_nested (t : FileTree) (l k : Location) (hk : (t.below.filter fun m => ¬ l <:+ m).get? k ≠ none) :
    k ≠ [] ∧ (k.tail = [] ∨ (t.below.filter fun m => ¬ l <:+ m).get? k.tail = some .directory) := by
  rw [OrderedMap.get?_filter] at hk
  by_cases hs : l <:+ k
  · simp [hs] at hk
  · have ht : ¬ l <:+ k.tail := fun h => hs (h.trans (List.tail_suffix k))
    have hk' : t.below.get? k ≠ none := by simpa [hs] using hk
    refine ⟨(t.nested k hk').1, (t.nested k hk').2.imp id fun h => ?_⟩
    rw [OrderedMap.get?_filter]
    simpa [ht] using h

theorem erase_named (t : FileTree) (l k : Location) (hk : (t.below.filter fun m => ¬ l <:+ m).get? k ≠ none) :
    ∀ name ∈ k.head?, Path.IsName name := by
  rw [OrderedMap.get?_filter] at hk
  refine t.named k fun h => hk ?_
  simp [h]

/-- `t` without `l` and all below it; the root stays -/
def erase (t : FileTree) (l : Location) : FileTree :=
  ⟨t.below.filter fun k => ¬ l <:+ k, erase_nested t l, erase_named t l⟩

theorem at?_erase (t : FileTree) {l : Location} (h : l ≠ []) (k : Location) :
    (t.erase l).at? k = if l <:+ k then none else t.at? k := by
  by_cases hk : k = []
  · simp [hk, h]
  · rw [at?_of_ne hk, at?_of_ne hk, erase, OrderedMap.get?_filter]
    by_cases hs : l <:+ k <;> simp [hs]

end FileTree
end BranchRender
