/-
ORDERED MAPS: finite maps kept as one list of entries in ascending order of the keys.

- Names are ordered by code points, hence by UTF-8 bytes: listing a map from names needs no further sorting.
- Equal maps are equal lists (`ext_get?`), so a map may be printed, compared and searched through its entries alone.

Main statements: `get?_insert`, `get?_filter`, `get?_eq_some_iff`, `ext_get?`, `get?_ofList` (of two entries for one key
the later one stays).
-/
import BranchRender.Text

namespace BranchRender

/-- entries in strictly ascending order of their keys -/
structure OrderedMap (κ α : Type) [LT κ] where
  entries : List (κ × α)
  ascending : entries.Pairwise fun a b => a.1 < b.1

/-- maps from names -/
abbrev NameMap (α : Type) := OrderedMap Text α

namespace OrderedMap

section

variable {κ α : Type} [LT κ]

instance [DecidableEq κ] [DecidableEq α] : DecidableEq (OrderedMap κ α) := fun m n =>
  decidable_of_iff (m.entries = n.entries) ⟨fun h => by cases m; cases n; simp_all, fun h => by rw [h]⟩

def empty : OrderedMap κ α := ⟨[], .nil⟩

instance : Inhabited (OrderedMap κ α) := ⟨empty⟩

/-- the keys, in ascending order -/
def keys (m : OrderedMap κ α) : List κ := m.entries.map (·.1)

def isEmpty (m : OrderedMap κ α) : Bool := m.entries.isEmpty

/-- the entries of the keys that `p` admits -/
def filter (p : κ → Bool) (m : OrderedMap κ α) : OrderedMap κ α :=
  ⟨m.entries.filter fun e => p e.1, m.ascending.filter _⟩

end

/-! ## Looking up -/

section

variable {κ α : Type} [DecidableEq κ]

/-- the value of `k` in a list of entries -/
def lookup (k : κ) : List (κ × α) → Option α
  | [] => none
  | (k', v) :: r => if k = k' then some v else lookup k r

theorem lookup_filter (p : κ → Bool) (k : κ) (l : List (κ × α)) :
    lookup k (l.filter fun e => p e.1) = if p k then lookup k l else none := by
  induction l with
  | nil => simp [lookup]
  | cons a l ih =>
    by_cases hk : k = a.1
    · subst hk
      by_cases hp : p a.1 <;> simp [lookup, hp, ih]
    · by_cases hp : p a.1 <;> simp [lookup, hp, ih, hk]

variable [LT κ]

def get? (m : OrderedMap κ α) (k : κ) : Option α := lookup k m.entries

def contains (m : OrderedMap κ α) (k : κ) : Bool := (m.get? k).isSome

@[simp] theorem get?_empty (k : κ) : (empty : OrderedMap κ α).get? k = none := rfl

theorem get?_filter (p : κ → Bool) (m : OrderedMap κ α) (k : κ) :
    (m.filter p).get? k = if p k then m.get? k else none := lookup_filter p k m.entries

end

/-! ## Inserting -/

section

variable {κ α : Type} [DecidableEq κ] [LT κ] [DecidableLT κ]

/-- an ascending list of entries with `k` set to `v` -/
def insertEntry (k : κ) (v : α) : List (κ × α) → List (κ × α)
  | [] => [(k, v)]
  | (k', v') :: r =>
    if k < k' then (k, v) :: (k', v') :: r
    else if k = k' then (k, v) :: r
    else (k', v') :: insertEntry k v r

theorem mem_insertEntry {k : κ} {v : α} {l : List (κ × α)} {e : κ × α} (h : e ∈ insertEntry k v l) :
    e = (k, v) ∨ e ∈ l := by
  induction l with
  | nil => simpa [insertEntry] using h
  | cons a l ih =>
    rw [insertEntry] at h
    split at h
    · simpa using h
    · split at h
      · rcases List.mem_cons.1 h with h | h
        · exact .inl h
        · exact .inr (List.mem_cons_of_mem _ h)
      · rcases List.mem_cons.1 h with h | h
        · exact .inr (h ▸ List.mem_cons_self)
        · exact (ih h).imp id (List.mem_cons_of_mem _)

theorem lookup_insertEntry (k k' : κ) (v : α) (l : List (κ × α)) :
    lookup k' (insertEntry k v l) = if k' = k then some v else lookup k' l := by
  induction l with
  | nil => simp [insertEntry, lookup]
  | cons a l ih =>
    rw [insertEntry]
    split
    · simp [lookup]
    · split
      · next he => subst he; by_cases h : k' = a.1 <;> simp [lookup, h]
      · next he =>
        by_cases h : k' = a.1
        · simp [lookup, h, Ne.symm he]
        · simp [lookup, h, ih]

variable [LE κ] [Std.LawfulOrderLT κ] [Std.IsLinearOrder κ]

theorem insertEntry_ascending (k : κ) (v : α) {l : List (κ × α)} (h : l.Pairwise fun a b => a.1 < b.1) :
    (insertEntry k v l).Pairwise fun a b => a.1 < b.1 := by
  induction l with
  | nil => simp [insertEntry]
  | cons a l ih =>
    rw [List.pairwise_cons] at h
    rw [insertEntry]
    split
    · next hk =>
      refine List.pairwise_cons.2 ⟨fun b hb => ?_, List.pairwise_cons.2 h⟩
      rcases List.mem_cons.1 hb with hb | hb
      · exact hb ▸ hk
      · exact Std.lt_trans hk (h.1 b hb)
    · next hk =>
      split
      · next he => exact List.pairwise_cons.2 ⟨fun b hb => he ▸ h.1 b hb, h.2⟩
      · next he =>
        refine List.pairwise_cons.2 ⟨fun b hb => ?_, ih h.2⟩
        rcases mem_insertEntry hb with hb | hb
        · exact hb ▸ Std.lt_of_le_of_ne (Std.not_lt.1 hk) (Ne.symm he)
        · exact h.1 b hb

def insert (m : OrderedMap κ α) (k : κ) (v : α) : OrderedMap κ α :=
  ⟨insertEntry k v m.entries, insertEntry_ascending k v m.ascending⟩

/-- the map of these pairs; a later pair takes the place of an earlier one of the same key -/
def ofList (l : List (κ × α)) : OrderedMap κ α := l.foldl (fun m e => m.insert e.1 e.2) empty

theorem get?_insert (m : OrderedMap κ α) (k k' : κ) (v : α) :
    (m.insert k v).get? k' = if k' = k then some v else m.get? k' :=
  lookup_insertEntry k k' v m.entries

theorem get?_foldl_insert (l : List (κ × α)) (m : OrderedMap κ α) (k : κ) :
    (l.foldl (fun m e => m.insert e.1 e.2) m).get? k = (lookup k l.reverse).or (m.get? k) := by
  induction l generalizing m with
  | nil => rfl
  | cons e l ih =>
    have hl : lookup k (l.reverse ++ [e]) = (lookup k l.reverse).or (if k = e.1 then some e.2 else none) := by
      induction l.reverse with
      | nil => simp [lookup]
      | cons a r ihr => by_cases h : k = a.1 <;> simp [lookup, h, ihr]
    rw [List.foldl_cons, ih, List.reverse_cons, hl, get?_insert]
    cases lookup k l.reverse <;> by_cases h : k = e.1 <;> simp [h]

/-- the value of a key is that of its last pair -/
theorem get?_ofList (l : List (κ × α)) (k : κ) : (ofList l).get? k = lookup k l.reverse := by
  rw [ofList, get?_foldl_insert]
  cases lookup k l.reverse <;> rfl

/-! ## Equality -/

omit [DecidableLT κ] [Std.IsLinearOrder κ] in
theorem lookup_eq_none {k : κ} {l : List (κ × α)} (h : ∀ e ∈ l, k < e.1) : lookup k l = none := by
  induction l with
  | nil => rfl
  | cons a l ih =>
    have hk : k ≠ a.1 := fun e => Std.lt_irrefl (by simpa [← e] using h a List.mem_cons_self)
    simp [lookup, hk, ih fun e he => h e (List.mem_cons_of_mem _ he)]

omit [DecidableLT κ] [Std.IsLinearOrder κ] in
theorem lookup_eq_some_iff {k : κ} {v : α} {l : List (κ × α)} (h : l.Pairwise fun a b => a.1 < b.1) :
    lookup k l = some v ↔ (k, v) ∈ l := by
  induction l with
  | nil => simp [lookup]
  | cons a l ih =>
    rw [List.pairwise_cons] at h
    obtain ⟨k', v'⟩ := a
    by_cases hk : k = k'
    · subst hk
      have hl : (k, v) ∉ l := fun he => Std.lt_irrefl (h.1 (k, v) he)
      simp [lookup, hl, eq_comm]
    · simp [lookup, hk, ih h.2]

omit [DecidableLT κ] in
theorem entries_eq_of_lookup {l l' : List (κ × α)} (hl : l.Pairwise fun a b => a.1 < b.1)
    (hl' : l'.Pairwise fun a b => a.1 < b.1) (h : ∀ k, lookup k l = lookup k l') : l = l' := by
  induction l generalizing l' with
  | nil =>
    cases l' with
    | nil => rfl
    | cons b l' => simpa [lookup] using h b.1
  | cons a l ih =>
    cases l' with
    | nil => simpa [lookup] using h a.1
    | cons b l' =>
      rw [List.pairwise_cons] at hl hl'
      have hab : a.1 = b.1 := by
        by_cases hlt : a.1 < b.1
        · have := h a.1
          rw [lookup_eq_none (l := b :: l')] at this
          · simp [lookup] at this
          · intro e he
            rcases List.mem_cons.1 he with he | he
            · exact he ▸ hlt
            · exact Std.lt_trans hlt (hl'.1 e he)
        · by_cases hlt' : b.1 < a.1
          · have := h b.1
            rw [lookup_eq_none (l := a :: l)] at this
            · simp [lookup] at this
            · intro e he
              rcases List.mem_cons.1 he with he | he
              · exact he ▸ hlt'
              · exact Std.lt_trans hlt' (hl.1 e he)
          · exact Std.le_antisymm (Std.not_lt.1 hlt') (Std.not_lt.1 hlt)
      have hv : a = b := by
        have := h a.1
        simp only [lookup, ite_true, hab] at this
        exact Prod.ext hab (by simpa using this)
      subst hv
      have hr : ∀ k, lookup k l = lookup k l' := by
        intro k
        by_cases hk : k = a.1
        · rw [lookup_eq_none (fun e he => hk ▸ hl.1 e he), lookup_eq_none (fun e he => hk ▸ hl'.1 e he)]
        · have := h k
          simpa [lookup, hk] using this
      rw [ih hl.2 hl'.2 hr]

omit [DecidableLT κ] [Std.IsLinearOrder κ] in
theorem get?_eq_some_iff {m : OrderedMap κ α} {k : κ} {v : α} : m.get? k = some v ↔ (k, v) ∈ m.entries :=
  lookup_eq_some_iff m.ascending

omit [DecidableLT κ] in
/-- two maps with the same values are the same map -/
theorem ext_get? {m n : OrderedMap κ α} (h : ∀ k, m.get? k = n.get? k) : m = n := by
  have := entries_eq_of_lookup m.ascending n.ascending h
  cases m; cases n; simp_all

end

end OrderedMap
end BranchRender
