/-
REFERENCES: the fields a template names are all that filling it depends on.

- The names are found in a pass of its own, which skips faulty placeholders where filling stops. Both go through a text in
  the same steps: the names found are those of the pieces, each where it first occurs (`references_eq`).
- Filling looks up no other name (`fillFrom_congr`), and what it lacks first is the first of them that is not defined
  (`find?_references`).

Main statements: `references_eq`, `nodup_firstOccurrences`, `fillFrom_congr`, `references_decide_render`.
-/
import BranchRender.Proofs.Filling

namespace BranchRender

def Binding.lacks (b : Binding) (f : Text) : Bool := (b.get? f).isNone

namespace Template

variable {b b' : Binding} {ps qs : List Piece} {names : List Text} {name s t : Text}

/-! ## Names of pieces -/

/-- the names of the sound placeholders among `ps`, in order -/
def fieldNames (ps : List Piece) : List Text :=
  ps.filterMap fun
    | .field name => some name
    | _ => none

theorem fieldNames_append (ps qs : List Piece) : fieldNames (ps ++ qs) = fieldNames ps ++ fieldNames qs :=
  List.filterMap_append

theorem mem_fieldNames : name ∈ fieldNames ps ↔ .field name ∈ ps := by
  unfold fieldNames
  rw [List.mem_filterMap]
  constructor
  · rintro ⟨x, hx, he⟩
    cases x with
    | field n => exact Option.some.inj he ▸ hx
    | _ => exact absurd he (by simp)
  · intro h
    exact ⟨.field name, h, rfl⟩

theorem find?_missing_of_sound (h : ∀ y ∈ ps, y.Sound b) : (fieldNames ps).find? b.lacks = none := by
  rw [List.find?_eq_none]
  intro f hf
  have hdefined : b.get? f ≠ none := h _ (mem_fieldNames.1 hf)
  simpa [Binding.lacks] using hdefined

/-! ## First occurrences -/

/-- the members of a list, each where it first occurs -/
def firstOccurrences : List Text → List Text
  | [] => []
  | a :: l => a :: (firstOccurrences l).filter (· ≠ a)

theorem mem_firstOccurrences {l : List Text} : name ∈ firstOccurrences l ↔ name ∈ l := by
  induction l with
  | nil => rfl
  | cons a l ih =>
    rw [firstOccurrences, List.mem_cons, List.mem_cons, List.mem_filter, ih]
    by_cases ha : name = a <;> simp [ha]

theorem nodup_firstOccurrences (l : List Text) : (firstOccurrences l).Nodup := by
  induction l with
  | nil => exact List.nodup_nil
  | cons a l ih =>
    rw [firstOccurrences, List.nodup_cons]
    refine ⟨?_, ih.filter _⟩
    intro ha
    simpa using (List.mem_filter.1 ha).2

theorem filter_ne_filter {q : Text → Bool} {a : Text} (hq : q a = false) (l : List Text) :
    (l.filter (· ≠ a)).filter q = l.filter q := by
  rw [List.filter_filter]
  apply List.filter_congr
  intro x _
  by_cases hx : x = a
  · simp [hx, hq]
  · simp [hx]

/-- the first of some members is the same where each is listed once -/
theorem head?_firstOccurrences (q : Text → Bool) (l : List Text) :
    ((firstOccurrences l).filter q).head? = l.find? q := by
  induction l with
  | nil => rfl
  | cons a l ih =>
    rw [firstOccurrences, List.find?_cons, List.filter_cons]
    cases hq : q a with
    | true => rfl
    | false =>
      simp only [Bool.false_eq_true, ite_false]
      rw [filter_ne_filter hq, ih]

/-! ## Two passes -/

/-- a name that is collected is a first occurrence behind those found so far -/
theorem collect_append (hne : name ≠ []) (names l : List Text) :
    collect names name ++ (firstOccurrences l).filter (· ∉ collect names name) =
      names ++ (firstOccurrences (name :: l)).filter (· ∉ names) := by
  rw [firstOccurrences]
  by_cases hmem : name ∈ names
  · rw [collect, if_pos (.inr hmem), List.filter_cons_of_neg (by simpa using hmem),
      filter_ne_filter (by simpa using hmem)]
  · have hfilter : (firstOccurrences l).filter (· ∉ names ++ [name]) =
        ((firstOccurrences l).filter (· ≠ name)).filter (· ∉ names) := by
      rw [List.filter_filter]
      apply List.filter_congr
      intro x _
      simp [not_or]
    rw [collect, if_neg (not_or.2 ⟨hne, hmem⟩), List.filter_cons_of_pos (by simpa using hmem), hfilter,
      List.append_assoc, List.singleton_append]

/-- the pass for names keeps in step with the cutting into pieces -/
theorem referencesFrom_eq (p : Pending) (names : List Text) (t : Text) : referencesFrom p names t =
    names ++ (firstOccurrences (fieldNames (piecesFrom p t))).filter (· ∉ names) := by
  fun_induction piecesFrom p t generalizing names with
  | case1 => simp [referencesFrom, fieldNames, firstOccurrences]
  | case2 t ih => simpa [referencesFrom, fieldNames] using ih names
  | case3 t ih =>
    cases t with
    | nil => simp [referencesFrom, fieldNames, firstOccurrences, piecesFrom]
    | cons d t => simpa [referencesFrom, fieldNames] using ih names
  | case4 t hopen _ ih =>
    have hstep : referencesFrom none names ('{' :: t) = referencesFrom (some []) names t :=
      referencesFrom.eq_3 names '{' t (fun t' _ ht => hopen t' rfl ht)
    rw [hstep, ih]
  | case5 c t _ _ hc ih =>
    have hstep : referencesFrom none names (c :: t) = referencesFrom none names t := by
      rw [referencesFrom.eq_3 names c t (fun t' hc' _ => hc hc'), if_neg hc]
    rw [hstep, ih]
    rfl
  | case6 acc => simp [referencesFrom, fieldNames, firstOccurrences]
  | case7 acc t ih =>
    rw [referencesFrom, if_pos rfl, ih]
    by_cases hacc : acc = []
    · simp [hacc, collect, fieldNames]
    · have hname := collect_append (List.reverse_ne_nil_iff.2 hacc) names (fieldNames (piecesFrom none t))
      rw [hname, if_neg hacc]
      rfl
  | case8 acc t _ ih =>
    rw [referencesFrom, if_neg (by decide), if_pos rfl, ih]
    rfl
  | case9 acc c t h1 h2 ih => rw [referencesFrom, if_neg h1, if_neg h2, ih]

/-- the names found are those of the pieces -/
theorem references_eq (t : Text) : references t = firstOccurrences (fieldNames (pieces t)) := by
  rw [references, referencesFrom_eq]
  simp [pieces]

theorem mem_references : name ∈ references t ↔ .field name ∈ pieces t := by
  rw [references_eq, mem_firstOccurrences, mem_fieldNames]

/-- the first name that is not defined is that of the first piece that names an undefined field -/
theorem find?_references (q : Text → Bool) (t : Text) :
    (references t).find? q = (fieldNames (pieces t)).find? q := by
  rw [references_eq, ← List.head?_filter]
  exact head?_firstOccurrences q _

/-! ## What filling depends on -/

theorem fill_congr {x : Piece} (h : ∀ name, x = .field name → b.get? name = b'.get? name) (p : Nat) :
    x.fill b p = x.fill b' p := by
  cases x with
  | field name => simp only [Piece.fill, h name rfl]
  | _ => rfl

theorem fillFrom_congr (h : ∀ name, .field name ∈ ps → b.get? name = b'.get? name) (p : Nat) :
    fillFrom b p ps = fillFrom b' p ps := by
  induction ps generalizing p with
  | nil => rfl
  | cons x ps ih =>
    have hx : x.fill b p = x.fill b' p := fill_congr (fun name he => h name (he ▸ List.mem_cons_self)) p
    have hps := fun p => ih (fun name hm => h name (List.mem_cons_of_mem x hm)) p
    rw [fillFrom, fillFrom, hx]
    simp only [hps]

theorem Piece.eq_field_of_fill {x : Piece} {p q : Nat} (h : x.fill b p = .error (.undefinedField name q)) :
    x = .field name ∧ b.lacks name = true := by
  cases fails_of_fill h with
  | undefined hname => exact ⟨rfl, by simp [Binding.lacks, hname]⟩

/-- a template that lacks a field lacks the first of its names that is not defined -/
theorem find?_of_undefined {p : Nat} (h : render b t = .error (.undefinedField name p)) :
    (references t).find? b.lacks = some name := by
  rcases fillFrom_cases b 0 (pieces t) with ⟨-, s, hs⟩ | ⟨before, x, after, fault, hps, hbefore, hx, hfault⟩
  · exact absurd (h.symm.trans hs) (by simp)
  · obtain rfl := Except.error.inj (h.symm.trans hfault)
    obtain ⟨rfl, hlacks⟩ := Piece.eq_field_of_fill hx
    rw [find?_references, hps, fieldNames_append, List.find?_append, find?_missing_of_sound hbefore, Option.none_or]
    exact List.find?_cons_of_pos hlacks

/-- a template whose names are not all defined cannot be filled -/
theorem render_error_of_lacks (hname : name ∈ references t) (hnone : b.get? name = none) :
    ∃ fault, render b t = .error fault := by
  rcases fillFrom_cases b 0 (pieces t) with ⟨hall, -⟩ | ⟨-, -, -, fault, -, -, -, hfault⟩
  · exact absurd hnone (hall _ (mem_references.1 hname))
  · exact ⟨fault, hfault⟩

/-- **The names of a template decide.** Each is listed once. A field that is found missing is the first of them that is not
defined; filling fails if one is not defined, and for no missing field if all are. Two bindings that agree on them fill the
template alike, or fail alike. -/
theorem references_decide_render (b : Binding) (t : Text) :
    (references t).Nodup ∧
    (∀ name p, render b t = .error (.undefinedField name p) → (references t).find? b.lacks = some name) ∧
    ((∃ name ∈ references t, b.get? name = none) → ∃ fault, render b t = .error fault) ∧
    ((∀ name ∈ references t, b.get? name ≠ none) → ∀ name p, render b t ≠ .error (.undefinedField name p)) ∧
    ∀ b' : Binding, (∀ name ∈ references t, b'.get? name = b.get? name) → render b' t = render b t := by
  refine ⟨?_, ?_, ?_, ?_, ?_⟩
  · rw [references_eq]
    exact nodup_firstOccurrences _
  · intro name p h
    exact find?_of_undefined h
  · rintro ⟨name, hname, hnone⟩
    exact render_error_of_lacks hname hnone
  · intro hall name p h
    have hfound := find?_of_undefined h
    have hlacks : b.lacks name = true := List.find?_some hfound
    have hdefined := hall name (List.mem_of_find?_eq_some hfound)
    exact hdefined (by simpa [Binding.lacks] using hlacks)
  · intro b' hagree
    apply fillFrom_congr
    intro name hname
    exact hagree name (mem_references.2 hname)

/-- a placeholder that is not closed on its line, and one without a name, hide nothing behind them -/
example : references "\x7ba\n\x7bb\x7d\x7b\x7d\x7bc\x7d\x7bb\x7d".toList = ["b".toList, "c".toList] := by decide +kernel

end Template
end BranchRender
