/-
FAULTS: where a template stops being one, and how.

- `FaultAt` says what stands where filling stops: a placeholder without a name, one that names an undefined field, or a
  brace that is not closed on its line. It is said of the text from the brace on, and no text has two of them
  (`faultAt_unique`): a fault is what becomes of the first piece of that text.
- A text splits up to its first broken placeholder, and fills up to that or to the first field that is not defined. So what
  stands in front of a fault fills by itself, and decides its position; nothing further on has a say in it
  (`exists_faultAt`).

Main statements: `faultAt_unique`, `render_behind`, `exists_faultAt`, `fault_stands_behind_filled`.
-/
import BranchRender.Proofs.Grammar

namespace BranchRender.Template

variable {b : Binding} {n t u v : Text} {ts : List Token} {p : Nat} {fault fault' : TemplateFault}

/-! ## Faulty placeholders -/

/-- the text starts with a placeholder that cannot be filled, `p` bytes from the start of the template -/
inductive FaultAt (b : Binding) (p : Nat) : Text → TemplateFault → Prop
  | empty (t : Text) : FaultAt b p ('{' :: '}' :: t) (.emptyFieldName p)
  | undefined {n : Text} (t : Text) (hn : IsFieldName n) (hb : b.get? n = none) :
    FaultAt b p ('{' :: n ++ '}' :: t) (.undefinedField n p)
  | unmatched {t : Text} (ht : Unclosed t) : FaultAt b p ('{' :: t) (.unmatchedBrace p)

theorem FaultAt.position (h : FaultAt b p v fault) : fault.position = p := by
  cases h <;> rfl

theorem FaultAt.head (h : FaultAt b p v fault) : v.head? = some '{' := by
  cases h <;> rfl

theorem Broken.faultAt (h : Broken v) (b : Binding) (p : Nat) : ∃ fault, FaultAt b p v fault := by
  cases h with
  | empty t => exact ⟨_, .empty t⟩
  | unclosed ht => exact ⟨_, .unmatched ht⟩

theorem FaultAt.fillFrom (h : FaultAt b p v fault) : fillFrom b p (pieces v) = .error fault := by
  cases h with
  | empty t => rfl
  | @undefined n t hn hb =>
    have hpieces : pieces ('{' :: n ++ '}' :: t) = .field n :: pieces t := by
      simpa [Token.source, Token.piece] using pieces_source_append (x := .field n hn) (t := t) (by simp)
    rw [hpieces, Template.fillFrom, Piece.fill, hb]
  | unmatched ht =>
    obtain ⟨text, ps, hpieces⟩ := pieces_unclosed ht
    rw [hpieces]
    rfl

theorem faultAt_unique (h : FaultAt b p v fault) (h' : FaultAt b p v fault') : fault = fault' :=
  Except.error.inj (h.fillFrom.symm.trans h'.fillFrom)

/-! ## In front of a fault -/

/-- a template fails at a fault, if all tokens in front of it stand for something -/
theorem render_behind (hu : Splits u ts) (hall : ∀ x ∈ ts, x.meaning b ≠ none) (hv : FaultAt b u.size v fault) :
    render b (u ++ v) = .error fault := by
  obtain ⟨s, hs⟩ := fillFrom_of_meanings hall 0
  have hsize : 0 + Text.size ((ts.map Token.piece).flatMap Piece.source) = u.size := by
    rw [← pieces_of_splits hu, source_pieces, Nat.zero_add]
  rw [render, pieces_append_of_splits hu (by simp [hv.head]), fillFrom_append, hs, hsize]
  simp only [hv.fillFrom]
  rfl

/-- tokens stand for something up to the first field that is not defined -/
theorem splits_defined (b : Binding) (h : Splits t ts) : (∀ x ∈ ts, x.meaning b ≠ none) ∨
    ∃ u ts' n t', t = u ++ ('{' :: n ++ '}' :: t') ∧ Splits u ts' ∧ (∀ x ∈ ts', x.meaning b ≠ none) ∧
      IsFieldName n ∧ b.get? n = none := by
  induction h with
  | nil => exact .inl (by simp)
  | @cons x t ts hx _ ih =>
    cases hm : x.meaning b with
    | none =>
      cases x with
      | field n hn => exact .inr ⟨[], [], n, t, by simp [Token.source], .nil, by simp, hn, hm⟩
      | _ => exact absurd hm (by simp [Token.meaning])
    | some m =>
      have hmeaning : x.meaning b ≠ none := by simp [hm]
      rcases ih with hall | ⟨u, ts', n, t', rfl, hu, hall, hn, hb⟩
      · exact .inl (List.forall_mem_cons.2 ⟨hmeaning, hall⟩)
      · exact .inr ⟨x.source ++ u, x :: ts', n, t', by simp, .cons_of_append hx hu,
          List.forall_mem_cons.2 ⟨hmeaning, hall⟩, hn, hb⟩

/-- where a template fails there is a fault, and all tokens in front of it stand for something -/
theorem exists_faultAt (h : render b t = .error fault) : ∃ u ts v, t = u ++ v ∧ Splits u ts ∧
    (∀ x ∈ ts, x.meaning b ≠ none) ∧ FaultAt b u.size v fault := by
  have hsame : ∀ {u ts v fault'}, t = u ++ v → Splits u ts → (∀ x ∈ ts, x.meaning b ≠ none) →
      FaultAt b u.size v fault' → FaultAt b u.size v fault := by
    rintro u ts v fault' rfl hu hall hv
    rwa [Except.error.inj (h.symm.trans (render_behind hu hall hv))]
  obtain ⟨u, ts, v, ht, hu, hv⟩ := splitsInFront t
  rcases splits_defined b hu with hall | ⟨u', ts', n, t', hu', hsplits, hall, hn, hb⟩
  · rcases hv with rfl | hv
    · obtain ⟨s, hs⟩ := fillFrom_of_meanings hall 0
      rw [ht, List.append_nil, render, pieces_of_splits hu, hs] at h
      exact absurd h (by simp)
    · obtain ⟨fault', hfault⟩ := hv.faultAt b u.size
      exact ⟨u, ts, v, ht, hu, hall, hsame ht hu hall hfault⟩
  · have ht' : t = u' ++ ('{' :: n ++ '}' :: (t' ++ v)) := by
      rw [ht, hu']
      simp
    exact ⟨u', ts', _, ht', hsplits, hall, hsame ht' hsplits hall (.undefined _ hn hb)⟩

/-! ## The first fault -/

theorem FaultAt.empty_iff (h : FaultAt b p v fault) : fault = .emptyFieldName p ↔ ['{', '}'] <+: v := by
  constructor
  · rintro rfl
    cases h with
    | empty t => exact ⟨t, rfl⟩
  · rintro ⟨t, rfl⟩
    exact faultAt_unique h (.empty t)

/-- the text starts with a placeholder that names an undefined field -/
theorem FaultAt.undefined_iff (h : FaultAt b p v fault) (n : Text) : fault = .undefinedField n p ↔
    '{' :: n ++ ['}'] <+: v ∧ IsFieldName n ∧ b.get? n = none := by
  constructor
  · rintro rfl
    cases h with
    | undefined t hn hb => exact ⟨⟨t, by simp⟩, hn, hb⟩
  · rintro ⟨⟨t, rfl⟩, hn, hb⟩
    exact faultAt_unique h (by simpa using FaultAt.undefined t hn hb)

theorem FaultAt.unmatched_iff (h : FaultAt b p v fault) : fault = .unmatchedBrace p ↔
    v.tail.head? ≠ some '{' ∧ '}' ∉ v.takeWhile (· ≠ '\n') := by
  constructor
  · rintro rfl
    cases h with
    | unmatched ht => exact ⟨ht.single, by simpa using ht.onLine⟩
  · rintro ⟨hsingle, hline⟩
    obtain ⟨t, rfl⟩ := List.head?_eq_some_iff.1 h.head
    have ht : Unclosed t := ⟨hsingle, by simpa using hline⟩
    exact faultAt_unique h (.unmatched ht)

/-- **Where and why a template fails.** It fails at a brace in front of which it fills, by itself. The fault has the size of
that text for its position, and is decided by what stands from the brace on: a placeholder without a name, one that names an
undefined field, or no closing brace on the line. -/
theorem fault_stands_behind_filled (h : render b t = .error fault) :
    ∃ u v, t = u ++ v ∧ fault.position = u.size ∧ v.head? = some '{' ∧ (∃ s, render b u = .ok s) ∧
      (fault = .emptyFieldName fault.position ↔ ['{', '}'] <+: v) ∧
      (∀ n, fault = .undefinedField n fault.position ↔ '{' :: n ++ ['}'] <+: v ∧ IsFieldName n ∧ b.get? n = none) ∧
      (fault = .unmatchedBrace fault.position ↔ v.tail.head? ≠ some '{' ∧ '}' ∉ v.takeWhile (· ≠ '\n')) := by
  obtain ⟨u, ts, v, ht, hu, hall, hv⟩ := exists_faultAt h
  have hfills : ∃ s, render b u = .ok s := by
    rw [render, pieces_of_splits hu]
    exact fillFrom_of_meanings hall 0
  rw [hv.position]
  exact ⟨u, v, ht, rfl, hv.head, hfills, hv.empty_iff, hv.undefined_iff, hv.unmatched_iff⟩

/-- a brace that is not closed on its line, behind a character of two bytes, braces written twice and a field: what the next
line closes does not count -/
theorem unclosed_behind_wide_character :
    let b : Binding := OrderedMap.ofList [("a".toList, "\x7b".toList)]
    let t := "é\x7b\x7b\x7ba\x7d\x7bb\n\x7d".toList
    render b t = .error (.unmatchedBrace 7) ∧
      ∃ u v, t = u ++ v ∧ 7 = Text.size u ∧ v.head? = some '{' ∧ ∃ s, render b u = .ok s := by
  intro b t
  have h : render b t = .error (.unmatchedBrace 7) := rfl
  obtain ⟨u, v, ht, hp, hv, hu, -⟩ := fault_stands_behind_filled h
  exact ⟨h, u, v, ht, hp, hv, hu⟩

end BranchRender.Template
