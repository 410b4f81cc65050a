/-
WRITING: every document can be written as a template.

- A document is put together from literal texts and values of fields (`Segment`). Written as a template, each brace of a
  literal text stands twice and each field between braces (`written`).
- No closing brace of what is written is left over, so it splits into the tokens that were written, whatever segments meet
  (`splits_of_not_lone`): filling it gives the document back, and its names are those of the segments.
- The field names a configuration admits may be written (`isFieldName_of_isIdentifier`).

Main statements: `splits_written`, `references_written`, `every_document_is_written`.
-/
import BranchRender.Config.Validation
import BranchRender.Proofs.Grammar
import BranchRender.Proofs.References

namespace BranchRender

namespace Template

variable {b : Binding} {n : Text} {ts : List Token}

/-! ## Segments -/

/-- what a document is put together from -/
inductive Segment
  | literal (s : Text)
  | field (name : Text) (h : IsFieldName name)

namespace Segment

/-- braces are written twice, a field between braces -/
def source : Segment → Text
  | .literal s => s.flatMap fun c => if c = '{' ∨ c = '}' then [c, c] else [c]
  | .field n _ => '{' :: n ++ ['}']

/-- what a segment is in the document, where its field is defined -/
def content (b : Binding) : Segment → Text
  | .literal s => s
  | .field n _ => (b.get? n).getD []

def name? : Segment → Option Text
  | .literal _ => none
  | .field n _ => some n

end Segment

/-- a document as a template -/
def written (segs : List Segment) : Text := segs.flatMap Segment.source

def fieldsOf (segs : List Segment) : List Text := segs.filterMap Segment.name?

/-! ## Tokens of a document -/

/-- the token a character of a literal text is written as -/
def Token.ofChar (c : Char) : Token :=
  if h : c = '{' then .opening else if h' : c = '}' then .closing else .single c ⟨h, h'⟩

def Segment.tokens : Segment → List Token
  | .literal s => s.map Token.ofChar
  | .field n h => [.field n h]

theorem Token.source_ofChar (c : Char) : (ofChar c).source = if c = '{' ∨ c = '}' then [c, c] else [c] := by
  unfold ofChar
  split
  · next h => simp [source, h]
  · split
    · next h => simp [source, h]
    · next h h' => simp [source, h, h']

theorem Token.meaning_ofChar (b : Binding) (c : Char) : (ofChar c).meaning b = some [c] := by
  unfold ofChar
  split
  · next h => rw [h]; rfl
  · split
    · next h => rw [h]; rfl
    · rfl

theorem Token.ofChar_ne_lone (c : Char) : ofChar c ≠ .lone := by
  unfold ofChar
  split
  · simp
  · split <;> simp

theorem Token.piece_ofChar_ne (c : Char) (n : Text) : (ofChar c).piece ≠ .field n := by
  unfold ofChar
  split
  · simp [piece]
  · split <;> simp [piece]

theorem Segment.source_eq (seg : Segment) : seg.source = seg.tokens.flatMap Token.source := by
  cases seg with
  | literal s => simp only [source, tokens, List.flatMap_map, Token.source_ofChar]
  | field n h => simp [source, tokens, Token.source]

/-- no token a segment is written as is a closing brace left over -/
theorem Segment.ne_lone {seg : Segment} {x : Token} (h : x ∈ seg.tokens) : x ≠ .lone := by
  cases seg with
  | literal s =>
    obtain ⟨c, -, rfl⟩ := List.mem_map.1 h
    exact Token.ofChar_ne_lone c
  | field n hn =>
    rw [List.mem_singleton.1 h]
    simp

/-- the tokens of a segment stand for its content, where its field is defined -/
theorem Segment.meanings {seg : Segment} (h : ∀ n, seg.name? = some n → b.get? n ≠ none) :
    ∃ ms : List Text, seg.tokens.map (Token.meaning b) = ms.map some ∧ ms.flatten = seg.content b := by
  cases seg with
  | literal s =>
    refine ⟨s.map fun c => [c], ?_, ?_⟩
    · simp [tokens, Token.meaning_ofChar]
    · rw [← List.flatMap_def, List.flatMap_singleton', content]
  | field n hn =>
    obtain ⟨value, hvalue⟩ := Option.ne_none_iff_exists'.1 (h n rfl)
    exact ⟨[value], by simp [tokens, Token.meaning, hvalue], by simp [content, hvalue]⟩

theorem Segment.fieldNames_tokens (seg : Segment) : fieldNames (seg.tokens.map Token.piece) = seg.name?.toList := by
  cases seg with
  | literal s =>
    refine List.eq_nil_iff_forall_not_mem.2 fun n hn => ?_
    rw [mem_fieldNames, tokens, List.map_map] at hn
    obtain ⟨c, -, hc⟩ := List.mem_map.1 hn
    exact Token.piece_ofChar_ne c n hc
  | field n h => rfl

/-! ## What is written splits -/

/-- tokens without a closing brace left over may stand one behind another in any order -/
theorem splits_of_not_lone (h : ∀ x ∈ ts, x ≠ .lone) : Splits (ts.flatMap Token.source) ts := by
  induction ts with
  | nil => exact .nil
  | cons x ts ih =>
    have hx : x ≠ .lone := h x List.mem_cons_self
    exact .cons (fun hlone => absurd hlone hx) (ih fun y hy => h y (List.mem_cons_of_mem x hy))

/-- what is written splits into the tokens of the segments -/
theorem splits_written (segs : List Segment) : Splits (written segs) (segs.flatMap Segment.tokens) := by
  have hsource : written segs = (segs.flatMap Segment.tokens).flatMap Token.source := by
    rw [written, funext Segment.source_eq, List.flatMap_assoc]
  rw [hsource]
  refine splits_of_not_lone ?_
  intro x hx
  obtain ⟨seg, -, hseg⟩ := List.mem_flatMap.1 hx
  exact Segment.ne_lone hseg

/-! ## Documents are written -/

/-- filling what is written gives the document back -/
theorem render_written {segs : List Segment} (h : ∀ n ∈ fieldsOf segs, b.get? n ≠ none) :
    render b (written segs) = .ok (segs.flatMap (Segment.content b)) := by
  rw [render, pieces_of_splits (splits_written segs), fillFrom_tokens]
  induction segs with
  | nil => exact ⟨[], rfl, rfl⟩
  | cons seg segs ih =>
    have hseg : ∀ n, seg.name? = some n → b.get? n ≠ none := by
      intro n hn
      exact h n (List.mem_filterMap.2 ⟨seg, List.mem_cons_self, hn⟩)
    have hsegs : ∀ n ∈ fieldsOf segs, b.get? n ≠ none := by
      intro n hn
      obtain ⟨seg', hmem, hname⟩ := List.mem_filterMap.1 hn
      exact h n (List.mem_filterMap.2 ⟨seg', List.mem_cons_of_mem seg hmem, hname⟩)
    obtain ⟨ms, hms, hcontent⟩ := Segment.meanings hseg
    obtain ⟨ms', hms', hcontent'⟩ := ih hsegs
    refine ⟨ms ++ ms', ?_, ?_⟩
    · rw [List.flatMap_cons, List.map_append, hms, hms', List.map_append]
    · rw [List.flatMap_cons, List.flatten_append, hcontent, hcontent']

/-- the names of what is written are those of the segments -/
theorem references_written (segs : List Segment) : references (written segs) = firstOccurrences (fieldsOf segs) := by
  have hnames : fieldNames ((segs.flatMap Segment.tokens).map Token.piece) = fieldsOf segs := by
    induction segs with
    | nil => rfl
    | cons seg segs ih =>
      rw [List.flatMap_cons, List.map_append, fieldNames_append, seg.fieldNames_tokens, ih, fieldsOf, fieldsOf]
      cases hname : seg.name? <;> simp [hname]
  rw [references_eq, pieces_of_splits (splits_written segs), hnames]

/-! ## Names a configuration admits -/

theorem isNamePart_of_isIdentifier (h : Config.isIdentifier n = true) : ∀ c ∈ n, Config.isNamePart c = true := by
  cases n with
  | nil => exact absurd h (by simp [Config.isIdentifier])
  | cons d n =>
    obtain ⟨hstart, hparts⟩ := Bool.and_eq_true_iff.1 h
    have hd : Config.isNamePart d = true := by
      rw [Config.isNameStart, Bool.or_eq_true] at hstart
      rw [Config.isNamePart, Char.isAlphanum, Bool.or_eq_true, Bool.or_eq_true]
      exact hstart.imp_left .inl
    exact List.forall_mem_cons.2 ⟨hd, List.all_eq_true.1 hparts⟩

theorem isFieldName_of_isIdentifier (h : Config.isIdentifier n = true) : IsFieldName n where
  nonempty := by
    rintro rfl
    exact absurd h (by simp [Config.isIdentifier])
  first := fun hfirst => absurd (isNamePart_of_isIdentifier h _ (List.mem_of_head? hfirst)) (by decide)
  closed := fun hmem => absurd (isNamePart_of_isIdentifier h _ hmem) (by decide)
  oneLine := fun hmem => absurd (isNamePart_of_isIdentifier h _ hmem) (by decide)

/-- **Every document can be written.** It is written as a template that fills with it, under any binding that defines its
fields, and that names its fields, each where it first occurs. The fields of an accepted configuration may all be written. -/
theorem every_document_is_written (segs : List Segment) :
    (∀ b : Binding, (∀ n ∈ fieldsOf segs, b.get? n ≠ none) →
      render b (written segs) = .ok (segs.flatMap (Segment.content b))) ∧
    references (written segs) = firstOccurrences (fieldsOf segs) ∧
    ∀ c : Config, c.violation? = none →
      (∀ m, c.namespaces = some m → ∀ e ∈ m.entries, ∀ n ∈ e.2.keys, IsFieldName n) ∧
      ∀ d, c.defaultBinding = some d → ∀ n ∈ d.keys, IsFieldName n := by
  refine ⟨fun b => render_written, references_written segs, ?_⟩
  intro c hc
  have hvalid := Config.violation?_eq_none_iff.1 hc
  constructor
  · intro m hm e he n hn
    exact isFieldName_of_isIdentifier ((hvalid.branches m hm e he).2.2 n hn)
  · intro d hd n hn
    exact isFieldName_of_isIdentifier ((hvalid.fallback d hd).2 n hn)

/-- segments that meet brace against brace: an opening brace in front of a placeholder, and two closing braces behind it; no
brace of a value is looked at -/
theorem braces_meet_braces :
    let b : Binding := OrderedMap.ofList [("a".toList, "\x7b1\x7d".toList), ("b".toList, "\x7d".toList)]
    let a : Segment := .field "a".toList (isFieldName_of_isIdentifier rfl)
    let segs : List Segment :=
      [.literal "\x7b".toList, a, .literal "\x7d\x7d\n".toList, .field "b".toList (isFieldName_of_isIdentifier rfl), a]
    written segs = "\x7b\x7b\x7ba\x7d\x7d\x7d\x7d\x7d\n\x7bb\x7d\x7ba\x7d".toList ∧
      render b (written segs) = .ok "\x7b\x7b1\x7d\x7d\x7d\n\x7d\x7b1\x7d".toList ∧
      references (written segs) = ["a".toList, "b".toList] := by
  intro b a segs
  obtain ⟨hrender, hreferences, -⟩ := every_document_is_written segs
  have hdefined : ∀ n ∈ fieldsOf segs, b.get? n ≠ none := by decide +kernel
  refine ⟨rfl, ?_, ?_⟩
  · rw [hrender b hdefined]
    rfl
  · rw [hreferences]
    decide +kernel

end Template
end BranchRender
