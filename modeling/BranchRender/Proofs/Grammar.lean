/-
GRAMMAR: which texts are templates, and what a template means.

- A template is a sequence of tokens: doubled braces, a named placeholder, a closing brace left over, or any other single
  character. A token carries what makes it one; only a closing brace left over looks at the text behind it (`Splits`).
- Each token of a split is one piece (`pieces_source_append`), so a text splits in one way only (`splits_unique`).
- Every text splits up to its first broken placeholder (`splitsInFront`), one without a name or not closed on its line:
  inside a placeholder the name read so far is the beginning of a field name (`Begins`). So a text whose pieces can all be
  filled splits (`splits_of_sound`).
- What a template means is fixed by its tokens, and a value is taken as it is: no brace in it is looked at.

Main statements: `splits_unique`, `splitsInFront`, `splits_of_sound`, `render_eq_ok_iff`.
-/
import BranchRender.Proofs.Filling

namespace BranchRender.Template

variable {b : Binding} {acc n s t v : Text} {x : Token} {ts ts' : List Token}

/-! ## Tokens -/

/-- the name of a field, as a placeholder may spell it -/
structure IsFieldName (n : Text) : Prop where
  nonempty : n ≠ []
  first : n.head? ≠ some '{'
  closed : '}' ∉ n
  oneLine : '\n' ∉ n

/-- what a template is a sequence of -/
inductive Token
  /-- an opening brace written twice -/
  | opening
  /-- a closing brace written twice -/
  | closing
  /-- a closing brace left over -/
  | lone
  /-- a placeholder -/
  | field (name : Text) (h : IsFieldName name)
  /-- any other character -/
  | single (c : Char) (h : c ≠ '{' ∧ c ≠ '}')

namespace Token

def source : Token → Text
  | .opening => ['{', '{']
  | .closing => ['}', '}']
  | .lone => ['}']
  | .field n _ => '{' :: n ++ ['}']
  | .single c _ => [c]

/-- what a token stands for under `b`, if it does -/
def meaning (b : Binding) : Token → Option Text
  | .opening => some ['{']
  | .closing | .lone => some ['}']
  | .field n _ => b.get? n
  | .single c _ => some [c]

def piece : Token → Piece
  | .opening => .doubled '{'
  | .closing => .doubled '}'
  | .lone => .plain '}'
  | .field n _ => .field n
  | .single c _ => .plain c

theorem piece_injective {x y : Token} (h : x.piece = y.piece) : x = y := by
  cases x <;> cases y <;> grind [piece]

theorem fill_piece (b : Binding) (p : Nat) (x : Token) : x.piece.fill b p = .ok s ↔ x.meaning b = some s := by
  cases x with
  | field n h => cases hn : b.get? n <;> simp [piece, Piece.fill, meaning, hn]
  | _ => simp [piece, Piece.fill, meaning]

end Token

/-- the tokens one after the other are the text; no closing brace stands behind one left over, so closing braces are taken
two at a time from the left -/
inductive Splits : Text → List Token → Prop
  | nil : Splits [] []
  | cons {x : Token} {t : Text} {ts : List Token} (hx : x = .lone → t.head? ≠ some '}') (h : Splits t ts) :
    Splits (x.source ++ t) (x :: ts)

/-- a token may stand in front of a text if it may stand in front of a longer one -/
theorem Splits.cons_of_append (hx : x = .lone → (t ++ v).head? ≠ some '}') (h : Splits t ts) :
    Splits (x.source ++ t) (x :: ts) := by
  refine .cons ?_ h
  intro hlone hhead
  refine hx hlone ?_
  rw [List.head?_append, hhead]
  rfl

/-! ## Tokens are pieces -/

theorem piecesFrom_name (hclosed : '}' ∉ n) (hline : '\n' ∉ n) (acc t : Text) :
    piecesFrom (some acc) (n ++ '}' :: t) =
      (if n.reverse ++ acc = [] then .empty else .field (acc.reverse ++ n)) :: piecesFrom none t := by
  induction n generalizing acc with
  | nil => simp [piecesFrom]
  | cons c n ih =>
    simp only [List.mem_cons, not_or] at hclosed hline
    rw [List.cons_append, piecesFrom, if_neg (Ne.symm hclosed.1), if_neg (Ne.symm hline.1), ih hclosed.2 hline.2]
    simp

theorem pieces_source_append (hx : x = .lone → t.head? ≠ some '}') : pieces (x.source ++ t) = x.piece :: pieces t := by
  cases x with
  | opening => rfl
  | closing => rfl
  | lone =>
    cases t with
    | nil => rfl
    | cons d t =>
      have hd : '}' = d → '}' ≠ '{' ∧ '}' ≠ '}' := fun he => absurd (congrArg some he.symm) (hx rfl)
      exact piecesFrom_cons t hd
  | field n h =>
    cases n with
    | nil => exact absurd rfl h.nonempty
    | cons d n =>
      have hd : '{' = d → '{' ≠ '{' ∧ '{' ≠ '}' := fun he => absurd (congrArg some he.symm) h.first
      have hname := piecesFrom_name h.closed h.oneLine [] t
      calc pieces (Token.source (.field (d :: n) h) ++ t)
          = piecesFrom none ('{' :: d :: (n ++ '}' :: t)) := by simp [Token.source, pieces]
        _ = piecesFrom (some []) (d :: n ++ '}' :: t) := piecesFrom_cons _ hd
        _ = .field (d :: n) :: pieces t := by simpa [pieces] using hname
  | single c h =>
    cases t with
    | nil => simp [Token.source, Token.piece, pieces, piecesFrom, h.1]
    | cons d t =>
      have hcut := piecesFrom_cons t (fun _ : c = d => h)
      rwa [if_neg h.1] at hcut

/-- the pieces of tokens, with a text behind them that closes no brace left over -/
theorem pieces_append_of_splits (h : Splits t ts) (hv : v.head? ≠ some '}') :
    pieces (t ++ v) = ts.map Token.piece ++ pieces v := by
  induction h with
  | nil => rfl
  | @cons x t ts hx _ ih =>
    have hx' : x = .lone → (t ++ v).head? ≠ some '}' := by
      intro hlone
      cases t with
      | nil => exact hv
      | cons c t => exact hx hlone
    rw [List.append_assoc, pieces_source_append hx', ih, List.map_cons, List.cons_append]

/-- the pieces of a text are its tokens -/
theorem pieces_of_splits (h : Splits t ts) : pieces t = ts.map Token.piece := by
  have happend := pieces_append_of_splits (v := []) h (by simp)
  rwa [List.append_nil, show pieces [] = [] from rfl, List.append_nil] at happend

/-- **One way to split.** The tokens of a text are decided by the text. -/
theorem splits_unique (h : Splits t ts) (h' : Splits t ts') : ts = ts' := by
  apply (List.map_inj_right fun _ _ => Token.piece_injective).1
  exact (pieces_of_splits h).symm.trans (pieces_of_splits h')

/-! ## Broken placeholders -/

/-- what stands behind an opening brace that is not doubled and not closed on its line -/
structure Unclosed (t : Text) : Prop where
  single : t.head? ≠ some '{'
  onLine : '}' ∉ t.takeWhile (· ≠ '\n')

/-- the text starts with a placeholder that no binding fills -/
inductive Broken : Text → Prop
  | empty (t : Text) : Broken ('{' :: '}' :: t)
  | unclosed {t : Text} (ht : Unclosed t) : Broken ('{' :: t)

theorem Broken.head (h : Broken v) : v.head? = some '{' := by
  cases h <;> rfl

/-- a brace that is not closed on its line is one piece, up to the end of the line -/
theorem piecesFrom_unclosed (acc : Text) (h : '}' ∉ t.takeWhile (· ≠ '\n')) :
    ∃ text ps, piecesFrom (some acc) t = .unclosed text :: ps := by
  induction t generalizing acc with
  | nil => exact ⟨acc.reverse, [], rfl⟩
  | cons c t ih =>
    by_cases hline : c = '\n'
    · subst hline
      exact ⟨acc.reverse ++ ['\n'], piecesFrom none t, by simp [piecesFrom]⟩
    · rw [List.takeWhile_cons_of_pos (by simpa using hline), List.mem_cons, not_or] at h
      rw [piecesFrom, if_neg (Ne.symm h.1), if_neg hline]
      exact ih (c :: acc) h.2

theorem pieces_unclosed (h : Unclosed t) : ∃ text ps, pieces ('{' :: t) = .unclosed text :: ps := by
  cases t with
  | nil => exact ⟨[], [], rfl⟩
  | cons d t =>
    have hd : '{' = d → '{' ≠ '{' ∧ '{' ≠ '}' := fun he => absurd (congrArg some he.symm) h.single
    have hcut : pieces ('{' :: d :: t) = piecesFrom (some []) (d :: t) := piecesFrom_cons t hd
    rw [hcut]
    exact piecesFrom_unclosed [] h.onLine

theorem Broken.pieces (h : Broken v) : ∃ x ps, Template.pieces v = x :: ps ∧ ∀ b, ¬ x.Sound b := by
  cases h with
  | empty t => exact ⟨.empty, Template.pieces t, rfl, fun _ => id⟩
  | unclosed ht =>
    obtain ⟨text, ps, hpieces⟩ := pieces_unclosed ht
    exact ⟨.unclosed text, ps, hpieces, fun _ => id⟩

/-! ## Texts are tokens -/

/-- what was read of a placeholder, in reverse, goes on to be a field name or its end -/
structure Begins (acc t : Text) : Prop where
  first : (acc.reverse ++ t).head? ≠ some '{'
  closed : '}' ∉ acc
  oneLine : '\n' ∉ acc

theorem Begins.next {c : Char} (h : Begins acc (c :: t)) (hc : c ≠ '}') (hc' : c ≠ '\n') : Begins (c :: acc) t where
  first := by simpa using h.first
  closed := by simpa using ⟨Ne.symm hc, h.closed⟩
  oneLine := by simpa using ⟨Ne.symm hc', h.oneLine⟩

theorem Begins.isFieldName (h : Begins acc ('}' :: t)) (hne : acc ≠ []) : IsFieldName acc.reverse where
  nonempty := by simpa using hne
  first := by
    have hfirst := h.first
    obtain ⟨c, name, hname⟩ := List.exists_cons_of_ne_nil (List.reverse_ne_nil_iff.2 hne)
    rw [hname] at hfirst ⊢
    exact hfirst
  closed := by simpa using h.closed
  oneLine := by simpa using h.oneLine

/-- the name read so far is that of no placeholder, if the line ends here -/
theorem Begins.unclosed (h : Begins acc t) (ht : '}' ∉ t.takeWhile (· ≠ '\n')) : Unclosed (acc.reverse ++ t) where
  single := h.first
  onLine := by
    have hline : ∀ c ∈ acc.reverse, decide (c ≠ '\n') = true := by
      intro c hc
      simpa using fun he : c = '\n' => h.oneLine (he ▸ List.mem_reverse.1 hc)
    rw [List.takeWhile_append_of_pos hline, List.mem_append, List.mem_reverse]
    exact not_or.2 ⟨h.closed, ht⟩

/-- the text splits up to a broken placeholder, or to its end -/
def SplitsInFront (t : Text) : Prop := ∃ u ts v, t = u ++ v ∧ Splits u ts ∧ (v = [] ∨ Broken v)

theorem Broken.splitsInFront (h : Broken t) : SplitsInFront t := ⟨[], [], t, rfl, .nil, .inr h⟩

theorem SplitsInFront.source_append (hx : x = .lone → t.head? ≠ some '}') (h : SplitsInFront t) :
    SplitsInFront (x.source ++ t) := by
  obtain ⟨u, ts, v, rfl, hu, hv⟩ := h
  exact ⟨x.source ++ u, x :: ts, v, (List.append_assoc ..).symm, .cons_of_append hx hu, hv⟩

/-- the text from the brace of the placeholder on -/
def fromBrace : Pending → Text → Text
  | none, t => t
  | some acc, t => '{' :: acc.reverse ++ t

theorem splitsInFront_from (p : Pending) (t : Text) (hp : ∀ acc ∈ p, Begins acc t) : SplitsInFront (fromBrace p t) := by
  fun_induction piecesFrom p t with
  | case1 => exact ⟨[], [], [], rfl, .nil, .inl rfl⟩
  | case2 t ih => exact (ih (by simp)).source_append (x := .opening) (by simp)
  | case3 t ih => exact (ih (by simp)).source_append (x := .closing) (by simp)
  | case4 t hopen _ ih =>
    have hbegins : Begins [] t := by
      refine ⟨?_, by simp, by simp⟩
      intro hfirst
      obtain ⟨t', ht'⟩ := List.head?_eq_some_iff.1 hfirst
      exact hopen t' rfl ht'
    exact ih (by simpa using hbegins)
  | case5 c t _ hclose hc ih =>
    have hbehind := ih (by simp)
    by_cases hc' : c = '}'
    · subst hc'
      refine hbehind.source_append (x := .lone) ?_
      intro _ hfirst
      obtain ⟨t', ht'⟩ := List.head?_eq_some_iff.1 hfirst
      exact hclose t' rfl ht'
    · exact hbehind.source_append (x := .single c ⟨hc, hc'⟩) (by simp)
  | case6 acc =>
    have hopen := (hp acc rfl).unclosed (by simp)
    exact (Broken.unclosed hopen).splitsInFront
  | case7 acc t ih =>
    by_cases hacc : acc = []
    · subst hacc
      exact (Broken.empty t).splitsInFront
    · have hname := (hp acc rfl).isFieldName hacc
      have hbehind := (ih (by simp)).source_append (x := .field acc.reverse hname) (by simp)
      simpa [fromBrace, Token.source] using hbehind
  | case8 acc t _ ih =>
    have hopen := (hp acc rfl).unclosed (by simp)
    exact (Broken.unclosed hopen).splitsInFront
  | case9 acc c t h1 h2 ih =>
    have hnext := (hp acc rfl).next h1 h2
    simpa [fromBrace] using ih (by simpa using hnext)

/-- every text splits up to its first broken placeholder -/
theorem splitsInFront (t : Text) : SplitsInFront t := splitsInFront_from none t (by simp)

theorem splits_of_sound (h : ∀ x ∈ pieces t, x.Sound b) : ∃ ts, Splits t ts := by
  obtain ⟨u, ts, v, rfl, hu, rfl | hv⟩ := splitsInFront t
  · exact ⟨ts, by rwa [List.append_nil]⟩
  · obtain ⟨x, ps, hpieces, hx⟩ := hv.pieces
    rw [pieces_append_of_splits hu (by simp [hv.head]), hpieces] at h
    exact absurd (h x (by simp)) (hx b)

/-! ## Meaning -/

/-- tokens fill if all of them stand for something, and then with what they stand for -/
theorem fillFrom_tokens (b : Binding) (p : Nat) (ts : List Token) (s : Text) :
    fillFrom b p (ts.map Token.piece) = .ok s ↔ ∃ ms : List Text, ts.map (Token.meaning b) = ms.map some ∧ s = ms.flatten := by
  induction ts generalizing p s with
  | nil =>
    constructor
    · intro h
      exact ⟨[], rfl, (Except.ok.inj h).symm⟩
    · rintro ⟨ms, hms, rfl⟩
      rw [List.map_eq_nil_iff.1 hms.symm]
      rfl
  | cons x ts ih =>
    rw [List.map_cons]
    constructor
    · intro h
      obtain ⟨u, v, hu, hv, rfl⟩ := fillFrom_cons_eq_ok h
      obtain ⟨ms, hms, rfl⟩ := (ih _ v).1 hv
      refine ⟨u :: ms, ?_, rfl⟩
      rw [List.map_cons, List.map_cons, (Token.fill_piece b p x).1 hu, hms]
    · rintro ⟨ms, hms, rfl⟩
      obtain ⟨u, ms, rfl, hu, hms⟩ := List.map_eq_cons_iff.1 hms.symm
      rw [fillFrom, (Token.fill_piece b p x).2 hu.symm, (ih _ ms.flatten).2 ⟨ms, hms.symm, rfl⟩]
      rfl

theorem fillFrom_of_meanings (h : ∀ x ∈ ts, x.meaning b ≠ none) (p : Nat) :
    ∃ s, fillFrom b p (ts.map Token.piece) = .ok s := by
  have hms : ts.map (Token.meaning b) = (ts.map fun x => (x.meaning b).getD []).map some := by
    rw [List.map_map]
    refine List.map_congr_left fun x hx => ?_
    obtain ⟨m, hm⟩ := Option.ne_none_iff_exists'.1 (h x hx)
    simp [hm]
  exact ⟨_, (fillFrom_tokens b p ts _).2 ⟨_, hms, rfl⟩⟩

/-- **What a template stands for.** A text can be filled exactly if it splits into tokens that all stand for something, and
becomes what they stand for one after the other. It splits in one way only. -/
theorem render_eq_ok_iff (b : Binding) (t s : Text) :
    (render b t = .ok s ↔
      ∃ (ts : List Token) (ms : List Text), Splits t ts ∧ ts.map (Token.meaning b) = ms.map some ∧ s = ms.flatten) ∧
    ∀ ts ts', Splits t ts → Splits t ts' → ts = ts' := by
  refine ⟨⟨?_, ?_⟩, fun ts ts' => splits_unique⟩
  · intro h
    rcases fillFrom_cases b 0 (pieces t) with ⟨hall, -⟩ | ⟨before, x, after, fault, -, -, -, hfault⟩
    · obtain ⟨ts, hts⟩ := splits_of_sound hall
      rw [render, pieces_of_splits hts] at h
      obtain ⟨ms, hms, hs⟩ := (fillFrom_tokens b 0 ts s).1 h
      exact ⟨ts, ms, hts, hms, hs⟩
    · exact absurd (h.symm.trans hfault) (by simp)
  · rintro ⟨ts, ms, hts, hms, hs⟩
    rw [render, pieces_of_splits hts]
    exact (fillFrom_tokens b 0 ts s).2 ⟨ms, hms, hs⟩

/-- an odd run of closing braces, and a value with braces -/
example : render (OrderedMap.ofList [("a".toList, "\x7bb\x7d".toList)]) "\x7d\x7d\x7d\x7ba\x7d".toList =
    .ok "\x7d\x7d\x7bb\x7d".toList := rfl

end BranchRender.Template
