/-
FILLING: a template filled line by line is the whole of it filled, or fails where the whole of it first does.

- `Piece.Sound` says that a piece can be filled, and `Piece.Fails` how it fails if it cannot. A template fills if all its
  pieces are sound; if not, the first that is not decides how it fails (`fillFrom_cases`).
- The lines a template is read in are those of its text, so what fails is the first piece of the text that is not sound;
  line and position are those of the end of the text before it (`fill_lines`). Bytes that are no text never fill
  (`decode?_of_fill`).
- Filling drops no line feed, and the header has one more: a document is never its template (`document_ne_template`).

Main statements: `fillFrom_cases`, `fill_lines`, `decode?_of_fill`, `document_ne_template`.
-/
import BranchRender.Header
import BranchRender.Proofs.Lines

namespace BranchRender

/-! ## The last line of a text -/

namespace Text

theorem lastSegment_of_not_mem {sep : Char} {t : Text} (h : sep ∉ t) : lastSegment sep t = t := by
  have hall : ∀ c ∈ t.reverse, (c != sep) = true := by
    intro c hc
    simpa using fun he : c = sep => h (he ▸ List.mem_reverse.1 hc)
  have htake : (t.reverse ++ []).takeWhile (· != sep) = t.reverse ++ [] := List.takeWhile_append_of_pos hall
  rw [List.append_nil] at htake
  rw [lastSegment, htake, List.reverse_reverse]

theorem lastSegment_append_cons (sep : Char) (s t : Text) : lastSegment sep (s ++ sep :: t) = lastSegment sep t := by
  have htake : ∀ l r : Text, (l ++ sep :: r).takeWhile (· != sep) = l.takeWhile (· != sep) := by
    intro l r
    induction l with
    | nil => simp
    | cons c l ih =>
      rw [List.cons_append, List.takeWhile_cons, List.takeWhile_cons, ih]
  simp [lastSegment, htake]

end Text

namespace Template

variable {b : Binding} {x : Piece} {ps : List Piece} {p : Nat} {s t : Text}

/-! ## Sound pieces -/

/-- the piece can be filled -/
def Piece.Sound (b : Binding) : Piece → Prop
  | .plain _ | .doubled _ => True
  | .field name => b.get? name ≠ none
  | .empty | .unclosed _ => False

theorem Piece.Sound.fill (h : x.Sound b) (p : Nat) : ∃ s, x.fill b p = .ok s := by
  cases x with
  | plain c => exact ⟨[c], rfl⟩
  | doubled c => exact ⟨[c], rfl⟩
  | field name =>
    obtain ⟨value, hv⟩ := Option.ne_none_iff_exists'.1 h
    exact ⟨value, by simp only [Piece.fill, hv]⟩
  | empty => exact h.elim
  | unclosed _ => exact h.elim

theorem Piece.sound_of_fill (h : x.fill b p = .ok s) : x.Sound b := by
  cases x with
  | plain c => trivial
  | doubled c => trivial
  | field name =>
    intro hnone
    simp [Piece.fill, hnone] at h
  | empty => simp [Piece.fill] at h
  | unclosed _ => simp [Piece.fill] at h

/-- the piece cannot be filled, `p` bytes from the start of the template -/
inductive Piece.Fails (b : Binding) (p : Nat) : Piece → TemplateFault → Prop
  | undefined {name : Text} (h : b.get? name = none) : Fails b p (.field name) (.undefinedField name p)
  | empty : Fails b p .empty (.emptyFieldName p)
  | unclosed (s : Text) : Fails b p (.unclosed s) (.unmatchedBrace p)

theorem Piece.fails_of_fill {fault : TemplateFault} (h : x.fill b p = .error fault) : x.Fails b p fault := by
  cases x with
  | plain c => simp [Piece.fill] at h
  | doubled c => simp [Piece.fill] at h
  | field name =>
    cases hname : b.get? name with
    | some value => simp [Piece.fill, hname] at h
    | none =>
      obtain rfl : .undefinedField name p = fault := by simpa [Piece.fill, hname] using h
      exact .undefined hname
  | empty => exact Except.error.inj h ▸ .empty
  | unclosed s => exact Except.error.inj h ▸ .unclosed s

/-- all pieces are sound and filled, or the first that is not decides -/
theorem fillFrom_cases (b : Binding) (p : Nat) (ps : List Piece) :
    (∀ x ∈ ps, x.Sound b) ∧ (∃ s, fillFrom b p ps = .ok s) ∨
    ∃ before x after fault, ps = before ++ x :: after ∧ (∀ y ∈ before, y.Sound b) ∧
      x.fill b (p + Text.size (before.flatMap Piece.source)) = .error fault ∧ fillFrom b p ps = .error fault := by
  induction ps generalizing p with
  | nil => exact .inl ⟨by simp, [], rfl⟩
  | cons x ps ih =>
    cases hx : x.fill b p with
    | error fault => exact .inr ⟨[], x, ps, fault, rfl, by simp, by simpa using hx, by simp only [fillFrom, hx]⟩
    | ok s =>
      have hsound := Piece.sound_of_fill hx
      rcases ih (p + x.source.size) with ⟨hall, s', hs'⟩ | ⟨before, y, after, fault, rfl, hall, hy, hfill⟩
      · refine .inl ⟨?_, s ++ s', by simp only [fillFrom, hx, hs', Except.map]⟩
        rintro y (_ | ⟨_, hy⟩)
        · exact hsound
        · exact hall y hy
      · refine .inr ⟨x :: before, y, after, fault, rfl, ?_, ?_, by simp only [fillFrom, hx, hfill, Except.map]⟩
        · rintro z (_ | ⟨_, hz⟩)
          · exact hsound
          · exact hall z hz
        · rw [List.flatMap_cons, Text.size_append, ← Nat.add_assoc]
          exact hy

theorem fillFrom_cons_eq_ok (h : fillFrom b p (x :: ps) = .ok s) :
    ∃ u v, x.fill b p = .ok u ∧ fillFrom b (p + x.source.size) ps = .ok v ∧ s = u ++ v := by
  rw [fillFrom] at h
  split at h
  · exact absurd h (by simp)
  · next u hu =>
    obtain ⟨v, hv, rfl⟩ := map_eq_ok.1 h
    exact ⟨u, v, hu, hv, rfl⟩

/-- what is filled has at least the line feeds of the template -/
theorem count_newline_fillFrom {pending : Pending} (h : fillFrom b p (piecesFrom pending t) = .ok s) :
    t.count '\n' ≤ s.count '\n' := by
  fun_induction piecesFrom pending t generalizing p s with
  | case1 => exact Nat.zero_le _
  | case2 t ih | case3 t ih =>
    obtain ⟨u, v, -, hv, rfl⟩ := fillFrom_cons_eq_ok h
    have := ih hv
    simp only [List.count_cons, List.count_append]
    simp
    omega
  | case4 t _ _ ih =>
    have := ih h
    simpa [List.count_cons] using this
  | case5 c t _ _ _ ih =>
    obtain ⟨u, v, hu, hv, rfl⟩ := fillFrom_cons_eq_ok h
    obtain rfl : [c] = u := Except.ok.inj hu
    have := ih hv
    simp only [List.count_cons, List.count_append]
    simp only [List.count_nil]
    omega
  | case6 acc =>
    obtain ⟨u, v, hu, -⟩ := fillFrom_cons_eq_ok h
    exact absurd hu (by simp [Piece.fill])
  | case7 acc t ih =>
    obtain ⟨u, v, -, hv, rfl⟩ := fillFrom_cons_eq_ok h
    have := ih hv
    simp only [List.count_cons, List.count_append]
    simp
    omega
  | case8 acc t _ ih =>
    obtain ⟨u, v, hu, -⟩ := fillFrom_cons_eq_ok h
    exact absurd hu (by simp [Piece.fill])
  | case9 acc c t h1 h2 ih =>
    have := ih h
    simpa [List.count_cons, h2] using this

end Template

namespace Rendering

open Template (Piece pieces fillFrom_cases)

variable {template : Path} {b : Binding} {n : Nat} {bytes : List UInt8} {t : Text}

/-! ## Line by line -/

/-- a line of text fills, or fails at its first piece that is not sound -/
theorem fillLine_cases (template : Path) (b : Binding) (n : Nat) {line : List UInt8} (h : Utf8.decode? line = some t) :
    (∀ x ∈ pieces t, x.Sound b) ∧ (∃ s, fillLine template b n line = .ok s) ∨
    ∃ before x after fault, pieces t = before ++ x :: after ∧ (∀ y ∈ before, y.Sound b) ∧
      x.fill b (Text.size (before.flatMap Piece.source)) = .error fault ∧
      fillLine template b n line = .error (lineFailure template n fault) := by
  have hrender := fillFrom_cases b 0 (pieces t)
  simp only [Nat.zero_add] at hrender
  rcases hrender with ⟨hall, s, hs⟩ | ⟨before, x, after, fault, hps, hall, hx, hfault⟩
  · refine .inl ⟨hall, s, ?_⟩
    simp only [fillLine, h, Template.render, hs, Except.mapError]
  · refine .inr ⟨before, x, after, fault, hps, hall, hx, ?_⟩
    simp only [fillLine, h, Template.render, hfault, Except.mapError]

theorem fill_cons_eq_ok {line : List UInt8} {rest : List (List UInt8)} {s : Text}
    (h : fill template b n (line :: rest) = .ok s) :
    ∃ u v, fillLine template b n line = .ok u ∧ fill template b (n + 1) rest = .ok v ∧ s = u ++ v := by
  rw [fill] at h
  split at h
  · exact absurd h (by simp)
  · next u hu =>
    obtain ⟨v, hv, rfl⟩ := map_eq_ok.1 h
    exact ⟨u, v, hu, hv, rfl⟩

theorem fillLine_eq_ok {line : List UInt8} {s : Text} (h : fillLine template b n line = .ok s) :
    ∃ t, Utf8.decode? line = some t ∧ Template.render b t = .ok s := by
  unfold fillLine at h
  split at h
  · exact absurd h (by simp)
  · next t ht => exact ⟨t, ht, mapError_eq_ok.1 h⟩

theorem fill_singleton (template : Path) (b : Binding) (n : Nat) (line : List UInt8) :
    fill template b n [line] = fillLine template b n line := by
  rw [fill]
  cases fillLine template b n line with
  | error e => rfl
  | ok s => simp [fill, Except.map]

/-- the text before a piece of a text without a line feed, or with one at its end, has none -/
theorem newline_not_mem_before {u : Text} {before after : List Piece} {x : Piece} (tail : Text) (hu : '\n' ∉ u)
    (htail : tail.length ≤ 1) (h : pieces (u ++ tail) = before ++ x :: after) :
    '\n' ∉ before.flatMap Piece.source := by
  have hsource := Template.source_pieces (u ++ tail)
  rw [h, List.flatMap_append, List.flatMap_cons] at hsource
  have hx : 0 < x.source.length := by cases x <;> simp [Piece.source]
  have hpre : before.flatMap Piece.source <+: u := by
    refine List.prefix_of_prefix_length_le ⟨_, hsource⟩ (List.prefix_append u tail) ?_
    have := congrArg List.length hsource
    simp only [List.length_append] at this
    omega
  exact fun hm => hu (hpre.subset hm)

/-- a text that is read line by line fills if all its pieces are sound; if not, the first that is not decides, and its place
is the end of the text before it -/
theorem fill_lines (template : Path) (b : Binding) (n : Nat) (h : Utf8.decode? bytes = some t) :
    (∀ x ∈ pieces t, x.Sound b) ∧ (∃ s, fill template b n (lines bytes) = .ok s) ∨
    ∃ before x after fault, pieces t = before ++ x :: after ∧ (∀ y ∈ before, y.Sound b) ∧
      x.fill b (Text.size (Text.lastSegment '\n' (before.flatMap Piece.source))) = .error fault ∧
      fill template b n (lines bytes) =
        .error (lineFailure template (n + (before.flatMap Piece.source).count '\n') fault) := by
  induction bytes using lines_induction generalizing n t with
  | nil =>
    obtain rfl : [] = t := Option.some.inj h
    exact .inl ⟨by simp [pieces, Template.piecesFrom], [], rfl⟩
  | last l hne hl =>
    rw [lines_of_not_mem hl hne, fill_singleton]
    rcases fillLine_cases template b n h with hok | ⟨before, x, after, fault, hps, hall, hx, hfault⟩
    · exact .inl hok
    · have hnone := newline_not_mem_before [] (Utf8.newline_not_mem hl h) (by simp)
        (by rwa [List.append_nil])
      refine .inr ⟨before, x, after, fault, hps, hall, ?_, ?_⟩
      · rwa [Text.lastSegment_of_not_mem hnone]
      · rwa [List.count_eq_zero.2 hnone]
  | line l rest hl ih =>
    rw [Utf8.decode?_line] at h
    obtain ⟨u, hu, h⟩ := Option.bind_eq_some_iff.1 h
    obtain ⟨v, hv, rfl⟩ := Option.map_eq_some_iff.1 h
    obtain ⟨w, rfl, hw⟩ := Utf8.newline_of_line hl hu
    have hpieces : pieces (w ++ ['\n'] ++ v) = pieces (w ++ ['\n']) ++ pieces v := by
      rw [List.append_assoc]
      exact Template.pieces_append_newline w v
    rw [lines_line hl, hpieces, fill]
    rcases fillLine_cases template b n hu with ⟨hall, s, hs⟩ | ⟨before, x, after, fault, hps, hall, hx, hfault⟩
    · rw [hs]
      rcases ih (n + 1) hv with ⟨hrest, s', hs'⟩ | ⟨before, x, after, fault, hps, hbefore, hx, hfault⟩
      · refine .inl ⟨?_, s ++ s', by simp only [hs', Except.map]⟩
        intro y hy
        exact (List.mem_append.1 hy).elim (hall y) (hrest y)
      · refine .inr ⟨pieces (w ++ ['\n']) ++ before, x, after, fault, by rw [hps, List.append_assoc], ?_, ?_, ?_⟩
        · intro y hy
          exact (List.mem_append.1 hy).elim (hall y) (hbefore y)
        · rw [List.flatMap_append, Template.source_pieces, List.append_assoc]
          exact (Text.lastSegment_append_cons '\n' w _).symm ▸ hx
        · rw [List.flatMap_append, Template.source_pieces, List.count_append, List.count_append,
            List.count_eq_zero.2 hw]
          simp only [hfault, Except.map, List.count_singleton_self, Nat.zero_add, Nat.add_assoc]
    · have hnone := newline_not_mem_before ['\n'] hw (by simp) hps
      refine .inr ⟨before, x, after ++ pieces v, fault, by rw [hps]; simp, hall, ?_, ?_⟩
      · rwa [Text.lastSegment_of_not_mem hnone]
      · rw [hfault, List.count_eq_zero.2 hnone]
        rfl

theorem decode?_of_fill {s : Text} (h : fill template b n (lines bytes) = .ok s) : ∃ t, Utf8.decode? bytes = some t := by
  induction bytes using lines_induction generalizing n s with
  | nil => exact ⟨[], rfl⟩
  | last l hne hl =>
    rw [lines_of_not_mem hl hne, fill_singleton] at h
    obtain ⟨t, ht, -⟩ := fillLine_eq_ok h
    exact ⟨t, ht⟩
  | line l rest hl ih =>
    rw [lines_line hl] at h
    obtain ⟨u, v, hu, hv, -⟩ := fill_cons_eq_ok h
    obtain ⟨t, ht, -⟩ := fillLine_eq_ok hu
    obtain ⟨t', ht'⟩ := ih hv
    exact ⟨t ++ t', by rw [Utf8.decode?_line, ht, ht']; rfl⟩

/-! ## Documents -/

theorem count_newline_fill {s : Text} {ls : List (List UInt8)} (h : fill template b n ls = .ok s) :
    ls.flatten.count 10 ≤ s.count '\n' := by
  induction ls generalizing n s with
  | nil => exact Nat.zero_le _
  | cons line rest ih =>
    obtain ⟨u, v, hu, hv, rfl⟩ := fill_cons_eq_ok h
    obtain ⟨t, ht, hrender⟩ := fillLine_eq_ok hu
    calc (line :: rest).flatten.count 10
        = t.count '\n' + rest.flatten.count 10 := by
          rw [List.flatten_cons, List.count_append, Utf8.count_newline ht]
      _ ≤ u.count '\n' + v.count '\n' := Nat.add_le_add (Template.count_newline_fillFrom hrender) (ih hv)
      _ = (u ++ v).count '\n' := List.count_append.symm

/-- the number of the line a piece behind `before` stands on -/
def lineOf (before : List Piece) : Nat := 1 + (before.flatMap Piece.source).count '\n'

/-- the bytes before it on that line -/
def columnOf (before : List Piece) : Nat := Text.size (Text.lastSegment '\n' (before.flatMap Piece.source))

/-- what can be read as text gives a document, or fails at its first piece that is not sound -/
theorem document_cases {fs : FileSystem} (b : Binding) (header : Text) (h : fs.readText template = .ok t) :
    (∀ x ∈ pieces t, x.Sound b) ∧ (∃ d, document fs template b header = .ok d) ∨
    ∃ before x after fault, pieces t = before ++ x :: after ∧ (∀ y ∈ before, y.Sound b) ∧
      x.fill b (columnOf before) = .error fault ∧
      document fs template b header = .error (lineFailure template (lineOf before) fault) := by
  unfold FileSystem.readText at h
  split at h
  · exact absurd h (by simp)
  next contents hread =>
  split at h
  · next t' ht =>
    obtain rfl : t' = t := Except.ok.inj h
    simp only [document, hread]
    rcases fill_lines template b 1 ht with ⟨hall, s, hs⟩ | ⟨before, x, after, fault, hps, hall, hx, hfault⟩
    · exact .inl ⟨hall, header ++ s, by rw [hs]; rfl⟩
    · exact .inr ⟨before, x, after, fault, hps, hall, hx, by rw [hfault]; rfl⟩
  · exact absurd h (by simp)

theorem document_unreadable {fs : FileSystem} {e : IoFault} (b : Binding) (header : Text)
    (h : fs.readText template = .error e) : ∃ e', document fs template b header = .error e' := by
  unfold FileSystem.readText at h
  split at h
  · next e' hread =>
    simp only [document, hread]
    exact ⟨_, rfl⟩
  next contents hread =>
  split at h
  · exact absurd h (by simp)
  · next hnone =>
    simp only [document, hread]
    cases hf : fill template b 1 (lines contents) with
    | error e' => exact ⟨e', rfl⟩
    | ok s =>
      obtain ⟨t, ht⟩ := decode?_of_fill hf
      exact absurd (hnone.symm.trans ht) (by simp)

/-- a document is not what its template holds: it has more line feeds -/
theorem document_ne_template {fs : FileSystem} {d : Text} {style : CommentStyle} {name command : Text}
    (hread : fs.read template = .ok bytes)
    (h : document fs template b (Header.line style name command) = .ok d) : Utf8.encode d ≠ bytes := by
  simp only [document, hread] at h
  obtain ⟨s, hs, rfl⟩ := map_eq_ok.1 h
  obtain ⟨u, hu⟩ := Header.line_eq_concat style name command
  have hcount := count_newline_fill hs
  rw [flatten_lines] at hcount
  intro he
  have hbytes := Utf8.count_newline_encode (Header.line style name command ++ s)
  rw [he, hu, List.count_append, List.count_append, List.count_singleton_self] at hbytes
  omega

end Rendering
end BranchRender
