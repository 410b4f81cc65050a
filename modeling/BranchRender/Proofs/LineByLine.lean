/-
LINE BY LINE: a document is the whole template filled at once, and fails where that fails.

- Text has as many bytes as it was read from (`size_of_decode?`): what a byte is expected to make up is fixed by the first
  byte of a character (`HasSize`), and every byte is in the characters given or held back (`holds_step`). So a
  position in a text is one in its bytes.
- A text is filled up to a line feed and then the rest of it as a text of its own, which fails further on
  (`render_append_newline`).
- `failureFrom` is a fault of the whole text as a failure: the line it is on, and for a malformed placeholder how far it is
  from the start of that line.

Main statements: `size_of_decode?`, `render_append_newline`, `fill_lines_eq`, `document_eq_render`.
-/
import BranchRender.Proofs.Filling

namespace BranchRender

namespace Utf8

variable {s : State} {bs : List UInt8} {t u : Text} {b n : Nat}

/-! ## Sizes -/

theorem utf8Size_ofNat {v : Nat} (h : v.isValidChar) : (Char.ofNat v).utf8Size =
    if v < 0x80 then 1 else if v < 0x800 then 2 else if v < 0x10000 then 3 else 4 := by
  have hv : (Char.ofNat v).val.toNat = v := by
    rw [Char.ofNat, dif_pos h]
    rfl
  unfold Char.utf8Size
  simp only [UInt32.le_iff_toNat_le, hv, UInt32.toNat_ofNatLT]
  (repeat' split) <;> omega

/-- whatever the next bytes are, the first in `lo`..`hi` and `owed` more after that one, the character has `k` bytes -/
def HasSize (k : Nat) : (owed value lo hi : Nat) → Prop
  | 0, value, lo, hi => ∀ b, lo ≤ b → b ≤ hi → (Char.ofNat (value * 64 + (b - 0x80))).utf8Size = k
  | owed + 1, value, lo, hi => ∀ b, lo ≤ b → b ≤ hi → HasSize k owed (value * 64 + (b - 0x80)) 0x80 0xBF

/-- the first byte of a character fixes how many it has -/
theorem hasSize_begin (b : Nat) : ∀ p ∈ (begin b).2, HasSize (1 + p.owed + 1) p.owed p.value p.lo p.hi := by
  intro p hp
  unfold begin at hp
  -- one case for each range of first bytes, and in it one for each bound of a size
  (repeat' split at hp) <;> simp only [Option.mem_def, reduceCtorEq, Option.some.injEq] at hp <;> subst hp <;>
    simp only [HasSize] <;> intros <;> rw [utf8Size_ofNat (by rw [Nat.isValidChar]; omega)] <;> (repeat' split) <;>
    omega

/-- a byte between characters is one, begins one, or is ill-formed -/
theorem begin_cases (b : Nat) : b < 0x80 ∧ begin b = ([some (Char.ofNat b)], none) ∨ begin b = ([none], none) ∨
    ∃ p, begin b = ([], some p) := by
  by_cases hb : b ≤ 0x7F
  · exact .inl ⟨Nat.lt_succ_of_le hb, if_pos hb⟩
  · right
    generalize hr : begin b = r
    rw [begin, if_neg hb] at hr
    -- one case for each range of first bytes
    (repeat' split at hr) <;> subst hr <;> simp

/-- the machine has taken `n` bytes of a character that it has not given yet -/
def Holds (s : State) (n : Nat) : Prop :=
  match s with
  | none => n = 0
  | some p => HasSize (n + p.owed + 1) p.owed p.value p.lo p.hi

theorem eq_of_map_some (h : t.map some = u.map some) : t = u :=
  Option.some.inj ((allRead_map_some t).symm.trans ((congrArg allRead h).trans (allRead_map_some u)))

/-- a byte that makes no piece ill-formed is in the characters given, or held -/
theorem holds_step (h : Holds s n) (hu : (step s b).1 = u.map some) :
    ∃ m, Holds (step s b).2 m ∧ u.size + m = n + 1 := by
  cases s with
  | none =>
    obtain rfl : n = 0 := h
    rw [step] at hu ⊢
    rcases begin_cases b with ⟨hb, hbegin⟩ | hbegin | ⟨p, hbegin⟩
    · rw [hbegin] at hu ⊢
      obtain rfl : [Char.ofNat b] = u := eq_of_map_some hu
      refine ⟨0, rfl, ?_⟩
      rw [Text.size_cons, utf8Size_ofNat (.inl (by omega)), if_pos hb, Text.size_nil]
    · rw [hbegin] at hu
      exact absurd hu (by cases u <;> simp)
    · have hsize := hasSize_begin b p (by rw [hbegin]; rfl)
      rw [hbegin] at hu ⊢
      obtain rfl : [] = u := eq_of_map_some hu
      exact ⟨1, hsize, rfl⟩
  | some p =>
    rw [step] at hu ⊢
    split at hu
    · next hb =>
      rw [if_pos hb]
      have hsize : HasSize (n + p.owed + 1) p.owed p.value p.lo p.hi := h
      cases howed : p.owed with
      | zero =>
        simp only [howed] at hu hsize ⊢
        obtain rfl : [Char.ofNat (p.value * 64 + (b - 0x80))] = u := eq_of_map_some hu
        refine ⟨0, rfl, ?_⟩
        rw [Text.size_cons, hsize b hb.1 hb.2, Text.size_nil]
      | succ m =>
        simp only [howed] at hu hsize ⊢
        obtain rfl : [] = u := eq_of_map_some hu
        refine ⟨n + 1, ?_, Nat.zero_add _⟩
        have hnext := hsize b hb.1 hb.2
        have hcount : n + (m + 1) + 1 = n + 1 + m + 1 := by omega
        rwa [hcount] at hnext
    · exact absurd hu (by cases u <;> simp)

theorem size_of_pieces (h : Holds s n) (ht : pieces s bs = t.map some) : t.size = n + bs.length := by
  induction bs generalizing s n t with
  | nil =>
    cases s with
    | none =>
      obtain rfl : n = 0 := h
      cases t with
      | nil => rfl
      | cons c t => simp [pieces] at ht
    | some p => cases t <;> simp [pieces] at ht
  | cons b bs ih =>
    rw [pieces_cons] at ht
    obtain ⟨u, v, rfl, hu, hv⟩ := List.map_eq_append_iff.1 ht.symm
    obtain ⟨m, hm, hsize⟩ := holds_step h hu.symm
    rw [Text.size_append, ih hm hv.symm, List.length_cons]
    omega

theorem size_of_decode? (h : decode? bs = some t) : t.size = bs.length := by
  have hsize := size_of_pieces (s := none) rfl (allRead_eq_some.1 h)
  rwa [Nat.zero_add] at hsize

end Utf8

/-! ## Faults further on -/

def TemplateFault.shift (k : Nat) : TemplateFault → TemplateFault
  | .undefinedField name p => .undefinedField name (k + p)
  | .unmatchedBrace p => .unmatchedBrace (k + p)
  | .emptyFieldName p => .emptyFieldName (k + p)

namespace Template

variable {b : Binding} {x : Piece} {ps : List Piece} {p : Nat} {s t : Text} {fault : TemplateFault}

theorem fill_shift (b : Binding) (k p : Nat) (x : Piece) : x.fill b (k + p) = (x.fill b p).mapError (.shift k) := by
  cases x with
  | field name => cases hname : b.get? name <;> simp [Piece.fill, hname, Except.mapError, TemplateFault.shift]
  | _ => rfl

/-- pieces further on are filled the same, and fail further on -/
theorem fillFrom_shift (b : Binding) (k p : Nat) (ps : List Piece) :
    fillFrom b (k + p) ps = (fillFrom b p ps).mapError (.shift k) := by
  induction ps generalizing p with
  | nil => rfl
  | cons x ps ih =>
    rw [fillFrom, fillFrom, fill_shift, Nat.add_assoc, ih]
    cases x.fill b p with
    | error fault => rfl
    | ok s =>
      simp only [Except.mapError]
      cases fillFrom b (p + x.source.size) ps <;> rfl

theorem position_of_fill (h : x.fill b p = .error fault) : fault.position = p := by
  cases Piece.fails_of_fill h <;> rfl

theorem source_size_pos (x : Piece) : 0 < x.source.size := by
  have hchar : ∀ (c : Char) (t : Text), 0 < Text.size (c :: t) := by
    intro c t
    have := Char.utf8Size_pos c
    rw [Text.size_cons]
    omega
  cases x <;> exact hchar _ _

theorem position_lt_size (h : render b t = .error fault) : fault.position < t.size := by
  rcases fillFrom_cases b 0 (pieces t) with ⟨-, s, hs⟩ | ⟨before, x, after, fault', hps, -, hx, hfault⟩
  · exact absurd (h.symm.trans hs) (by simp)
  · obtain rfl : fault = fault' := Except.error.inj (h.symm.trans hfault)
    have hpos := source_size_pos x
    calc fault.position
        = 0 + Text.size (before.flatMap Piece.source) := position_of_fill hx
      _ < Text.size (before.flatMap Piece.source) + (x.source.size + Text.size (after.flatMap Piece.source)) := by omega
      _ = Text.size ((pieces t).flatMap Piece.source) := by
          rw [hps, List.flatMap_append, List.flatMap_cons, Text.size_append, Text.size_append]
      _ = t.size := by rw [source_pieces]

/-- a text is filled up to a line feed, and then the rest of it as a text of its own -/
theorem render_append_newline (b : Binding) (s t : Text) : render b (s ++ '\n' :: t) =
    match render b (s ++ ['\n']) with
    | .error fault => .error fault
    | .ok u => ((render b t).mapError (.shift (Text.size (s ++ ['\n'])))).map (u ++ ·) := by
  rw [render, pieces_append_newline, fillFrom_append, source_pieces, Nat.zero_add,
    ← Nat.add_zero (Text.size (s ++ ['\n'])), fillFrom_shift]
  rfl

end Template

namespace Rendering

variable {template : Path} {b : Binding} {n : Nat} {bytes l rest : List UInt8} {t : Text} {fault : TemplateFault}

/-! ## Lines of a position -/

/-- the number of bytes before the line that the byte `p` is on -/
def lineStart (bytes : List UInt8) (p : Nat) : Nat := ((bytes.take p).reverse.dropWhile (· != 10)).length

/-- how a text fails that is filled line by line, the first of them number `n`, if filling the whole of it fails so -/
def failureFrom (template : Path) (n : Nat) (bytes : List UInt8) : TemplateFault → Failure
  | .undefinedField name p => .missingField name (n + (bytes.take p).count 10) template
  | .unmatchedBrace p =>
    .malformed (.unmatchedBrace (p - lineStart bytes p)) (n + (bytes.take p).count 10) template
  | .emptyFieldName p =>
    .malformed (.emptyFieldName (p - lineStart bytes p)) (n + (bytes.take p).count 10) template

theorem dropWhile_reverse_of_not_mem {l : List UInt8} (h : 10 ∉ l) (r : List UInt8) :
    (l.reverse ++ r).dropWhile (· != 10) = r.dropWhile (· != 10) := by
  apply List.dropWhile_append_of_pos
  intro x hx
  simpa using fun he : x = 10 => h (he ▸ List.mem_reverse.1 hx)

theorem lineStart_of_not_mem {p : Nat} (h : 10 ∉ bytes.take p) : lineStart bytes p = 0 := by
  have hdrop := dropWhile_reverse_of_not_mem h []
  rw [List.append_nil] at hdrop
  rw [lineStart, hdrop]
  rfl

theorem failureFrom_of_not_mem (template : Path) (n : Nat) (h : 10 ∉ bytes.take fault.position) :
    failureFrom template n bytes fault = lineFailure template n fault := by
  have hcount : (bytes.take fault.position).count 10 = 0 := List.count_eq_zero.2 h
  have hstart := lineStart_of_not_mem h
  cases fault <;> simp only [TemplateFault.position] at hcount hstart <;>
    simp only [failureFrom, lineFailure, hcount, hstart, Nat.add_zero, Nat.sub_zero]

theorem take_line (l rest : List UInt8) (p : Nat) :
    (l ++ 10 :: rest).take (l.length + 1 + p) = l ++ 10 :: rest.take p := by
  have hlen : l.length + 1 + p - l.length = p + 1 := by omega
  rw [List.take_append, List.take_of_length_le (by omega), hlen, List.take_succ_cons]

theorem dropWhile_append_newline (r l : List UInt8) :
    ((r ++ 10 :: l).dropWhile (· != 10)).length = l.length + 1 + (r.dropWhile (· != 10)).length := by
  induction r with
  | nil => simp
  | cons x r ih =>
    by_cases hx : x = 10
    · subst hx
      simp
      omega
    · simpa [hx] using ih

theorem lineStart_line (l rest : List UInt8) (p : Nat) :
    lineStart (l ++ 10 :: rest) (l.length + 1 + p) = l.length + 1 + lineStart rest p := by
  have hrev : (l ++ 10 :: rest.take p).reverse = (rest.take p).reverse ++ 10 :: l.reverse := by simp
  rw [lineStart, take_line, hrev, dropWhile_append_newline, List.length_reverse]
  rfl

theorem failureFrom_line (template : Path) (n : Nat) (hl : 10 ∉ l) (rest : List UInt8) (fault : TemplateFault) :
    failureFrom template n (l ++ 10 :: rest) (fault.shift (l.length + 1)) = failureFrom template (n + 1) rest fault := by
  have hcount : ∀ p, n + ((l ++ 10 :: rest).take (l.length + 1 + p)).count 10 = n + 1 + (rest.take p).count 10 := by
    intro p
    rw [take_line, List.count_append, List.count_eq_zero.2 hl, List.count_cons_self]
    omega
  have hstart : ∀ p, l.length + 1 + p - lineStart (l ++ 10 :: rest) (l.length + 1 + p) = p - lineStart rest p := by
    intro p
    rw [lineStart_line]
    omega
  cases fault <;> simp only [TemplateFault.shift, failureFrom, hcount, hstart]

/-! ## Line by line -/

/-- a line fills as a text of its own, and fails where that does -/
theorem fillLine_eq (template : Path) (b : Binding) (n : Nat) (h : Utf8.decode? l = some t)
    (hfirst : ∀ p, p < l.length → 10 ∉ bytes.take p) :
    fillLine template b n l = (Template.render b t).mapError (failureFrom template n bytes) := by
  simp only [fillLine, h]
  cases hr : Template.render b t with
  | ok s => rfl
  | error fault =>
    have hlt : fault.position < l.length := Utf8.size_of_decode? h ▸ Template.position_lt_size hr
    simp only [Except.mapError, failureFrom_of_not_mem template n (hfirst _ hlt)]

/-- lines of text are filled as the whole text is -/
theorem fill_lines_eq (template : Path) (b : Binding) (n : Nat) (h : Utf8.decode? bytes = some t) :
    fill template b n (lines bytes) = (Template.render b t).mapError (failureFrom template n bytes) := by
  induction bytes using lines_induction generalizing n t with
  | nil =>
    obtain rfl : [] = t := Option.some.inj h
    rfl
  | last l hne hl =>
    rw [lines_of_not_mem hl hne, fill_singleton]
    apply fillLine_eq template b n h
    intro p _ hm
    exact hl (List.mem_of_mem_take hm)
  | line l rest hl ih =>
    rw [Utf8.decode?_line] at h
    obtain ⟨u, hu, h⟩ := Option.bind_eq_some_iff.1 h
    obtain ⟨v, hv, rfl⟩ := Option.map_eq_some_iff.1 h
    have hline : fillLine template b n (l ++ [10]) =
        (Template.render b u).mapError (failureFrom template n (l ++ 10 :: rest)) := by
      apply fillLine_eq template b n hu
      intro p hp hm
      rw [List.length_append, List.length_singleton] at hp
      rw [List.take_append_of_le_length (by omega)] at hm
      exact hl (List.mem_of_mem_take hm)
    have hsize : u.size = l.length + 1 := by rw [Utf8.size_of_decode? hu, List.length_append, List.length_singleton]
    obtain ⟨w, rfl, -⟩ := Utf8.newline_of_line hl hu
    have hwhole := Template.render_append_newline b w v
    rw [hsize] at hwhole
    rw [lines_line hl, fill, hline, ih (n + 1) hv, List.append_assoc, List.singleton_append, hwhole]
    cases Template.render b (w ++ ['\n']) with
    | error fault => rfl
    | ok s =>
      cases Template.render b v with
      | ok s' => rfl
      | error fault => simp only [Except.mapError, Except.map, failureFrom_line template n hl rest fault]

/-! ## Bytes that are no text -/

theorem unreadable_line (h : Utf8.decode? bytes = none) :
    ∃ before bad after u, lines bytes = before ++ bad :: after ∧ (∀ line ∈ before, Utf8.decode? line ≠ none) ∧
      Utf8.decode? bad = none ∧ Utf8.decode? before.flatten = some u ∧ lines before.flatten = before := by
  induction bytes using lines_induction with
  | nil => exact absurd h (by simp [Utf8.decode?, Utf8.pieces, Utf8.allRead])
  | last l hne hl => exact ⟨[], l, [], [], lines_of_not_mem hl hne, by simp, h, rfl, rfl⟩
  | line l rest hl ih =>
    rw [lines_line hl]
    cases hu : Utf8.decode? (l ++ [10]) with
    | none => exact ⟨[], l ++ [10], lines rest, [], rfl, by simp, hu, rfl, rfl⟩
    | some u =>
      have hrest : Utf8.decode? rest = none := by
        rw [Utf8.decode?_line, hu] at h
        exact Option.map_eq_none_iff.1 h
      obtain ⟨before, bad, after, v, hlines, hall, hbad, hv, hbefore⟩ := ih hrest
      have hflat : ((l ++ [10]) :: before).flatten = l ++ 10 :: before.flatten := by simp
      refine ⟨(l ++ [10]) :: before, bad, after, u ++ v, by rw [hlines, List.cons_append], ?_, hbad, ?_, ?_⟩
      · rintro line (_ | ⟨_, hline⟩)
        · rw [hu]
          exact Option.some_ne_none u
        · exact hall line hline
      · rw [hflat, Utf8.decode?_line, hu, hv]
        rfl
      · rw [hflat, lines_line hl, hbefore]

/-- a line that is no text is reached if the lines before it fill -/
theorem fill_unreadable (template : Path) (b : Binding) (n : Nat) {before after : List (List UInt8)} {bad : List UInt8}
    (h : Utf8.decode? bad = none) : fill template b n (before ++ bad :: after) =
      match fill template b n before with
      | .ok _ => .error (.templateUnreadable template .notText)
      | .error e => .error e := by
  induction before generalizing n with
  | nil => simp only [List.nil_append, fill, fillLine, h]
  | cons line before ih =>
    rw [List.cons_append, fill, fill, ih]
    cases fillLine template b n line with
    | error e => rfl
    | ok s => cases fill template b (n + 1) before <;> rfl

/-! ## Documents -/

/-- **Line by line as at once.** A template that is text becomes the header and the text filled at once, or fails on the line
where the text does. One that is not fails as the lines before its first line that is no text, or on that line. -/
theorem document_eq_render {fs : FileSystem} (hread : fs.read template = .ok bytes) (b : Binding) (header : Text) :
    (∀ t, Utf8.decode? bytes = some t → document fs template b header =
      match Template.render b t with
      | .ok s => .ok (header ++ s)
      | .error fault => .error (failureFrom template 1 bytes fault)) ∧
    (Utf8.decode? bytes = none → ∃ before bad after t, lines bytes = before ++ bad :: after ∧
      (∀ line ∈ before, Utf8.decode? line ≠ none) ∧ Utf8.decode? bad = none ∧
      Utf8.decode? before.flatten = some t ∧ document fs template b header =
        match Template.render b t with
        | .ok _ => .error (.templateUnreadable template .notText)
        | .error fault => .error (failureFrom template 1 before.flatten fault)) := by
  simp only [document, hread]
  constructor
  · intro t ht
    rw [fill_lines_eq template b 1 ht]
    cases Template.render b t <;> rfl
  · intro hnone
    obtain ⟨before, bad, after, t, hlines, hall, hbad, ht, hbefore⟩ := unreadable_line hnone
    refine ⟨before, bad, after, t, hlines, hall, hbad, ht, ?_⟩
    have hfill := fill_lines_eq template b 1 ht
    rw [hbefore] at hfill
    rw [hlines, fill_unreadable template b 1 hbad, hfill]
    cases Template.render b t <;> rfl

/-- a brace left open on the third line, behind a character of two bytes -/
theorem document_fails_on_third_line :
    let bytes := Utf8.encode "\x7bsuffix\x7d\n\n\x7dé\x7bx\n".toList
    let fs := (⟨FileTree.empty.insert ["t".toList] (.file bytes), []⟩ : FileSystem)
    fs.read "t".toList = .ok bytes ∧ document fs "t".toList Binding.builtinFallback [] =
      .error (.malformed (.unmatchedBrace 3) 3 "t".toList) := by
  intro bytes fs
  have hread : fs.read "t".toList = .ok bytes := rfl
  have hdecode : Utf8.decode? bytes = some "\x7bsuffix\x7d\n\n\x7dé\x7bx\n".toList := Utf8.decode?_encode _
  have hrender : Template.render Binding.builtinFallback "\x7bsuffix\x7d\n\n\x7dé\x7bx\n".toList =
      .error (.unmatchedBrace 13) := rfl
  refine ⟨hread, ?_⟩
  rw [(document_eq_render hread Binding.builtinFallback []).1 _ hdecode, hrender]
  rfl

end Rendering
end BranchRender
