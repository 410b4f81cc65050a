/-
TEMPLATES: text with placeholders, and what it takes to fill them.

- `pieces` cuts a template: a doubled brace, a placeholder, a faulty placeholder or any other single character. Nothing
  is lost (`source_pieces`), and cutting goes on behind a fault, at the next line.
- `render` fills the placeholders from a binding, or stops at the first fault; its position is the number of bytes
  before the opening brace.
- `references` lists the fields named by sound placeholders, each once, in the order of first occurrence.

Syntax: an opening brace doubled stands for one; an opening brace, a name and a closing brace stand for the value of
the name, which is exact, not empty and on one line; closing braces are taken in pairs that stand for one, and a
closing brace left over stands for itself.

Main statements: `source_pieces`, `pieces_append_newline`, `fillFrom_append`.
-/
import BranchRender.Binding

namespace BranchRender

/-- why a template cannot be filled, and where: bytes from its start -/
inductive TemplateFault
  | undefinedField (name : Text) (position : Nat)
  | unmatchedBrace (position : Nat)
  | emptyFieldName (position : Nat)
  deriving DecidableEq, Repr

/-- the bytes before the faulty placeholder -/
def TemplateFault.position : TemplateFault → Nat
  | .undefinedField _ p | .unmatchedBrace p | .emptyFieldName p => p

def TemplateFault.message : TemplateFault → Text
  | .undefinedField name p =>
    "undefined field '".toList ++ name ++ "' at position ".toList ++ Text.decimal p
  | .unmatchedBrace p => "unmatched '\x7b' at position ".toList ++ Text.decimal p
  | .emptyFieldName p => "empty field name '\x7b\x7d' at position ".toList ++ Text.decimal p

namespace Template

/-! ## Pieces -/

/-- what a template is made of -/
inductive Piece
  /-- one character that stands for itself -/
  | plain (c : Char)
  /-- a brace written twice, standing for one -/
  | doubled (c : Char)
  /-- a placeholder -/
  | field (name : Text)
  /-- a placeholder without a name -/
  | empty
  /-- an opening brace that is not closed on its line, with the text after it and the line feed if there is one -/
  | unclosed (text : Text)
  deriving DecidableEq, Repr

def Piece.source : Piece → Text
  | .plain c => [c]
  | .doubled c => [c, c]
  | .field name => '{' :: name ++ ['}']
  | .empty => ['{', '}']
  | .unclosed text => '{' :: text

/-- between pieces, or inside a placeholder, its text so far in reverse -/
abbrev Pending := Option Text

/-- the pieces of a template, from inside a placeholder or not -/
def piecesFrom : Pending → Text → List Piece
  | none, [] => []
  | none, '{' :: '{' :: t => .doubled '{' :: piecesFrom none t
  | none, '}' :: '}' :: t => .doubled '}' :: piecesFrom none t
  | none, c :: t => if c = '{' then piecesFrom (some []) t else .plain c :: piecesFrom none t
  | some acc, [] => [.unclosed acc.reverse]
  | some acc, c :: t =>
    if c = '}' then (if acc = [] then .empty else .field acc.reverse) :: piecesFrom none t
    else if c = '\n' then .unclosed (acc.reverse ++ ['\n']) :: piecesFrom none t
    else piecesFrom (some (c :: acc)) t

def pieces (t : Text) : List Piece := piecesFrom none t

theorem source_piecesFrom (p : Pending) (t : Text) :
    (piecesFrom p t).flatMap Piece.source = (match p with | none => t | some acc => '{' :: acc.reverse ++ t) := by
  fun_induction piecesFrom p t with
  | case1 => rfl
  | case2 t ih => simp [Piece.source, ih]
  | case3 t ih => simp [Piece.source, ih]
  | case4 t _ _ ih => simpa using ih
  | case5 c t _ _ _ ih => simp [Piece.source, ih]
  | case6 acc => simp [Piece.source]
  | case7 acc t ih =>
    by_cases h : acc = []
    · simp [h, Piece.source, ih]
    · simp [h, Piece.source, ih]
  | case8 acc t _ ih => simp [Piece.source, ih]
  | case9 acc c t _ _ ih => simp [ih]

/-- nothing of a template is lost in its pieces -/
theorem source_pieces (t : Text) : (pieces t).flatMap Piece.source = t := source_piecesFrom none t

/-- a character that is not doubled opens a placeholder or stands for itself -/
theorem piecesFrom_cons {c d : Char} (t : Text) (h : c = d → c ≠ '{' ∧ c ≠ '}') :
    piecesFrom none (c :: d :: t) =
      if c = '{' then piecesFrom (some []) (d :: t) else .plain c :: piecesFrom none (d :: t) := by
  refine piecesFrom.eq_4 c (d :: t) (fun t' hc ht => ?_) (fun t' hc ht => ?_)
  · exact (h (by simp_all)).1 hc
  · exact (h (by simp_all)).2 hc

theorem piecesFrom_append_newline (p : Pending) (s t : Text) :
    piecesFrom p (s ++ '\n' :: t) = piecesFrom p (s ++ ['\n']) ++ piecesFrom none t := by
  fun_induction piecesFrom p s with
  | case1 => simp [piecesFrom]
  | case2 s ih => simp [piecesFrom, ih]
  | case3 s ih => simp [piecesFrom, ih]
  | case4 s h1 h2 ih =>
    cases s with
    | nil => simp [piecesFrom]
    | cons d s =>
      have h : '{' = d → '{' ≠ '{' ∧ '{' ≠ '}' := fun e => (h1 s rfl (e ▸ rfl)).elim
      simp only [List.cons_append] at ih ⊢
      simp [piecesFrom_cons _ h, ih]
  | case5 c s h1 h2 hc ih =>
    cases s with
    | nil => simp [piecesFrom, hc]
    | cons d s =>
      have h : c = d → c ≠ '{' ∧ c ≠ '}' := fun e => ⟨hc, fun hb => h2 s hb (by rw [← e, hb])⟩
      simp only [List.cons_append] at ih ⊢
      simp [piecesFrom_cons _ h, hc, ih]
  | case6 acc => simp [piecesFrom]
  | case7 acc s ih => simp [piecesFrom, ih]
  | case8 acc s _ ih => simp [piecesFrom, ih]
  | case9 acc c s h1 h2 ih => simp [piecesFrom, h1, h2, ih]

/-- a line feed ends whatever was begun: the text after it may be cut on its own -/
theorem pieces_append_newline (s t : Text) : pieces (s ++ '\n' :: t) = pieces (s ++ ['\n']) ++ pieces t :=
  piecesFrom_append_newline none s t

/-! ## Filling -/

/-- what a piece stands for under `b`, `p` bytes from the start -/
def Piece.fill (b : Binding) (p : Nat) : Piece → Except TemplateFault Text
  | .plain c | .doubled c => .ok [c]
  | .field name => match b.get? name with
    | some value => .ok value
    | none => .error (.undefinedField name p)
  | .empty => .error (.emptyFieldName p)
  | .unclosed _ => .error (.unmatchedBrace p)

/-- the pieces filled one after the other, the first of them `p` bytes from the start -/
def fillFrom (b : Binding) : Nat → List Piece → Except TemplateFault Text
  | _, [] => .ok []
  | p, x :: xs =>
    match x.fill b p with
    | .error e => .error e
    | .ok s => (fillFrom b (p + x.source.size) xs).map (s ++ ·)

/-- the template filled from `b`, or its first fault -/
def render (b : Binding) (t : Text) : Except TemplateFault Text := fillFrom b 0 (pieces t)

/-! ## References -/

/-- the names found so far, and a name behind them that is neither empty nor among them -/
def collect (names : List Text) (name : Text) : List Text :=
  if name = [] ∨ name ∈ names then names else names ++ [name]

/-- the names found so far and those of the placeholders that follow, from inside a placeholder or not -/
def referencesFrom : Pending → List Text → Text → List Text
  | _, names, [] => names
  | none, names, '{' :: '{' :: t => referencesFrom none names t
  | none, names, c :: t => referencesFrom (if c = '{' then some [] else none) names t
  | some acc, names, c :: t =>
    if c = '}' then referencesFrom none (collect names acc.reverse) t
    else if c = '\n' then referencesFrom none names t
    else referencesFrom (some (c :: acc)) names t

/-- the fields a template names, each once, in the order of first occurrence; faulty placeholders are skipped -/
def references (t : Text) : List Text := referencesFrom none [] t

/-! ## Lemmas -/

theorem fillFrom_append (b : Binding) (p : Nat) (xs ys : List Piece) :
    fillFrom b p (xs ++ ys) =
      match fillFrom b p xs with
      | .error e => .error e
      | .ok s => (fillFrom b (p + Text.size (xs.flatMap Piece.source)) ys).map (s ++ ·) := by
  induction xs generalizing p with
  | nil => cases h : fillFrom b p ys <;> simp [fillFrom, h, Except.map]
  | cons x xs ih =>
    rw [List.cons_append, fillFrom, fillFrom]
    cases x.fill b p with
    | error e => rfl
    | ok s =>
      simp only [ih, List.flatMap_cons, Text.size_append]
      cases fillFrom b (p + x.source.size) xs with
      | error e => rfl
      | ok s' =>
        simp only [Except.map, Nat.add_assoc]
        cases fillFrom b (p + (x.source.size + Text.size (xs.flatMap Piece.source))) ys <;> simp

end Template
end BranchRender
