/-
UTF-8: text as bytes.

- `encode` writes text, `decode?` reads it back and refuses ill-formed bytes, `decodeLossy` puts U+FFFD for each
  ill-formed piece instead.
- The reader is a machine fed one byte at a time: `State` holds the continuation bytes a character still owes, `step`
  takes a byte, `pieces` runs the machine over all of them. An ill-formed piece is the longest start of a well-formed
  character, or a single byte where there is none.

Main statements: `decode?_encode`, `decodeLossy_encode`, `pieces_append_newline` (a line feed always ends a piece, so
bytes may be decoded line by line).
-/
import BranchRender.Text

namespace BranchRender.Utf8

def encode (t : Text) : List UInt8 := t.flatMap String.utf8EncodeChar

@[simp] theorem encode_nil : encode [] = [] := rfl

@[simp] theorem encode_cons (c : Char) (t : Text) : encode (c :: t) = String.utf8EncodeChar c ++ encode t := rfl

/-! ## The machine -/

/-- a character begun: `value` so far, the next byte in `lo`..`hi`, and `owed` more after that one -/
structure Begun where
  value : Nat
  lo : Nat
  hi : Nat
  owed : Nat
  lo_high : 0x80 ≤ lo := by decide
  deriving DecidableEq, Repr

/-- between characters, or inside one -/
abbrev State := Option Begun

/-- a character read, or `none` for an ill-formed piece -/
abbrev Piece := Option Char

/-- the machine between characters takes a byte -/
def begin (b : Nat) : List Piece × State :=
  if b ≤ 0x7F then ([some (Char.ofNat b)], none)
  else if b < 0xC2 then ([none], none)
  else if b ≤ 0xDF then ([], some { value := b - 0xC0, lo := 0x80, hi := 0xBF, owed := 0 })
  else if b = 0xE0 then ([], some { value := 0, lo := 0xA0, hi := 0xBF, owed := 1 })
  else if b = 0xED then ([], some { value := 0xD, lo := 0x80, hi := 0x9F, owed := 1 })
  else if b ≤ 0xEF then ([], some { value := b - 0xE0, lo := 0x80, hi := 0xBF, owed := 1 })
  else if b = 0xF0 then ([], some { value := 0, lo := 0x90, hi := 0xBF, owed := 2 })
  else if b ≤ 0xF3 then ([], some { value := b - 0xF0, lo := 0x80, hi := 0xBF, owed := 2 })
  else if b = 0xF4 then ([], some { value := 4, lo := 0x80, hi := 0x8F, owed := 2 })
  else ([none], none)

/-- the machine takes a byte: the pieces this ends, and the state after it -/
def step : State → Nat → List Piece × State
  | none, b => begin b
  | some p, b =>
    if p.lo ≤ b ∧ b ≤ p.hi then
      let v := p.value * 64 + (b - 0x80)
      match p.owed with
      | 0 => ([some (Char.ofNat v)], none)
      | n + 1 => ([], some { value := v, lo := 0x80, hi := 0xBF, owed := n })
    else (none :: (begin b).1, (begin b).2)

/-- the pieces of a byte string, from state `s` -/
def pieces : State → List UInt8 → List Piece
  | none, [] => []
  | some _, [] => [none]
  | s, b :: r => (step s b.toNat).1 ++ pieces (step s b.toNat).2 r

/-! ## Reading -/

/-- the text, if every piece is a character -/
def allRead : List Piece → Option Text
  | [] => some []
  | none :: _ => none
  | some c :: ps => (allRead ps).map (c :: ·)

/-- the text these bytes are the UTF-8 form of -/
def decode? (bs : List UInt8) : Option Text := allRead (pieces none bs)

/-- the text of these bytes, U+FFFD for each ill-formed piece -/
def decodeLossy (bs : List UInt8) : Text := (pieces none bs).map (·.getD '\uFFFD')

/-! ## Lemmas -/

theorem pieces_cons (s : State) (b : UInt8) (r : List UInt8) :
    pieces s (b :: r) = (step s b.toNat).1 ++ pieces (step s b.toNat).2 r := by
  cases s <;> rfl

theorem allRead_map_some (t : Text) : allRead (t.map some) = some t := by
  induction t with
  | nil => rfl
  | cons c t ih => simp [allRead, ih]

theorem step_newline (s : State) : (step s 10).2 = none := by
  cases s with
  | none => rfl
  | some p =>
    have hlo : ¬ p.lo ≤ 10 := by have := p.lo_high; omega
    simp [step, begin, hlo]

/-- a line feed ends whatever was begun: the bytes after it are read from between characters -/
theorem pieces_append_newline (s : State) (a b : List UInt8) :
    pieces s (a ++ 10 :: b) = pieces s (a ++ [10]) ++ pieces none b := by
  induction a generalizing s with
  | nil =>
    have h := step_newline s
    simp [pieces_cons, h, pieces]
  | cons c a ih => simp [pieces_cons, ih]

theorem pieces_encodeChar (c : Char) (r : List UInt8) :
    pieces none (String.utf8EncodeChar c ++ r) = some c :: pieces none r := by
  have hc : Char.ofNat c.toNat = c := Char.ofNat_toNat c
  have hv : c.val.toNat = c.toNat := rfl
  have hr : c.toNat < 0xD800 ∨ 0xDFFF < c.toNat ∧ c.toNat < 0x110000 := c.valid
  unfold String.utf8EncodeChar
  simp only [hv]
  generalize c.toNat = v at *
  split
  · next h =>
    have h1 : (UInt8.ofNat v).toNat = v := by simp; omega
    simp only [List.cons_append, List.nil_append, pieces_cons, h1]
    simp [step, begin, h, hc]
  · split
    · next h0 h =>
      have h1 : (UInt8.ofNat (v / 64 % 32 + 192)).toNat = v / 64 + 192 := by simp; omega
      have h2 : (UInt8.ofNat (v % 64 + 128)).toNat = v % 64 + 128 := by simp; omega
      have e : v / 64 * 64 + v % 64 = v := by omega
      simp only [List.cons_append, List.nil_append, pieces_cons, h1, h2]
      simp [step, begin, show ¬ v / 64 + 192 ≤ 127 by omega, show ¬ v / 64 + 192 < 194 by omega,
        show v / 64 + 192 ≤ 223 by omega, show v % 64 + 128 ≤ 191 by omega, e, hc]
    · split
      · next h0' h0 h =>
        have h1 : (UInt8.ofNat (v / 4096 % 16 + 224)).toNat = v / 4096 + 224 := by simp; omega
        have h2 : (UInt8.ofNat (v / 64 % 64 + 128)).toNat = v / 64 % 64 + 128 := by simp; omega
        have h3 : (UInt8.ofNat (v % 64 + 128)).toNat = v % 64 + 128 := by simp; omega
        have e : (v / 4096 * 64 + v / 64 % 64) * 64 + v % 64 = v := by omega
        have hb : ¬ v / 4096 + 224 ≤ 127 ∧ ¬ v / 4096 + 224 < 194 ∧ ¬ v / 4096 + 224 ≤ 223 ∧ v / 4096 + 224 ≤ 239 := by
          omega
        by_cases hz : v / 4096 = 0
        · have e' : v / 64 % 64 * 64 + v % 64 = v := by omega
          simp only [List.cons_append, List.nil_append, pieces_cons, h1, h2, h3]
          simp [step, begin, hz, show 160 ≤ v / 64 % 64 + 128 by omega,
            show v / 64 % 64 + 128 ≤ 191 by omega, show v % 64 + 128 ≤ 191 by omega, e', hc]
        · by_cases hd : v / 4096 = 13
          · have e' : (13 * 64 + v / 64 % 64) * 64 + v % 64 = v := by omega
            simp only [List.cons_append, List.nil_append, pieces_cons, h1, h2, h3]
            simp [step, begin, hd, show v / 64 % 64 + 128 ≤ 159 by omega,
              show v % 64 + 128 ≤ 191 by omega, e', hc]
          · simp only [List.cons_append, List.nil_append, pieces_cons, h1, h2, h3]
            simp [step, begin, hb, show ¬ v < 4096 by omega,
              show ¬ v / 4096 + 224 = 237 by omega, show v / 64 % 64 + 128 ≤ 191 by omega,
              show v % 64 + 128 ≤ 191 by omega, e, hc]
      · next h0'' h0' h0 =>
        have h1 : (UInt8.ofNat (v / 262144 % 8 + 240)).toNat = v / 262144 + 240 := by simp; omega
        have h2 : (UInt8.ofNat (v / 4096 % 64 + 128)).toNat = v / 4096 % 64 + 128 := by simp; omega
        have h3 : (UInt8.ofNat (v / 64 % 64 + 128)).toNat = v / 64 % 64 + 128 := by simp; omega
        have h4 : (UInt8.ofNat (v % 64 + 128)).toNat = v % 64 + 128 := by simp; omega
        have e : ((v / 262144 * 64 + v / 4096 % 64) * 64 + v / 64 % 64) * 64 + v % 64 = v := by omega
        by_cases hz : v / 262144 = 0
        · have e' : (v / 4096 % 64 * 64 + v / 64 % 64) * 64 + v % 64 = v := by omega
          simp only [List.cons_append, List.nil_append, pieces_cons, h1, h2, h3, h4]
          simp [step, begin, hz, show 144 ≤ v / 4096 % 64 + 128 by omega,
            show v / 4096 % 64 + 128 ≤ 191 by omega, show v / 64 % 64 + 128 ≤ 191 by omega,
            show v % 64 + 128 ≤ 191 by omega, e', hc]
        · by_cases hd : v / 262144 = 4
          · have e' : ((4 * 64 + v / 4096 % 64) * 64 + v / 64 % 64) * 64 + v % 64 = v := by omega
            simp only [List.cons_append, List.nil_append, pieces_cons, h1, h2, h3, h4]
            simp [step, begin, hd, show v / 4096 % 64 + 128 ≤ 143 by omega,
              show v / 64 % 64 + 128 ≤ 191 by omega, show v % 64 + 128 ≤ 191 by omega, e', hc]
          · have hb : ¬ v / 262144 + 240 ≤ 127 ∧ ¬ v / 262144 + 240 < 194 ∧ ¬ v / 262144 + 240 ≤ 223 ∧
                ¬ v / 262144 + 240 = 224 ∧ ¬ v / 262144 + 240 = 237 ∧ ¬ v / 262144 + 240 ≤ 239 ∧
                ¬ v / 262144 + 240 = 240 ∧ v / 262144 + 240 ≤ 243 := by omega
            simp only [List.cons_append, List.nil_append, pieces_cons, h1, h2, h3, h4]
            simp [step, begin, hb, show ¬ v < 262144 by omega, show v / 4096 % 64 + 128 ≤ 191 by omega,
              show v / 64 % 64 + 128 ≤ 191 by omega, show v % 64 + 128 ≤ 191 by omega, e, hc]

theorem pieces_encode (t : Text) : pieces none (encode t) = t.map some := by
  induction t with
  | nil => rfl
  | cons c t ih => simp [pieces_encodeChar, ih]

theorem decode?_encode (t : Text) : decode? (encode t) = some t := by
  rw [decode?, pieces_encode, allRead_map_some]

theorem decodeLossy_encode (t : Text) : decodeLossy (encode t) = t := by
  rw [decodeLossy, pieces_encode]
  induction t with
  | nil => rfl
  | cons c t ih => simp [ih]

end BranchRender.Utf8
