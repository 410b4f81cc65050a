/-
TEXT: the characters every other module works on.

- `Text` is a list of Unicode scalar values; its order is the order of code points, which is also the order of the
  UTF-8 bytes, so sorted names come out in byte order.
- `isBlank` is the Unicode property White_Space, `trim` drops blank characters at both ends.
- `size` counts the bytes of the UTF-8 form: positions inside a template are counted so.
- `lastSegment` and `splitOn` cut a text at a separator, `joinWith` puts it together again.

Main statements: `trimEnd_append_cons`, `trim_eq_self`, `size_append`, `joinWith_splitOn`, `lastSegment_append`.
-/

namespace BranchRender

/-- text, one scalar value after the other -/
abbrev Text := List Char

namespace Text

/-! ## Order -/

instance : LE Text := List.instLE

instance : Std.LawfulOrderLT Text := List.instLawfulOrderLTOfAsymmLt

instance : Std.IsLinearOrder Text := List.instIsLinearOrder

/-! ## Blank characters -/

/-- the Unicode property White_Space -/
def isBlank (c : Char) : Bool :=
  let n := c.toNat
  (9 ≤ n && n ≤ 13) || n == 0x20 || n == 0x85 || n == 0xA0 || n == 0x1680 || (0x2000 ≤ n && n ≤ 0x200A)
    || n == 0x2028 || n == 0x2029 || n == 0x202F || n == 0x205F || n == 0x3000

/-- `t` without the blank characters it starts with -/
def trimStart (t : Text) : Text := t.dropWhile isBlank

/-- `t` without the blank characters it ends in -/
def trimEnd (t : Text) : Text := (t.reverse.dropWhile isBlank).reverse

/-- `t` without the blank characters at both ends -/
def trim (t : Text) : Text := trimEnd (trimStart t)

theorem trimStart_eq_self {c : Char} {t : Text} (h : isBlank c = false) : trimStart (c :: t) = c :: t := by
  simp [trimStart, h]

theorem dropWhile_append_cons {p : Char → Bool} {c : Char} (h : p c = false) (s t : Text) :
    (s ++ c :: t).dropWhile p = s.dropWhile p ++ c :: t := by
  induction s with
  | nil => simp [h]
  | cons d s ih =>
    rw [List.cons_append]
    by_cases hd : p d = true
    · rw [List.dropWhile_cons_of_pos hd, List.dropWhile_cons_of_pos hd, ih]
    · rw [List.dropWhile_cons_of_neg hd, List.dropWhile_cons_of_neg hd, List.cons_append]

theorem trimStart_append_cons {c : Char} (h : isBlank c = false) (s t : Text) :
    trimStart (s ++ c :: t) = trimStart s ++ c :: t := dropWhile_append_cons h s t

theorem trimEnd_append_cons {c : Char} (h : isBlank c = false) (s t : Text) :
    trimEnd (s ++ c :: t) = s ++ c :: trimEnd t := by
  have hreverse : (s ++ c :: t).reverse = t.reverse ++ c :: s.reverse := by simp
  rw [trimEnd, hreverse, dropWhile_append_cons h, trimEnd]
  simp

theorem trimEnd_append_blank {t : Text} (h : ∀ c ∈ t, isBlank c = true) (s : Text) : trimEnd (s ++ t) = trimEnd s := by
  have hall : ∀ c ∈ t.reverse, isBlank c = true := fun c hc => h c (List.mem_reverse.1 hc)
  rw [trimEnd, List.reverse_append, List.dropWhile_append_of_pos hall, trimEnd]

theorem trimEnd_concat {c : Char} {t : Text} (h : isBlank c = false) : trimEnd (t ++ [c]) = t ++ [c] :=
  trimEnd_append_cons h t []

theorem mem_of_mem_trimEnd {c : Char} {t : Text} (h : c ∈ trimEnd t) : c ∈ t :=
  List.mem_reverse.1 ((List.dropWhile_suffix isBlank).subset (List.mem_reverse.1 h))

/-- a text that neither starts nor ends with a blank character is its own trimmed form -/
theorem trim_eq_self {t : Text} (hs : ∀ c, t.head? = some c → isBlank c = false)
    (he : ∀ c, t.getLast? = some c → isBlank c = false) : trim t = t := by
  cases t with
  | nil => rfl
  | cons c r =>
    rw [trim, trimStart_eq_self (hs c rfl)]
    have hne : c :: r ≠ [] := by simp
    rw [← List.dropLast_concat_getLast hne]
    exact trimEnd_concat (he _ (List.getLast?_eq_some_getLast hne))

/-! ## Bytes -/

/-- the number of bytes of the UTF-8 form -/
def size : Text → Nat
  | [] => 0
  | c :: t => c.utf8Size + size t

@[simp] theorem size_nil : size [] = 0 := rfl

@[simp] theorem size_cons (c : Char) (t : Text) : size (c :: t) = c.utf8Size + size t := rfl

@[simp] theorem size_append (s t : Text) : size (s ++ t) = size s + size t := by
  induction s with
  | nil => simp
  | cons c s ih => simp [ih, Nat.add_assoc]

/-! ## Separators -/

/-- the parts of `t` between the separators `sep`: one more than there are separators -/
def splitOn (sep : Char) : Text → List Text
  | [] => [[]]
  | c :: t =>
    if c = sep then [] :: splitOn sep t
    else match splitOn sep t with
      | [] => [[c]]
      | p :: ps => (c :: p) :: ps

/-- the parts one after the other, `sep` between them -/
def joinWith (sep : Text) : List Text → Text
  | [] => []
  | [p] => p
  | p :: q :: ps => p ++ sep ++ joinWith sep (q :: ps)

theorem splitOn_ne_nil (sep : Char) (t : Text) : splitOn sep t ≠ [] := by
  cases t with
  | nil => simp [splitOn]
  | cons c t =>
    rw [splitOn]
    split
    · simp
    · split <;> simp

theorem joinWith_splitOn (sep : Char) (t : Text) : joinWith [sep] (splitOn sep t) = t := by
  induction t with
  | nil => rfl
  | cons c t ih =>
    rw [splitOn]
    cases hs : splitOn sep t with
    | nil => exact absurd hs (splitOn_ne_nil sep t)
    | cons p ps =>
      rw [hs] at ih
      split
      · next h => subst h; simp [joinWith, ih]
      · cases ps with
        | nil => simpa [joinWith] using ih
        | cons q qs => simpa [joinWith] using ih

theorem joinWith_cons (sep p : Text) (ps : List Text) : joinWith sep (p :: ps) = p ++ ps.flatMap (sep ++ ·) := by
  induction ps generalizing p with
  | nil => simp [joinWith]
  | cons q ps ih => rw [joinWith, ih, List.flatMap_cons, List.append_assoc, List.append_assoc]

/-- what stands after the last `sep`, all of `t` if there is none -/
def lastSegment (sep : Char) (t : Text) : Text := (t.reverse.takeWhile (· != sep)).reverse

theorem lastSegment_append {sep : Char} (q : Text) {k : Text} (h : sep ∉ k) :
    lastSegment sep (q ++ sep :: k) = k := by
  have hall : ∀ c ∈ k.reverse, (c != sep) = true := by
    intro c hc
    have hc' : c ∈ k := by simpa using hc
    simpa using fun e : c = sep => h (e ▸ hc')
  have hk : ∀ (l r : Text), (∀ c ∈ l, (c != sep) = true) → (l ++ sep :: r).takeWhile (· != sep) = l := by
    intro l r hl
    induction l with
    | nil => simp
    | cons c l ih =>
      rw [List.cons_append, List.takeWhile_cons, if_pos (hl c (by simp)), ih fun c hc => hl c (by simp [hc])]
  simp [lastSegment, List.reverse_append, hk k.reverse q.reverse hall]

/-! ## Numbers -/

def decimal (n : Nat) : Text := Nat.toDigits 10 n

/-- the hexadecimal digits of `n`, lower case -/
def hexadecimal (n : Nat) : Text := Nat.toDigits 16 n

/-- an integer in decimal digits, a minus sign before a negative one -/
def integer : Int → Text
  | .ofNat n => decimal n
  | .negSucc n => '-' :: decimal (n + 1)

/-! ## ASCII letters -/

/-- ASCII letters in lower case, everything else as it is -/
def toAsciiLower (t : Text) : Text := t.map Char.toLower

/-- whether `pre` starts `t`, and what follows it -/
def dropPrefix? : Text → Text → Option Text
  | [], t => some t
  | _ :: _, [] => none
  | p :: ps, c :: t => if p = c then dropPrefix? ps t else none

theorem dropPrefix?_eq_some_iff {p t r : Text} : dropPrefix? p t = some r ↔ t = p ++ r := by
  induction p generalizing t with
  | nil => simp [dropPrefix?, eq_comm]
  | cons c p ih =>
    cases t with
    | nil => simp [dropPrefix?]
    | cons d t =>
      rw [dropPrefix?]
      split
      · next h => subst h; simp [ih]
      · next h => simp; intro h'; exact absurd h'.symm h

end Text
end BranchRender
