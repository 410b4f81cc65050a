/-
READERS: printed text is taken apart again, from the front.

- A `Reader` takes a value off the front of a text and leaves the rest. `Reads p s a`: in front of whatever follows, `p`
  takes just `s` and gives `a`. Laws put such facts together as the readers are put together, so no position is counted
  and two texts that are read alike up to some point were printed from the same value (`Reads.split`).
- `upTo` takes one thing after the other up to a closing text, `items` puts a separator between them. What they read
  must start apart from that text (`StartsApart`): then the text of one item never looks like the end of all.
- The two ways a text is written between quotes are undone character by character (`reads_quoted`, `reads_string`).

Main statements: `Reads.bind`, `Reads.split`, `reads_upTo`, `reads_listed`, `Text.reads_quoted`, `Json.reads_string`.
-/
import Mathlib.Tactic.IntervalCases
import BranchRender.Json
import BranchRender.Text.Quoted
import BranchRender.Yaml.ScalarText

namespace BranchRender

variable {α β : Type} {s t closing separator : Text} {a b : α}

/-- takes a value off the front of a text and leaves the rest -/
abbrev Reader (α : Type) := StateT Text Option α

/-- in front of whatever follows, `p` takes just `s` and gives `a` -/
def Reads (p : Reader α) (s : Text) (a : α) : Prop := ∀ rest, p.run (s ++ rest) = some (a, rest)

/-- the first characters differ -/
def StartsApart : Text → Text → Prop
  | c :: _, d :: _ => c ≠ d
  | _, _ => False

namespace Reader

def any : Reader Char := fun
  | [] => none
  | c :: t => some (c, t)

/-- goes on with `p` behind `s` if the text starts with it, with `q` otherwise -/
def ifNext (s : Text) (p q : Reader α) : Reader α := fun t =>
  match Text.dropPrefix? s t with
  | some r => p.run r
  | none => q.run t

def literal (s : Text) : Reader Unit := ifNext s (pure ()) failure

/-- takes what `p` takes, at most `n` times, and then `closing` -/
def repeated (closing : Text) (p : Reader α) : Nat → Reader (List α)
  | 0 => failure
  | n + 1 => ifNext closing (pure []) do return (← p) :: (← repeated closing p n)

/-- takes what `p` takes, as often as it stands there, and then `closing` -/
def upTo (closing : Text) (p : Reader α) : Reader (List α) := fun t => (repeated closing p (t.length + 1)).run t

/-- takes what `p` takes, once and again behind each `separator`, and then `closing` -/
def items (separator closing : Text) (p : Reader α) : Reader (List α) := do
  return (← p) :: (← upTo closing do
    literal separator
    p)

/-- takes a list from behind its opening bracket; without items the closing bracket stands alone -/
def listed (bracket : Char) (separator closing : Text) (p : Reader α) : Reader (List α) :=
  ifNext [bracket] (pure []) (items separator closing p)

/-- takes a text between quotes, from behind the opening one -/
def unquoted (p : Reader Char) : Reader Text := upTo ['"'] p

def quotation (p : Reader Char) : Reader Text := do
  literal ['"']
  unquoted p

end Reader

open Reader

/-! ## Laws -/

theorem Reads.pure (a : α) : Reads (Pure.pure a : Reader α) [] a := fun _ => rfl

theorem Reads.bind {p : Reader α} {f : α → Reader β} {b : β} (hp : Reads p s a) (hf : Reads (f a) t b) :
    Reads (p >>= f) (s ++ t) b := by
  intro rest
  rw [StateT.run_bind, List.append_assoc, hp]
  exact hf rest

theorem Reads.map {p : Reader α} (f : α → β) (hp : Reads p s a) : Reads (f <$> p) s (f a) := by
  intro rest
  rw [StateT.run_map, hp]
  rfl

/-- two texts that are read by one reader start alike only if they were printed from one value -/
theorem Reads.split {p : Reader α} (hs : Reads p s a) (ht : Reads p t b) {r r' : Text} (h : s ++ r = t ++ r') :
    a = b ∧ r = r' := by
  have hrun := hs r
  rw [h, ht r', Option.some.injEq, Prod.mk.injEq] at hrun
  exact ⟨hrun.1.symm, hrun.2.symm⟩

theorem Reads.any (c : Char) : Reads Reader.any [c] c := fun _ => rfl

theorem Reads.ifNext_here {p q : Reader α} (hp : Reads p t a) : Reads (ifNext s p q) (s ++ t) a := by
  intro rest
  have hdrop : Text.dropPrefix? s (s ++ (t ++ rest)) = some (t ++ rest) := Text.dropPrefix?_eq_some_iff.2 rfl
  unfold ifNext
  rw [StateT.run, List.append_assoc, hdrop]
  exact hp rest

theorem dropPrefix?_eq_none (h : StartsApart s t) (rest : Text) : Text.dropPrefix? s (t ++ rest) = none := by
  cases s with
  | nil => exact h.elim
  | cons c s =>
    cases t with
    | nil => exact h.elim
    | cons d t => exact if_neg h

theorem Reads.ifNext_apart {p q : Reader α} (h : StartsApart s t) (hq : Reads q t a) : Reads (ifNext s p q) t a := by
  intro rest
  unfold ifNext
  rw [StateT.run, dropPrefix?_eq_none h]
  exact hq rest

theorem Reads.literal (s : Text) : Reads (Reader.literal s) s () := by
  have h := Reads.ifNext_here (s := s) (q := failure) (Reads.pure ())
  rwa [List.append_nil] at h

theorem Reads.behind {p : Reader α} (s : Text) (hp : Reads p t a) :
    Reads (do Reader.literal s; p) (s ++ t) a := (Reads.literal s).bind hp

/-! ## Repetition -/

variable {p : Reader α} {print : α → Text} {l : List α}

theorem StartsApart.append (h : StartsApart s t) (r : Text) : StartsApart s (t ++ r) := by
  cases s with
  | nil => exact h.elim
  | cons c s =>
    cases t with
    | nil => exact h.elim
    | cons d t => exact h

theorem StartsApart.length_pos (h : StartsApart s t) : 0 < t.length := by
  cases s with
  | nil => exact h.elim
  | cons c s =>
    cases t with
    | nil => exact h.elim
    | cons d t => exact Nat.succ_pos _

/-- induction on the values; every one of them takes one of the `n` rounds, and the closing text the last -/
theorem reads_repeated (h : ∀ a ∈ l, Reads p (print a) a ∧ StartsApart closing (print a)) {n : Nat}
    (hn : l.length < n) : Reads (repeated closing p n) (l.flatMap print ++ closing) l := by
  induction l generalizing n with
  | nil =>
    obtain ⟨n, rfl⟩ := Nat.exists_eq_succ_of_ne_zero (Nat.ne_of_gt hn)
    have hend : Reads (repeated closing p (n + 1)) (closing ++ []) [] := (Reads.pure []).ifNext_here
    rwa [List.append_nil] at hend
  | cons a l ih =>
    obtain ⟨n, rfl⟩ := Nat.exists_eq_succ_of_ne_zero (Nat.ne_of_gt (Nat.zero_lt_of_lt hn))
    obtain ⟨ha, hl⟩ := List.forall_mem_cons.1 h
    have hrest := ih hl (Nat.lt_of_succ_lt_succ hn)
    rw [List.flatMap_cons, List.append_assoc]
    exact .ifNext_apart (ha.2.append _) (ha.1.bind (hrest.map (a :: ·)))

theorem length_le_flatMap (h : ∀ a ∈ l, 0 < (print a).length) : l.length ≤ (l.flatMap print).length := by
  induction l with
  | nil => exact Nat.le_refl _
  | cons a l ih =>
    obtain ⟨ha, hl⟩ := List.forall_mem_cons.1 h
    rw [List.flatMap_cons, List.length_append, List.length_cons]
    have := ih hl
    omega

theorem reads_upTo (h : ∀ a ∈ l, Reads p (print a) a ∧ StartsApart closing (print a)) :
    Reads (upTo closing p) (l.flatMap print ++ closing) l := by
  intro rest
  have hlength := length_le_flatMap fun a ha => (h a ha).2.length_pos
  refine reads_repeated h ?_ rest
  rw [List.length_append, List.length_append]
  omega

theorem reads_plain (h : ∀ c ∈ s, StartsApart closing [c]) : Reads (upTo closing any) (s ++ closing) s := by
  have hread : Reads (upTo closing any) (s.flatMap (fun c => [c]) ++ closing) s :=
    reads_upTo fun c hc => ⟨.any c, h c hc⟩
  rwa [List.flatMap_singleton'] at hread

theorem reads_items (h : ∀ a ∈ l, Reads p (print a) a) (hclosing : StartsApart closing separator) (hl : l ≠ []) :
    Reads (items separator closing p) (Text.joinWith separator (l.map print) ++ closing) l := by
  obtain ⟨a, l, rfl⟩ := List.exists_cons_of_ne_nil hl
  obtain ⟨ha, hl⟩ := List.forall_mem_cons.1 h
  have hrest : Reads (upTo closing do literal separator; p) (l.flatMap (fun b => separator ++ print b) ++ closing) l :=
    reads_upTo fun b hb => ⟨(hl b hb).behind separator, hclosing.append _⟩
  rw [List.map_cons, Text.joinWith_cons, List.flatMap_map, List.append_assoc]
  exact ha.bind (hrest.map (a :: ·))

theorem reads_listed {bracket : Char} (h : ∀ a ∈ l, Reads p (print a) a ∧ StartsApart [bracket] (print a))
    (hclosing : StartsApart closing separator) :
    Reads (listed bracket separator closing p)
      (if l = [] then [bracket] else Text.joinWith separator (l.map print) ++ closing) l := by
  by_cases hl : l = []
  · subst hl
    exact (Reads.pure []).ifNext_here
  · rw [if_neg hl]
    refine .ifNext_apart ?_ (reads_items (fun a ha => (h a ha).1) hclosing hl)
    obtain ⟨a, l, rfl⟩ := List.exists_cons_of_ne_nil hl
    rw [List.map_cons, Text.joinWith_cons, List.append_assoc]
    exact (h a List.mem_cons_self).2.append _

/-! ## Quotes -/

/-- a text written between quotes, from behind the opening one -/
theorem reads_unquoted {p : Reader Char} {escape : Char → Text}
    (h : ∀ c, Reads p (escape c) c ∧ StartsApart ['"'] (escape c)) (t : Text) :
    Reads (unquoted p) (t.flatMap escape ++ ['"']) t := reads_upTo fun c _ => h c

def hexNumber? (digits : Text) : Option Nat :=
  digits.foldlM (fun n c => (Yaml.hexValue? c).map (16 * n + ·)) 0

/-- takes no text, and gives the character of these hexadecimal digits -/
def Reader.numbered (digits : Text) : Reader Char := StateT.lift ((hexNumber? digits).bind Yaml.scalarValue?)

theorem hexValue?_digitChar {d : Nat} (h : d < 16) : Yaml.hexValue? d.digitChar = some d := by
  interval_cases d <;> rfl

theorem hexNumber?_hexadecimal (n : Nat) : hexNumber? (Text.hexadecimal n) = some n := by
  induction n using Nat.strongRecOn with
  | ind n ih =>
    rcases Nat.lt_or_ge n 16 with hn | hn
    · rw [Text.hexadecimal, Nat.toDigits_of_lt_base hn]
      simp [hexNumber?, hexValue?_digitChar hn]
    · have hfront := ih (n / 16) (Nat.div_lt_self (by omega) (by decide))
      have hlast := hexValue?_digitChar (Nat.mod_lt n (by decide : 16 > 0))
      rw [Text.hexadecimal, Nat.toDigits_of_base_le (by decide) hn, ← Text.hexadecimal]
      rw [hexNumber?, List.foldlM_append, ← hexNumber?, hfront]
      simp [hlast, Nat.div_add_mod]

theorem ne_of_mem_hexadecimal {n : Nat} {c d : Char} (h : c ∈ Text.hexadecimal n) (hd : Yaml.hexValue? d = none) :
    d ≠ c := by
  rintro rfl
  have hall := hexNumber?_hexadecimal n
  obtain ⟨front, back, hsplit⟩ := List.append_of_mem h
  rw [hsplit, hexNumber?, List.foldlM_append] at hall
  simp [hd] at hall

theorem reads_numbered {digits : Text} {c : Char} (h : hexNumber? digits = some c.toNat) :
    Reads (numbered digits) [] c := by
  have hc : Yaml.scalarValue? c.toNat = some c := by
    rw [Yaml.scalarValue?, if_pos (show c.toNat.isValidChar from c.valid), Char.ofNat_toNat]
  intro rest
  simp [numbered, h, hc, StateT.run, StateT.lift]

namespace Text

def character : Reader Char :=
  ifNext ['\\']
    (do match ← any with
      | '0' => return '\x00'
      | 't' => return '\t'
      | 'r' => return '\r'
      | 'n' => return '\n'
      | 'u' => do
        literal ['{']
        numbered (← upTo ['}'] any)
      | c => return c)
    any

theorem reads_escape (c : Char) : Reads character (escape c) c := by
  unfold escape
  split_ifs with h1 h2 h3 h4 h5 h6 h7
  · subst h1; exact fun _ => rfl
  · subst h2; exact fun _ => rfl
  · subst h3; exact fun _ => rfl
  · subst h4; exact fun _ => rfl
  · subst h5; exact fun _ => rfl
  · subst h6; exact fun _ => rfl
  · have happart : ∀ d ∈ hexadecimal c.toNat, '}' ≠ d := fun d hd => ne_of_mem_hexadecimal hd (by decide)
    have hdigits : Reads (upTo ['}'] any) _ _ := reads_plain happart
    have hnumber := hdigits.bind (reads_numbered (hexNumber?_hexadecimal c.toNat))
    rw [List.append_nil] at hnumber
    exact ((Reads.any 'u').bind (hnumber.behind ['{'])).ifNext_here
  · exact .ifNext_apart (Ne.symm h6) (.any c)

theorem startsApart_escape (c : Char) : StartsApart ['"'] (escape c) := by
  unfold escape
  split_ifs with h1 h2 h3 h4 h5
  all_goals first | exact Ne.symm h5 | exact (by decide : '"' ≠ '\\')

theorem reads_quoted (t : Text) : Reads (quotation character) (quoted t) t :=
  (reads_unquoted (fun c => ⟨reads_escape c, startsApart_escape c⟩) t).behind ['"']

end Text

namespace Json

def character : Reader Char :=
  ifNext ['\\']
    (do match ← any with
      | 'b' => return '\x08'
      | 'f' => return '\x0c'
      | 'n' => return '\n'
      | 'r' => return '\r'
      | 't' => return '\t'
      | 'u' => numbered [← any, ← any, ← any, ← any]
      | c => return c)
    any

theorem reads_control {c : Char} (h : c.toNat < 0x20) : Reads character (escape c) c := by
  have hc : c = Char.ofNat c.toNat := c.ofNat_toNat.symm
  generalize c.toNat = n at h hc
  subst hc
  interval_cases n <;> exact fun _ => rfl

theorem reads_escape (c : Char) : Reads character (escape c) c := by
  by_cases hcontrol : c.toNat < 0x20
  · exact reads_control hcontrol
  by_cases h1 : c = '"'
  · subst h1; exact fun _ => rfl
  by_cases h2 : c = '\\'
  · subst h2; exact fun _ => rfl
  have hne : ∀ d : Char, d.toNat < 0x20 → c ≠ d := fun d hd h => hcontrol (h ▸ hd)
  have hself : escape c = [c] := by
    simp only [escape, h1, h2, hne '\x08' (by decide), hne '\x0c' (by decide), hne '\n' (by decide),
      hne '\r' (by decide), hne '\t' (by decide), if_neg (show ¬ c.toNat < 0x10 by omega), hcontrol, if_false]
  rw [hself]
  exact .ifNext_apart (Ne.symm h2) (.any c)

theorem startsApart_escape (c : Char) : StartsApart ['"'] (escape c) := by
  unfold escape
  split_ifs with h1
  all_goals first | exact Ne.symm h1 | exact (by decide : '"' ≠ '\\')

theorem reads_body (t : Text) : Reads (unquoted character) (t.flatMap escape ++ ['"']) t :=
  reads_unquoted (fun c => ⟨reads_escape c, startsApart_escape c⟩) t

theorem reads_string (t : Text) : Reads (quotation character) (string t) t := (reads_body t).behind ['"']

end Json

end BranchRender
