/-
LINES: what is read line by line is read as a whole.

- `lines_induction` goes as `Rendering.lines` does: bytes are none, a last line without a line feed, or a line with one and
  the lines after it.
- UTF-8 text has a line feed for each line feed of its bytes (`count_newline`): no other bytes make up the character, since
  a character of more than one byte is beyond ASCII (`Begun.Beyond`).
- So the text of some bytes is the text of the first line and the text of the others (`decode?_line`), and the first line
  ends in its only line feed (`newline_of_line`).

Main statements: `lines_induction`, `count_newline`, `decode?_line`.
-/
import Mathlib.Tactic.ByContra
import BranchRender.Rendering

namespace BranchRender

namespace Utf8

variable {s : State} {bs : List UInt8} {t : Text} {ps qs : List Piece}

/-! ## Line feeds -/

theorem ofNat_eq_newline {n : Nat} : Char.ofNat n = '\n' ↔ n = 10 := by
  constructor
  · intro h
    by_cases hn : n.isValidChar
    · rw [Char.ofNat, dif_pos hn] at h
      exact congrArg Char.toNat h
    · rw [Char.ofNat, dif_neg hn] at h
      exact absurd h (by decide)
  · rintro rfl
    rfl

/-- whatever the next bytes are, the character is beyond ASCII -/
def Begun.Beyond (p : Begun) : Prop := 2 ≤ p.value ∨ 0 < p.owed ∧ (1 ≤ p.value ∨ 0x82 ≤ p.lo)

theorem beyond_begin (b : Nat) : ∀ p ∈ (begin b).2, p.Beyond := by
  intro p hp
  unfold begin at hp
  (repeat' split at hp) <;> simp only [Option.mem_def, reduceCtorEq, Option.some.injEq] at hp <;> subst hp <;>
    simp only [Begun.Beyond] <;> omega

theorem beyond_step (h : ∀ p ∈ s, p.Beyond) (b : Nat) : ∀ p ∈ (step s b).2, p.Beyond := by
  cases s with
  | none => exact beyond_begin b
  | some q =>
    have hq := h q rfl
    intro p hp
    rw [step] at hp
    split at hp
    · next hb =>
      split at hp
      · exact absurd hp (by simp)
      · simp only [Option.mem_def, Option.some.injEq] at hp
        subst hp
        simp only [Begun.Beyond] at hq ⊢
        have := q.lo_high
        omega
    · exact beyond_begin b p hp

theorem count_begin (b : Nat) : (begin b).1.count (some '\n') = if b = 10 then 1 else 0 := by
  unfold begin
  split
  · by_cases hb : b = 10
    · rw [hb]; rfl
    · have hne : some (Char.ofNat b) ≠ some '\n' := fun h => hb (ofNat_eq_newline.1 (Option.some.inj h))
      simp [hb, hne]
  · have hb : b ≠ 10 := by omega
    rw [if_neg hb]
    (repeat' split) <;> rfl

theorem count_step (h : ∀ p ∈ s, p.Beyond) (b : Nat) :
    (step s b).1.count (some '\n') = if b = 10 then 1 else 0 := by
  cases s with
  | none => exact count_begin b
  | some q =>
    have hq := h q rfl
    rw [step]
    split
    · next hb =>
      have hlo := q.lo_high
      have hne : b ≠ 10 := by omega
      split
      · next howed =>
        have hvalue : q.value * 64 + (b - 0x80) ≠ 10 := by
          simp only [Begun.Beyond, howed] at hq
          omega
        have hchar : some (Char.ofNat (q.value * 64 + (b - 0x80))) ≠ some '\n' :=
          fun he => hvalue (ofNat_eq_newline.1 (Option.some.inj he))
        simp [hne, hchar]
      · simp [hne]
    · rw [List.count_cons, count_begin]
      simp

theorem count_newline_pieces (h : ∀ p ∈ s, p.Beyond) (bs : List UInt8) :
    (pieces s bs).count (some '\n') = bs.count 10 := by
  induction bs generalizing s with
  | nil => cases s <;> rfl
  | cons b bs ih =>
    rw [pieces_cons, List.count_append, count_step h, ih (beyond_step h b.toNat), List.count_cons, Nat.add_comm]
    have hb : b.toNat = 10 ↔ b = 10 := by
      rw [← UInt8.toNat_inj]
      rfl
    simp [hb]

/-! ## Reading -/

theorem allRead_eq_some : allRead ps = some t ↔ ps = t.map some := by
  induction ps generalizing t with
  | nil => cases t <;> simp [allRead]
  | cons p ps ih =>
    cases p with
    | none => cases t <;> simp [allRead]
    | some c =>
      cases t with
      | nil => simp [allRead]
      | cons d t =>
        rw [allRead, Option.map_eq_some_iff, List.map_cons, List.cons.injEq, Option.some.injEq]
        constructor
        · rintro ⟨u, hu, he⟩
          obtain ⟨rfl, rfl⟩ := List.cons.inj he
          exact ⟨rfl, ih.1 hu⟩
        · rintro ⟨rfl, hps⟩
          exact ⟨t, ih.2 hps, rfl⟩

theorem allRead_append : allRead (ps ++ qs) = (allRead ps).bind fun u => (allRead qs).map (u ++ ·) := by
  induction ps with
  | nil => cases h : allRead qs <;> simp [allRead, h]
  | cons p ps ih =>
    cases p with
    | none => rfl
    | some c =>
      rw [List.cons_append, allRead, ih, allRead]
      cases allRead ps <;> cases allRead qs <;> rfl

theorem count_newline (h : decode? bs = some t) : t.count '\n' = bs.count 10 := by
  have hps : pieces none bs = t.map some := allRead_eq_some.1 h
  have hmap : (t.map some).count (some '\n') = t.count '\n' := by
    rw [List.count, List.countP_map]
    rfl
  rw [← hmap, ← hps]
  exact count_newline_pieces (by simp) bs

theorem count_newline_encode (t : Text) : (encode t).count 10 = t.count '\n' :=
  (count_newline (decode?_encode t)).symm

theorem decode?_line (l rest : List UInt8) : decode? (l ++ 10 :: rest) =
    (decode? (l ++ [10])).bind fun u => (decode? rest).map (u ++ ·) := by
  unfold decode?
  rw [pieces_append_newline, allRead_append]

theorem pieces_newline (s : State) (l : List UInt8) : ∃ ps, pieces s (l ++ [10]) = ps ++ [some '\n'] := by
  induction l generalizing s with
  | nil =>
    cases s with
    | none => exact ⟨[], rfl⟩
    | some p =>
      have hlo : ¬ p.lo ≤ 10 := by have := p.lo_high; omega
      refine ⟨[none], ?_⟩
      simp [pieces_cons, step, begin, hlo, pieces]
  | cons b l ih =>
    obtain ⟨ps, hps⟩ := ih (step s b.toNat).2
    exact ⟨(step s b.toNat).1 ++ ps, by rw [List.cons_append, pieces_cons, hps, List.append_assoc]⟩

theorem newline_of_line {l : List UInt8} (hl : 10 ∉ l) (h : decode? (l ++ [10]) = some t) :
    ∃ u, t = u ++ ['\n'] ∧ '\n' ∉ u := by
  have hcount := count_newline h
  obtain ⟨ps, hps⟩ := pieces_newline none l
  have ht : ps ++ [some '\n'] = t.map some := hps.symm.trans (allRead_eq_some.1 h)
  obtain ⟨u, v, rfl, -, hv⟩ := List.map_eq_append_iff.1 ht.symm
  obtain ⟨c, rfl, hc⟩ : ∃ c, v = [c] ∧ c = '\n' := by
    obtain ⟨c, w, rfl, hc, hw⟩ := List.map_eq_cons_iff.1 hv
    exact ⟨c, by rw [List.map_eq_nil_iff.1 hw], Option.some.inj hc⟩
  subst hc
  refine ⟨u, rfl, List.count_eq_zero.1 ?_⟩
  rw [List.count_append, List.count_append, List.count_eq_zero.2 hl] at hcount
  simpa using hcount

theorem newline_not_mem (hl : 10 ∉ bs) (h : decode? bs = some t) : '\n' ∉ t := by
  rw [← List.count_eq_zero, count_newline h, List.count_eq_zero]
  exact hl

end Utf8

namespace Rendering

/-! ## Lines of bytes -/

theorem lines_of_not_mem {l : List UInt8} (h : 10 ∉ l) (hne : l ≠ []) : lines l = [l] := by
  induction l with
  | nil => exact absurd rfl hne
  | cons b l ih =>
    rw [List.mem_cons, not_or] at h
    rw [lines, if_neg (Ne.symm h.1)]
    cases l with
    | nil => rfl
    | cons c l => rw [ih h.2 (List.cons_ne_nil c l)]

theorem lines_line {l : List UInt8} (h : 10 ∉ l) (rest : List UInt8) :
    lines (l ++ 10 :: rest) = (l ++ [10]) :: lines rest := by
  induction l with
  | nil => simp [lines]
  | cons b l ih =>
    rw [List.mem_cons, not_or] at h
    rw [List.cons_append, lines, if_neg (Ne.symm h.1), ih h.2]
    rfl

/-- bytes are none, a last line, or a line and the lines after it -/
theorem lines_induction {motive : List UInt8 → Prop} (nil : motive []) (last : ∀ l, l ≠ [] → 10 ∉ l → motive l)
    (line : ∀ l rest, 10 ∉ l → motive rest → motive (l ++ 10 :: rest)) (bytes : List UInt8) : motive bytes := by
  induction hn : bytes.length using Nat.strongRecOn generalizing bytes with
  | _ n ih =>
    by_cases h : 10 ∈ bytes
    · obtain ⟨l, rest, rfl, hl⟩ := List.eq_append_cons_of_mem h
      refine line l rest hl (ih rest.length ?_ rest rfl)
      rw [← hn, List.length_append, List.length_cons]
      omega
    · by_cases hne : bytes = []
      · exact hne ▸ nil
      · exact last bytes hne h

end Rendering
end BranchRender
