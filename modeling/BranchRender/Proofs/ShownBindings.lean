/-
SHOWN BINDINGS: what is shown of a binding tells the binding.

- Read from the front, a shown binding gives its entries back (`reads_display`): a field name ends at its colon, and a
  quote inside a value is never taken for the one that ends it.
- A line that ends in a shown binding is read from behind. `Mark.step` follows a text and notes whether it is between
  quotes. A shown binding is only got through from its very beginning: what starts inside a value ends inside one, since
  every quote of it is taken the other way round (`eq_start_of_through_display`). So no shown binding is the end of a
  longer one (`eq_nil_of_display_suffix`), whatever stands in front of it.
- Of the pairs a binding is made from only the last of each field is left (`get?_ofList_eq_lastValue`).

Main statements: `reads_display`, `eq_nil_of_display_suffix`, `display_tells_binding`.
-/
import BranchRender.Program
import BranchRender.Proofs.Readers
import BranchRender.Proofs.Writing

namespace BranchRender

namespace OrderedMap

variable {κ α : Type} [DecidableEq κ]

/-- the value of the last pair of `k` -/
def lastValue (k : κ) (l : List (κ × α)) : Option α := (l.filter fun e => e.1 = k).getLast?.map (·.2)

theorem lookup_eq_find? (k : κ) (l : List (κ × α)) : lookup k l = (l.find? fun e => e.1 = k).map (·.2) := by
  induction l with
  | nil => rfl
  | cons e l ih => by_cases h : k = e.1 <;> simp [lookup, ih, h, eq_comm]

variable [LT κ] [DecidableLT κ] [LE κ] [Std.LawfulOrderLT κ] [Std.IsLinearOrder κ]

theorem get?_ofList_eq_lastValue (k : κ) (l : List (κ × α)) : (ofList l).get? k = lastValue k l := by
  rw [get?_ofList, lookup_eq_find?, ← List.head?_filter, List.filter_reverse, List.head?_reverse, lastValue]

/-- two lists make the same map just when their last values agree -/
theorem ofList_eq_iff {l l' : List (κ × α)} : ofList l = ofList l' ↔ ∀ k, lastValue k l = lastValue k l' := by
  simp only [← get?_ofList_eq_lastValue]
  exact ⟨fun h k => by rw [h], ext_get?⟩

end OrderedMap

namespace Binding

open Reader

variable {b b' : Binding} {e : Text × Text} {t : Text}

/-! ## From the front -/

def shownField : Reader (Text × Text) := do
  let name ← upTo ": ".toList any
  return (name, ← quotation Text.character)

def shown : Reader (List (Text × Text)) := do
  literal ['{']
  listed '}' ", ".toList ['}'] shownField

theorem ne_of_isNamePart {c d : Char} (h : Config.isNamePart c = true) (hd : Config.isNamePart d = false) : d ≠ c := by
  rintro rfl
  exact absurd h (by simp [hd])

theorem reads_displayField (h : Config.isIdentifier e.1 = true) : Reads shownField (displayField e) e := by
  have hname : Reads (upTo ": ".toList any) (e.1 ++ ": ".toList) e.1 :=
    reads_plain fun c hc => ne_of_isNamePart (Template.isNamePart_of_isIdentifier h c hc) (by decide)
  exact hname.bind ((Text.reads_quoted e.2).map (e.1, ·))

theorem startsApart_displayField (h : Config.isIdentifier e.1 = true) : StartsApart ['}'] (displayField e) := by
  obtain ⟨name, value⟩ := e
  cases name with
  | nil => exact absurd h (by simp [Config.isIdentifier])
  | cons c name => exact ne_of_isNamePart (Template.isNamePart_of_isIdentifier h c List.mem_cons_self) (by decide)

theorem isIdentifier_of_mem_entries (h : Config.IdentifierFields b) (he : e ∈ b.entries) :
    Config.isIdentifier e.1 = true := h e.1 (List.mem_map.2 ⟨e, he, rfl⟩)

/-- a shown binding gives its entries back; what follows it does not matter -/
theorem reads_display (h : Config.IdentifierFields b) : Reads shown b.display b.entries := by
  have hread : Reads (listed '}' ", ".toList ['}'] shownField) _ b.entries := reads_listed
    (fun e he => ⟨reads_displayField (isIdentifier_of_mem_entries h he),
      startsApart_displayField (isIdentifier_of_mem_entries h he)⟩) (by decide : '}' ≠ ',')
  have hshown : (if b.entries = [] then ['}'] else Text.joinWith ", ".toList (b.entries.map displayField) ++ ['}']) =
      Text.joinWith ", ".toList (b.entries.map displayField) ++ ['}'] := by
    split
    · next hnil => rw [hnil]; rfl
    · rfl
  rw [hshown] at hread
  exact hread.behind ['{']

/-- bindings that are shown alike, whatever follows, are the same -/
theorem eq_of_display_append {r r' : Text} (h : Config.IdentifierFields b) (h' : Config.IdentifierFields b')
    (heq : b.display ++ r = b'.display ++ r') : b = b' ∧ r = r' := by
  obtain ⟨hentries, hrest⟩ := (reads_display h).split (reads_display h') heq
  refine ⟨?_, hrest⟩
  cases b; cases b'; simp_all

/-! ## From behind -/

/-- what is noted of the text gone through -/
inductive Mark
  | start
  | outside
  | inside
  /-- behind a backslash between quotes -/
  | escaped

/-- goes on by one character, unless no shown binding goes on so -/
def Mark.step : Mark → Char → Option Mark
  | .start, c => if c = '{' then some .outside else none
  | .outside, c => if c = '"' then some .inside else if c = '{' ∨ c = '\\' then none else some .outside
  | .inside, c => if c = '"' then some .outside else if c = '\\' then some .escaped else some .inside
  | .escaped, c => if c = '{' then none else some .inside

def Mark.through (m : Mark) (t : Text) : Option Mark := t.foldlM Mark.step m

/-- `t` is gone through from `m` and `m` is noted again; from `n`, nothing but `n` is noted, if it is gone through -/
structure Keeps (m n : Mark) (t : Text) : Prop where
  again : m.through t = some m
  only : ∀ x, n.through t = some x → x = n

variable {m n : Mark}

theorem Mark.through_append (m : Mark) (s t : Text) : m.through (s ++ t) = (m.through s).bind fun x => x.through t :=
  List.foldlM_append

theorem Keeps.append {s t : Text} (hs : Keeps m n s) (ht : Keeps m n t) : Keeps m n (s ++ t) where
  again := by rw [Mark.through_append, hs.again, Option.bind_some, ht.again]
  only := by
    intro x hx
    rw [Mark.through_append] at hx
    obtain ⟨y, hy, hx⟩ := Option.bind_eq_some_iff.1 hx
    rw [hs.only y hy] at hx
    exact ht.only x hx

theorem Keeps.flatMap {α : Type} {f : α → Text} {l : List α} (h : ∀ a ∈ l, Keeps m n (f a)) :
    Keeps m n (l.flatMap f) := by
  induction l with
  | nil => exact ⟨rfl, fun x hx => (Option.some.inj hx).symm⟩
  | cons a l ih =>
    obtain ⟨ha, hl⟩ := List.forall_mem_cons.1 h
    exact ha.append (ih hl)

/-- what neither quotes nor escapes leaves a value where it is -/
theorem through_inside (h : ∀ c ∈ t, c ≠ '"' ∧ c ≠ '\\') : Mark.inside.through t = some .inside := by
  induction t with
  | nil => rfl
  | cons c t ih =>
    obtain ⟨⟨hquote, hslash⟩, ht⟩ := List.forall_mem_cons.1 h
    simpa [Mark.through, Mark.step, hquote, hslash] using ih ht

/-- what neither quotes, escapes nor opens leaves both sides of a quote where they are -/
theorem keeps_plain (h : ∀ c ∈ t, c ≠ '"' ∧ c ≠ '\\' ∧ c ≠ '{') : Keeps .outside .inside t where
  again := by
    induction t with
    | nil => rfl
    | cons c t ih =>
      obtain ⟨⟨hquote, hslash, hbrace⟩, ht⟩ := List.forall_mem_cons.1 h
      simpa [Mark.through, Mark.step, hquote, hslash, hbrace] using ih ht
  only := by
    intro x hx
    rw [through_inside fun c hc => ⟨(h c hc).1, (h c hc).2.1⟩, Option.some.injEq] at hx
    exact hx.symm

/-- an escape stays between quotes; outside quotes there is none -/
theorem keeps_escaped {c : Char} (hc : c ≠ '{') (ht : ∀ d ∈ t, d ≠ '"' ∧ d ≠ '\\') :
    Keeps .inside .outside ('\\' :: c :: t) where
  again := by simpa [Mark.through, Mark.step, hc] using through_inside ht
  only := by simp [Mark.through, Mark.step]

theorem keeps_escape (c : Char) : Keeps .inside .outside (Text.escape c) := by
  unfold Text.escape
  split_ifs with h1 h2 h3 h4 h5 h6 h7
  iterate 6 exact keeps_escaped (by decide) (by simp)
  · refine keeps_escaped (by decide) fun d hd => ?_
    have hdigit : d = '{' ∨ d ∈ Text.hexadecimal c.toNat ∨ d = '}' := by simpa using hd
    rcases hdigit with rfl | hdigit | rfl
    · decide
    · exact ⟨(ne_of_mem_hexadecimal hdigit (by decide)).symm, (ne_of_mem_hexadecimal hdigit (by decide)).symm⟩
    · decide
  · refine ⟨through_inside (by simp [h5, h6]), ?_⟩
    simp [Mark.through, Mark.step, h5, h6]

/-- between its own quotes a value is on the other side -/
theorem keeps_quoted (t : Text) : Keeps .outside .inside (Text.quoted t) := by
  have hvalue : Keeps .inside .outside (t.flatMap Text.escape) := .flatMap fun c _ => keeps_escape c
  have hopened : ∀ m n : Mark, m.step '"' = some n →
      m.through (Text.quoted t) = (n.through (t.flatMap Text.escape)).bind fun x => x.through ['"'] := by
    intro m n h
    rw [Text.quoted, List.cons_append, Mark.through, List.foldlM_cons, h, ← Mark.through_append]
    rfl
  refine ⟨?_, fun x hx => ?_⟩
  · rw [hopened .outside .inside rfl, hvalue.again]
    rfl
  · rw [hopened .inside .outside rfl] at hx
    obtain ⟨y, hy, hx⟩ := Option.bind_eq_some_iff.1 hx
    rw [hvalue.only y hy] at hx
    exact (Option.some.inj hx).symm

theorem keeps_displayField (h : Config.isIdentifier e.1 = true) : Keeps .outside .inside (displayField e) := by
  have hname : Keeps .outside .inside e.1 := keeps_plain fun c hc =>
    have hpart := Template.isNamePart_of_isIdentifier h c hc
    ⟨(ne_of_isNamePart hpart (by decide)).symm, (ne_of_isNamePart hpart (by decide)).symm,
      (ne_of_isNamePart hpart (by decide)).symm⟩
  exact (hname.append (keeps_plain (t := ": ".toList) (by simp))).append (keeps_quoted e.2)

theorem keeps_fields (h : Config.IdentifierFields b) :
    Keeps .outside .inside (Text.joinWith ", ".toList (b.entries.map displayField) ++ ['}']) := by
  refine .append ?_ (keeps_plain (by simp))
  have hfield : ∀ e ∈ b.entries, Keeps .outside .inside (displayField e) :=
    fun e he => keeps_displayField (isIdentifier_of_mem_entries h he)
  cases hentries : b.entries with
  | nil => exact keeps_plain (by simp [Text.joinWith])
  | cons e l =>
    rw [hentries] at hfield
    obtain ⟨he, hl⟩ := List.forall_mem_cons.1 hfield
    rw [List.map_cons, Text.joinWith_cons, List.flatMap_map]
    exact he.append (.flatMap fun d hd => (keeps_plain (t := ", ".toList) (by simp)).append (hl d hd))

theorem through_display (h : Config.IdentifierFields b) : Mark.start.through b.display = some .outside :=
  (keeps_fields h).again

/-- no shown binding is got through but from its beginning -/
theorem eq_start_of_through_display (h : Config.IdentifierFields b) (hm : m.through b.display = some .outside) :
    m = .start := by
  cases m with
  | start => rfl
  | outside => exact absurd hm (by simp [display, Mark.through, Mark.step])
  | escaped => exact absurd hm (by simp [display, Mark.through, Mark.step])
  | inside => exact absurd ((keeps_fields h).only _ hm) (by simp)

theorem step_ne_start (m : Mark) (c : Char) : m.step c ≠ some .start := by
  cases m <;> simp only [Mark.step] <;> split_ifs <;> simp

theorem eq_nil_of_through_start (h : m.through t = some .start) : t = [] := by
  rcases List.eq_nil_or_concat t with ht | ⟨t, c, rfl⟩
  · exact ht
  · rw [List.concat_eq_append, Mark.through_append] at h
    obtain ⟨x, -, hx⟩ := Option.bind_eq_some_iff.1 h
    exact absurd (by simpa [Mark.through] using hx) (step_ne_start x c)

theorem eq_nil_of_display_suffix {front : Text} (h : Config.IdentifierFields b) (h' : Config.IdentifierFields b')
    (heq : b.display = front ++ b'.display) : front = [] := by
  have hrun := through_display h
  rw [heq, Mark.through_append] at hrun
  obtain ⟨x, hfront, hx⟩ := Option.bind_eq_some_iff.1 hrun
  rw [eq_start_of_through_display h' hx] at hfront
  exact eq_nil_of_through_start hfront

/-- bindings that are shown alike, whatever stands in front, are the same -/
theorem eq_of_append_display {s s' : Text} (h : Config.IdentifierFields b) (h' : Config.IdentifierFields b')
    (heq : s ++ b.display = s' ++ b'.display) : b = b' := by
  have hdisplay : b.display = b'.display := by
    rcases List.append_eq_append_iff.1 heq with ⟨front, -, hlonger⟩ | ⟨front, -, hlonger⟩
    · rw [hlonger, eq_nil_of_display_suffix h h' hlonger, List.nil_append]
    · rw [hlonger, eq_nil_of_display_suffix h' h hlonger, List.nil_append]
  exact (eq_of_display_append h h' (congrArg (· ++ []) hdisplay)).1

end Binding

/-! ## Lines that show a binding -/

/-- the line of a report that shows the binding -/
def Report.bindingLine (r : Report) : Text :=
  labelled "Binding:   " (r.binding.display ++ (if r.listed then " (listed)".toList else " (default)".toList))

theorem Report.bindingLine_infix_text (r : Report) : r.bindingLine <:+: r.text :=
  ⟨labelled "Branch:    " r.branchWords, _, by simp only [text, bindingLine, List.append_assoc]; rfl⟩

theorem Report.binding_of_bindingLine {r r' : Report} (h : Config.IdentifierFields r.binding)
    (h' : Config.IdentifierFields r'.binding) (heq : r.bindingLine = r'.bindingLine) : r.binding = r'.binding := by
  simp only [bindingLine, labelled, List.append_assoc] at heq
  exact (Binding.eq_of_display_append h h' (List.append_cancel_left heq)).1

theorem Program.binding_of_summary {b b' : Binding} {file file' branch branch' : Text} (h : Config.IdentifierFields b)
    (h' : Config.IdentifierFields b') (heq : summary file branch b = summary file' branch' b') : b = b' :=
  Binding.eq_of_append_display h h' (List.append_cancel_right heq)

/-! ## Pairs -/

theorem OrderedMap.identifierFields_ofList {l : List (Text × Text)} (h : ∀ e ∈ l, Config.isIdentifier e.1 = true) :
    Config.IdentifierFields (ofList l) := by
  intro f hf
  obtain ⟨⟨k, v⟩, hentry, rfl⟩ := List.mem_map.1 hf
  rw [← get?_eq_some_iff, get?_ofList_eq_lastValue, lastValue] at hentry
  obtain ⟨e, hlast, -⟩ := Option.map_eq_some_iff.1 hentry
  obtain ⟨he, hk⟩ := List.mem_filter.1 (List.mem_of_getLast? hlast)
  exact of_decide_eq_true hk ▸ h e he

open OrderedMap in
/-- **Bindings are told apart.** Bindings of identifiers are shown alike just when the pairs they are made from have the same
last values, in whatever order and however often they stand. Neither the line of a report nor the summary shows two bindings
alike, whatever else is on them. -/
theorem Binding.display_tells_binding {l l' : List (Text × Text)} (hl : ∀ e ∈ l, Config.isIdentifier e.1 = true)
    (hl' : ∀ e ∈ l', Config.isIdentifier e.1 = true) :
    (display (ofList l) = display (ofList l') ↔ ∀ k, lastValue k l = lastValue k l') ∧
    (∀ r r' : Report, r.binding = ofList l → r'.binding = ofList l' → r.bindingLine <:+: r.text ∧
      (r.bindingLine = r'.bindingLine → ∀ k, lastValue k l = lastValue k l')) ∧
    ∀ file file' branch branch', Program.summary file branch (ofList l) = Program.summary file' branch' (ofList l') →
      ∀ k, lastValue k l = lastValue k l' := by
  have hb := identifierFields_ofList hl
  have hb' := identifierFields_ofList hl'
  simp only [← ofList_eq_iff]
  refine ⟨⟨fun h => ?_, fun h => by rw [h]⟩, ?_, ?_⟩
  · exact (eq_of_display_append hb hb' (congrArg (· ++ []) h)).1
  · intro r r' hr hr'
    refine ⟨r.bindingLine_infix_text, fun h => ?_⟩
    rw [← hr, ← hr']
    exact Report.binding_of_bindingLine (hr ▸ hb) (hr' ▸ hb') h
  · exact fun _ _ _ _ => Program.binding_of_summary hb hb'

open OrderedMap in
/-- a value that holds the quotes and the separator of a second field is not taken for one -/
theorem Binding.quotes_in_value_show :
    display (ofList [("a".toList, "1\", b: \"2".toList)]) ≠
      display (ofList [("a".toList, "1".toList), ("b".toList, "2".toList)]) :=
  fun h => absurd ((display_tells_binding (by decide) (by decide)).1.1 h "b".toList) (by decide)

end BranchRender
