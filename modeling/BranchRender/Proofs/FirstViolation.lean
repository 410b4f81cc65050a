/-
FIRST VIOLATIONS: which configurations are accepted, and what is said of any other.

- What a configuration is asked for is a list of rules (`Config.rules`), each with what is said where it is broken: of the
  template, the output and the two of them, then of every entry of the branch table, then of the fallback. Nothing in
  it goes by the checks.
- A check reports on a list of rules if it finds nothing where all of them hold, and otherwise the first one that is broken
  (`Reports`). Checks put together as the rules are report on all of them (`reports_rules`).
- A field name is an identifier if it is a word of `[A-Za-z_][A-Za-z0-9_]*` (`isIdentifier_iff`), so no line feed
  stands behind it either.
- Entries and fields come in the order of the bytes of their names (`inByteOrder_keys`).

Main statements: `reports_rules`, `isIdentifier_iff`, `inByteOrder_keys`, `refused_for_first_violation`.
-/
import Mathlib.Computability.Language
import Mathlib.Data.List.TakeWhile
import BranchRender.Proofs.Renders
import BranchRender.Text.Utf8

open Computability

namespace BranchRender

/-! ## The order of names -/

namespace Utf8

/-- characters stand in the order of their bytes, whatever comes behind them -/
theorem encodeChar_lt {c d : Char} (h : c < d) (x y : List UInt8) :
    String.utf8EncodeChar c ++ x < String.utf8EncodeChar d ++ y := by
  have hv : c.val.toNat < d.val.toNat := h
  have hd : d.val.toNat < 0x110000 := by
    have hvalid : d.val.toNat < 0xD800 ∨ 0xDFFF < d.val.toNat ∧ d.val.toNat < 0x110000 := d.valid
    omega
  have hlt : ∀ {m n : Nat}, UInt8.ofNat m < UInt8.ofNat n ↔ m % 256 < n % 256 := by
    intro m n
    simp [UInt8.lt_iff_toNat_lt]
  have heq : ∀ {m n : Nat}, UInt8.ofNat m = UInt8.ofNat n ↔ m % 256 = n % 256 := by
    intro m n
    simp [← UInt8.toNat_inj]
  unfold String.utf8EncodeChar
  simp only
  generalize c.val.toNat = v at *
  generalize d.val.toNat = w at *
  -- the longer form has the larger first byte; two of one length are digits of the two numbers
  (repeat' split) <;>
    simp (disch := omega) only [List.cons_append, List.nil_append, List.cons_lt_cons_iff, hlt, heq, Nat.mod_eq_of_lt] <;>
    omega

theorem encode_lt {s t : Text} (h : s < t) : encode s < encode t := by
  induction s generalizing t with
  | nil =>
    cases t with
    | nil => exact absurd h (List.not_lt_nil [])
    | cons d t =>
      have hd : String.utf8EncodeChar d ≠ [] := by simp
      obtain ⟨b, r, hb⟩ := List.exists_cons_of_ne_nil hd
      rw [encode_nil, encode_cons, hb]
      exact List.nil_lt_cons _ _
  | cons c s ih =>
    cases t with
    | nil => exact absurd h (List.not_lt_nil _)
    | cons d t =>
      rcases List.cons_lt_cons_iff.1 h with hcd | ⟨rfl, hst⟩
      · exact encodeChar_lt hcd _ _
      · rw [encode_cons, encode_cons]
        exact List.append_left_lt (ih hst)

end Utf8

/-- names in ascending order of their bytes -/
def InByteOrder (names : List Text) : Prop := (names.map Utf8.encode).Pairwise (· < ·)

/-- the keys of a map are listed in the order of their bytes -/
theorem inByteOrder_keys {α : Type} (m : NameMap α) : InByteOrder m.keys := by
  rw [InByteOrder, OrderedMap.keys, List.map_map, List.pairwise_map]
  exact m.ascending.imp Utf8.encode_lt

namespace Text

theorem trim_ne_nil_iff {t : Text} : trim t ≠ [] ↔ ∃ c ∈ t, isBlank c = false := by
  constructor
  · intro h
    by_contra hblank
    have hall : ∀ c ∈ t, isBlank c = true := by simpa using hblank
    have hstart : trimStart t = [] := List.dropWhile_eq_nil_iff.2 hall
    rw [trim, hstart] at h
    exact h rfl
  · rintro ⟨c, hc, hblank⟩
    obtain ⟨s, r, rfl⟩ := List.append_of_mem hc
    rw [trim, trimStart_append_cons hblank, trimEnd_append_cons hblank]
    simp

end Text

namespace Violation

/-- the names of what a violation is about: a setting, an entry of the branch table, a binding and its field -/
def names : Violation → List Text
  | .blankTemplate => ["template".toList]
  | .blankOutput => ["output".toList]
  | .outputIsTemplate => ["template".toList, "output".toList]
  | .emptyBranch => ["namespaces".toList]
  | .branchWithSlash branch => [branch]
  | .emptyFallback => ["default_binding".toList]
  | .badField owner field => [owner, field]

theorem names_infix_message (v : Violation) : ∀ name ∈ v.names, name <:+: v.message := by
  cases v with
  | blankTemplate => decide +kernel
  | blankOutput => decide +kernel
  | outputIsTemplate => decide +kernel
  | emptyBranch => decide +kernel
  | emptyFallback => decide +kernel
  | branchWithSlash branch =>
    intro name hname
    obtain rfl : name = branch := by simpa only [names, List.mem_singleton] using hname
    have hbetween : ∀ a b c d : Text, name <:+: a ++ name ++ b ++ c ++ d := fun a b c d => ⟨a, b ++ c ++ d, by simp⟩
    unfold message
    exact hbetween _ _ _ _
  | badField owner field =>
    intro name hname
    have howner : ∀ a b c : Text, owner <:+: owner ++ a ++ b ++ c := fun a b c => ⟨[], a ++ b ++ c, by simp⟩
    simp only [names, List.mem_cons, List.not_mem_nil, or_false] at hname
    unfold message
    rcases hname with rfl | rfl
    · exact howner _ _ _
    · exact List.infix_append _ _ _

end Violation

namespace Config

/-! ## Identifiers -/

/-- `[A-Za-z_]` -/
def IsLetter (c : Char) : Prop := 'A' ≤ c ∧ c ≤ 'Z' ∨ 'a' ≤ c ∧ c ≤ 'z' ∨ c = '_'

/-- `[A-Za-z0-9_]` -/
def IsLetterOrDigit (c : Char) : Prop := IsLetter c ∨ '0' ≤ c ∧ c ≤ '9'

def oneOf (p : Char → Prop) : Language Char := {t | ∃ c, p c ∧ t = [c]}

/-- `[A-Za-z_][A-Za-z0-9_]*` -/
def identifier : Language Char := oneOf IsLetter * (oneOf IsLetterOrDigit)∗

theorem isNameStart_iff {c : Char} : isNameStart c = true ↔ IsLetter c := by
  have halpha : c.isAlpha = (decide ('A' ≤ c ∧ c ≤ 'Z') || decide ('a' ≤ c) && decide (c ≤ 'z')) := rfl
  simp only [isNameStart, IsLetter, halpha, Bool.or_eq_true, Bool.and_eq_true, decide_eq_true_eq, or_assoc]

theorem isNamePart_iff {c : Char} : isNamePart c = true ↔ IsLetterOrDigit c := by
  simp only [isNamePart, IsLetterOrDigit, ← isNameStart_iff, isNameStart, Char.isAlphanum, Char.isDigit, Bool.or_eq_true,
    Bool.and_eq_true, decide_eq_true_eq]
  tauto

theorem mem_star_oneOf {p : Char → Prop} {t : Text} : t ∈ (oneOf p)∗ ↔ ∀ c ∈ t, p c := by
  rw [Language.mem_kstar]
  constructor
  · rintro ⟨parts, rfl, hparts⟩ c hc
    obtain ⟨part, hpart, hc⟩ := List.mem_flatten.1 hc
    obtain ⟨d, hd, rfl⟩ := hparts part hpart
    exact List.mem_singleton.1 hc ▸ hd
  · intro h
    refine ⟨t.map fun c => [c], ?_, ?_⟩
    · rw [← List.flatMap_def, List.flatMap_singleton']
    · intro part hpart
      obtain ⟨c, hc, rfl⟩ := List.mem_map.1 hpart
      exact ⟨c, h c hc, rfl⟩

theorem isIdentifier_iff {f : Text} : isIdentifier f = true ↔ f ∈ identifier := by
  rw [identifier, Language.mem_mul]
  constructor
  · intro h
    cases f with
    | nil => exact absurd h (by simp [isIdentifier])
    | cons c t =>
      obtain ⟨hc, ht⟩ := Bool.and_eq_true_iff.1 h
      refine ⟨[c], ⟨c, isNameStart_iff.1 hc, rfl⟩, t, mem_star_oneOf.2 ?_, rfl⟩
      exact fun d hd => isNamePart_iff.1 (List.all_eq_true.1 ht d hd)
  · rintro ⟨_, ⟨c, hc, rfl⟩, t, ht, rfl⟩
    refine Bool.and_eq_true_iff.2 ⟨isNameStart_iff.2 hc, List.all_eq_true.2 ?_⟩
    exact fun d hd => isNamePart_iff.2 (mem_star_oneOf.1 ht d hd)

/-! ## Rules -/

/-- what is asked for, and what is said where it is not kept -/
structure Rule where
  holds : Prop
  violation : Violation

def fieldRules (owner : Text) (b : Binding) : List Rule := b.keys.map fun f => ⟨f ∈ identifier, .badField owner f⟩

/-- an entry has the name of a branch, and its fields are identifiers -/
def entryRules (e : Text × Binding) : List Rule :=
  ⟨e.1 ≠ [], .emptyBranch⟩ :: ⟨'/' ∉ e.1, .branchWithSlash e.1⟩ :: fieldRules ("namespaces.".toList ++ e.1) e.2

/-- the fallback has a field, and its fields are identifiers -/
def fallbackRules (b : Binding) : List Rule := ⟨b.keys ≠ [], .emptyFallback⟩ :: fieldRules "default_binding".toList b

/-- the rules of a configuration, in the order they are gone through -/
def rules (c : Config) : List Rule :=
  ⟨∃ x ∈ c.template, Text.isBlank x = false, .blankTemplate⟩ ::
  ⟨∃ x ∈ c.output, Text.isBlank x = false, .blankOutput⟩ ::
  ⟨c.template ≠ c.output, .outputIsTemplate⟩ ::
  ((c.namespaces.toList.flatMap fun m => m.entries.flatMap entryRules) ++ c.defaultBinding.toList.flatMap fallbackRules)

/-- what is said of the first rule that is broken -/
inductive FirstBroken : List Rule → Violation → Prop
  | here {r : Rule} {rest : List Rule} (h : ¬ r.holds) : FirstBroken (r :: rest) r.violation
  | behind {r : Rule} {rest : List Rule} {v : Violation} (h : r.holds) (hb : FirstBroken rest v) :
    FirstBroken (r :: rest) v

variable {l m : List Rule} {u v : Violation}

theorem FirstBroken.unique (h : FirstBroken l u) (h' : FirstBroken l v) : u = v := by
  induction h with
  | here hbroken =>
    cases h' with
    | here => rfl
    | behind hholds => exact absurd hholds hbroken
  | behind hholds _ ih =>
    cases h' with
    | here hbroken => exact absurd hholds hbroken
    | behind _ hb => exact ih hb

theorem FirstBroken.not_all (h : FirstBroken l v) : ¬ ∀ r ∈ l, r.holds := by
  intro hall
  induction h with
  | here hbroken => exact hbroken (hall _ List.mem_cons_self)
  | behind _ _ ih => exact ih fun r hr => hall r (List.mem_cons_of_mem _ hr)

theorem FirstBroken.append (h : FirstBroken l v) (m : List Rule) : FirstBroken (l ++ m) v := by
  induction h with
  | here hbroken => exact .here hbroken
  | behind hholds _ ih => exact .behind hholds ih

theorem FirstBroken.append_kept (hl : ∀ r ∈ l, r.holds) (h : FirstBroken m v) : FirstBroken (l ++ m) v := by
  induction l with
  | nil => exact h
  | cons r l ih => exact .behind (hl r List.mem_cons_self) (ih fun r hr => hl r (List.mem_cons_of_mem _ hr))

/-! ## Checks -/

/-- what a check finds is what there is to say of these rules -/
def Reports : Option Violation → List Rule → Prop
  | none, l => ∀ r ∈ l, r.holds
  | some v, l => FirstBroken l v

variable {o o' : Option Violation}

theorem Reports.some_iff (h : Reports o l) : o = some v ↔ FirstBroken l v := by
  cases o with
  | none => exact iff_of_false (by simp) fun hb => hb.not_all h
  | some u =>
    rw [Option.some.injEq]
    exact ⟨fun he => he ▸ h, fun hb => FirstBroken.unique h hb⟩

theorem reports_nil : Reports none [] := by
  intro r hr
  exact absurd hr (by simp)

theorem Reports.cons {p asked : Prop} [Decidable p] (hp : asked ↔ ¬ p) (h : Reports o l) :
    Reports (if p then some v else o) (⟨asked, v⟩ :: l) := by
  split
  · next hbroken => exact FirstBroken.here fun hasked => hp.1 hasked hbroken
  · next hkept =>
    cases o with
    | none => exact List.forall_mem_cons.2 ⟨hp.2 hkept, h⟩
    | some v => exact FirstBroken.behind (hp.2 hkept) h

theorem Reports.or (h : Reports o l) (h' : Reports o' m) : Reports (o.or o') (l ++ m) := by
  cases o with
  | some v => exact FirstBroken.append h m
  | none =>
    cases o' with
    | none => exact List.forall_mem_append.2 ⟨h, h'⟩
    | some v => exact FirstBroken.append_kept h h'

/-- a check of one member after the other reports on the rules of all of them -/
theorem reports_findSome? {α : Type} {check : α → Option Violation} {rulesOf : α → List Rule}
    (h : ∀ a, Reports (check a) (rulesOf a)) (as : List α) : Reports (as.findSome? check) (as.flatMap rulesOf) := by
  induction as with
  | nil => exact reports_nil
  | cons a as ih =>
    have hstep : (a :: as).findSome? check = (check a).or (as.findSome? check) := by
      rw [List.findSome?_cons]
      cases check a <;> rfl
    rw [hstep]
    exact (h a).or ih

theorem reports_fieldRules (owner : Text) (b : Binding) : Reports (badField? owner b) (fieldRules owner b) := by
  unfold badField? fieldRules
  induction b.keys with
  | nil => exact reports_nil
  | cons f fields ih =>
    have hstep : ((f :: fields).find? fun f => !isIdentifier f).map (Violation.badField owner) =
        if isIdentifier f = false then some (.badField owner f)
        else (fields.find? fun f => !isIdentifier f).map (.badField owner) := by
      rw [List.find?_cons]
      cases isIdentifier f <;> rfl
    rw [hstep]
    exact ih.cons (by rw [Bool.not_eq_false, isIdentifier_iff])

theorem reports_entryRules (e : Text × Binding) : Reports (entryViolation? e) (entryRules e) := by
  rw [entryViolation?, entryRules]
  exact .cons Iff.rfl (.cons Iff.rfl (reports_fieldRules _ e.2))

theorem reports_fallbackRules (b : Binding) : Reports (fallbackViolation? b) (fallbackRules b) := by
  rw [fallbackViolation?, fallbackRules]
  exact .cons (by simp [OrderedMap.keys, OrderedMap.isEmpty]) (reports_fieldRules _ b)

/-- **The order of the rules.** The check of a configuration reports on its rules. -/
theorem reports_rules (c : Config) : Reports c.violation? c.rules := by
  have hbranches : Reports ((c.namespaces.getD .empty).entries.findSome? entryViolation?)
      (c.namespaces.toList.flatMap fun m => m.entries.flatMap entryRules) := by
    cases c.namespaces with
    | none => exact reports_nil
    | some m =>
      rw [Option.toList_some, List.flatMap_singleton]
      exact reports_findSome? reports_entryRules m.entries
  have hfallback : Reports (c.defaultBinding.bind fallbackViolation?) (c.defaultBinding.toList.flatMap fallbackRules) := by
    cases c.defaultBinding with
    | none => exact reports_nil
    | some b =>
      rw [Option.toList_some, List.flatMap_singleton]
      exact reports_fallbackRules b
  rw [violation?, rules]
  exact .cons Text.trim_ne_nil_iff.symm (.cons Text.trim_ne_nil_iff.symm (.cons Iff.rfl (hbranches.or hfallback)))

/-! ## What is accepted, and what is said -/

def HasIdentifiers (b : Binding) : Prop := ∀ f, b.get? f ≠ none → f ∈ identifier

/-- what is asked of a configuration -/
structure Documented (c : Config) : Prop where
  template : ∃ x ∈ c.template, Text.isBlank x = false
  output : ∃ x ∈ c.output, Text.isBlank x = false
  differ : c.template ≠ c.output
  branches : ∀ m, c.namespaces = some m → ∀ k b, m.get? k = some b → k ≠ [] ∧ '/' ∉ k ∧ HasIdentifiers b
  fallback : ∀ b, c.defaultBinding = some b → (∃ f, b.get? f ≠ none) ∧ HasIdentifiers b

theorem mem_keys_iff {b : Binding} {f : Text} : f ∈ b.keys ↔ b.get? f ≠ none := by
  rw [OrderedMap.keys, List.mem_map, Option.ne_none_iff_exists']
  constructor
  · rintro ⟨⟨f, value⟩, he, rfl⟩
    exact ⟨value, OrderedMap.get?_eq_some_iff.2 he⟩
  · rintro ⟨value, hvalue⟩
    exact ⟨(f, value), OrderedMap.get?_eq_some_iff.1 hvalue, rfl⟩

theorem hasIdentifiers_iff {b : Binding} : HasIdentifiers b ↔ IdentifierFields b := by
  simp only [HasIdentifiers, IdentifierFields, mem_keys_iff, isIdentifier_iff]

/-- an accepted configuration is one that keeps what is asked for -/
theorem violation?_eq_none_iff_documented {c : Config} : c.violation? = none ↔ c.Documented := by
  rw [violation?_eq_none_iff]
  constructor
  · intro h
    refine ⟨Text.trim_ne_nil_iff.1 h.template, Text.trim_ne_nil_iff.1 h.output, h.differ, ?_, ?_⟩
    · intro m hm k b hb
      obtain ⟨hname, hslash, hfields⟩ := h.branches m hm (k, b) (OrderedMap.get?_eq_some_iff.1 hb)
      exact ⟨hname, hslash, hasIdentifiers_iff.2 hfields⟩
    · intro b hb
      obtain ⟨hsome, hfields⟩ := h.fallback b hb
      obtain ⟨f, hf⟩ := List.exists_mem_of_ne_nil b.keys (by simpa [OrderedMap.keys, OrderedMap.isEmpty] using hsome)
      exact ⟨⟨f, mem_keys_iff.1 hf⟩, hasIdentifiers_iff.2 hfields⟩
  · intro h
    refine ⟨Text.trim_ne_nil_iff.2 h.template, Text.trim_ne_nil_iff.2 h.output, h.differ, ?_, ?_⟩
    · rintro m hm ⟨k, b⟩ he
      obtain ⟨hname, hslash, hfields⟩ := h.branches m hm k b (OrderedMap.get?_eq_some_iff.2 he)
      exact ⟨hname, hslash, hasIdentifiers_iff.1 hfields⟩
    · intro b hb
      obtain ⟨⟨f, hf⟩, hfields⟩ := h.fallback b hb
      have hkeys : b.keys ≠ [] := List.ne_nil_of_mem (mem_keys_iff.2 hf)
      exact ⟨by simpa [OrderedMap.keys, OrderedMap.isEmpty] using hkeys, hasIdentifiers_iff.1 hfields⟩

/-- **The first violation.** A configuration is accepted exactly if it keeps what is asked of it, and otherwise refused for the
first rule it breaks, in words that name the setting, or the entry and the field. Rules of entries and fields come in the order
of the bytes of their names. -/
theorem refused_for_first_violation (c : Config) :
    (c.violation? = none ↔ c.Documented) ∧ (∀ v, c.violation? = some v ↔ FirstBroken c.rules v) ∧
    (∀ v, c.violation? = some v → (∀ name ∈ v.names, name <:+: v.message) ∧ ∀ w p stdout,
      Program.render w p c { stdout := stdout } = (.error (.invalidConfiguration v.message), w.files)) ∧
    (∀ m, c.namespaces = some m → InByteOrder m.keys ∧ ∀ e ∈ m.entries, InByteOrder e.2.keys) ∧
    ∀ b, c.defaultBinding = some b → InByteOrder b.keys := by
  refine ⟨violation?_eq_none_iff_documented, fun v => (reports_rules c).some_iff, ?_, ?_, ?_⟩
  · intro v hv
    exact ⟨v.names_infix_message, fun w p stdout => Program.render_invalid hv⟩
  · intro m _
    exact ⟨inByteOrder_keys m, fun e _ => inByteOrder_keys e.2⟩
  · intro b _
    exact inByteOrder_keys b

/-- three entries: behind a field of the second one stands a line feed, the third one has a slash, and the fallback is empty -/
def brokenTwice : Config where
  namespaces := some (.ofList [("c/d".toList, .empty), ("a".toList, .ofList [("x".toList, [])]),
    ("b".toList, .ofList [("y\n".toList, []), ("x".toList, [])])])
  defaultBinding := some .empty

/-- what is said of it is the line feed -/
theorem newline_behind_field_comes_first :
    let v : Violation := .badField "namespaces.b".toList "y\n".toList
    let said : Text := "namespaces.b: field name 'y\n' must be an identifier (letters, digits, underscore)".toList
    brokenTwice.violation? = some v ∧ FirstBroken brokenTwice.rules v ∧ ¬ brokenTwice.Documented ∧
      ∀ w p, Program.render w p brokenTwice { stdout := false } = (.error (.invalidConfiguration said), w.files) := by
  intro v said
  have hv : brokenTwice.violation? = some v := by decide +kernel
  have hsaid : v.message = said := by decide +kernel
  obtain ⟨haccepted, hfirst, hrefused, -⟩ := refused_for_first_violation brokenTwice
  refine ⟨hv, (hfirst v).1 hv, ?_, ?_⟩
  · intro hdocumented
    exact absurd (hv.symm.trans (haccepted.2 hdocumented)) (by simp)
  · intro w p
    rw [(hrefused v hv).2 w p false, hsaid]

end Config
end BranchRender
