/-
SPELLINGS: every way to write a request down is read as that request.

- A request chooses options (`choices`), some of them of the whole program. `Writes` has one constructor for each form an
  option may be written in, and `Spells` puts them together: the options in any order, those of the whole program on
  either side of the command word, those of the command behind it.
- What a level has given so far `Holds` the choices written so far, of which the last one may still wait to be looked at.
  One more option keeps that (`scan_choice`), so a level does (`scan_choices`).
- A command line without a command word goes on where `render` would be read (`scan_command_word`).

Main statement: `spelled_request`.
-/
import Mathlib.Data.List.Perm.Basic
import Mathlib.Data.List.TakeWhile
import BranchRender.Program

namespace BranchRender

namespace CommandLine

/-! ## Choices -/

inductive Choice
  | valued (v : Valued) (t : Text)
  | flag (f : Flag)
  deriving DecidableEq, Repr

def Choice.option : Choice → Opt
  | .valued v _ => .valued v
  | .flag f => .flag f

/-- the options of the whole program that a request chooses -/
def globals (line : CommandLine) : List Choice :=
  (line.dir.map (Choice.valued .dir)).toList ++ (line.config.map (Choice.valued .config)).toList

/-- the options of its own that a command chooses -/
def own : Command → List Choice
  | .render o => (o.template.map (Choice.valued .template)).toList
    ++ (o.output.map (Choice.valued .output)).toList ++ if o.stdout then [.flag .stdout] else []
  | .resolve json => if json then [.flag .json] else []

def choices (line : CommandLine) : List Choice := line.globals ++ ((line.command.map own).getD [])

/-- a value that does not look like an option, nor like a value behind `=` -/
def IsPlain (t : Text) : Prop := t ≠ [] ∧ t.head? ≠ some '-' ∧ t.head? ≠ some '='

instance (t : Text) : Decidable (IsPlain t) := by unfold IsPlain; infer_instance

/-! ## Spellings -/

def wordOf : Command → Text
  | .render _ => "render".toList
  | .resolve _ => "resolve".toList

def levelOf : Command → Level
  | .render _ => .render
  | .resolve _ => .resolve

/-- the long name of an option with a value; the directory has none -/
def Valued.longName? : Valued → Option Text
  | .dir => none
  | .config => some "config".toList
  | .template => some "template".toList
  | .output => some "output".toList

/-- the arguments an option may be written as -/
inductive Writes : Choice → List Text → Prop
  | short (t : Text) : Writes (.valued .dir t) ["-C".toList, t]
  | shortBehind (t : Text) : Writes (.valued .dir t) ["-C".toList ++ t]
  | shortEquals (t : Text) : Writes (.valued .dir t) ["-C=".toList ++ t]
  | long {v : Valued} {name : Text} (hn : v.longName? = some name) (t : Text) :
      Writes (.valued v t) ["--".toList ++ name, t]
  | longEquals {v : Valued} {name : Text} (hn : v.longName? = some name) (t : Text) :
      Writes (.valued v t) ["--".toList ++ name ++ '=' :: t]
  | stdout : Writes (.flag .stdout) ["--stdout".toList]
  | json : Writes (.flag .json) ["--json".toList]

/-- the arguments spell the request: they write every option it chooses once, in some order -/
inductive Spells (line : CommandLine) : List Text → Prop
  | alone {cs : List Choice} {xs : List (List Text)} (hc : line.command = none) (hp : cs.Perm line.choices)
      (hw : List.Forall₂ Writes cs xs) : Spells line xs.flatten
  | command {c : Command} {before after : List Choice} {xs ys : List (List Text)} (hc : line.command = some c)
      (hp : (before ++ after).Perm line.choices) (hb : ∀ x ∈ before, x ∈ line.globals)
      (hx : List.Forall₂ Writes before xs) (hy : List.Forall₂ Writes after ys) :
      Spells line (xs.flatten ++ wordOf c :: ys.flatten)

/-! ## What a level holds -/

def Level.Takes (l : Level) : Opt → Prop
  | .valued .dir | .valued .config => True
  | .valued .template | .valued .output | .flag .stdout => l = .render
  | .flag .json => l = .resolve
  | .flag .help | .flag .version => False

variable {l : Level} {r : Reading} {c : Choice} {cs : List Choice} {v : Valued} {f : Flag} {t : Text}

/-- once it is settled, the reading has these choices and no others -/
def Reading.Holds (r : Reading) (cs : List Choice) : Prop :=
  ∃ r', r.settle = .ok r' ∧ r'.pending = none ∧ (∀ v t, r'.value v = some t ↔ .valued v t ∈ cs) ∧
    ∀ f, r'.isSet f = true ↔ .flag f ∈ cs

theorem Reading.holds_nil : Reading.Holds {} [] := ⟨{}, rfl, rfl, by simp, by simp⟩

theorem awaits_of_settle {r' : Reading} (h : r.settle = .ok r') : r.awaits = false := by
  unfold Reading.settle at h
  unfold Reading.awaits
  split
  · next hp => rw [hp] at h; exact absurd h (by simp)
  · rfl

theorem Reading.Holds.awaits (h : r.Holds cs) : r.awaits = false := by
  obtain ⟨r', hs, -⟩ := h
  exact awaits_of_settle hs

theorem holds_give {r : Reading} (hp : r.pending = none) (hv : ∀ v t, r.value v = some t ↔ .valued v t ∈ cs)
    (hf : ∀ f, r.isSet f = true ↔ .flag f ∈ cs) (hnew : ∀ t', .valued v t' ∉ cs) (ht : t ≠ []) :
    ∃ r', r.give v t = .ok r' ∧ r'.pending = none ∧ (∀ w u, r'.value w = some u ↔ .valued w u ∈ cs ++ [.valued v t]) ∧
      ∀ f, r'.isSet f = true ↔ .flag f ∈ cs ++ [.valued v t] := by
  have hfree : r.value v = none := by
    cases hr : r.value v with
    | none => rfl
    | some t' => exact absurd ((hv v t').1 hr) (hnew t')
  refine ⟨{ r with value := fun w => if w = v then some t else r.value w }, ?_, hp, ?_, ?_⟩
  · simp [Reading.give, hfree, ht]
  · intro w u
    by_cases hw : w = v
    · subst hw
      simp [hnew u, eq_comm]
    · simp [hw, hv w u]
  · intro f
    simp [hf f]

theorem Reading.Holds.pend (h : r.Holds cs) (hnew : ∀ t', .valued v t' ∉ cs) (ht : t ≠ []) :
    ∃ r', r.settle = .ok r' ∧ Reading.Holds { r' with pending := some ⟨v, some t⟩ } (cs ++ [.valued v t]) := by
  obtain ⟨r', hs, hp, hv, hf⟩ := h
  obtain ⟨r'', hg, hholds⟩ := holds_give hp hv hf hnew ht
  exact ⟨r', hs, r'', by simpa [settle, ← hp] using hg, hholds⟩

theorem Reading.Holds.attach (h : r.Holds cs) (hnew : ∀ t', .valued v t' ∉ cs) (ht : t ≠ []) :
    ∃ r', r.attach v t = .ok r' ∧ r'.Holds (cs ++ [.valued v t]) := by
  obtain ⟨r', hs, hp, hv, hf⟩ := h
  obtain ⟨r'', hg, hp', hholds⟩ := holds_give hp hv hf hnew ht
  refine ⟨r'', ?_, r'', by simp [settle, hp'], hp', hholds⟩
  rw [Reading.attach, hs]
  exact hg

theorem Reading.Holds.raise (h : r.Holds cs) (hnew : .flag f ∉ cs) (hf : f = .stdout ∨ f = .json) :
    ∃ r', r.raise l f = .ok r' ∧ r'.Holds (cs ++ [.flag f]) := by
  obtain ⟨r', hs, hp, hv, hset⟩ := h
  have hfree : r'.isSet f = false := by simpa using mt (hset f).1 hnew
  let raised : Reading := { r' with isSet := fun g => if g = f then true else r'.isSet g }
  refine ⟨raised, ?_, raised, by simp [raised, settle, hp], hp, ?_, ?_⟩
  · rw [Reading.raise, hs]
    rcases hf with rfl | rfl <;> simp [bind, Except.bind, hfree, raised]
  · simp [raised, hv]
  · intro g
    by_cases hg : g = f
    · simp [hg, raised]
    · simp [hg, hset, raised]

/-! ## One option -/

theorem splitLong_of_not_mem {name : Text} (h : '=' ∉ name) : splitLong name = .long name none := by
  have hdrop : name.dropWhile (· != '=') = [] := by
    rw [List.dropWhile_eq_nil_iff]
    intro c hc
    simpa using fun he : c = '=' => h (he ▸ hc)
  simp only [splitLong, hdrop]

theorem splitLong_append {name : Text} (h : '=' ∉ name) (t : Text) :
    splitLong (name ++ '=' :: t) = .long name (some t) := by
  have hall : ∀ c ∈ name, (c != '=') = true := by
    intro c hc
    simpa using fun he : c = '=' => h (he ▸ hc)
  have hdrop : (name ++ '=' :: t).dropWhile (· != '=') = '=' :: t := by
    rw [List.dropWhile_append_of_pos hall]
    simp
  have htake : (name ++ '=' :: t).takeWhile (· != '=') = name := by
    rw [List.takeWhile_append_of_pos hall]
    simp
  simp only [splitLong, hdrop, htake]

theorem long?_of_longName? {name : Text} (hn : v.longName? = some name) (hl : l.Takes (.valued v)) :
    l.long? name = some (.valued v) ∧ '=' ∉ name ∧ name ≠ [] := by
  cases v with
  | dir => exact absurd hn (by simp [Valued.longName?])
  | config =>
    obtain rfl := Option.some.inj hn
    cases l <;> decide +kernel
  | template =>
    obtain rfl := Option.some.inj hn
    obtain rfl : l = .render := hl
    decide +kernel
  | output =>
    obtain rfl := Option.some.inj hn
    obtain rfl : l = .render := hl
    decide +kernel

theorem shape_of_plain (h : IsPlain t) : shape t = .word := by
  obtain ⟨c, u, rfl⟩ := List.exists_cons_of_ne_nil h.1
  have hc : c ≠ '-' := fun he => h.2.1 (by simp [he])
  simp [shape, hc]

theorem scan_value (h : IsPlain t) (hr : r.pending = some ⟨v, none⟩) (rest : List Text) :
    scan l r (t :: rest) = scan l { r with pending := some ⟨v, some t⟩ } rest := by
  simp only [scan, Reading.awaits, hr, ite_true, shape_of_plain h]

theorem word?_of_dash (l : Level) (t : Text) : l.word? ('-' :: t) = none := by
  cases l <;> simp [Level.word?, commandWord?]

theorem shape_long {t : Text} (h : t ≠ []) : shape ("--".toList ++ t) = splitLong t := by
  obtain ⟨c, u, rfl⟩ := List.exists_cons_of_ne_nil h
  rfl

theorem scan_long {name : Text} {value : Option Text} (ht : t ≠ []) (hs : splitLong t = .long name value)
    (rest : List Text) :
    scan l r (("--".toList ++ t) :: rest) = r.long l name value >>= fun r => scan l r rest := by
  have hw : l.word? ("--".toList ++ t) = none := word?_of_dash l ('-' :: t)
  simp only [scan, hw, ite_self, shape_long ht, hs]

theorem scan_short {u : Text} (hs : shape ('-' :: u) = .short u) (rest : List Text) :
    scan l r (('-' :: u) :: rest) = r.shorts l u >>= fun r => scan l r rest := by
  simp only [scan, word?_of_dash, ite_self, hs]

theorem shorts_directory (hc : t.head? ≠ some '=') (ht : t ≠ []) : r.shorts l ('C' :: t) = r.attach .dir t := by
  obtain ⟨c, u, rfl⟩ := List.exists_cons_of_ne_nil ht
  have hc : c ≠ '=' := fun he => hc (by simp [he])
  unfold Reading.shorts
  split <;> simp_all [short?]

theorem await_eq {r' : Reading} (hs : r.settle = .ok r') :
    r.await v = .ok { r' with pending := some ⟨v, none⟩ } := by
  rw [Reading.await, hs]
  rfl

theorem scan_attached (h : r.Holds cs) (hv : ∀ t', .valued v t' ∉ cs) (ht : t ≠ []) {arg : Text} {rest : List Text}
    (hscan : scan l r (arg :: rest) = r.attach v t >>= fun r => scan l r rest) :
    ∃ r', scan l r (arg :: rest) = scan l r' rest ∧ r'.Holds (cs ++ [.valued v t]) := by
  obtain ⟨r', hs, hholds⟩ := h.attach hv ht
  refine ⟨r', ?_, hholds⟩
  rw [hscan, hs]
  rfl

theorem scan_flag {f : Flag} {name : Text} (h : r.Holds cs) (hf : f = .stdout ∨ f = .json) (hnew : .flag f ∉ cs)
    (hlong : l.long? name = some (.flag f)) (hne : name ≠ []) (heq : '=' ∉ name) (rest : List Text) :
    ∃ r', scan l r (("--".toList ++ name) :: rest) = scan l r' rest ∧ r'.Holds (cs ++ [.flag f]) := by
  obtain ⟨r', hs, hholds⟩ := h.raise hnew hf
  refine ⟨r', ?_, hholds⟩
  rw [scan_long hne (splitLong_of_not_mem heq)]
  simp only [Reading.long, hlong]
  rw [hs]
  rfl

theorem scan_choice {xs : List Text} (h : r.Holds cs) (hw : Writes c xs) (hl : l.Takes c.option)
    (hplain : ∀ v t, c = .valued v t → IsPlain t) (hnew : c.option ∉ cs.map Choice.option) (rest : List Text) :
    ∃ r', scan l r (xs ++ rest) = scan l r' rest ∧ r'.Holds (cs ++ [c]) := by
  have hnotin : c ∉ cs := fun hm => hnew (List.mem_map.2 ⟨_, hm, rfl⟩)
  have hvalued : ∀ v t, c = .valued v t → ∀ t', .valued v t' ∉ cs := by
    rintro v t rfl t' hm
    exact hnew (List.mem_map.2 ⟨_, hm, rfl⟩)
  cases hw with
  | short t =>
    obtain ⟨r', hs, hholds⟩ := h.pend (hvalued _ _ rfl) (hplain _ _ rfl).1
    refine ⟨_, ?_, hholds⟩
    rw [List.cons_append, List.singleton_append]
    refine (scan_short (u := ['C']) rfl _).trans ?_
    have hawait : r.shorts l ['C'] = _ := await_eq hs
    rw [hawait]
    exact scan_value (r := { r' with pending := some ⟨.dir, none⟩ }) (hplain _ _ rfl) rfl rest
  | shortBehind t =>
    refine scan_attached h (hvalued _ _ rfl) (hplain _ _ rfl).1 ((scan_short (u := 'C' :: t) rfl _).trans ?_)
    rw [shorts_directory (hplain _ _ rfl).2.2 (hplain _ _ rfl).1]
  | shortEquals t =>
    exact scan_attached h (hvalued _ _ rfl) (hplain _ _ rfl).1 (scan_short (u := 'C' :: '=' :: t) rfl _)
  | @long v name hn t =>
    obtain ⟨hlong, heq, hne⟩ := long?_of_longName? hn hl
    obtain ⟨r', hs, hholds⟩ := h.pend (hvalued _ _ rfl) (hplain _ _ rfl).1
    refine ⟨_, ?_, hholds⟩
    rw [List.cons_append, List.singleton_append, scan_long hne (splitLong_of_not_mem heq)]
    simp only [Reading.long, hlong, await_eq hs]
    exact scan_value (r := { r' with pending := some ⟨v, none⟩ }) (hplain _ _ rfl) rfl rest
  | @longEquals v name hn t =>
    obtain ⟨hlong, heq, hne⟩ := long?_of_longName? hn hl
    refine scan_attached h (hvalued _ _ rfl) (hplain _ _ rfl).1 ?_
    rw [List.append_assoc, scan_long (by simp [hne]) (splitLong_append heq t)]
    simp only [Reading.long, hlong]
  | stdout =>
    obtain rfl : l = .render := hl
    exact scan_flag h (.inl rfl) hnotin (by decide +kernel) (by decide) (by decide) rest
  | json =>
    obtain rfl : l = .resolve := hl
    exact scan_flag h (.inr rfl) hnotin (by decide +kernel) (by decide) (by decide) rest

theorem scan_choices {done : List Choice} {xs : List (List Text)} (h : r.Holds done) (hw : List.Forall₂ Writes cs xs)
    (hl : ∀ c ∈ cs, l.Takes c.option) (hplain : ∀ v t, .valued v t ∈ cs → IsPlain t)
    (hnew : ((done ++ cs).map Choice.option).Nodup) (rest : List Text) :
    ∃ r', scan l r (xs.flatten ++ rest) = scan l r' rest ∧ r'.Holds (done ++ cs) := by
  induction hw generalizing r done with
  | nil => exact ⟨r, rfl, by simpa using h⟩
  | @cons c x cs xs hc hcs ih =>
    have hnotin : c.option ∉ done.map Choice.option := by
      rw [List.map_append] at hnew
      exact fun hm => (List.nodup_append.1 hnew).2.2 _ hm _ List.mem_cons_self rfl
    obtain ⟨r', hscan, hholds⟩ := scan_choice h hc (hl c List.mem_cons_self)
      (fun v t he => hplain v t (he ▸ List.mem_cons_self)) hnotin (xs.flatten ++ rest)
    obtain ⟨r'', hscan', hholds'⟩ := ih hholds (fun c hc => hl c (List.mem_cons_of_mem _ hc))
      (fun v t hm => hplain v t (List.mem_cons_of_mem _ hm)) (by simpa using hnew)
    refine ⟨r'', ?_, by simpa using hholds'⟩
    rw [List.flatten_cons, List.append_assoc, hscan, hscan']

/-! ## Requests -/

variable {line : CommandLine}

theorem options_sublist (v : Valued) (o : Option Text) :
    ((o.map (Choice.valued v)).toList.map Choice.option).Sublist [.valued v] := by
  cases o <;> simp [Choice.option]

theorem flags_sublist (f : Flag) (b : Bool) :
    ((if b then [Choice.flag f] else []).map Choice.option).Sublist [.flag f] := by
  cases b <;> simp [Choice.option]

/-- a request chooses every option at most once -/
theorem nodup_choices (line : CommandLine) : (line.choices.map Choice.option).Nodup := by
  have hglobals : (line.globals.map Choice.option).Sublist [.valued .dir, .valued .config] := by
    rw [globals, List.map_append]
    exact (options_sublist _ _).append (options_sublist _ _)
  rw [choices, List.map_append]
  cases line.command with
  | none =>
    have hown : ([] : List Opt).Sublist [] := .slnil
    exact (hglobals.append hown).nodup (by decide)
  | some command =>
    cases command with
    | render o =>
      have hown : ((own (.render o)).map Choice.option).Sublist [.valued .template, .valued .output, .flag .stdout] := by
        rw [own, List.map_append, List.map_append]
        exact ((options_sublist _ _).append (options_sublist _ _)).append (flags_sublist _ _)
      exact (hglobals.append hown).nodup (by decide)
    | resolve json => exact (hglobals.append (flags_sublist .json json)).nodup (by decide)

theorem takes_of_mem_globals {c : Choice} (h : c ∈ line.globals) (l : Level) : l.Takes c.option := by
  simp only [globals, List.mem_append, Option.mem_toList, Option.map_eq_some_iff] at h
  rcases h with ⟨t, -, rfl⟩ | ⟨t, -, rfl⟩ <;> trivial

theorem takes_of_mem_own {c : Command} {x : Choice} (h : x ∈ own c) : (levelOf c).Takes x.option := by
  cases c with
  | render o =>
    simp only [own, List.mem_append, Option.mem_toList, Option.map_eq_some_iff] at h
    rcases h with (⟨t, -, rfl⟩ | ⟨t, -, rfl⟩) | h
    · rfl
    · rfl
    · split at h
      · obtain rfl := List.mem_singleton.1 h
        rfl
      · exact absurd h (by simp)
  | resolve json =>
    simp only [own] at h
    split at h
    · obtain rfl := List.mem_singleton.1 h
      rfl
    · exact absurd h (by simp)

def given (line : CommandLine) : Valued → Option Text
  | .dir => line.dir
  | .config => line.config
  | .template => match line.command with
    | some (.render o) => o.template
    | _ => none
  | .output => match line.command with
    | some (.render o) => o.output
    | _ => none

def raised (line : CommandLine) : Flag → Bool
  | .stdout => match line.command with
    | some (.render o) => o.stdout
    | _ => false
  | .json => line.command = some (.resolve true)
  | .help | .version => false

theorem valued_mem_choices : .valued v t ∈ line.choices ↔ line.given v = some t := by
  obtain ⟨dir, config, command⟩ := line
  rcases command with _ | ⟨⟨template, output, stdout⟩⟩ | ⟨json⟩ <;> cases v <;> simp [choices, globals, own, given]

theorem flag_mem_choices : .flag f ∈ line.choices ↔ line.raised f = true := by
  obtain ⟨dir, config, command⟩ := line
  rcases command with _ | ⟨⟨template, output, stdout⟩⟩ | ⟨json⟩ <;> cases f <;>
    simp [choices, globals, own, raised]

/-- of an option that two levels may give, the inner one counts; here only one of them gives it -/
theorem or_eq_given {before after : List Choice} {outer inner : Reading} (hp : (before ++ after).Perm line.choices)
    (ho : ∀ v t, outer.value v = some t ↔ .valued v t ∈ before)
    (hi : ∀ v t, inner.value v = some t ↔ .valued v t ∈ after) (v : Valued) :
    (inner.value v).or (outer.value v) = line.given v := by
  refine Option.ext fun t => ?_
  rw [← valued_mem_choices, ← hp.mem_iff, List.mem_append, ← ho, ← hi, Option.or_eq_some_iff]
  constructor
  · rintro (h | ⟨-, h⟩)
    · exact .inr h
    · exact .inl h
  · rintro (h | h)
    · refine .inr ⟨?_, h⟩
      -- the option would be chosen twice
      cases hv : inner.value v with
      | none => rfl
      | some u =>
        have hnodup := (hp.map Choice.option).nodup_iff.2 (nodup_choices line)
        rw [List.map_append] at hnodup
        have hbefore := List.mem_map_of_mem (f := Choice.option) ((ho v t).1 h)
        have hafter := List.mem_map_of_mem (f := Choice.option) ((hi v u).1 hv)
        exact absurd rfl ((List.nodup_append.1 hnodup).2.2 _ hbefore _ hafter)
    · exact .inl h

/-- the options of the whole program are none of a command's own -/
theorem own_not_mem_globals (line : CommandLine) (t : Text) (f : Flag) :
    .valued .template t ∉ line.globals ∧ .valued .output t ∉ line.globals ∧ .flag f ∉ line.globals := by
  simp [globals]

theorem command_of_holds {c : Command} {before after : List Choice} {inner : Reading} (hc : line.command = some c)
    (hp : (before ++ after).Perm line.choices) (hb : ∀ x ∈ before, x ∈ line.globals)
    (hi : ∀ v t, inner.value v = some t ↔ .valued v t ∈ after) (hf : ∀ f, inner.isSet f = true ↔ .flag f ∈ after) :
    (levelOf c).command inner = some c := by
  have hafter : ∀ x, x ∉ line.globals → (x ∈ after ↔ x ∈ line.choices) := by
    intro x hx
    rw [← hp.mem_iff, List.mem_append]
    exact ⟨.inr, fun h => h.resolve_left fun h => hx (hb x h)⟩
  have hvalue : ∀ v, (∀ t, .valued v t ∉ line.globals) → inner.value v = line.given v := by
    intro v hv
    refine Option.ext fun t => ?_
    rw [hi, hafter _ (hv t), valued_mem_choices]
  have hset : ∀ f, inner.isSet f = line.raised f := by
    intro f
    rw [Bool.eq_iff_iff, hf, hafter _ (own_not_mem_globals line [] f).2.2, flag_mem_choices]
  have htemplate := hvalue .template fun t => (own_not_mem_globals line t .json).1
  have houtput := hvalue .output fun t => (own_not_mem_globals line t .json).2.1
  cases c with
  | render o => simp [levelOf, Level.command, htemplate, houtput, hset, given, raised, hc]
  | resolve json => simp [levelOf, Level.command, hset, raised, hc]

theorem commandWord?_wordOf (c : Command) :
    commandWord? (wordOf c) = some (match c with | .render _ => .render | .resolve _ => .resolve) := by
  have hrender : commandWord? "render".toList = some .render := by decide +kernel
  have hresolve : commandWord? "resolve".toList = some .resolve := by decide +kernel
  cases c with
  | render o => exact hrender
  | resolve json => exact hresolve

theorem parse_command {args rest : List Text} {c : Command} (hr : r.awaits = false)
    (hscan : scan .program {} args = scan .program r (wordOf c :: rest)) :
    parse args = parseCommand r (levelOf c) rest := by
  have hword : scan .program r (wordOf c :: rest) =
      .ok (r, some (match c with | .render _ => (.render, rest) | .resolve _ => (.resolve, rest))) := by
    simp only [scan, hr, Bool.false_eq_true, ite_false, Level.word?, commandWord?_wordOf]
    cases c <;> rfl
  rw [parse, hscan, hword]
  cases c <;> rfl

/-- every spelling of a request is read as that request -/
theorem parse_of_spells {args : List Text} (hplain : ∀ v t, .valued v t ∈ line.choices → IsPlain t)
    (h : Spells line args) : parse args = .ok line := by
  cases h with
  | @alone cs xs hc hp hw =>
    have hglobals : line.choices = line.globals := by simp [choices, hc]
    obtain ⟨r, hscan, r', hs, -, hvalue, -⟩ := scan_choices (l := .program) Reading.holds_nil hw
      (fun c hm => takes_of_mem_globals (hglobals ▸ hp.mem_iff.1 hm) _)
      (fun v t hm => hplain v t (hp.mem_iff.1 hm)) ((hp.map _).nodup_iff.2 (nodup_choices line)) []
    have hgiven : ∀ v, r'.value v = line.given v := by
      intro v
      refine Option.ext fun t => ?_
      rw [hvalue, List.nil_append, hp.mem_iff, valued_mem_choices]
    rw [List.append_nil, scan_nil] at hscan
    have hrequest : ofReading r' none = line := by
      obtain ⟨dir, config, command⟩ := line
      simp [ofReading, hgiven, given, show command = none from hc]
    rw [← hrequest, parse, hscan]
    show (r.settle >>= fun r => pure (ofReading r none)) = _
    rw [hs]
    rfl
  | @command c before after xs ys hc hp hb hx hy =>
    have hnodup : ((before ++ after).map Choice.option).Nodup := (hp.map _).nodup_iff.2 (nodup_choices line)
    rw [List.map_append] at hnodup
    have hchosen : ∀ x ∈ after, x ∈ line.globals ∨ x ∈ own c := by
      intro x hm
      simpa [choices, hc] using hp.mem_iff.1 (List.mem_append_right before hm)
    obtain ⟨outer, hscan, houter⟩ := scan_choices (l := .program) Reading.holds_nil hx
      (fun x hm => takes_of_mem_globals (hb x hm) _)
      (fun v t hm => hplain v t (hp.mem_iff.1 (List.mem_append_left _ hm))) (List.nodup_append.1 hnodup).1
      (wordOf c :: ys.flatten)
    obtain ⟨inner, hscan', inner', hs', -, hvalue', hset'⟩ := scan_choices (l := levelOf c) Reading.holds_nil hy
      (fun x hm => (hchosen x hm).elim (fun hg => takes_of_mem_globals hg _) takes_of_mem_own)
      (fun v t hm => hplain v t (hp.mem_iff.1 (List.mem_append_right _ hm))) (List.nodup_append.1 hnodup).2.1 []
    have hawaits := houter.awaits
    obtain ⟨outer', hs, -, hvalue, -⟩ := houter
    rw [List.append_nil, scan_nil] at hscan'
    rw [parse_command hawaits hscan, parseCommand, hscan']
    show (inner.settle >>= fun inner => outer.settle >>= fun outer => pure (f := Except Refusal)
      (⟨(inner.value .dir).or (outer.value .dir), (inner.value .config).or (outer.value .config),
        (levelOf c).command inner⟩ : CommandLine)) = _
    rw [hs', hs]
    have hgiven := or_eq_given hp hvalue hvalue'
    have hcommand := command_of_holds hc hp hb hvalue' hset'
    simp only [bind, Except.bind, hgiven, hcommand, given, ← hc]
    rfl

/-! ## No command word -/

theorem eq_of_shape_escape {a : Text} (h : shape a = .escape) : a = "--".toList := by
  unfold shape at h
  split at h
  · rfl
  · unfold splitLong at h
    split at h <;> exact absurd h (by simp)
  · exact absurd h (by simp)
  · exact absurd h (by simp)
  · exact absurd h (by simp)

/-- a level that is read to its end reads `render` behind that -/
theorem scan_command_word {r' : Reading} {args : List Text} (hescape : "--".toList ∉ args) (hr : r'.awaits = false)
    (h : scan .program r args = .ok (r', none)) :
    scan .program r (args ++ ["render".toList]) = .ok (r', some (.render, [])) := by
  induction args generalizing r with
  | nil =>
    obtain rfl : r = r' := by simpa [scan_nil] using h
    have hword : Level.word? .program "render".toList = some .render := commandWord?_wordOf (.render {})
    simp only [List.nil_append, scan, hr, Bool.false_eq_true, ite_false, hword]
  | cons a rest ih =>
    rw [List.mem_cons, not_or] at hescape
    simp only [List.cons_append, scan] at h ⊢
    split at h
    · exact absurd h (by simp)
    next hw =>
    split at h
    · next hs => exact absurd (eq_of_shape_escape hs) (Ne.symm hescape.1)
    · obtain ⟨r₁, hr₁, h⟩ := bind_eq_ok.1 h
      simp only [hr₁]
      exact ih hescape.2 h
    · obtain ⟨r₁, hr₁, h⟩ := bind_eq_ok.1 h
      simp only [hr₁]
      exact ih hescape.2 h
    · split at h
      · exact ih hescape.2 h
      · exact absurd h (by simp)

/-- arguments without a command word ask for a render without options -/
theorem parse_append_render {args : List Text} (hescape : "--".toList ∉ args) (h : parse args = .ok line)
    (hc : line.command = none) :
    parse (args ++ ["render".toList]) = .ok { line with command := some (.render {}) } := by
  obtain ⟨⟨r, stop⟩, hscan, h⟩ := bind_eq_ok.1 h
  cases stop with
  | none =>
    obtain ⟨r', hs, h⟩ := bind_eq_ok.1 h
    obtain rfl := Except.ok.inj h
    rw [parse, scan_command_word hescape (awaits_of_settle hs) hscan]
    show (r.settle >>= fun outer => pure (f := Except Refusal) (⟨(none : Option Path).or (outer.value .dir),
      (none : Option Path).or (outer.value .config), some (.render {})⟩ : CommandLine)) = _
    rw [hs]
    rfl
  | some found =>
    obtain ⟨word, rest⟩ := found
    have hcommand : ∀ l, l ≠ .program → parseCommand r l rest = .ok line → False := by
      intro l hl h
      rw [parseCommand] at h
      obtain ⟨_, -, h⟩ := bind_eq_ok.1 h
      obtain ⟨_, -, h⟩ := bind_eq_ok.1 h
      obtain ⟨_, -, h⟩ := bind_eq_ok.1 h
      obtain rfl := Except.ok.inj h
      cases l with
      | program => exact hl rfl
      | render => exact absurd hc (by simp [Level.command])
      | resolve => exact absurd hc (by simp [Level.command])
    cases word with
    | render => exact (hcommand .render (by simp) h).elim
    | resolve => exact (hcommand .resolve (by simp) h).elim
    | help => exact absurd h (by simp)

/-- no command is the same as `render` without options -/
theorem main_append_render {args : List Text} (hescape : "--".toList ∉ args) (h : parse args = .ok line)
    (hc : line.command = none) (w : World) :
    Program.main (args ++ ["render".toList]) w = Program.main args w := by
  have hrun : Program.run w { line with command := some (.render {}) } = Program.run w line := by
    simp only [Program.run, Program.setUp, hc]
    rfl
  simp only [Program.main, h, parse_append_render hescape h hc, hrun]

theorem escape_not_mem_flatten {xs : List (List Text)} (hw : List.Forall₂ Writes cs xs)
    (hplain : ∀ v t, .valued v t ∈ cs → IsPlain t) : "--".toList ∉ xs.flatten := by
  induction hw with
  | nil => simp
  | @cons c x cs xs hc _ ih =>
    have hvalue : ∀ v t, c = .valued v t → ['-', '-'] ≠ t := by
      rintro v t rfl rfl
      exact absurd (hplain v _ List.mem_cons_self) (by decide)
    have hone : "--".toList ∉ x := by
      cases hc with
      | short t => simpa using hvalue _ t rfl
      | shortBehind t => simp
      | shortEquals t => simp
      | @long v name hn t =>
        have hname : name ≠ [] := by
          rintro rfl
          cases v <;> exact absurd hn (by decide)
        simpa [hname] using hvalue _ t rfl
      | longEquals hn t => simp
      | stdout => decide
      | json => decide
    rw [List.flatten_cons, List.mem_append, not_or]
    exact ⟨hone, ih fun v t hm => hplain v t (List.mem_cons_of_mem _ hm)⟩

/-- **Every spelling is read.** Every spelling of a request is read as that request. Where arguments ask for no command,
`render` behind them changes nothing. -/
theorem spelled_request :
    (∀ (line : CommandLine) (args : List Text), (∀ v t, .valued v t ∈ line.choices → IsPlain t) → Spells line args →
      parse args = .ok line ∧
        (line.command = none → ∀ w, Program.main (args ++ ["render".toList]) w = Program.main args w)) ∧
    ∀ (args : List Text) (line : CommandLine), parse args = .ok line → line.command = none → "--".toList ∉ args →
      ∀ w, Program.main (args ++ ["render".toList]) w = Program.main args w := by
  refine ⟨?_, fun args line h hc hescape w => main_append_render hescape h hc w⟩
  intro line args hplain h
  have hparse := parse_of_spells hplain h
  refine ⟨hparse, fun hc w => main_append_render ?_ hparse hc w⟩
  cases h with
  | alone _ hp hw => exact escape_not_mem_flatten hw fun v t hm => hplain v t (hp.mem_iff.1 hm)
  | command hc' => exact absurd (hc.symm.trans hc') (by simp)

/-- values that are the words of commands, in front of the word and behind it, in every form; and a directory alone -/
theorem words_as_values :
    parse (["--config", "render", "render", "--stdout", "--output=a=b", "-Chelp", "--template", "resolve"].map
        String.toList) =
      .ok ⟨some "help".toList, some "render".toList, some (.render ⟨some "resolve".toList, some "a=b".toList, true⟩)⟩ ∧
    ∀ w, Program.main ["-C=sub".toList, "render".toList] w = Program.main ["-C=sub".toList] w := by
  refine ⟨?_, fun w => ?_⟩
  · let line : CommandLine :=
      ⟨some "help".toList, some "render".toList, some (.render ⟨some "resolve".toList, some "a=b".toList, true⟩)⟩
    have hplain : ∀ v t, .valued v t ∈ line.choices → IsPlain t := by
      have hall : ∀ c ∈ line.choices, ∀ v t, c = .valued v t → IsPlain t := by
        simp [line, choices, globals, own]
        decide
      exact fun v t hm => hall _ hm v t rfl
    have hconfig : Valued.longName? .config = some "config".toList := rfl
    have htemplate : Valued.longName? .template = some "template".toList := rfl
    have houtput : Valued.longName? .output = some "output".toList := rfl
    have hspells : Spells line (["--config", "render", "render", "--stdout", "--output=a=b", "-Chelp", "--template",
        "resolve"].map String.toList) :=
      @Spells.command line (.render ⟨some "resolve".toList, some "a=b".toList, true⟩) [.valued .config "render".toList]
        [.flag .stdout, .valued .output "a=b".toList, .valued .dir "help".toList, .valued .template "resolve".toList]
        _ _ rfl (by decide +kernel) (by decide +kernel) (.cons (.long hconfig _) .nil)
        (.cons .stdout (.cons (.longEquals houtput _) (.cons (.shortBehind _) (.cons (.long htemplate _) .nil))))
    exact (spelled_request.1 line _ hplain hspells).1
  · have hparse : parse ["-C=sub".toList] = .ok ⟨some "sub".toList, none, none⟩ := by decide +kernel
    exact spelled_request.2 _ _ hparse rfl (by decide) w

end CommandLine
end BranchRender
