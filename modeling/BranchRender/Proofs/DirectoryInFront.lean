/-
A DIRECTORY IN FRONT: a command line behind an option for the directory to run in.

- What follows is read as it is without that option: a reading that has the directory, or has it still to look at, is
  `Led` by it, and stays so (`scan_led`), as long as no argument gives a directory of its own.
- So a command line with a directory in front is refused as it is without it, or asks for the same in that directory.

Main statement: `parse_directory_in_front`.
-/
import BranchRender.CommandLine

namespace BranchRender.CommandLine

variable {α β γ δ : Type} {d t : Text} {r r' : Reading} {l : Level} {v : Valued}

/-! ## Two results -/

/-- both are refused, for the same reason, or both are read, and what is read is related -/
inductive Both (R : α → β → Prop) : Except Refusal α → Except Refusal β → Prop
  | refused (e : Refusal) : Both R (.error e) (.error e)
  | read {a : α} {b : β} (h : R a b) : Both R (.ok a) (.ok b)

theorem Both.bind {R : α → β → Prop} {S : γ → δ → Prop} {x : Except Refusal α} {y : Except Refusal β}
    {f : α → Except Refusal γ} {g : β → Except Refusal δ} (h : Both R x y) (hf : ∀ a b, R a b → Both S (f a) (g b)) :
    Both S (x >>= f) (y >>= g) := by
  cases h with
  | refused e => exact .refused e
  | read h => exact hf _ _ h

/-! ## Readings with the directory -/

/-- the reading, with the directory given -/
def Reading.withDir (r : Reading) (d : Text) : Reading :=
  { r with value := fun v => if v = .dir then some d else r.value v }

/-- nothing waits to be looked at, and the directory `d` is what the first reading has more -/
structure Settled (d : Text) (r r' : Reading) : Prop where
  eq : r = r'.withDir d
  pending : r'.pending = none
  free : r'.value .dir = none

/-- the directory `d` is what the first reading has more, or has still to look at -/
inductive Led (d : Text) : Reading → Reading → Prop
  | waits {r : Reading} (hp : r.pending = none) (hfree : r.value .dir = none) :
      Led d { r with pending := some ⟨.dir, some d⟩ } r
  | given {r : Reading} (hp : ∀ p ∈ r.pending, p.option ≠ .dir) (hfree : r.value .dir = none) : Led d (r.withDir d) r

theorem Settled.led (h : Settled d r r') : Led d r r' := by
  obtain ⟨rfl, hp, hfree⟩ := h
  exact .given (by simp [hp]) hfree

theorem Led.free (h : Led d r r') : r'.value .dir = none := by
  cases h <;> assumption

theorem Led.awaits (h : Led d r r') : r.awaits = r'.awaits := by
  cases h with
  | waits hp => simp [Reading.awaits, hp]
  | given => rfl

theorem Settled.give (h : Settled d r r') (hv : v ≠ .dir) (t : Text) :
    Both (Settled d) (r.give v t) (r'.give v t) := by
  obtain ⟨rfl, hp, hfree⟩ := h
  simp only [Reading.give, Reading.withDir, hv, ite_false]
  split
  · exact .refused _
  · split
    · exact .refused _
    · refine .read ⟨?_, hp, ?_⟩
      · simp only [Reading.withDir, Reading.mk.injEq, and_self, and_true]
        funext w
        by_cases hw : w = v
        · simp [hw, hv]
        · simp [hw]
      · simpa [Ne.symm hv] using hfree

theorem Led.settle (hd : d ≠ []) (h : Led d r r') : Both (Settled d) r.settle r'.settle := by
  cases h with
  | @waits r hp hfree =>
    have hr : r'.settle = .ok r' := by simp [Reading.settle, hp]
    rw [hr]
    have hgive : Reading.settle { r' with pending := some ⟨.dir, some d⟩ } = .ok (r'.withDir d) := by
      simp [Reading.settle, Reading.give, hfree, hd, Valued.isPath, Reading.withDir, ← hp]
    rw [hgive]
    exact .read ⟨rfl, hp, hfree⟩
  | @given r hp hfree =>
    have hpending : (r'.withDir d).pending = r'.pending := rfl
    simp only [Reading.settle, hpending]
    split
    · next hnone => exact .read ⟨rfl, hnone, hfree⟩
    · exact .refused _
    · next v t hsome =>
      have hv : v ≠ .dir := hp ⟨v, some t⟩ hsome
      have hsettled : Settled d { r'.withDir d with pending := none } { r' with pending := none } := ⟨rfl, rfl, hfree⟩
      exact hsettled.give hv t

/-! ## Arguments -/

theorem Led.attach (hd : d ≠ []) (h : Led d r r') (hv : v ≠ .dir) (t : Text) :
    Both (Led d) (r.attach v t) (r'.attach v t) := by
  refine (h.settle hd).bind fun a b hab => ?_
  have hgive := hab.give hv t
  generalize a.give v t = x, b.give v t = y at hgive
  cases hgive with
  | refused e => exact .refused e
  | read h => exact .read h.led

theorem Led.await (hd : d ≠ []) (h : Led d r r') (hv : v ≠ .dir) : Both (Led d) (r.await v) (r'.await v) := by
  refine (h.settle hd).bind fun a b hab => ?_
  obtain ⟨rfl, -, hfree⟩ := hab
  exact .read (.given (r := { b with pending := some ⟨v, none⟩ }) (by rintro _ ⟨⟩; exact hv) hfree)

theorem Led.raise (hd : d ≠ []) (h : Led d r r') (f : Flag) : Both (Led d) (r.raise l f) (r'.raise l f) := by
  refine (h.settle hd).bind fun a b hab => ?_
  obtain ⟨rfl, hp, hfree⟩ := hab
  have hset : (b.withDir d).isSet = b.isSet := rfl
  cases f with
  | help => exact .refused _
  | version => exact .refused _
  | _ =>
    simp only [hset]
    split
    · exact .refused _
    · exact .read (Settled.led ⟨rfl, hp, hfree⟩)

theorem Led.ask (hd : d ≠ []) (h : Led d r r') {f : Flag} (hf : f = .help ∨ f = .version) :
    ∃ e, r.raise l f = .error e ∧ r'.raise l f = .error e := by
  have hsettle := h.settle hd
  unfold Reading.raise
  generalize r.settle = x, r'.settle = y at hsettle
  cases hsettle with
  | refused e => exact ⟨e, rfl, rfl⟩
  | read _ => rcases hf with rfl | rfl <;> exact ⟨_, rfl, rfl⟩

theorem long?_ne_dir (l : Level) (name : Text) : l.long? name ≠ some (.valued .dir) := by
  unfold Level.long?
  (repeat' split) <;> simp

theorem Led.long (hd : d ≠ []) (h : Led d r r') (name : Text) (value : Option Text) :
    Both (Led d) (r.long l name value) (r'.long l name value) := by
  unfold Reading.long
  have hdir := long?_ne_dir l name
  split
  · exact .refused _
  · next v t hl => exact h.attach hd (fun he => hdir (he ▸ hl)) t
  · next v hl => exact h.await hd fun he => hdir (he ▸ hl)
  · exact .refused _
  · next f _ => exact h.raise hd f

/-- short options are refused, or answer a question, unless the first gives the directory -/
theorem Led.shorts (hd : d ≠ []) (h : Led d r r') {letters : Text} (hne : letters ≠ []) (hc : letters.head? ≠ some 'C') :
    Both (Led d) (r.shorts l letters) (r'.shorts l letters) := by
  obtain ⟨c, t, rfl⟩ := List.exists_cons_of_ne_nil hne
  have hc : c ≠ 'C' := fun he => hc (by simp [he])
  unfold Reading.shorts
  cases hs : short? c with
  | none => exact .refused _
  | some o =>
    cases o with
    | valued v =>
      unfold short? at hs
      (repeat' split at hs) <;> simp_all
    | flag f =>
      have hf : f = .help ∨ f = .version := by
        unfold short? at hs
        (repeat' split at hs) <;> simp_all
      obtain ⟨e, he, he'⟩ := h.ask (l := l) hd hf
      simp only [he, he']
      exact .refused e

theorem shape_of_not_dash (h : t.head? ≠ some '-') : shape t = .word := by
  cases t with
  | nil => rfl
  | cons c u =>
    have hc : c ≠ '-' := fun he => h (by simp [he])
    simp [shape, hc]

theorem eq_of_shape_short {letters : Text} (h : shape t = .short letters) : t = '-' :: letters ∧ letters ≠ [] := by
  unfold shape at h
  split at h
  · exact absurd h (by simp)
  · unfold splitLong at h
    split at h <;> exact absurd h (by simp)
  · exact absurd h (by simp)
  · next u hne hlong hdash =>
    obtain rfl : u = letters := by simpa using h
    exact ⟨rfl, fun he => hdash (by rw [he])⟩
  · exact absurd h (by simp)

/-! ## Levels -/

/-- an argument gives a directory of its own -/
def GivesDir (a : Text) : Prop := "-C".toList <+: a

instance (a : Text) : Decidable (GivesDir a) := by unfold GivesDir; infer_instance

/-- two readings up to the command word -/
structure Stopped (d : Text) (args : List Text) (x y : Reading × Option (CommandWord × List Text)) : Prop where
  led : Led d x.1 y.1
  stop : x.2 = y.2
  rest : ∀ word rest, y.2 = some (word, rest) → rest <:+ args

/-- a level is read to the same end with the directory as without it -/
theorem scan_led (hd : d ≠ []) (l : Level) {args : List Text} (hargs : ∀ a ∈ args, ¬ GivesDir a) (h : Led d r r') :
    Both (Stopped d args) (scan l r args) (scan l r' args) := by
  induction args generalizing r r' with
  | nil => exact .read ⟨h, rfl, by simp⟩
  | cons a rest ih =>
    have hrest : ∀ b ∈ rest, ¬ GivesDir b := fun b hb => hargs b (List.mem_cons_of_mem _ hb)
    have hgo : ∀ {x y : Reading}, Led d x y → Both (Stopped d (a :: rest)) (scan l x rest) (scan l y rest) := by
      intro x y hxy
      have hboth := ih hrest hxy
      generalize scan l x rest = x, scan l y rest = y at hboth
      cases hboth with
      | refused e => exact .refused e
      | read hs => exact .read ⟨hs.led, hs.stop, fun w r hr => (hs.rest w r hr).trans (List.suffix_cons _ _)⟩
    simp only [scan, h.awaits]
    split
    · next w _ => exact .read ⟨h, rfl, by rintro _ _ ⟨⟩; exact List.suffix_cons _ _⟩
    · split
      · split
        · exact .read ⟨h, rfl, by simp⟩
        · exact .refused _
      · exact (h.long hd _ _).bind fun _ _ => hgo
      · next letters hs =>
        obtain ⟨rfl, hne⟩ := eq_of_shape_short hs
        refine (h.shorts hd hne fun hc => ?_).bind fun _ _ => hgo
        obtain ⟨u, rfl⟩ := List.head?_eq_some_iff.1 hc
        exact hargs _ List.mem_cons_self ⟨u, rfl⟩
      · cases h with
        | waits hp => simp only [hp]; exact .refused _
        | @given r hp hfree =>
          have hpending : (r'.withDir d).pending = r'.pending := rfl
          rw [hpending]
          split
          · next v hv =>
            have hv : v ≠ .dir := hp ⟨v, none⟩ hv
            exact hgo (.given (r := { r' with pending := some ⟨v, some a⟩ }) (by rintro _ ⟨⟩; exact hv) hfree)
          · exact .refused _

/-- a level that gives no directory is read as it is, and has none -/
theorem dir_of_scan {args : List Text} {x : Reading × Option (CommandWord × List Text)} {s : Reading}
    (hargs : ∀ a ∈ args, ¬ GivesDir a) (hx : scan l {} args = .ok x) (hs : x.1.settle = .ok s) :
    s.value .dir = none := by
  have hd : ['d'] ≠ [] := by simp
  have hscan := scan_led hd l hargs (.given (r := {}) (by simp) rfl)
  rw [hx] at hscan
  generalize scan l _ args = y at hscan
  cases hscan with
  | read h =>
    have hsettle := h.led.settle hd
    rw [hs] at hsettle
    generalize Reading.settle _ = z at hsettle
    cases hsettle with
    | read hsettled => exact hsettled.free

/-! ## Requests -/

def inDir (line : CommandLine) (d : Text) : CommandLine := { line with dir := some d }

/-- the directory `d` is what the first request has more -/
structure InFront (d : Text) (line line' : CommandLine) : Prop where
  eq : line = line'.inDir d
  free : line'.dir = none

/-- behind a command word, the directory read before it counts -/
theorem parseCommand_led (hd : d ≠ []) {args : List Text} (hargs : ∀ a ∈ args, ¬ GivesDir a) (h : Led d r r') :
    Both (InFront d) (parseCommand r l args) (parseCommand r' l args) := by
  simp only [parseCommand]
  cases hx : scan l {} args with
  | error e => exact .refused e
  | ok x =>
    simp only [bind, Except.bind]
    cases hs : x.1.settle with
    | error e => exact .refused e
    | ok inner =>
      have hdir := dir_of_scan hargs hx hs
      refine (h.settle hd).bind fun a b hab => ?_
      obtain ⟨rfl, -, hfree⟩ := hab
      exact .read ⟨by simp [inDir, Reading.withDir, hdir], by simp [hdir, hfree]⟩

/-- a command line with a directory in front is refused for the same reason, or asks for the same in that directory -/
theorem parse_led (hd : d ≠ []) {args : List Text} (hdash : d.head? ≠ some '-') (hargs : ∀ a ∈ args, ¬ GivesDir a) :
    Both (InFront d) (parse ("-C".toList :: d :: args)) (parse args) := by
  have hscan : scan .program {} ("-C".toList :: d :: args) = scan .program { pending := some ⟨.dir, some d⟩ } args := by
    have hword : ∀ r : Reading, r.pending = some ⟨.dir, none⟩ →
        scan .program r (d :: args) = scan .program { r with pending := some ⟨.dir, some d⟩ } args := by
      intro r hr
      simp only [scan, Reading.awaits, hr, ite_true, shape_of_not_dash hdash]
    exact hword { pending := some ⟨.dir, none⟩ } rfl
  have hled := scan_led hd .program hargs (.waits (r := {}) rfl rfl)
  simp only [parse, hscan]
  refine hled.bind fun x y h => ?_
  obtain ⟨hled, hstop, hrest⟩ := h
  obtain ⟨outer, stop⟩ := x
  obtain ⟨outer', stop'⟩ := y
  obtain rfl : stop = stop' := hstop
  have hbehind : ∀ {word rest}, stop = some (word, rest) → ∀ a ∈ rest, ¬ GivesDir a :=
    fun hw a ha => hargs a ((hrest _ _ hw).subset ha)
  rcases stop with _ | ⟨_ | _ | _, rest⟩
  · refine (hled.settle hd).bind fun a b hab => ?_
    obtain ⟨rfl, -, hfree⟩ := hab
    exact .read ⟨by simp [ofReading, inDir, Reading.withDir], hfree⟩
  · exact parseCommand_led hd (hbehind rfl) hled
  · exact parseCommand_led hd (hbehind rfl) hled
  · exact .refused _

/-- **A directory in front.** Where no argument gives a directory, one in front of them changes nothing but where the request
is run. -/
theorem parse_directory_in_front (hd : d ≠ []) (hdash : d.head? ≠ some '-') {args : List Text}
    (hargs : ∀ a ∈ args, ¬ GivesDir a) :
    parse ("-C".toList :: d :: args) = (parse args).map (·.inDir d) := by
  have h := parse_led hd hdash hargs
  generalize parse ("-C".toList :: d :: args) = x, parse args = y at h
  cases h with
  | refused e => rfl
  | read h => exact congrArg Except.ok h.eq

theorem dir_of_parse {args : List Text} (hargs : ∀ a ∈ args, ¬ GivesDir a) {line : CommandLine}
    (h : parse args = .ok line) : line.dir = none := by
  have hled := parse_led (d := ['d']) (by simp) (by decide) hargs
  rw [h] at hled
  generalize parse _ = x at hled
  cases hled with
  | read hfront => exact hfront.free

end BranchRender.CommandLine
