/-
ARRANGEMENTS: a configuration is what its entries say, in whatever order they stand.

- `Alike` relates nodes that differ in where they stand, in anchors, and in the order of the entries of their mappings.
- Alike nodes read alike (`set_alike`): the texts are the same, and of equal keys there are none whose order could count.
- The entries are gone through once, and every choice is left as its own entry has it (`setAll_eq_ok`). So a document is
  a configuration just when its entries are, one by one.
- Where no alias is used, none can be used too often (`usesOfDocument_eq_zero`).

Main statement: `entries_decide_config`.
-/
import Mathlib.Data.List.Nodup
import Mathlib.Data.List.Perm.Basic
import BranchRender.Config.Reader
import BranchRender.SystemError

namespace BranchRender

open Yaml (Node Document)

namespace Yaml.Node

/-! ## Plain nodes -/

def text? : Node → Option Text
  | .scalar _ _ t => some t
  | _ => none

/-- no alias; the keys of a mapping are scalars -/
def isDirect : Node → Bool
  | .alias _ _ => false
  | .mapping _ l => l.all fun e => e.1.text?.isSome
  | _ => true

def keyTexts : Node → List (Option Text)
  | .mapping _ l => l.map (·.1.text?)
  | _ => []

/-- a node without aliases in which all keys are scalars -/
def IsPlain (n : Node) : Prop := ∀ m ∈ n.nodes, m.isDirect = true

/-- a node in which no two keys of a mapping have the same text -/
def HasDistinctKeys (n : Node) : Prop := ∀ m ∈ n.nodes, m.keyTexts.Nodup

instance (n : Node) : Decidable n.IsPlain := List.decidableBAll _ _

instance (n : Node) : Decidable n.HasDistinctKeys := List.decidableBAll _ _

theorem self_mem_nodes (n : Node) : n ∈ n.nodes := by
  cases n <;> simp [nodes]

theorem mem_nodes_of_entry {p : Properties} {l : List (Node × Node)} {e : Node × Node} {m : Node} (he : e ∈ l)
    (hm : m ∈ e.1.nodes ∨ m ∈ e.2.nodes) : m ∈ (mapping p l).nodes := by
  suffices h : m ∈ nodesOfEntries l from List.mem_cons_of_mem _ h
  induction l with
  | nil => cases he
  | cons a l ih =>
    rw [nodesOfEntries]
    rcases List.mem_cons.1 he with rfl | he
    · exact List.mem_append_left _ (List.mem_append.2 hm)
    · exact List.mem_append_right _ (ih he)

theorem IsPlain.key {p : Properties} {l : List (Node × Node)} {e : Node × Node} (h : (mapping p l).IsPlain)
    (he : e ∈ l) : e.1.IsPlain :=
  fun _ hm => h _ (mem_nodes_of_entry he (.inl hm))

theorem IsPlain.value {p : Properties} {l : List (Node × Node)} {e : Node × Node} (h : (mapping p l).IsPlain)
    (he : e ∈ l) : e.2.IsPlain :=
  fun _ hm => h _ (mem_nodes_of_entry he (.inr hm))

theorem IsPlain.target {n : Node} (h : n.IsPlain) (anchors : Anchors) : n.target anchors = n := by
  cases n <;> first | rfl | cases h _ (self_mem_nodes _)

theorem HasDistinctKeys.value {p : Properties} {l : List (Node × Node)} {e : Node × Node}
    (h : (mapping p l).HasDistinctKeys) (he : e ∈ l) : e.2.HasDistinctKeys :=
  fun _ hm => h _ (mem_nodes_of_entry he (.inr hm))

theorem HasDistinctKeys.keys {p : Properties} {l : List (Node × Node)} (h : (mapping p l).HasDistinctKeys) :
    (l.map (·.1.text?)).Nodup :=
  h _ (self_mem_nodes _)

theorem IsPlain.keys {p : Properties} {l : List (Node × Node)} (h : (mapping p l).IsPlain) :
    ∀ e ∈ l, ∃ q b t, e.1 = scalar q b t := by
  intro e he
  have hk := List.all_eq_true.1 (h _ (self_mem_nodes _)) e he
  cases hn : e.1 with
  | scalar q b t => exact ⟨q, b, t, rfl⟩
  | _ => simp [hn, text?] at hk

mutual

/-- whether two nodes are the same, marks included -/
def decEq : (m n : Node) → Decidable (m = n)
  | .scalar p b t, .scalar q d u => decidable_of_iff (p = q ∧ b = d ∧ t = u) (by simp)
  | .sequence p l, .sequence q l' => match decEqItems l l' with
    | isTrue h => decidable_of_iff (p = q) (by simp [h])
    | isFalse h => isFalse (by simp [h])
  | .mapping p l, .mapping q l' => match decEqEntries l l' with
    | isTrue h => decidable_of_iff (p = q) (by simp [h])
    | isFalse h => isFalse (by simp [h])
  | .alias m a, .alias m' a' => decidable_of_iff (m = m' ∧ a = a') (by simp)
  | .scalar .., .sequence .. | .scalar .., .mapping .. | .scalar .., .alias .. => isFalse nofun
  | .sequence .., .scalar .. | .sequence .., .mapping .. | .sequence .., .alias .. => isFalse nofun
  | .mapping .., .scalar .. | .mapping .., .sequence .. | .mapping .., .alias .. => isFalse nofun
  | .alias .., .scalar .. | .alias .., .sequence .. | .alias .., .mapping .. => isFalse nofun

def decEqItems : (l l' : List Node) → Decidable (l = l')
  | [], [] => isTrue rfl
  | m :: l, n :: l' => match decEq m n, decEqItems l l' with
    | isTrue h, isTrue h' => isTrue (by rw [h, h'])
    | isFalse h, _ => isFalse (by simp [h])
    | _, isFalse h => isFalse (by simp [h])
  | [], _ :: _ | _ :: _, [] => isFalse nofun

def decEqEntries : (l l' : List (Node × Node)) → Decidable (l = l')
  | [], [] => isTrue rfl
  | (m, v) :: l, (n, w) :: l' => match decEq m n, decEq v w, decEqEntries l l' with
    | isTrue h, isTrue h', isTrue h'' => isTrue (by rw [h, h', h''])
    | isFalse h, _, _ => isFalse (by simp [h])
    | _, isFalse h, _ => isFalse (by simp [h])
    | _, _, isFalse h => isFalse (by simp [h])
  | [], _ :: _ | _ :: _, [] => isFalse nofun

end

instance : DecidableEq Node := decEq

/-! ## Alike nodes -/

/-- entries of which the keys and the values are related -/
inductive EntryAlike (R : Node → Node → Prop) : Node × Node → Node × Node → Prop
  | mk {k v k' v' : Node} (hk : R k k') (hv : R v v') : EntryAlike R (k, v) (k', v')

/-- nodes that say the same, with the entries of their mappings in any order -/
inductive Alike : Node → Node → Prop
  | scalar {p q : Properties} (ht : p.tag = q.tag) (isPlain : Bool) (t : Text) :
      Alike (.scalar p isPlain t) (.scalar q isPlain t)
  | sequence {p q : Properties} {l l' : List Node} (ht : p.tag = q.tag) (hl : List.Forall₂ Alike l l') :
      Alike (.sequence p l) (.sequence q l')
  | mapping {p q : Properties} {l m l' : List (Node × Node)} (ht : p.tag = q.tag) (hm : l.Perm m)
      (hl : List.Forall₂ (EntryAlike Alike) m l') : Alike (.mapping p l) (.mapping q l')

/-- the same entries up to what makes nodes alike -/
def EntriesAlike (l l' : List (Node × Node)) : Prop := ∃ m, l.Perm m ∧ List.Forall₂ (EntryAlike Alike) m l'

mutual

/-- a node without aliases is like itself -/
theorem Alike.refl : (n : Node) → n.IsPlain → Alike n n
  | .scalar _ b t, _ => .scalar rfl b t
  | .sequence p l, h => .sequence rfl (alikeItems_refl l fun m hm => h m (List.mem_cons_of_mem _ hm))
  | .mapping p l, h => .mapping rfl (.refl l) (alikeEntries_refl l fun m hm => h m (List.mem_cons_of_mem _ hm))
  | .alias m a, h => absurd (h _ (self_mem_nodes _)) (by simp [isDirect])

theorem alikeItems_refl : (l : List Node) → (∀ m ∈ nodesOfItems l, m.isDirect = true) → List.Forall₂ Alike l l
  | [], _ => .nil
  | n :: l, h => .cons (Alike.refl n fun m hm => h m (List.mem_append_left _ hm))
      (alikeItems_refl l fun m hm => h m (List.mem_append_right _ hm))

theorem alikeEntries_refl : (l : List (Node × Node)) → (∀ m ∈ nodesOfEntries l, m.isDirect = true) →
    List.Forall₂ (EntryAlike Alike) l l
  | [], _ => .nil
  | (k, v) :: l, h => .cons
      (.mk (Alike.refl k fun m hm => h m (List.mem_append_left _ (List.mem_append_left _ hm)))
        (Alike.refl v fun m hm => h m (List.mem_append_left _ (List.mem_append_right _ hm))))
      (alikeEntries_refl l fun m hm => h m (List.mem_append_right _ hm))

end

theorem Alike.text?_eq {n n' : Node} (h : Alike n n') : n.text? = n'.text? := by
  cases h <;> rfl

end Yaml.Node

open Yaml.Node

/-! ## Maps in any order -/

theorem toOption_bind {ε α β : Type} (x : Except ε α) (f : α → Except ε β) :
    (x >>= f).toOption = x.toOption.bind fun a => (f a).toOption := by
  cases x <;> rfl

theorem mapM_eq_ok {ε α β : Type} {f : α → Except ε β} {l : List α} {r : List β} :
    l.mapM f = .ok r ↔ List.Forall₂ (fun a b => f a = .ok b) l r := by
  induction l generalizing r with
  | nil => simp [pure, Except.pure, eq_comm]
  | cons a l ih =>
    rw [List.mapM_cons, List.forall₂_cons_left_iff]
    cases ha : f a with
    | error e => simp [bind, Except.bind]
    | ok b =>
      cases hl : l.mapM f with
      | error e => simp [bind, Except.bind, ← ih, hl]
      | ok s => simp [bind, Except.bind, pure, Except.pure, ← ih, hl, eq_comm]

/-- in another order the results are the same, in another order -/
theorem mapM_perm {ε α β : Type} {f : α → Except ε β} {l m : List α} {r : List β} (h : l.Perm m)
    (hr : l.mapM f = .ok r) : ∃ r', m.mapM f = .ok r' ∧ r.Perm r' := by
  obtain ⟨r', hr', hp⟩ := List.perm_comp_forall₂ h.symm (mapM_eq_ok.1 hr)
  exact ⟨r', mapM_eq_ok.2 hr', hp.symm⟩

theorem toOption_mapM {ε α α' β : Type} {R : α → α' → Prop} {f : α → Except ε β} {f' : α' → Except ε β}
    {l : List α} {l' : List α'} (h : List.Forall₂ R l l')
    (hf : ∀ a ∈ l, ∀ a', R a a' → (f a).toOption = (f' a').toOption) :
    (l.mapM f).toOption = (l'.mapM f').toOption := by
  induction h with
  | nil => rfl
  | cons ha hl ih =>
    simp only [List.mapM_cons, toOption_bind, hf _ List.mem_cons_self _ ha,
      ih fun a hm => hf a (List.mem_cons_of_mem _ hm)]

namespace OrderedMap

variable {κ α : Type} [DecidableEq κ]

theorem lookup_eq_some_iff_mem {k : κ} {v : α} {l : List (κ × α)} (h : (l.map (·.1)).Nodup) :
    lookup k l = some v ↔ (k, v) ∈ l := by
  induction l with
  | nil => simp [lookup]
  | cons a l ih =>
    obtain ⟨k', v'⟩ := a
    rw [List.map_cons, List.nodup_cons] at h
    by_cases hk : k = k'
    · subst hk
      have hl : (k, v) ∉ l := fun hm => h.1 (List.mem_map.2 ⟨_, hm, rfl⟩)
      simp [lookup, hl, eq_comm]
    · simp [lookup, hk, ih h.2]

variable [LT κ] [DecidableLT κ] [LE κ] [Std.LawfulOrderLT κ] [Std.IsLinearOrder κ]

/-- without equal keys the order of the pairs does not count -/
theorem ofList_perm {l l' : List (κ × α)} (h : l.Perm l') (hl : (l.map (·.1)).Nodup) : ofList l = ofList l' := by
  refine ext_get? fun k => Option.ext fun v => ?_
  have hr : (l.reverse.map (·.1)).Nodup := ((List.reverse_perm l).map _).nodup_iff.2 hl
  have hr' : (l'.reverse.map (·.1)).Nodup := (((List.reverse_perm l').trans h.symm).map _).nodup_iff.2 hl
  rw [get?_ofList, get?_ofList, lookup_eq_some_iff_mem hr, lookup_eq_some_iff_mem hr', List.mem_reverse,
    List.mem_reverse, h.mem_iff]

end OrderedMap

namespace Config

/-! ## Reading alike nodes -/

namespace Surroundings

variable {α : Type} {s s' : Surroundings} {n n' : Node} {trail trail' : List Text}

theorem text_alike (h : Alike n n') (expected expected' : String) :
    (s.text expected trail n).toOption = (s'.text expected' trail' n').toOption := by
  cases h <;> rfl

def entry (s : Surroundings) (value : List Text → Node → Except Mismatch α) (trail : List Text) (e : Node × Node) :
    Except Mismatch (Text × α) := do
  let name ← s.text "a string" trail e.1
  return (name, ← value (trail ++ [step e.1]) e.2)

theorem map_mapping (s : Surroundings) (value : List Text → Node → Except Mismatch α) (trail : List Text)
    (p : Yaml.Properties) (l : List (Node × Node)) :
    s.map value trail (.mapping p l) = (l.mapM (s.entry value trail)).map OrderedMap.ofList := by
  show (l.mapM (s.entry value trail) >>= fun l => pure (OrderedMap.ofList l)) = _
  cases l.mapM (s.entry value trail) <;> rfl

theorem text_eq_ok (h : Alike n n') {expected : String} {t : Text} :
    s.text expected trail n = .ok t ↔ n.text? = some t := by
  cases h <;> simp [text, Node.target, Node.text?]

theorem entry_eq_ok {value : List Text → Node → Except Mismatch α} {e : Node × Node} {b : Text × α} :
    s.entry value trail e = .ok b ↔
      s.text "a string" trail e.1 = .ok b.1 ∧ value (trail ++ [step e.1]) e.2 = .ok b.2 := by
  rw [entry]
  cases s.text "a string" trail e.1 with
  | error c => simp [bind, Except.bind]
  | ok t =>
    cases value (trail ++ [step e.1]) e.2 <;> simp [bind, Except.bind, pure, Except.pure, Prod.ext_iff]

theorem names_of_entries {value : List Text → Node → Except Mismatch α} {l l' : List (Node × Node)}
    (h : List.Forall₂ (EntryAlike Alike) l l') {r : List (Text × α)} (hr : l.mapM (s.entry value trail) = .ok r) :
    r.map (fun b => some b.1) = l.map (·.1.text?) := by
  rw [mapM_eq_ok] at hr
  induction h generalizing r with
  | nil => cases hr; rfl
  | cons he _ ih =>
    obtain ⟨hk, -⟩ := he
    obtain ⟨b, r', hb, hr', rfl⟩ := List.forall₂_cons_left_iff.1 hr
    rw [List.map_cons, List.map_cons, ih hr', (text_eq_ok hk).1 (entry_eq_ok.1 hb).1]

/-- without equal keys the order of the entries of a map does not count -/
theorem map_perm {value : List Text → Node → Except Mismatch α} {l m l' : List (Node × Node)} (hm : l.Perm m)
    (hl : List.Forall₂ (EntryAlike Alike) m l') (hk : (l.map (·.1.text?)).Nodup) :
    (l.mapM (s.entry value trail)).toOption.map OrderedMap.ofList
      = (m.mapM (s.entry value trail)).toOption.map OrderedMap.ofList := by
  have hd : ∀ r r', m.mapM (s.entry value trail) = .ok r' → r'.Perm r →
      OrderedMap.ofList r' = OrderedMap.ofList r := by
    intro r r' hr' hp
    refine OrderedMap.ofList_perm hp (List.Nodup.of_map some ?_)
    rw [List.map_map]
    exact (names_of_entries hl hr').symm ▸ (hm.map _).nodup_iff.1 hk
  cases hr : l.mapM (s.entry value trail) with
  | ok r =>
    obtain ⟨r', hr', hp⟩ := mapM_perm hm hr
    simp [hr', Except.toOption, hd r r' hr' hp.symm]
  | error c =>
    cases hr' : m.mapM (s.entry value trail) with
    | error c' => rfl
    | ok r' =>
      obtain ⟨r, hr'', -⟩ := mapM_perm hm.symm hr'
      rw [hr] at hr''
      cases hr''

/-- reading respects what makes nodes alike -/
def Respects (value value' : List Text → Node → Except Mismatch α) : Prop :=
  ∀ trail trail' n n', n.HasDistinctKeys → Alike n n' → (value trail n).toOption = (value' trail' n').toOption

theorem respects_text (s s' : Surroundings) (expected expected' : String) :
    Respects (s.text expected) (s'.text expected') :=
  fun _ _ _ _ _ h => text_alike h expected expected'

theorem respects_map {value value' : List Text → Node → Except Mismatch α} (hv : Respects value value') :
    Respects (s.map value) (s'.map value') := by
  intro trail trail' n n' hn h
  cases h with
  | scalar ht b t => cases b <;> cases t <;> rfl
  | sequence ht hl => rfl
  | @mapping p q l m l' ht hm hl =>
    have hmem : ∀ e ∈ m, e.2.HasDistinctKeys := fun e he => hn.value (hm.mem_iff.2 he)
    rw [map_mapping, map_mapping, toOption_map, toOption_map, map_perm hm hl hn.keys,
      toOption_mapM hl]
    rintro e he _ ⟨hk, hv'⟩
    rw [entry, entry, toOption_bind, toOption_bind, text_alike hk _ "a string"]
    congr 1
    funext name
    rw [toOption_bind, toOption_bind, hv _ _ _ _ (hmem _ he) hv']

theorem respects_binding (s s' : Surroundings) : Respects s.binding s'.binding :=
  respects_map (respects_text s s' _ _)

theorem isOpen_alike (s s' : Surroundings) (h : Alike n n') : (s.isOpen n).toOption = (s'.isOpen n').toOption := by
  cases h with
  | @scalar p q ht b t =>
    cases b with
    | false => rfl
    | true =>
      simp only [isOpen, Node.target, ht]
      cases q.tag with
      | none => rfl
      | some tag =>
        dsimp only
        cases tag != Yaml.Kind.commonTag "null" <;> cases Yaml.Kind.isNull t <;> rfl
  | sequence ht hl => rfl
  | mapping ht hm hl => rfl

theorem respects_choice {value value' : List Text → Node → Except Mismatch α} (hv : Respects value value') :
    Respects (s.choice value) (s'.choice value') := by
  intro trail trail' n n' hn h
  rw [choice, choice, toOption_bind, toOption_bind, isOpen_alike s s' h]
  congr 1
  funext isOpen
  cases isOpen with
  | true => rfl
  | false =>
    show (value trail n >>= fun a => pure (some a)).toOption = (value' trail' n' >>= fun a => pure (some a)).toOption
    rw [toOption_bind, toOption_bind, hv _ _ _ _ hn h]

theorem nothing_alike (s s' : Surroundings) (trail trail' : List Text) (h : Alike n n') :
    (s.nothing trail n).toOption = (s'.nothing trail' n').toOption := by
  cases h with
  | scalar ht b t =>
    simp only [nothing, Node.target]
    split <;> rfl
  | sequence ht hl => rfl
  | mapping ht hm hl => rfl

theorem respects_style (s s' : Surroundings) : Respects s.style s'.style := by
  intro trail trail' n n' _ h
  have ht : (n.target s.anchors).tag? = (n'.target s'.anchors).tag? := by
    cases h <;> assumption
  rw [style, style, ht]
  split
  next name _ =>
    cases CommentStyle.ofName? name with
    | none => rfl
    | some style => simp only [toOption_bind, nothing_alike s s' trail trail' h]
  next =>
    rw [toOption_bind, toOption_bind, text_alike h]
    congr 1
    funext name
    cases CommentStyle.ofName? name <;> rfl

end Surroundings

/-! ## Choosing -/

theorem set_alike (s s' : Surroundings) {n n' : Node} (c : Config) (k : Key) (hn : n.HasDistinctKeys) (h : Alike n n')
    (trail trail' : List Text) : (set s c k n trail).toOption = (set s' c k n' trail').toOption := by
  cases k <;> simp only [set, toOption_map]
  case template | output | buildCommand => rw [Surroundings.respects_text s s' _ _ _ _ _ _ hn h]
  case commentStyle => rw [Surroundings.respects_choice (Surroundings.respects_style s s') _ _ _ _ hn h]
  case namespaces =>
    rw [Surroundings.respects_choice (Surroundings.respects_map (Surroundings.respects_binding s s')) _ _ _ _ hn h]
  case defaultBinding => rw [Surroundings.respects_choice (Surroundings.respects_binding s s') _ _ _ _ hn h]

/-- two configurations make the same choice -/
def Agree (k : Key) (c c' : Config) : Prop :=
  match k with
  | .template => c.template = c'.template
  | .output => c.output = c'.output
  | .buildCommand => c.buildCommand = c'.buildCommand
  | .commentStyle => c.commentStyle = c'.commentStyle
  | .namespaces => c.namespaces = c'.namespaces
  | .defaultBinding => c.defaultBinding = c'.defaultBinding

theorem Agree.refl (k : Key) (c : Config) : Agree k c c := by
  cases k <;> rfl

theorem Agree.symm {k : Key} {c c' : Config} (h : Agree k c c') : Agree k c' c := by
  cases k <;> exact Eq.symm h

theorem Agree.trans {k : Key} {c c' c'' : Config} (h : Agree k c c') (h' : Agree k c' c'') : Agree k c c'' := by
  cases k <;> exact Eq.trans h h'

theorem eq_of_agree {c c' : Config} (h : ∀ k, Agree k c c') : c = c' := by
  obtain ⟨t, o, b, s, n, d⟩ := c
  obtain ⟨t', o', b', s', n', d'⟩ := c'
  simpa [Agree] using And.intro (h .template) ⟨h .output, h .buildCommand, h .commentStyle, h .namespaces,
    h .defaultBinding⟩

/-- an entry leaves its own choice, the same from any configuration, and no other -/
theorem set_of_set {s : Surroundings} {c c₁ : Config} {k : Key} {n : Node} {trail : List Text}
    (h : set s c k n trail = .ok c₁) (c' : Config) :
    ∃ c₂, set s c' k n trail = .ok c₂ ∧ Agree k c₂ c₁ ∧ ∀ j, j ≠ k → Agree j c₂ c' := by
  cases k <;> simp only [set] at h ⊢ <;> obtain ⟨v, hv, rfl⟩ := map_eq_ok.1 h <;>
    exact ⟨_, map_eq_ok.2 ⟨v, hv, rfl⟩, rfl, fun j hj => by cases j <;> first | rfl | exact absurd rfl hj⟩

/-! ## The entries of a document -/

/-- the choice an entry makes, if it makes one -/
def keyOf? (e : Node × Node) : Option Key := e.1.text?.bind Key.ofName?

/-- the entries that make the choice `k` -/
def only (k : Key) (l : List (Node × Node)) : List (Node × Node) := l.filter fun e => keyOf? e = some k

def known (l : List (Node × Node)) : List (Node × Node) := l.filter fun e => (keyOf? e).isSome

/-- entries that make the same choices: those that make one are the same, in any order and with the entries inside them
in any order; any others may stand between them -/
def SameChoices (l l' : List (Node × Node)) : Prop := EntriesAlike (known l) (known l')

/-- `c₁` has the choice `k` that an entry makes -/
def Makes (s : Surroundings) (k : Key) (c₁ : Config) (e : Node × Node) : Prop :=
  ∃ c₀, set s {} k e.2 [Surroundings.step e.1] = .ok c₀ ∧ Agree k c₁ c₀

/-- `c₁` has the choice `k` of these entries; without one, that of `c` -/
structure Decides (s : Surroundings) (c : Config) (k : Key) (l : List (Node × Node)) (c₁ : Config) : Prop where
  absent : l = [] → Agree k c₁ c
  present : ∀ e ∈ l, Makes s k c₁ e

theorem setAll_cons {s : Surroundings} {seen : List Key} {c c₁ : Config} {e : Node × Node} {l : List (Node × Node)}
    {k : Key} (hs : ∃ q b t, e.1 = .scalar q b t) (he : keyOf? e = some k) :
    setAll s seen c (e :: l) = .ok c₁ ↔ k ∉ seen ∧
      ∃ c₂, set s c k e.2 [Surroundings.step e.1] = .ok c₂ ∧ setAll s (k :: seen) c₂ l = .ok c₁ := by
  obtain ⟨key, n⟩ := e
  obtain ⟨q, b, t, rfl⟩ := hs
  have hk : Key.ofName? t = some k := he
  simp only [setAll, Surroundings.text, Node.target, hk]
  by_cases hm : k ∈ seen
  · simp [hm]
  · cases set s c k n [Surroundings.step (.scalar q b t)] <;> simp [hm]

theorem setAll_cons_unknown {s : Surroundings} {seen : List Key} {c : Config} {e : Node × Node}
    {l : List (Node × Node)} (hs : ∃ q b t, e.1 = .scalar q b t) (he : keyOf? e = none) :
    setAll s seen c (e :: l) = setAll s seen c l := by
  obtain ⟨key, n⟩ := e
  obtain ⟨q, b, t, rfl⟩ := hs
  have hk : Key.ofName? t = none := he
  simp only [setAll, Surroundings.text, Node.target, hk]

theorem only_eq_nil {k : Key} {l : List (Node × Node)} (h : k ∉ l.filterMap keyOf?) : only k l = [] := by
  simpa [only, List.mem_filterMap] using h

/-- the first entry makes its choice, if no other makes that one, and leaves the rest to those behind it -/
theorem decides_cons {s : Surroundings} {c c₁ : Config} {e : Node × Node} {l : List (Node × Node)} {k : Key}
    (hk : keyOf? e = some k) (hkl : k ∉ l.filterMap keyOf?) : (∀ j, Decides s c j (only j (e :: l)) c₁) ↔
      ∃ c₂, set s c k e.2 [Surroundings.step e.1] = .ok c₂ ∧ ∀ j, Decides s c₂ j (only j l) c₁ := by
  have hself : only k (e :: l) = [e] := by
    rw [only, List.filter_cons_of_pos (by simpa using hk)]
    exact congrArg _ (only_eq_nil hkl)
  have hother : ∀ j, j ≠ k → only j (e :: l) = only j l := fun j hj => by simp [only, hk, hj.symm]
  constructor
  · intro h
    obtain ⟨c₀, hset₀, hag⟩ := (h k).present e (by rw [hself]; exact List.mem_singleton_self e)
    obtain ⟨c₂, hset, hag₂, hc⟩ := set_of_set hset₀ c
    refine ⟨c₂, hset, fun j => ?_⟩
    by_cases hj : j = k
    · subst hj
      rw [only_eq_nil hkl]
      exact ⟨fun _ => hag.trans hag₂.symm, by simp⟩
    · obtain ⟨habsent, hpresent⟩ := hother j hj ▸ h j
      exact ⟨fun hl => (habsent hl).trans (hc j hj).symm, hpresent⟩
  · rintro ⟨c₂, hset, h⟩ j
    by_cases hj : j = k
    · subst hj
      obtain ⟨c₀, hset₀, hag, -⟩ := set_of_set hset {}
      rw [hself]
      refine ⟨by simp, fun e' he' => ?_⟩
      obtain rfl := List.mem_singleton.1 he'
      exact ⟨c₀, hset₀, ((h j).absent (only_eq_nil hkl)).trans hag.symm⟩
    · obtain ⟨c₃, hset₃, -, hc⟩ := set_of_set hset c
      obtain rfl : c₂ = c₃ := Except.ok.inj (hset.symm.trans hset₃)
      rw [hother j hj]
      exact ⟨fun hl => ((h j).absent hl).trans (hc j hj), (h j).present⟩

/-- going through the entries leaves every choice as its own entry has it, and refuses a second one -/
theorem setAll_eq_ok {s : Surroundings} {seen : List Key} {c c₁ : Config} {l : List (Node × Node)}
    (hs : ∀ e ∈ l, ∃ q b t, e.1 = .scalar q b t) : setAll s seen c l = .ok c₁ ↔
      (l.filterMap keyOf?).Nodup ∧ (∀ k ∈ l.filterMap keyOf?, k ∉ seen) ∧ ∀ k, Decides s c k (only k l) c₁ := by
  induction l generalizing seen c with
  | nil =>
    refine ⟨fun h => ?_, fun ⟨_, _, h⟩ => ?_⟩
    · cases h
      exact ⟨.nil, by simp, fun k => ⟨fun _ => .refl k _, by simp [only]⟩⟩
    · exact congrArg _ (eq_of_agree fun k => (h k).absent rfl).symm
  | cons e l ih =>
    have he : ∃ q b t, e.1 = .scalar q b t := hs e List.mem_cons_self
    have hl : ∀ e ∈ l, ∃ q b t, e.1 = .scalar q b t := fun e he => hs e (List.mem_cons_of_mem _ he)
    cases hk : keyOf? e with
    | none => simp [setAll_cons_unknown he hk, ih hl, only, hk]
    | some k =>
      rw [setAll_cons he hk, List.filterMap_cons_some hk, List.nodup_cons, List.forall_mem_cons]
      constructor
      · rintro ⟨hseen, c₂, hset, hrest⟩
        obtain ⟨hd, hnew, hdec⟩ := (ih hl).1 hrest
        have hkl : k ∉ l.filterMap keyOf? := fun h => hnew k h List.mem_cons_self
        exact ⟨⟨hkl, hd⟩, ⟨hseen, fun j hj h => hnew j hj (List.mem_cons_of_mem _ h)⟩,
          (decides_cons hk hkl).2 ⟨c₂, hset, hdec⟩⟩
      · rintro ⟨⟨hkl, hd⟩, ⟨hseen, hnew⟩, hdec⟩
        obtain ⟨c₂, hset, hdec'⟩ := (decides_cons hk hkl).1 hdec
        refine ⟨hseen, c₂, hset, (ih hl).2 ⟨hd, fun j hj => ?_, hdec'⟩⟩
        rw [List.mem_cons, not_or]
        exact ⟨fun hjk => hkl (hjk ▸ hj), hnew j hj⟩

/-- of two entries for one choice the second is refused, whatever the others are -/
theorem distinct_of_setAll {s : Surroundings} {seen : List Key} {c c₁ : Config} {l : List (Node × Node)}
    (h : setAll s seen c l = .ok c₁) : (l.filterMap keyOf?).Nodup ∧ ∀ k ∈ l.filterMap keyOf?, k ∉ seen := by
  induction l generalizing seen c with
  | nil => simp
  | cons e l ih =>
    obtain ⟨key, n⟩ := e
    have hk : ∀ t, s.text "field identifier" [] key = .ok t →
        keyOf? (key, n) = none ∨ keyOf? (key, n) = Key.ofName? t := by
      intro t ht
      cases key with
      | scalar q b u => cases ht; exact .inr rfl
      | _ => exact .inl rfl
    rw [setAll] at h
    split at h
    · cases h
    next t ht =>
      split at h
      next hn =>
        rw [List.filterMap_cons_none (by simpa [hn] using hk t ht)]
        exact ih h
      next k hn =>
        split at h
        · cases h
        next hseen =>
          split at h
          · cases h
          next c₂ _ =>
            obtain ⟨hd, hnew⟩ := ih h
            rcases hk t ht with hk | hk
            · rw [List.filterMap_cons_none hk]
              exact ⟨hd, fun j hj hm => hnew j hj (List.mem_cons_of_mem _ hm)⟩
            · rw [List.filterMap_cons_some (hk.trans hn), List.nodup_cons, List.forall_mem_cons]
              exact ⟨⟨fun hj => hnew k hj List.mem_cons_self, hd⟩, hseen,
                fun j hj hm => hnew j hj (List.mem_cons_of_mem _ hm)⟩

theorem forall_mem_of_forall₂ {α β : Type} {R : α → β → Prop} {P : α → Prop} {Q : β → Prop} {l : List α} {m : List β}
    (h : List.Forall₂ R l m) (hr : ∀ a ∈ l, ∀ b, R a b → (P a ↔ Q b)) : (∀ a ∈ l, P a) ↔ ∀ b ∈ m, Q b := by
  induction h with
  | nil => simp
  | cons hab _ ih =>
    rw [List.forall_mem_cons, List.forall_mem_cons, hr _ List.mem_cons_self _ hab,
      ih fun a ha => hr a (List.mem_cons_of_mem _ ha)]

/-- alike entries decide a choice alike, whatever document they stand in -/
theorem decides_alike {s s' : Surroundings} {c c₁ : Config} {k : Key} {l l' : List (Node × Node)}
    (h : EntriesAlike l l') (hl : ∀ e ∈ l, e.2.HasDistinctKeys) : Decides s c k l c₁ ↔ Decides s' c k l' c₁ := by
  obtain ⟨m, hm, hf⟩ := h
  have hnil : l = [] ↔ l' = [] := by
    rw [← List.length_eq_zero_iff, hm.length_eq, hf.length_eq, List.length_eq_zero_iff]
  have hall : (∀ e ∈ l, Makes s k c₁ e) ↔ ∀ e ∈ l', Makes s' k c₁ e := by
    calc (∀ e ∈ l, Makes s k c₁ e) ↔ ∀ e ∈ m, Makes s k c₁ e := by simp only [hm.mem_iff]
      _ ↔ ∀ e ∈ l', Makes s' k c₁ e := by
        refine forall_mem_of_forall₂ hf ?_
        rintro e he _ ⟨_, hv⟩
        have hset := set_alike s s' {} k (hl _ (hm.mem_iff.2 he)) hv
        simp only [Makes, ← toOption_eq_some]
        rw [hset]
  exact ⟨fun ⟨ha, hp⟩ => ⟨fun h => ha (hnil.2 h), hall.1 hp⟩, fun ⟨ha, hp⟩ => ⟨fun h => ha (hnil.1 h), hall.2 hp⟩⟩

theorem only_known (k : Key) (l : List (Node × Node)) : only k (known l) = only k l := by
  rw [only, known, List.filter_filter]
  refine List.filter_congr fun e _ => ?_
  cases keyOf? e <;> simp

theorem entriesAlike_only {l l' : List (Node × Node)} (h : SameChoices l l') (k : Key) :
    EntriesAlike (only k l) (only k l') := by
  obtain ⟨m, hm, hf⟩ := h
  refine ⟨only k m, only_known k l ▸ hm.filter _, only_known k l' ▸ ?_⟩
  refine List.rel_filter ?_ hf
  rintro _ _ (@⟨n, v, n', v', hn, -⟩)
  have hkey : keyOf? (n, v) = keyOf? (n', v') := congrArg (·.bind Key.ofName?) hn.text?_eq
  show decide (keyOf? (n, v) = some k) = true ↔ decide (keyOf? (n', v') = some k) = true
  rw [hkey]

/-! ## Texts -/

theorem foldl_add_eq_self {α : Type} {f : α → Nat} {l : List α} (h : ∀ e ∈ l, f e = 0) (a : Nat) :
    l.foldl (fun n e => n + f e) a = a := by
  induction l generalizing a with
  | nil => rfl
  | cons e l ih => rw [List.foldl_cons, h e List.mem_cons_self, ih fun e he => h e (List.mem_cons_of_mem _ he)]; rfl

theorem uses_eq_zero {anchors : Anchors} {n : Node} (h : n.IsPlain) (depth : Nat) : uses anchors depth n = 0 := by
  induction depth generalizing n with
  | zero => cases n <;> first | rfl | cases h _ (self_mem_nodes _)
  | succ d ih =>
    cases n with
    | scalar p b t => rfl
    | sequence p l => rfl
    | mapping p l => exact foldl_add_eq_self (fun e he => by rw [ih (h.key he), ih (h.value he)]) 0
    | «alias» m a => cases h _ (self_mem_nodes _)

theorem usesOfDocument_eq_zero {p : Yaml.Properties} {l : List (Node × Node)} (h : (Node.mapping p l).IsPlain) :
    usesOfDocument (some (.mapping p l)) = 0 := by
  refine foldl_add_eq_self (fun e he => ?_) 0
  obtain ⟨q, b, t, hk⟩ := h.keys e he
  rw [uses_eq_zero (h.key he), hk]
  show 0 + ((Key.ofName? t).map fun k => uses _ k.depth e.2).getD 0 = 0
  cases Key.ofName? t with
  | none => rfl
  | some k => simp [uses_eq_zero (h.value he)]

theorem ofText_eq_ok {t : Text} {p : Yaml.Properties} {l : List (Node × Node)}
    (ht : Document.ofText? t = some (some (.mapping p l))) (hp : (Node.mapping p l).IsPlain) {c : Config} :
    ofText t = .ok c ↔ ofDocument (some (.mapping p l)) = .ok c ∧ c.violation? = none := by
  rw [ofText, ht]
  simp only [usesOfDocument_eq_zero hp]
  cases ofDocument (some (.mapping p l)) with
  | error m => simp
  | ok c' =>
    constructor
    · intro h
      cases hv : c'.violation? with
      | some v => simp [hv] at h
      | none =>
        obtain rfl : c' = c := by simpa [hv] using h
        exact ⟨rfl, hv⟩
    · rintro ⟨hc, hv⟩
      cases hc
      simp [hv]

theorem ofDocument_of_ofText {t : Text} {d : Document} (ht : Document.ofText? t = some d) {c : Config}
    (h : ofText t = .ok c) : ofDocument d = .ok c := by
  rw [ofText, ht] at h
  dsimp only at h
  split at h
  · cases h
  · split at h
    · cases h
    · split at h
      · cases h
      · cases h
        assumption

theorem ofDocument_eq_ok (p : Yaml.Properties) {l : List (Node × Node)} (hs : ∀ e ∈ l, ∃ q b t, e.1 = .scalar q b t)
    {c : Config} : ofDocument (some (.mapping p l)) = .ok c ↔
      (l.filterMap keyOf?).Nodup ∧ ∀ k, Decides ⟨(Node.mapping p l).anchored, p.mark⟩ {} k (only k l) c := by
  show setAll _ [] {} l = .ok c ↔ _
  rw [setAll_eq_ok hs]
  exact and_congr_right fun _ => ⟨fun h => h.2, fun h => ⟨fun _ _ => List.not_mem_nil, h⟩⟩

theorem name_of_ofName? {t : Text} {k : Key} (h : Key.ofName? t = some k) : k.name = t := by
  rw [Key.ofName?] at h
  simpa using List.find?_some h

theorem keys_nodup {l : List (Node × Node)} (h : (l.map (·.1.text?)).Nodup) : (l.filterMap keyOf?).Nodup := by
  have hf : l.filterMap keyOf? = (l.map (·.1.text?)).filterMap (·.bind Key.ofName?) := by
    rw [List.filterMap_map]
    rfl
  rw [hf]
  refine h.filterMap fun u v k hu hv => ?_
  obtain ⟨a, rfl, ha⟩ := Option.bind_eq_some_iff.1 hu
  obtain ⟨b, rfl, hb⟩ := Option.bind_eq_some_iff.1 hv
  rw [← name_of_ofName? ha, ← name_of_ofName? hb]

theorem keys_perm {l l' : List (Node × Node)} (h : SameChoices l l') :
    (l.filterMap keyOf?).Perm (l'.filterMap keyOf?) := by
  have hknown : ∀ l : List (Node × Node), (known l).filterMap keyOf? = l.filterMap keyOf? := by
    intro l
    rw [known, List.filterMap_filter]
    refine List.filterMap_congr fun e _ => ?_
    cases keyOf? e <;> rfl
  have hkeys : ∀ {m n : List (Node × Node)}, List.Forall₂ (EntryAlike Alike) m n →
      m.filterMap keyOf? = n.filterMap keyOf? := by
    intro m n h
    induction h with
    | nil => rfl
    | cons he _ ih =>
      obtain ⟨hk, -⟩ := he
      rw [List.filterMap_cons, List.filterMap_cons, ih, keyOf?, keyOf?, hk.text?_eq]
  obtain ⟨m, hm, hf⟩ := h
  rw [← hknown l, ← hknown l', ← hkeys hf]
  exact hm.filterMap _

theorem only_only (j k : Key) (l : List (Node × Node)) : only j (only k l) = if j = k then only k l else [] := by
  split
  next h => simp [only, h]
  next h =>
    simp only [only, List.filter_filter, List.filter_eq_nil_iff]
    simpa using fun k' v _ hj hk => h (Option.some.inj (hj.symm.trans hk))

theorem Decides.of_agree {s : Surroundings} {c c₁ c₂ : Config} {k : Key} {l : List (Node × Node)}
    (h : Decides s c k l c₁) (ha : Agree k c₂ c₁) : Decides s c k l c₂ :=
  ⟨fun hl => ha.trans (h.absent hl), fun e he => by
    obtain ⟨c₀, hs, hc⟩ := h.present e he
    exact ⟨c₀, hs, ha.trans hc⟩⟩

theorem exists_alone (k : Key) (c : Config) : ∃ c', Agree k c c' ∧ ∀ j, j ≠ k → Agree j c' {} := by
  cases k <;> [refine ⟨{ template := c.template }, rfl, ?_⟩; refine ⟨{ output := c.output }, rfl, ?_⟩;
    refine ⟨{ buildCommand := c.buildCommand }, rfl, ?_⟩; refine ⟨{ commentStyle := c.commentStyle }, rfl, ?_⟩;
    refine ⟨{ namespaces := c.namespaces }, rfl, ?_⟩; refine ⟨{ defaultBinding := c.defaultBinding }, rfl, ?_⟩] <;>
    intro j hj <;> cases j <;> first | rfl | exact absurd rfl hj

/-- a choice is as the document says that has no entries but those for it -/
theorem decides_iff_alone {p : Yaml.Properties} {l : List (Node × Node)} (hp : (Node.mapping p l).IsPlain)
    (hd : (Node.mapping p l).HasDistinctKeys) (k : Key) (c : Config) :
    Decides ⟨(Node.mapping p l).anchored, p.mark⟩ {} k (only k l) c ↔
      ∃ c', ofDocument (some (.mapping p (only k l))) = .ok c' ∧ Agree k c c' := by
  have hmem : ∀ e ∈ only k l, e ∈ l := fun e he => (List.mem_filter.1 he).1
  have hsame : EntriesAlike (only k l) (only k l) :=
    ⟨_, .refl _, List.forall₂_same.2 fun e he =>
      .mk (.refl _ (hp.key (hmem e he))) (.refl _ (hp.value (hmem e he)))⟩
  have halike : ∀ c₁ s s', Decides s {} k (only k l) c₁ ↔ Decides s' {} k (only k l) c₁ := fun c₁ s s' =>
    decides_alike hsame fun e he => hd.value (hmem e he)
  have hnodup : ((only k l).filterMap keyOf?).Nodup :=
    (List.filter_sublist.filterMap _).nodup (keys_nodup hd.keys)
  simp only [ofDocument_eq_ok p fun e he => hp.keys e (hmem e he), only_only, hnodup, true_and]
  constructor
  · intro h
    obtain ⟨c', hk, hj⟩ := exists_alone k c
    refine ⟨c', fun j => ?_, hk⟩
    split
    next h' =>
      subst h'
      exact ((halike c _ _).1 h).of_agree hk.symm
    next h' => exact ⟨fun _ => hj j h', by simp⟩
  · rintro ⟨c', h, hk⟩
    have hk' := h k
    rw [if_pos rfl] at hk'
    exact ((halike c' _ _).1 hk').of_agree hk

/-- **Every choice is left to its own entry.** A text that gives one of the six choices twice is no configuration. Where
no key stands twice, a text is a configuration just when each choice taken alone is one, together they break no rule, and
a choice without an entry is the built-in one; another text that makes the same choices is the same configuration. -/
theorem entries_decide_config {t : Text} {p : Yaml.Properties} {l : List (Node × Node)}
    (ht : Document.ofText? t = some (some (.mapping p l))) :
    (∀ l₁ e l₂ e' l₃ k, l = l₁ ++ e :: l₂ ++ e' :: l₃ → keyOf? e = some k → keyOf? e' = some k →
      ∃ f, ofText t = .error f) ∧
    ((Node.mapping p l).IsPlain → (Node.mapping p l).HasDistinctKeys →
      (∀ c, ofText t = .ok c ↔ c.violation? = none ∧
        ∀ k, ∃ c', ofDocument (some (.mapping p (only k l))) = .ok c' ∧ Agree k c c') ∧
      (∀ c k, ofText t = .ok c → only k l = [] → Agree k c {}) ∧
      ∀ t' p' l', Document.ofText? t' = some (some (.mapping p' l')) → (Node.mapping p' l').IsPlain →
        SameChoices l l' → ∀ c, ofText t = .ok c ↔ ofText t' = .ok c) := by
  refine ⟨?_, fun hp hd => ?_⟩
  · intro l₁ e l₂ e' l₃ k hl he he'
    cases h : ofText t with
    | error f => exact ⟨f, rfl⟩
    | ok c =>
      have hn := (distinct_of_setAll (ofDocument_of_ofText ht h)).1
      rw [hl, List.append_assoc, List.filterMap_append, List.cons_append, List.filterMap_cons_some he,
        List.filterMap_append, List.filterMap_cons_some he'] at hn
      simp [List.nodup_append] at hn
  have hdec : ∀ c, ofText t = .ok c ↔ c.violation? = none ∧
      ∀ k, Decides ⟨(Node.mapping p l).anchored, p.mark⟩ {} k (only k l) c := by
    intro c
    rw [ofText_eq_ok ht hp, ofDocument_eq_ok p hp.keys, and_comm]
    exact and_congr_right fun _ => and_iff_right (keys_nodup hd.keys)
  refine ⟨fun c => ?_, fun c k h => (((hdec c).1 h).2 k).absent, fun t' p' l' ht' hp' hs c => ?_⟩
  · rw [hdec]
    exact and_congr_right fun _ => forall_congr' fun k => decides_iff_alone hp hd k c
  · rw [hdec, ofText_eq_ok ht' hp', ofDocument_eq_ok p' hp'.keys, and_comm]
    have hn : (l'.filterMap keyOf?).Nodup := (keys_perm hs).nodup_iff.1 (keys_nodup hd.keys)
    have hk : ∀ k, Decides ⟨(Node.mapping p l).anchored, p.mark⟩ {} k (only k l) c ↔
        Decides ⟨(Node.mapping p' l').anchored, p'.mark⟩ {} k (only k l') c := fun k =>
      decides_alike (entriesAlike_only hs k) fun e he => hd.value (List.mem_filter.1 he).1
    simp only [hn, hk, true_and]

def word (index line column : Nat) (t : String) : Node := .scalar { mark := ⟨index, line, column⟩ } true t.toList

def small : List (Node × Node) := [
  (word 0 0 0 "output", word 8 0 8 "o"),
  (word 10 1 0 "default_binding", .mapping { mark := ⟨27, 1, 17⟩ }
    [(word 28 1 18 "x", word 31 1 21 "p"), (word 34 1 24 "y", word 37 1 27 "q")])]

/-- the same choices, written down the other way round and with one more entry -/
def smallTurned : List (Node × Node) := [
  (word 0 0 0 "k", word 3 0 3 "1"),
  (word 5 1 0 "default_binding", .mapping { mark := ⟨22, 1, 17⟩ }
    [(word 23 1 18 "y", word 26 1 21 "q"), (word 29 1 24 "x", word 32 1 27 "p")]),
  (word 35 2 0 "output", word 43 2 8 "o")]

theorem word_alike (i j k i' j' k' : Nat) (t : String) : Alike (word i j k t) (word i' j' k' t) :=
  Alike.scalar (p := { mark := ⟨i, j, k⟩ }) (q := { mark := ⟨i', j', k'⟩ }) rfl true t.toList

theorem small_turned : SameChoices small smallTurned := by
  refine ⟨[small[1], small[0]], by decide +kernel, ?_⟩
  have hturned : known smallTurned = [smallTurned[1], smallTurned[2]] := by decide +kernel
  rw [hturned]
  exact .cons (.mk (word_alike ..) (.mapping rfl (.swap ..) (.cons (.mk (word_alike ..) (word_alike ..))
    (.cons (.mk (word_alike ..) (word_alike ..)) .nil)))) (.cons (.mk (word_alike ..) (word_alike ..)) .nil)

/-- a document, the same turned round, and one with a choice made twice -/
theorem turned_document_read_alike :
    (∀ c, ofText "output: o\ndefault_binding: {x: p, y: q}\n".toList = .ok c ↔
      ofText "k: 1\ndefault_binding: {y: q, x: p}\noutput: o\n".toList = .ok c) ∧
    (ofText "k: 1\ndefault_binding: {y: q, x: p}\noutput: o\n".toList).isOk = true ∧
    ∃ f, ofText "output: o\noutput: o\n".toList = .error f := by
  have ht : Document.ofText? "output: o\ndefault_binding: {x: p, y: q}\n".toList
      = some (some (.mapping { mark := ⟨0, 0, 0⟩ } small)) := by decide +kernel
  have ht' : Document.ofText? "k: 1\ndefault_binding: {y: q, x: p}\noutput: o\n".toList
      = some (some (.mapping { mark := ⟨0, 0, 0⟩ } smallTurned)) := by decide +kernel
  have ht'' : Document.ofText? "output: o\noutput: o\n".toList = some (some (.mapping { mark := ⟨0, 0, 0⟩ }
      [(word 0 0 0 "output", word 8 0 8 "o"), (word 10 1 0 "output", word 18 1 8 "o")])) := by decide +kernel
  refine ⟨((entries_decide_config ht).2 (by decide +kernel) (by decide +kernel)).2.2 _ _ _ ht' (by decide +kernel)
    small_turned, by decide +kernel, ?_⟩
  exact (entries_decide_config ht'').1 [] _ [] _ [] .output rfl (by decide +kernel) (by decide +kernel)

end Config
end BranchRender
