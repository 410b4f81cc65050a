/-
BRANCH NAMES: which names a branch can have, and so which entries of a table can be selected.

- A short name has no slash and does not end in a blank character (`isShortName_shortName`), but may start with one. What
  stands behind the last slash of a reference comes out without the blank characters it ends in, whatever is in front
  (`shortName_append`): the reference is trimmed before it is cut, and the name is not trimmed again.
- `shortName_eq_iff` says of which references a name is the short one. So every short name is read off some reference, and
  reading it again drops the blank characters it starts with, nothing else (`image_shortName`).
- An accepted configuration has no key with a slash, but may have one that ends in a blank character: its entry is never
  selected (`entry_selected_iff`), also where git knows a branch of that name.

Main statements: `shortName_append`, `shortName_eq_iff`, `image_shortName`, `branch_of_reply`, `entry_selected_iff`.
-/
import BranchRender.Proofs.Selection
import BranchRender.Proofs.TopLevel

namespace BranchRender

namespace Branch

variable {k r u v : Text}

/-! ## Short names -/

/-- what a branch can be called: no slash, and no blank character at the end -/
structure IsShortName (k : Text) : Prop where
  slash : '/' ∉ k
  last : ∀ c, k.getLast? = some c → Text.isBlank c = false

theorem isShortName_shortName (r : Text) : IsShortName (shortName r) where
  slash := slash_not_mem_shortName r
  last := by
    intro c hc
    refine (Text.trimmed_trim r).last c ?_
    rw [shortName, Text.lastSegment, List.getLast?_reverse, List.head?_takeWhile, List.head?_reverse] at hc
    exact (Option.filter_eq_some_iff.1 hc).1

/-- what stands behind the last slash, without the blank characters it ends in -/
theorem shortName_append (hk : '/' ∉ k) (hv : ∀ c ∈ v, Text.isBlank c = true) (q : Text) :
    shortName (q ++ '/' :: k ++ v) = Text.trimEnd k := by
  have htrim : Text.trim (q ++ '/' :: k ++ v) = Text.trimStart q ++ '/' :: Text.trimEnd k := by
    rw [Text.trim, List.append_assoc, List.cons_append, Text.trimStart_append_cons (by decide),
      Text.trimEnd_append_cons (by decide), Text.trimEnd_append_blank hv]
  rw [shortName, htrim, Text.lastSegment_append _ fun h => hk (Text.mem_of_mem_trimEnd h)]

/-- a short name is read off wherever it stands behind the last slash -/
theorem IsShortName.shortName_behind (hk : IsShortName k) (hv : ∀ c ∈ v, Text.isBlank c = true) (q : Text) :
    shortName (q ++ '/' :: k ++ v) = k := by
  rw [shortName_append hk.slash hv, Text.trimEnd_eq_self_iff.2 hk.last]

theorem IsShortName.suffix (hk : IsShortName k) (hs : u <:+ k) : IsShortName u where
  slash := fun h => hk.slash (hs.subset h)
  last := by
    intro c hc
    obtain ⟨s, rfl⟩ := hs
    refine hk.last c ?_
    rw [List.getLast?_append, hc]
    rfl

/-- the references a name is read off: it is a short name, and stands behind a slash with nothing but blank characters after
it, or is all there is between blank characters -/
theorem shortName_eq_iff : shortName r = k ↔ IsShortName k ∧
    ((∃ q v, r = q ++ '/' :: k ++ v ∧ ∀ c ∈ v, Text.isBlank c = true) ∨ Text.Trimmed r k) := by
  constructor
  · rintro rfl
    refine ⟨isShortName_shortName r, ?_⟩
    obtain ⟨a, b, hr, -, hb⟩ := (Text.trimmed_trim r).between
    rcases (Text.behindLastSlash_lastSegment (Text.trim r)).2 with hall | ⟨q, hq⟩
    · right
      rw [shortName, ← hall]
      exact Text.trimmed_trim r
    · left
      refine ⟨a ++ q, b, ?_, hb⟩
      calc r = a ++ Text.trim r ++ b := hr
        _ = a ++ (q ++ '/' :: shortName r) ++ b := by rw [hq, shortName]
        _ = a ++ q ++ '/' :: shortName r ++ b := by rw [← List.append_assoc a q]
  · rintro ⟨hk, ⟨q, v, rfl, hv⟩ | htrimmed⟩
    · exact hk.shortName_behind hv q
    · rw [shortName, htrimmed.trim_eq, Text.lastSegment_of_not_mem hk.slash]

/-- a short name that is read itself loses the blank characters it starts with -/
theorem IsShortName.shortName_eq (hk : IsShortName k) : shortName k = Text.trimStart k := by
  have hstart : IsShortName (Text.trimStart k) := hk.suffix (List.dropWhile_suffix Text.isBlank)
  have hsplit : k = k.takeWhile Text.isBlank ++ Text.trimStart k ++ [] := by
    rw [List.append_nil, Text.trimStart, List.takeWhile_append_dropWhile]
  have hfront : ∀ c ∈ k.takeWhile Text.isBlank, Text.isBlank c = true := List.all_eq_true.1 List.all_takeWhile
  have htrimmed : Text.Trimmed k (Text.trimStart k) :=
    ⟨⟨_, [], hsplit, hfront, by simp⟩, Text.head_dropWhile Text.isBlank k, hstart.last⟩
  exact shortName_eq_iff.2 ⟨hstart, .inr htrimmed⟩

/-- **The names that are read.** The names read off references are the short names. Each is read off behind a slash, whatever
stands in front and whatever blank characters follow. What was read off a reference changes when it is read again only by the
blank characters it starts with. -/
theorem image_shortName :
    (∀ k, (∃ r, shortName r = k) ↔ IsShortName k) ∧
    (∀ k, IsShortName k → ∀ q v, (∀ c ∈ v, Text.isBlank c = true) → shortName (q ++ '/' :: k ++ v) = k) ∧
    ∀ r, shortName (shortName r) = Text.trimStart (shortName r) := by
  refine ⟨?_, ?_, ?_⟩
  · intro k
    constructor
    · rintro ⟨r, hr⟩
      exact (shortName_eq_iff.1 hr).1
    · intro hk
      exact ⟨[] ++ '/' :: k ++ [], hk.shortName_behind (by simp) []⟩
  · intro k hk q v hv
    exact hk.shortName_behind hv q
  · intro r
    exact (isShortName_shortName r).shortName_eq

/-- a blank character between the last slash and the name stays, those at the end do not; it goes when the name is read
again -/
theorem blank_in_front_is_read :
    let name := "\u3000prod".toList
    IsShortName name ∧ shortName " refs/heads / team/\u3000prod \n".toList = name ∧ shortName name = "prod".toList := by
  intro name
  have hname : IsShortName name := by
    refine ⟨by decide, ?_⟩
    intro c hc
    obtain rfl : 'd' = c := Option.some.inj hc
    rfl
  have hblank : ∀ c ∈ " \n".toList, Text.isBlank c = true := List.all_eq_true.1 (by decide)
  obtain ⟨-, hbehind, hagain⟩ := image_shortName
  have hread : shortName " refs/heads / team/\u3000prod \n".toList = name :=
    hbehind name hname " refs/heads / team".toList " \n".toList hblank
  refine ⟨hname, hread, ?_⟩
  rw [← hread, hagain, hread]
  rfl

/-- a reference that ends in a slash but for blank characters has the empty name -/
example : shortName "refs/heads/ \n".toList = [] := by decide

end Branch

namespace World

open Branch (IsShortName)

variable {w : World} {dir : Path} {reply : Reply} {r : Text}

/-! ## Branches -/

theorem isShortName_branch (w : World) (dir : Path) : IsShortName (w.branch dir) := by
  unfold branch
  split
  · exact Branch.isShortName_shortName _
  · exact ⟨by simp, by simp⟩

/-- the branch is read off the reference git writes -/
theorem branch_of_reply (h : w.startGit dir branchQuery = .ok reply) (hexit : reply.exit = .code 0)
    (hr : reply.stdout = Utf8.encode r) : w.branch dir = Branch.shortName r := by
  have hreadable : readable reply.stdout = Text.trim r := by rw [readable, hr, Utf8.decodeLossy_encode]
  simp only [branch, runGit_of_reply h hexit, hreadable, Branch.shortName, Text.trim_trim]

/-- a git that writes `r` -/
def answering (r : Text) : World where
  files := ⟨.empty, []⟩
  git := some fun _ _ => { stdout := Utf8.encode r }

theorem branch_answering (r : Text) : (answering r).branch "/".toList = Branch.shortName r := by
  have hreply : (answering r).startGit "/".toList branchQuery = .ok { stdout := Utf8.encode r } := rfl
  exact branch_of_reply hreply rfl rfl

theorem exists_branch_iff {k : Text} : (∃ w dir, World.branch w dir = k) ↔ IsShortName k := by
  constructor
  · rintro ⟨w, dir, rfl⟩
    exact isShortName_branch w dir
  · intro h
    refine ⟨answering ('/' :: k), "/".toList, ?_⟩
    have hshort := h.shortName_behind (v := []) (by simp) []
    rw [List.nil_append, List.append_nil] at hshort
    rw [branch_answering, hshort]

end World

namespace Config

variable {c : Config} {k : Text}

/-! ## Entries -/

theorem slash_mem_of_violation? (h : c.violation? = some (.branchWithSlash k)) : '/' ∈ k := by
  have hfield : ∀ {owner : Text} {b : Binding}, badField? owner b ≠ some (.branchWithSlash k) := by
    intro owner b hb
    obtain ⟨f, -, hf⟩ := Option.map_eq_some_iff.1 hb
    exact absurd hf (by simp)
  have hentry : ∀ e, entryViolation? e = some (.branchWithSlash k) → '/' ∈ k := by
    intro e he
    rw [entryViolation?, ite_some_eq_some_iff, ite_some_eq_some_iff] at he
    rcases he with ⟨-, he⟩ | ⟨-, ⟨hslash, he⟩ | ⟨-, he⟩⟩
    · exact absurd he (by simp)
    · obtain rfl : e.1 = k := by simpa using he
      exact hslash
    · exact absurd he hfield
  have hfallback : ∀ b, fallbackViolation? b ≠ some (.branchWithSlash k) := by
    intro b hb
    rw [fallbackViolation?, ite_some_eq_some_iff] at hb
    rcases hb with ⟨-, hb⟩ | ⟨-, hb⟩
    · exact absurd hb (by simp)
    · exact hfield hb
  rw [violation?, ite_some_eq_some_iff, ite_some_eq_some_iff, ite_some_eq_some_iff] at h
  rcases h with ⟨-, h⟩ | ⟨-, ⟨-, h⟩ | ⟨-, ⟨-, h⟩ | ⟨-, h⟩⟩⟩
  · exact absurd h (by simp)
  · exact absurd h (by simp)
  · exact absurd h (by simp)
  · rcases Option.or_eq_some_iff.1 h with h | ⟨-, h⟩
    · obtain ⟨e, -, he⟩ := List.exists_of_findSome?_eq_some h
      exact hentry e he
    · obtain ⟨b, -, hb⟩ := Option.bind_eq_some_iff.1 h
      exact absurd hb (hfallback b)

/-- **Entries that can be selected.** An accepted entry can be selected if its name does not end in a blank character, and is
selected by every reference it is the last segment of. If its name ends so, no answer of git selects it, and the name without
the blank characters is the branch in its place. A name refused for its slash is no branch either. -/
theorem entry_selected_iff (c : Config) :
    (c.violation? = none → ∀ m, c.namespaces = some m → ∀ k b, m.get? k = some b →
      ((∃ w dir, World.branch w dir = k) ↔ ∀ x, k.getLast? = some x → Text.isBlank x = false) ∧
      ∀ w dir reply q v, World.startGit w dir World.branchQuery = .ok reply → reply.exit = .code 0 →
        reply.stdout = Utf8.encode (q ++ '/' :: k ++ v) → (∀ x ∈ v, Text.isBlank x = true) →
        w.branch dir = Text.trimEnd k ∧
        ((∀ x, k.getLast? = some x → Text.isBlank x = false) → c.table.select (w.branch dir) = b)) ∧
    ∀ k, c.violation? = some (.branchWithSlash k) → ∀ w dir, World.branch w dir ≠ k := by
  constructor
  · intro hc m hm k b hb
    have hslash : '/' ∉ k :=
      ((violation?_eq_none_iff.1 hc).branches m hm (k, b) (OrderedMap.get?_eq_some_iff.1 hb)).2.1
    constructor
    · rw [World.exists_branch_iff]
      exact ⟨fun h => h.last, fun h => ⟨hslash, h⟩⟩
    · intro w dir reply q v hreply hexit hout hv
      have hbranch : w.branch dir = Text.trimEnd k := by
        rw [World.branch_of_reply hreply hexit hout, Branch.shortName_append hslash hv]
      refine ⟨hbranch, ?_⟩
      intro hlast
      have hlisted : c.table.listed.get? k = some b := by
        rw [table, hm]
        exact hb
      rw [hbranch, Text.trimEnd_eq_self_iff.2 hlast]
      exact Table.select_of_listed hlisted
  · rintro k hc w dir rfl
    exact (World.isShortName_branch w dir).slash (slash_mem_of_violation? hc)

/-- a table with two entries: the name of one ends in a blank character that git allows at the end of a branch -/
def blankEnded : Config where
  namespaces := some (.ofList [("dev".toList, .ofList [("suffix".toList, "test".toList)]),
    ("prod\u3000".toList, .ofList [("suffix".toList, "live".toList)])])

/-- **A dead entry.** It is accepted, and is not selected where the branch of that name is checked out; the other one is. -/
theorem blank_ended_entry_is_dead :
    let prod := World.answering "refs/heads/prod\u3000\n".toList
    let dev := World.answering "refs/heads/team/dev\n".toList
    blankEnded.violation? = none ∧ (∀ w dir, World.branch w dir ≠ "prod\u3000".toList) ∧
      prod.branch "/".toList = "prod".toList ∧ blankEnded.table.select "prod".toList = .builtinFallback ∧
      blankEnded.table.select (dev.branch "/".toList) = .ofList [("suffix".toList, "test".toList)] := by
  intro prod dev
  have hvalid : blankEnded.violation? = none := by decide +kernel
  have hline : ∀ x ∈ "\n".toList, Text.isBlank x = true := by
    intro x hx
    obtain rfl : x = '\n' := List.mem_singleton.1 hx
    rfl
  have hlast : ∀ x, "dev".toList.getLast? = some x → Text.isBlank x = false := by
    intro x hx
    obtain rfl : 'v' = x := Option.some.inj hx
    rfl
  obtain ⟨hentries, -⟩ := entry_selected_iff blankEnded
  obtain ⟨hdead, hprod⟩ := hentries hvalid _ rfl "prod\u3000".toList _ rfl
  obtain ⟨-, hdev⟩ := hentries hvalid _ rfl "dev".toList _ rfl
  refine ⟨hvalid, ?_, ?_, ?_, ?_⟩
  · intro w dir hk
    exact absurd (hdead.1 ⟨w, dir, hk⟩ '\u3000' rfl) (by decide)
  · exact (hprod prod "/".toList _ "refs/heads".toList "\n".toList rfl rfl rfl hline).1
  · decide +kernel
  · exact (hdev dev "/".toList _ "refs/heads/team".toList "\n".toList rfl rfl rfl hline).2 hlast

end Config

end BranchRender
