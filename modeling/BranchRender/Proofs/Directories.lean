/-
DIRECTORIES: what making a directory and those above it leaves, and what a second try makes of it.

- Making directories only puts new ones where nothing was, each named by the path or one above it (`Grown`), wherever it
  is stopped (`grown_of_mayStop`).
- A path that spells no `..` is made from above: what was made last has nothing below it, and a path that is not there yet
  fails for the reason the next directory would fail for (`Begun`). So a second try ends as the first would have
  (`resumes`).

Main statements: `grown_of_mayStop`, `resumes`.
-/
import Mathlib.Tactic.ByContra
import BranchRender.Proofs.Leading

namespace BranchRender

namespace FileSystem

open FileTree (Passes Blocked Keeps maxLinks maxName)

variable {fs s : FileSystem} {q dir : Path} {d l start : Location} {name : Text}

/-! ## What is begun -/

/-- nothing is where the path leads, and a walk behind it would fail because something is missing or for the reason that
its last directory cannot be made -/
def Stuck (s : FileSystem) (q : Path) : Prop :=
  s.contains q = false ∧ ∃ start e, s.boundedStart q = .ok start ∧ Blocked s.tree maxLinks start q.names e ∧
    (e = .notFound ∨ s.newLocation q none = .error (.system e))

/-- the path leads to a directory with nothing in it, or is stuck -/
def Begun (s : FileSystem) (q : Path) : Prop :=
  (∃ d, s.Leads q d ∧ ∀ x, s.tree.at? (x :: d) = none) ∨ s.Stuck q

theorem contains_of_locate_error {e : IoFault} (h : s.locate .target q = .error e) : s.contains q = false := by
  simp [contains, stat, find, h, Except.map, Except.toOption]

theorem contains_of_locate_vacant (h : s.locate .target q = .ok (.vacant l)) : s.contains q = false := by
  simp [contains, stat, find, h, Except.map, Except.toOption]

/-- behind a stuck path nothing is found or made, for the same reason -/
theorem Stuck.tops (h : s.Stuck dir) (ht : q.Tops dir name) (hd : dir ≠ []) (hs : s.boundedStart q = .ok start) :
    s.Stuck q ∧ ∃ e, s.newLocation q none = .error (.system e) ∧
      (e = .notFound ∨ s.newLocation dir none = .error (.system e)) := by
  obtain ⟨-, start', e, hs', hb, he⟩ := h
  rw [boundedStart_parent ht.parent hd hs, Except.ok.injEq] at hs'
  subst hs'
  obtain ⟨m, hm⟩ := ht.names
  have hbq : Blocked s.tree maxLinks start q.names e := by
    rw [hm, List.append_assoc]
    exact hb.append (by simp)
  have hloc : s.locate .target q = .error (.system e) := by
    simp only [locate, hs, hm, List.append_assoc]
    rw [hb.before .target _ _ (by simp)]
    rfl
  have hnew : s.newLocation q none = .error (.system e) := by
    rcases reaches_or_fails s q with ⟨n, d, nm, hr⟩ | ⟨e', hl, ha⟩ | ⟨hx, -⟩
    · obtain ⟨-, start', n', hs', hp⟩ := leads_of_reaches ht hd hr
      rw [boundedStart_parent ht.parent hd hs, Except.ok.injEq] at hs'
      subst hs'
      exact absurd hp hb.not_passes
    · rw [ha .target, Except.error.injEq] at hloc
      subst hloc
      simp [newLocation, hl, bind, Except.bind]
    · rw [hx] at hm; simp at hm
  exact ⟨⟨contains_of_locate_error hloc, start, e, hs, hbq, .inr hnew⟩, e, hnew, he⟩

theorem stuck_of_vacant (ht : q.Tops dir name) (hs : s.boundedStart q = .ok start) (h : s.Leads dir d)
    (hvacant : s.tree.at? (name :: d) = none) : s.Stuck q := by
  obtain ⟨n, hr⟩ := reaches_of_leads ht hs h
  have hr' := hr
  obtain ⟨start', xs, hs', hx, hp⟩ := hr'
  rw [hs, Except.ok.injEq] at hs'
  subst hs'
  have hdots := ht.isName.2.2
  have hlast := lastOf_of_reaches hr
  rw [hdots, if_neg (by simp)] at hlast
  have hloc := locate_of_reaches hr .target
  rw [FileTree.walk_name _ _ _ _ _ _ hdots] at hloc
  simp only [reduceCtorEq, and_false, ite_false, hvacant, ite_true] at hloc
  have hb : ∀ e, Blocked s.tree n d [name] e → Blocked s.tree maxLinks start q.names e := fun e hb =>
    hx ▸ hp.blocked (by simp) hb
  by_cases hdir : s.tree.at? d = some .directory
  case neg =>
    refine ⟨contains_of_locate_error (e := .system .notFound) ?_, start, .notFound, hs,
      hb _ (FileTree.blocked_of_name hdots (.inl ⟨hdir, rfl⟩)), .inl rfl⟩
    simpa [hdir, Except.mapError] using hloc
  by_cases hz : maxName < name.size
  · refine ⟨contains_of_locate_error (e := .system .nameTooLong) ?_, start, .nameTooLong, hs,
      hb _ (FileTree.blocked_of_name hdots (.inr (.inl ⟨hdir, hz, rfl⟩))), .inr ?_⟩
    · simpa [hdir, hz, Except.mapError] using hloc
    · have hi : s.inDirectory d name = .error (.system .nameTooLong) := by simp [inDirectory, hdir, hz]
      simp [newLocation, hlast, hi, bind, Except.bind]
  · refine ⟨contains_of_locate_vacant (l := name :: d) ?_, start, .notFound, hs,
      hb _ (FileTree.blocked_of_name hdots (.inr (.inr (.inl ⟨hdir, Nat.not_lt.1 hz, hvacant, rfl⟩)))), .inl rfl⟩
    simpa [hdir, hz, Except.mapError] using hloc

end FileSystem

/-! ## Making directories -/

namespace Plan

variable {fs s fs' : FileSystem} {q dir : Path} {l : Location} {above ps : List Path}

theorem run_makeAll_new (h : fs.newLocation q none = .ok l) :
    (makeAll (q :: above)).run fs = (.ok (), fs.put l .directory) := by
  rw [makeAll, run_bind, run_change, FileSystem.perform_makeDirectory h]
  rfl

theorem run_makeAll_refused {e : IoFault} (h : fs.newLocation q none = .error e) (he : e ≠ .system .notFound) :
    (makeAll (q :: above)).run fs = (if fs.isDirectory q then .ok () else .error e, fs) := by
  rw [makeAll, run_bind, run_change, FileSystem.perform_makeDirectory_error h]
  simp only [he, ite_false, run_observe]

/-- the answer of the second attempt at a directory whose parents were made -/
def retry (q : Path) (fs : FileSystem) : Except IoFault Unit × FileSystem :=
  match fs.newLocation q none with
  | .ok l => (.ok (), fs.put l .directory)
  | .error e => (if fs.isDirectory q then .ok () else .error e, fs)

theorem run_makeAll_missing (h : fs.newLocation q none = .error (.system .notFound)) :
    (makeAll (q :: above)).run fs = match (makeAll above).run fs with
      | (.error e, fs') => (.error e, fs')
      | (.ok (), fs') => retry q fs' := by
  rw [makeAll, run_bind, run_change, FileSystem.perform_makeDirectory_error h]
  simp only [ite_true, run_bind]
  rcases (makeAll above).run fs with ⟨_ | _, fs'⟩
  · rfl
  · simp only [run_bind, run_change, retry]
    cases hn : fs'.newLocation q none with
    | ok l => rw [FileSystem.perform_makeDirectory hn]; rfl
    | error e => rw [FileSystem.perform_makeDirectory_error hn]; rfl

def again (q : Path) : Plan (Except IoFault Unit) := do
  match ← change (.makeDirectory q) with
  | .ok () => pure (.ok ())
  | .error e => observe fun fs => if fs.isDirectory q then .ok () else .error e

theorem stops_makeDirectory (h : (change (.makeDirectory q)).MayStop fs s) :
    s = fs ∨ ∃ l, fs.newLocation q none = .ok l ∧ s = fs.put l .directory := by
  rcases mayStop_change.1 h with (h | h) | h
  · exact .inl h
  · exact h.elim
  · cases hn : fs.newLocation q none with
    | ok l =>
      rw [FileSystem.perform_makeDirectory hn] at h
      exact .inr ⟨l, rfl, h⟩
    | error e =>
      rw [FileSystem.perform_makeDirectory_error hn] at h
      exact .inl h

theorem stops_again (h : (again q).MayStop fs s) :
    s = fs ∨ ∃ l, fs.newLocation q none = .ok l ∧ s = fs.put l .directory := by
  rw [again, mayStop_bind] at h
  apply stops_makeDirectory
  rcases h with h | h
  · exact h
  · refine mayStop_change.2 (.inr ?_)
    split at h
    · exact h
    · exact h

/-- where making directories may stop: before anything, in the directories above, or with the first of them made -/
theorem stops_makeAll (h : (makeAll (q :: above)).MayStop fs s) : s = fs ∨
    (∃ l, fs.newLocation q none = .ok l ∧ s = fs.put l .directory) ∨
    fs.newLocation q none = .error (.system .notFound) ∧ ((makeAll above).MayStop fs s ∨
      ∃ fs' l, (makeAll above).run fs = (.ok (), fs') ∧ fs'.newLocation q none = .ok l ∧
        s = fs'.put l .directory) := by
  rw [makeAll, mayStop_bind, run_change] at h
  rcases h with h | h
  · exact (stops_makeDirectory h).imp id .inl
  · cases hn : fs.newLocation q none with
    | ok l =>
      rw [FileSystem.perform_makeDirectory hn] at h
      exact .inr (.inl ⟨l, rfl, h⟩)
    | error e =>
      rw [FileSystem.perform_makeDirectory_error hn] at h
      simp only at h
      split at h
      · next he =>
        refine .inr (.inr ⟨by rw [he], ?_⟩)
        rw [mayStop_bind] at h
        rcases h with h | h
        · exact .inl h
        · have hafter := mayStop_after (makeAll above) fs
          rcases hr : (makeAll above).run fs with ⟨_ | _, fs'⟩
          · rw [hr] at h hafter
            rw [show s = fs' from h]
            exact .inl hafter
          · rw [hr] at h hafter
            have h : (again q).MayStop fs' s := h
            rcases stops_again h with rfl | ⟨l, hn', rfl⟩
            · exact .inl hafter
            · exact .inr ⟨fs', l, rfl, hn', rfl⟩
      · exact .inl h

end Plan

/-! ## What is new -/

/-- `s` is `fs` with new directories, each of them named by one of these paths -/
structure FileSystem.Grown (fs s : FileSystem) (ps : List Path) : Prop where
  cwd : s.cwd = fs.cwd
  at? : ∀ k, s.tree.at? k = fs.tree.at? k ∨
    fs.tree.at? k = none ∧ s.tree.at? k = some .directory ∧ ∃ q ∈ ps, s.Names q k

namespace FileSystem.Grown

open FileTree (Keeps)

variable {fs s u : FileSystem} {q : Path} {l : Location} {ps ps' : List Path}

theorem refl (fs : FileSystem) (ps : List Path) : fs.Grown fs ps := ⟨rfl, fun _ => .inl rfl⟩

theorem stays {k : Location} {e : Entry} (h : fs.Grown s ps) (he : fs.tree.at? k = some e) : s.tree.at? k = some e := by
  rcases h.at? k with hk | ⟨hk, -⟩
  · rw [hk, he]
  · rw [hk] at he; exact absurd he (by simp)

theorem keeps (h : fs.Grown s ps) : Keeps fs.tree s.tree := fun _ _ he _ => h.stays he

theorem mono (h : fs.Grown s ps) (hs : ∀ q ∈ ps, q ∈ ps') : fs.Grown s ps' :=
  ⟨h.cwd, fun k => (h.at? k).imp id fun ⟨hn, hd, q, hq, hk⟩ => ⟨hn, hd, q, hs q hq, hk⟩⟩

theorem trans (h : fs.Grown s ps) (h' : s.Grown u ps) : fs.Grown u ps := by
  refine ⟨h'.cwd.trans h.cwd, ?_⟩
  intro k
  rcases h'.at? k with hk' | ⟨hn, hd, q, hq, hk'⟩
  · rw [hk']
    exact (h.at? k).imp id fun ⟨hn, hd, q, hq, hk⟩ => ⟨hn, hd, q, hq, hk.keep h'.keeps h'.cwd⟩
  · rcases h.at? k with hk | ⟨-, hd', -⟩
    · exact .inr ⟨hk ▸ hn, hd, q, hq, hk'⟩
    · rw [hn] at hd'; exact absurd hd' (by simp)

theorem put (h : fs.newLocation q none = .ok l) (hq : q ∈ ps) : fs.Grown (fs.put l .directory) ps := by
  obtain ⟨hn, hv⟩ := newLocation_iff.1 h
  have ha := hn.admits (by rw [hv]; simp)
  refine ⟨rfl, ?_⟩
  intro k
  rw [at?_put ha]
  split
  · next hk =>
    subst hk
    exact .inr ⟨hv, rfl, q, hq, hn.keep (keeps_put (by simp [hv]) _) rfl⟩
  · exact .inl rfl

end FileSystem.Grown

namespace Plan

open FileSystem (Grown)

variable {fs s : FileSystem} {q : Path} {l : Location} {above ps : List Path}

/-- making directories only makes directories, wherever it is stopped -/
theorem grown_of_mayStop (h : (makeAll ps).MayStop fs s) : fs.Grown s ps := by
  induction ps generalizing s with
  | nil => rw [show s = fs from h]; exact .refl fs _
  | cons q above ih =>
    have habove : ∀ u, (makeAll above).MayStop fs u → fs.Grown u (q :: above) :=
      fun u hu => (ih hu).mono fun _ => List.mem_cons_of_mem _
    rcases stops_makeAll h with rfl | ⟨l, hn, rfl⟩ | ⟨-, h | ⟨fs', l, hr, hn, rfl⟩⟩
    · exact .refl s _
    · exact .put hn List.mem_cons_self
    · exact habove s h
    · have hafter := mayStop_after (makeAll above) fs
      rw [hr] at hafter
      exact (habove fs' hafter).trans (.put hn List.mem_cons_self)

/-! ## A second try -/

theorem run_makeAll_of_leads {d : Location} {above : List Path} (h : s.Leads q d) :
    (makeAll (q :: above)).run s = (.ok (), s) := by
  rw [run_makeAll_refused (FileSystem.newLocation_of_leads h) (by decide),
    if_pos (FileSystem.isDirectory_iff_leads.2 ⟨d, h⟩)]

theorem leads_of_new (h : fs.newLocation q none = .ok l) :
    (fs.put l .directory).Leads q l ∧ ∀ x, (fs.put l .directory).tree.at? (x :: l) = none := by
  obtain ⟨hn, hv⟩ := FileSystem.newLocation_iff.1 h
  have ha := hn.admits (by rw [hv]; simp)
  constructor
  · apply FileSystem.leads_of_names (hn.keep (FileSystem.keeps_put (by simp [hv]) _) rfl)
    rw [FileSystem.at?_put ha, if_pos rfl]
  · intro x
    rw [FileSystem.at?_put ha, if_neg (fun he => ?_), FileTree.bare_of_vacant hv]
    have := congrArg List.length he
    simp at this

theorem newLocation_of_dots (hq : q ≠ []) (h : ∀ n ∈ q.names, n = ['.']) :
    fs.newLocation q none ≠ .error (.system .notFound) := by
  intro hn
  obtain ⟨start, hs⟩ := FileSystem.boundedStart_of_missing hn hq
  have hl : fs.Leads q start := ⟨start, _, hs, by
    rw [List.eq_replicate_of_mem h]
    exact FileTree.passes_dots _ _ _ _⟩
  rw [FileSystem.newLocation_of_leads hl] at hn
  exact absurd hn (by rw [Except.error.injEq]; decide)

theorem run_ancestors_of_leads {dir : Path} {d : Location} (n : Nat) (h : s.Leads dir d) :
    (makeAll (Path.ancestorsUpTo n dir)).run s = (.ok (), s) := by
  have hdir : dir ≠ [] := by
    obtain ⟨_, _, hb, -⟩ := h
    exact FileSystem.ne_nil_of_boundedStart hb
  cases n with
  | zero => rfl
  | succ n =>
    rw [Path.ancestorsUpTo, if_neg hdir]
    exact run_makeAll_of_leads h

/-- with the directories above it there, a directory is made at once, or for good not -/
theorem run_makeAll_below (h : (makeAll above).run s = (.ok (), s)) : (makeAll (q :: above)).run s = retry q s := by
  cases hn : s.newLocation q none with
  | ok l => rw [run_makeAll_new hn, retry, hn]
  | error e =>
    by_cases he : e = .system .notFound
    · subst he
      rw [run_makeAll_missing hn, h]
    · rw [run_makeAll_refused hn he, retry, hn]

/-- the directories above were made: what is left is the directory itself -/
theorem resumes_behind_made {dir : Path} {d start : Location} {name : Text} {n : Nat} (ht : q.Tops dir name)
    (hstart : s.boundedStart q = .ok start) (hn : fs.newLocation q none = .error (.system .notFound))
    (hl : s.Leads dir d) (hbare : ∀ x, s.tree.at? (x :: d) = none)
    (hagain : (makeAll (Path.ancestorsUpTo n dir)).run s = (makeAll (Path.ancestorsUpTo n dir)).run fs) :
    s.Begun q ∧ (makeAll (q :: Path.ancestorsUpTo n dir)).run s = (makeAll (q :: Path.ancestorsUpTo n dir)).run fs := by
  have habove := run_ancestors_of_leads n hl
  refine ⟨.inr (FileSystem.stuck_of_vacant ht hstart hl (hbare name)), ?_⟩
  rw [run_makeAll_missing hn, run_makeAll_below habove, ← hagain, habove]

theorem resumes_behind_stuck {dir : Path} {start : Location} {name : Text} {n : Nat} (ht : q.Tops dir name)
    (hstart : s.boundedStart q = .ok start) (hn : fs.newLocation q none = .error (.system .notFound))
    (hstuck : s.Stuck dir)
    (hagain : (makeAll (Path.ancestorsUpTo (n + 1) dir)).run s = (makeAll (Path.ancestorsUpTo (n + 1) dir)).run fs) :
    s.Begun q ∧ (makeAll (q :: Path.ancestorsUpTo (n + 1) dir)).run s =
      (makeAll (q :: Path.ancestorsUpTo (n + 1) dir)).run fs := by
  have hdir : dir ≠ [] := by
    obtain ⟨-, _, _, hb, -⟩ := hstuck
    exact FileSystem.ne_nil_of_boundedStart hb
  obtain ⟨hstuckq, e, hn', he⟩ := hstuck.tops ht hdir hstart
  refine ⟨.inr hstuckq, ?_⟩
  rw [run_makeAll_missing hn, ← hagain]
  by_cases hmissing : e = .notFound
  · subst hmissing
    exact run_makeAll_missing hn'
  · -- the parent cannot be made for the same reason, so the first try would have stopped here too
    have hsys : IoFault.system e ≠ .system .notFound := by simpa using hmissing
    have habove : (makeAll (Path.ancestorsUpTo (n + 1) dir)).run s = (.error (.system e), s) := by
      rw [Path.ancestorsUpTo, if_neg hdir, run_makeAll_refused (he.resolve_left hmissing) hsys,
        FileSystem.isDirectory_of_not_contains hstuck.1]
      rfl
    rw [habove, run_makeAll_refused hn' hsys, FileSystem.isDirectory_of_not_contains hstuckq.1]
    rfl

/-- **Directories after a stop.** A second try ends as the first would have, and what it finds is begun. -/
theorem resumes {n : Nat} (hq : ∃ p, Path.parent? p = some q) (hup : ['.', '.'] ∉ q.names)
    (h : (makeAll (Path.ancestorsUpTo n q)).MayStop fs s) : (s ≠ fs → s.Begun q) ∧
      (makeAll (Path.ancestorsUpTo n q)).run s = (makeAll (Path.ancestorsUpTo n q)).run fs := by
  by_cases hne : s = fs
  · exact ⟨fun h => absurd hne h, by rw [hne]⟩
  induction n generalizing q with
  | zero => exact absurd h hne
  | succ n ih =>
    rw [Path.ancestorsUpTo] at h ⊢
    by_cases hnil : q = []
    · rw [if_pos hnil] at h
      exact absurd h hne
    rw [if_neg hnil] at h ⊢
    obtain ⟨p, hp⟩ := hq
    rcases stops_makeAll h with rfl | ⟨l, hn, rfl⟩ | ⟨hn, hstop⟩
    · exact absurd rfl hne
    · obtain ⟨hl, hbare⟩ := leads_of_new hn
      refine ⟨fun _ => .inl ⟨l, hl, hbare⟩, ?_⟩
      rw [run_makeAll_of_leads hl, run_makeAll_new hn]
    -- the directory could not be made at once: it has a name, and a parent that was made first
    cases hname : Path.fileName? q with
    | none => exact absurd hn (newLocation_of_dots hnil (Path.names_of_no_fileName hname hup))
    | some name =>
      obtain ⟨dir, ht⟩ := Path.tops_of_parent hp hname
      rw [ht.parent] at hstop ⊢
      rcases hstop with hs | ⟨fs', l, hr, hn', rfl⟩
      · obtain ⟨hbegun, hagain⟩ := ih ⟨q, ht.parent⟩ (Path.up_not_mem_parent ht.parent hup) hs
        obtain ⟨start, hstart⟩ := FileSystem.boundedStart_of_missing hn hnil
        rw [← FileSystem.boundedStart_eq (grown_of_mayStop hs).cwd] at hstart
        rcases hbegun hne with ⟨d, hl, hbare⟩ | hstuck
        · exact (resumes_behind_made ht hstart hn hl hbare hagain).imp (fun h _ => h) id
        · cases n with
          | zero => exact absurd hs hne
          | succ n => exact (resumes_behind_stuck ht hstart hn hstuck hagain).imp (fun h _ => h) id
      · obtain ⟨hl, hbare⟩ := leads_of_new hn'
        refine ⟨fun _ => .inl ⟨l, hl, hbare⟩, ?_⟩
        rw [run_makeAll_of_leads hl, run_makeAll_missing hn]
        simp only [hr, retry, hn']

end Plan
end BranchRender
