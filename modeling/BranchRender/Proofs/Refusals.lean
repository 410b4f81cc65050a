/-
REFUSALS: a replacement while the system refuses operations: a full disk, a write that breaks off, a sync or a rename
that fails.

- Any operation may be refused, before it or in the middle of it (`Plan.MayEnd`). The operations of a replacement quit at the
  first refusal that matters: they end as their run, or fail and leave what a stop leaves (`Quits`, `quits_fill`,
  `quits_makeParent`).
- So a replacement succeeds only as it would if nothing were refused, and a replacement that fails has its target as it was:
  new directories may be there, and at the temporary path anything but what was there (`refused_planTarget`).
- The temporary file is removed behind a failed write, flush or sync as behind a failed rename; it is left only if its removal
  is refused as well (`ends_fillAndMove`, `gone_of_removed`).
- What is left does not matter to the next replacement, as it does not behind a stop (`refused_save`).

Main statements: `quits_makeAll`, `ends_fillAndMove`, `refused_planTarget`, `refused_save`.
-/
import Mathlib.Tactic.ByContra
import BranchRender.Proofs.Interruption

namespace BranchRender

/-! ## Plans that quit -/

namespace Plan

variable {α β ε ε' : Type} {fs m s : FileSystem} {q : Path}

/-- a plan ends behind its first part, from an end of that -/
theorem mayEnd_bind {x : Plan α} {f : α → Plan β} {b : β} :
    (x >>= f).MayEnd fs b s ↔ ∃ a m, x.MayEnd fs a m ∧ (f a).MayEnd m b s := by
  show (x.andThen f).MayEnd fs b s ↔ _
  induction x generalizing fs with
  | done a =>
    constructor
    · intro h
      exact ⟨a, fs, ⟨rfl, rfl⟩, h⟩
    · rintro ⟨_, _, ⟨rfl, rfl⟩, h⟩
      exact h
  | look next ih => exact ih fs
  | step c next ih =>
    constructor
    · rintro ⟨r, u, hanswer, h⟩
      obtain ⟨a, m, hnext, hf⟩ := (ih r).1 h
      exact ⟨a, m, ⟨r, u, hanswer, hnext⟩, hf⟩
    · rintro ⟨a, m, ⟨r, u, hanswer, hnext⟩, hf⟩
      exact ⟨r, u, hanswer, (ih r).2 ⟨a, m, hnext, hf⟩⟩

theorem mayEnd_change {c : Change α} {r : Except IoFault α} : (change c).MayEnd fs r s ↔ MayAnswer c fs r s := by
  constructor
  · rintro ⟨r', m, h, rfl, rfl⟩
    exact h
  · intro h
    exact ⟨r, s, h, rfl, rfl⟩

/-- the plan ends as it runs, or fails where it may be stopped -/
def Quits (x : Plan (Except ε α)) : Prop :=
  ∀ fs r s, x.MayEnd fs r s → (∃ a, r = .ok a) ∧ x.run fs = (r, s) ∨ (∃ e, r = .error e) ∧ x.MayStop fs s

theorem quits_pure (r : Except ε α) : (pure r : Plan (Except ε α)).Quits := by
  intro fs r' s h
  obtain ⟨rfl, rfl⟩ := h
  rcases r' with e | a
  · exact .inr ⟨⟨e, rfl⟩, rfl⟩
  · exact .inl ⟨⟨a, rfl⟩, rfl⟩

theorem quits_change (c : Change α) : (change c).Quits := by
  intro fs r s h
  rcases mayEnd_change.1 h with h | ⟨⟨e, rfl, -⟩, hbreak⟩
  · cases r with
    | error e => exact .inr ⟨⟨e, rfl⟩, mayStop_change.2 (.inr (congrArg Prod.snd h))⟩
    | ok a => exact .inl ⟨⟨a, rfl⟩, h.symm⟩
  · exact .inr ⟨⟨_, rfl⟩, mayStop_change.2 (.inl hbreak)⟩

/-- a plan that looks before it goes on -/
theorem quits_observe {f : FileSystem → β} {k : β → Plan (Except ε α)} (hk : ∀ b, (k b).Quits) :
    (observe f >>= k).Quits := by
  intro fs r s h
  obtain ⟨_, _, ⟨rfl, rfl⟩, h⟩ := mayEnd_bind.1 h
  rcases hk _ _ r s h with ⟨hr, hrun⟩ | ⟨hr, hstop⟩
  · exact .inl ⟨hr, by rw [run_bind, run_observe]; exact hrun⟩
  · exact .inr ⟨hr, mayStop_bind.2 (.inr hstop)⟩

/-- a plan that goes on with the answer of the first part, and fails where that fails -/
theorem quits_bind {x : Plan (Except ε α)} {f : Except ε α → Plan (Except ε' β)} (hx : x.Quits)
    (herror : ∀ e, ∃ e', f (.error e) = pure (.error e')) (hok : ∀ a, (f (.ok a)).Quits) : (x >>= f).Quits := by
  intro fs r s h
  obtain ⟨a, m, hfirst, h⟩ := mayEnd_bind.1 h
  rcases hx fs a m hfirst with ⟨⟨a, rfl⟩, hrun⟩ | ⟨⟨e, rfl⟩, hstop⟩
  · rcases hok a m r s h with ⟨hr, hrun'⟩ | ⟨hr, hstop⟩
    · exact .inl ⟨hr, by rw [run_bind, hrun]; exact hrun'⟩
    · exact .inr ⟨hr, mayStop_bind.2 (.inr (by rw [hrun]; exact hstop))⟩
  · obtain ⟨e', he⟩ := herror e
    rw [he] at h
    obtain ⟨rfl, rfl⟩ := h
    exact .inr ⟨⟨e', rfl⟩, mayStop_bind.2 (.inl hstop)⟩

theorem quits_mapError {x : Plan (Except ε α)} (hx : x.Quits) (g : ε → ε') :
    (do return (← x).mapError g : Plan (Except ε' α)).Quits :=
  quits_bind hx (fun e => ⟨g e, rfl⟩) fun _ => quits_pure _

/-! ## Directories -/

theorem perform_makeDirectory_there (h : fs.isDirectory q = true) :
    fs.perform (.makeDirectory q) = (.error (.system .alreadyExists), fs) := by
  obtain ⟨d, hd⟩ := FileSystem.isDirectory_iff_leads.1 h
  exact FileSystem.perform_makeDirectory_error (FileSystem.newLocation_of_leads hd)

/-- an answer to a directory that is to be made: it is made, or refused, and then it does not matter if it is there -/
theorem made_or_refused {a : Except IoFault Unit} (h : MayAnswer (.makeDirectory q) fs a m) :
    a = .ok () ∧ fs.perform (.makeDirectory q) = (.ok (), m) ∨
      (∃ e, a = .error e ∧ (e = .system .notFound → fs.perform (.makeDirectory q) = (.error e, fs))) ∧ m = fs := by
  rcases h with h | ⟨⟨e, rfl, he⟩, hbreak⟩
  · rcases a with e | _
    · obtain rfl := FileSystem.perform_error h.symm
      exact .inr ⟨⟨e, rfl, fun _ => h.symm⟩, rfl⟩
    · exact .inl ⟨rfl, h.symm⟩
  · refine .inr ⟨⟨_, rfl, ?_⟩, hbreak.resolve_right id⟩
    intro hmissing
    exact absurd (IoFault.system.inj hmissing) he

/-- a refused directory is looked for, and makes no difference if it is there -/
theorem ends_refused {x : Plan (Except IoFault Unit)} {e : IoFault} {r : Except IoFault Unit}
    (h : (observe fun fs => if fs.isDirectory q then .ok () else .error e).MayEnd m r s)
    (hrun : m.isDirectory q = true → x.run m = (.ok (), m)) :
    (∃ a, r = .ok a) ∧ x.run m = (r, s) ∨ (∃ e, r = .error e) ∧ x.MayStop m s := by
  obtain ⟨hr, rfl⟩ := h
  by_cases hdir : s.isDirectory q = true
  · obtain rfl : r = .ok () := hr.trans (if_pos hdir)
    exact .inl ⟨⟨(), rfl⟩, hrun hdir⟩
  · obtain rfl : r = .error e := hr.trans (if_neg hdir)
    exact .inr ⟨⟨e, rfl⟩, mayStop_before _ _⟩

theorem quits_again (q : Path) : (again q).Quits := by
  intro fs r s h
  obtain ⟨a, m, hanswer, hend⟩ := mayEnd_bind.1 h
  rcases made_or_refused (mayEnd_change.1 hanswer) with ⟨rfl, hperform⟩ | ⟨⟨e, rfl, -⟩, rfl⟩
  · obtain ⟨rfl, rfl⟩ := hend
    exact .inl ⟨⟨(), rfl⟩, by rw [again, run_bind, run_change, hperform]; rfl⟩
  · apply ends_refused hend
    intro hdir
    rw [again, run_bind, run_change, perform_makeDirectory_there hdir]
    exact Prod.ext (if_pos hdir) rfl

/-- making directories quits at a refusal, unless the directory that is refused is there -/
theorem quits_makeAll (ps : List Path) : (makeAll ps).Quits := by
  induction ps with
  | nil => exact quits_pure _
  | cons q above ih =>
    intro fs r s h
    obtain ⟨a, m, hanswer, hend⟩ := mayEnd_bind.1 h
    rcases made_or_refused (mayEnd_change.1 hanswer) with ⟨rfl, hperform⟩ | ⟨⟨e, rfl, hmissing⟩, rfl⟩
    · obtain ⟨rfl, rfl⟩ := hend
      exact .inl ⟨⟨(), rfl⟩, by rw [makeAll, run_bind, run_change, hperform]; rfl⟩
    by_cases he : e = .system .notFound
    · have hperform := hmissing he
      subst he
      simp only [ite_true] at hend
      -- the directories above it are made, and it is tried again
      apply (quits_bind ih ?_ ?_ m r s hend).elim
      · rintro ⟨hr, hrun⟩
        refine .inl ⟨hr, ?_⟩
        rw [makeAll, run_bind, run_change, hperform]
        exact hrun
      · rintro ⟨hr, hstop⟩
        refine .inr ⟨hr, mayStop_bind.2 (.inr ?_)⟩
        rw [run_change, hperform]
        exact hstop
      · intro e
        exact ⟨e, rfl⟩
      · intro _
        exact quits_again q
    · simp only [he, ite_false] at hend
      apply ends_refused hend
      intro hdir
      rw [makeAll, run_bind, run_change, perform_makeDirectory_there hdir]
      exact Prod.ext (if_pos hdir) rfl

end Plan

namespace Replacement

open Plan (change observe MayAnswer mayEnd_bind mayEnd_change mayStop_bind quits_pure quits_change quits_observe quits_bind
  quits_mapError)

variable {fs m s u : FileSystem} {p temporary : Path} {content : List UInt8} {t : Location} {r : Except ReplaceFault Unit}

theorem quits_makeParent (p : Path) : (makeParent p).Quits := by
  unfold makeParent
  split
  · exact quits_pure _
  · next dir _ =>
    split
    · exact quits_pure _
    · apply quits_observe
      intro b
      split
      · exact quits_pure _
      · exact quits_mapError (Plan.quits_makeAll dir.ancestors) _

theorem quits_fill (temporary : Path) (content : List UInt8) : (fill temporary content).Quits := by
  refine quits_bind (quits_change _) (fun e => ⟨.creating temporary e, rfl⟩) ?_
  intro l
  refine quits_bind (quits_change _) (fun e => ⟨writeFault content e, rfl⟩) ?_
  intro _
  exact quits_mapError (quits_change _) _

/-! ## Attempts and clean-ups -/

/-- an attempt that fails has failed in filling its temporary file, or behind that -/
theorem ends_attempt (h : (attempt temporary p content).MayEnd m r s) :
    r = .ok () ∧ (attempt temporary p content).run m = (.ok (), s) ∨
      ∃ fault, r = .error fault ∧ (fill temporary content).MayStop m s := by
  obtain ⟨a, u, hfill, h⟩ := mayEnd_bind.1 h
  rcases quits_fill temporary content m a u hfill with ⟨⟨_, rfl⟩, hrun⟩ | ⟨⟨fault, rfl⟩, hstop⟩
  · have hfilled : (fill temporary content).MayStop m u := by
      have hafter := Plan.mayStop_after (fill temporary content) m
      rwa [hrun] at hafter
    obtain ⟨a, v, hrename, hend⟩ := mayEnd_bind.1 h
    obtain ⟨rfl, rfl⟩ := hend
    rcases mayEnd_change.1 hrename with hperform | ⟨⟨e, rfl, -⟩, hbreak⟩
    · rcases a with e | _
      · obtain rfl := FileSystem.perform_error hperform.symm
        exact .inr ⟨_, rfl, hfilled⟩
      · refine .inl ⟨rfl, ?_⟩
        rw [attempt, Plan.run_bind, hrun]
        simp only [Plan.run_bind, Plan.run_change, ← hperform]
        rfl
    · obtain rfl : s = u := hbreak.resolve_right id
      exact .inr ⟨_, rfl, hfilled⟩
  · obtain ⟨rfl, rfl⟩ := h
    exact .inr ⟨fault, rfl, hstop⟩

/-- **Clean-up.** A replacement that fails behind its temporary file, whatever was refused, has tried to remove that file. -/
theorem ends_fillAndMove (h : (fillAndMove temporary p content).MayEnd m r s) :
    r = .ok () ∧ (fillAndMove temporary p content).run m = (.ok (), s) ∨
      ∃ fault u a, r = .error fault ∧ (fill temporary content).MayStop m u ∧ MayAnswer (.remove temporary) u a s := by
  rw [fillAndMove_eq] at h
  obtain ⟨a, u, hattempt, h⟩ := mayEnd_bind.1 h
  rcases ends_attempt hattempt with ⟨rfl, hrun⟩ | ⟨fault, rfl, hstop⟩
  · obtain ⟨rfl, rfl⟩ := h
    exact .inl ⟨rfl, by rw [run_fillAndMove, hrun]⟩
  · obtain ⟨a, v, hremove, hend⟩ := mayEnd_bind.1 h
    obtain ⟨rfl, rfl⟩ := hend
    exact .inr ⟨fault, u, a, rfl, hstop, mayEnd_change.1 hremove⟩

/-- a removal that is not refused leaves nothing at the temporary path, unless a directory is there -/
theorem gone_of_removed (h : temporary? p = some temporary) (ht : s.Names temporary t)
    (hd : s.tree.at? t ≠ some .directory) : (s.perform (.remove temporary)).2.tree.at? t = none := by
  cases he : s.tree.at? t with
  | none =>
    rcases FileSystem.remove_cases s temporary with hsame | ⟨t', e, ht', he', -⟩
    · rw [hsame, he]
    · obtain rfl := ht.unique ht'
      exact absurd (he.symm.trans he') (by simp)
  | some e =>
    have hm : s.movable temporary = .ok (t, e) :=
      FileSystem.movable_iff.2 ⟨ht, he, fun h => hd (h ▸ he), endsInSlash_temporary h⟩
    rw [FileSystem.perform_remove hm, FileSystem.at?_drop hd, if_pos rfl]

/-! ## Failures -/

/-- what a replacement leaves that fails: the target as it was, and all else but for new directories and what has the temporary
name -/
structure Failed (fs s : FileSystem) (p : Path) : Prop where
  target : (s.lstat p).toOption = (fs.lstat p).toOption
  others : ∀ k, s.tree.at? k = fs.tree.at? k ∨
    (fs.tree.at? k = none ∧ s.tree.at? k = some .directory ∧ ∃ q ∈ above p, s.Names q k) ∨
    ∃ name d, p.fileName? = some name ∧ k = temporaryName name :: d

theorem failed_of_makeParent (hup : ['.', '.'] ∉ p.names) (h : (makeParent p).MayStop fs s) : Failed fs s p :=
  ⟨lstat_toOption_of_makeParent hup h, fun k => ((grown_makeParent h).at? k).imp id .inl⟩

theorem failed_of_left (hup : ['.', '.'] ∉ p.names) (hrun : (makeParent p).run fs = (.ok (), m))
    (htemp : temporary? p = some temporary) (hs : Left m s temporary) : Failed fs s p := by
  have hm := mayStop_of_run hrun
  rcases hs with rfl | ⟨t, ht, hleft⟩
  · exact failed_of_makeParent hup hm
  refine ⟨lstat_of_others hup hrun htemp ht hleft.sameWays hleft.others, ?_⟩
  intro k
  by_cases hk : k = t
  · exact .inr (.inr (hk ▸ temporary_cons htemp ht))
  · rw [hleft.others k hk]
    refine ((grown_makeParent hm).at? k).imp id fun ⟨hnone, hd, q, hq, hn⟩ => .inl ⟨hnone, hd, q, hq, ?_⟩
    exact hleft.sameWays.names.2 hn

theorem failed_of_dropped (h : Dropped fs s p) : Failed fs s p := by
  refine ⟨h.lstat, ?_⟩
  obtain ⟨temporary, t, d, htemp, ht, hd, rfl⟩ := h
  intro k
  by_cases hk : k = t
  · exact .inr (.inr (hk ▸ temporary_cons htemp ht))
  · rw [FileSystem.at?_drop (by rw [hd]; simp), if_neg hk]
    exact .inl rfl

theorem ends_withTemporary {next : Path → Plan (Except ReplaceFault Unit)} (h : (withTemporary p next).MayEnd fs r s) :
    (∃ fault, r = .error fault) ∧ (makeParent p).MayStop fs s ∨
      ∃ m temporary, (makeParent p).run fs = (.ok (), m) ∧ temporary? p = some temporary ∧
        (next temporary).MayEnd m r s := by
  obtain ⟨a, m, hparent, h⟩ := mayEnd_bind.1 h
  rcases quits_makeParent p fs a m hparent with ⟨⟨_, rfl⟩, hrun⟩ | ⟨⟨fault, rfl⟩, hstop⟩
  · cases ht : temporary? p with
    | none =>
      simp only [ht] at h
      obtain ⟨rfl, rfl⟩ := h
      exact .inl ⟨⟨.noName, rfl⟩, mayStop_of_run hrun⟩
    | some temporary =>
      simp only [ht] at h
      exact .inr ⟨m, temporary, hrun, rfl, h⟩
  · obtain ⟨rfl, rfl⟩ := h
    exact .inl ⟨⟨fault, rfl⟩, hstop⟩

/-- **All or nothing, whatever is refused.** A target that is no link is replaced as if nothing were refused, or it is as it was,
and the next replacement makes up for what is left, unless a device is gone from the temporary path. -/
theorem refused_planTarget (hup : ['.', '.'] ∉ p.names)
    (hlink : ∀ temporary, temporary? p = some temporary → fs.isLink temporary = false)
    (h : (planTarget p content).MayEnd fs r s) : r = .ok () ∧ (planTarget p content).run fs = (.ok (), s) ∨
      (∃ fault, r = .error fault) ∧ Failed fs s p ∧ (Survives fs s p content ∨ Dropped fs s p) := by
  rw [planTarget_eq] at h
  rcases ends_withTemporary h with ⟨hr, hstop⟩ | ⟨m, temporary, hrun, htemp, h⟩
  · exact .inr ⟨hr, failed_of_makeParent hup hstop, .inl (survives_of_makeParent hup hstop)⟩
  have hm := isLink_temporary hup htemp (mayStop_of_run hrun) (hlink temporary htemp)
  rcases ends_fillAndMove h with ⟨rfl, hdone⟩ | ⟨fault, u, a, rfl, hfill, hremove⟩
  · exact .inl ⟨rfl, (run_planTarget_behind hrun htemp).trans hdone⟩
  refine .inr ⟨⟨fault, rfl⟩, ?_⟩
  have hleft := left_of_fill htemp hm hfill
  rcases hremove with hperform | ⟨-, hbreak⟩
  · obtain rfl : s = (u.perform (.remove temporary)).2 := congrArg Prod.snd hperform
    rcases left_or_dropped htemp hm hleft with hs | ⟨t, d, ht, hd, hdrop⟩
    · exact ⟨failed_of_left hup hrun htemp hs, .inl (survives_of_left hup hrun htemp hs)⟩
    · rw [hdrop]
      have hdropped := dropped_of_device hup hrun htemp ht hd
      exact ⟨failed_of_dropped hdropped, .inr hdropped⟩
  · obtain rfl : s = u := hbreak.resolve_right id
    exact ⟨failed_of_left hup hrun htemp hleft, .inl (survives_of_left hup hrun htemp hleft)⟩

/-- **Replacements that are refused.** A replacement any operation of which may be refused succeeds as if none were, or fails with
its target as it was, and the next one ends as if it had not been tried, unless a device is gone from the temporary path. -/
theorem refused_save (hup : ['.', '.'] ∉ p.names) (hcanon : fs.isLink p = true → ∃ q, fs.canonicalPath p = .ok q)
    (hlink : ∀ temporary, temporary? (target fs p) = some temporary → fs.isLink temporary = false)
    (h : (plan p content).MayEnd fs r s) : r = .ok () ∧ Rendering.save p content fs = (.ok (), s) ∨
      (∃ fault, r = .error fault) ∧ Failed fs s (target fs p) ∧
        (Rendering.save p content s = Rendering.save p content fs ∨ Dropped fs s (target fs p)) := by
  obtain ⟨hnoup, -, hsame⟩ := target_of_survives content hup hcanon
  obtain ⟨_, _, ⟨rfl, rfl⟩, h⟩ := mayEnd_bind.1 h
  rcases refused_planTarget hnoup hlink h with ⟨rfl, hrun⟩ | ⟨hr, hfailed, hsurvives | hdropped⟩
  · exact .inl ⟨rfl, by simp only [Rendering.save, run_plan, hrun]; rfl⟩
  · exact .inr ⟨hr, hfailed, .inl (save_of_survives hsurvives (hsame s hsurvives))⟩
  · exact .inr ⟨hr, hfailed, .inr hdropped⟩

/-- a disk that is full behind the first byte of the content: the temporary file is removed, and nothing has changed -/
theorem full_disk_leaves_nothing :
    let fs : FileSystem := (⟨.empty, []⟩ : FileSystem).put ["out".toList] (.file [111])
    (plan "out".toList [120, 121]).MayEnd fs (.error (.flushing (.system .noSpace))) fs := by
  intro fs
  have ht : target fs "out".toList = "out".toList := by decide +kernel
  have htemp : temporary? "out".toList = some ".out.tmp".toList := by decide +kernel
  have hnew : fs.newFile ".out.tmp".toList = .ok ([".out.tmp".toList], true) := by decide +kernel
  let partly := fs.put [".out.tmp".toList] (.file [120])
  have hfill : (fill ".out.tmp".toList [120, 121]).MayEnd fs (.error (.flushing (.system .noSpace))) partly := by
    refine mayEnd_bind.2 ⟨_, _, mayEnd_change.2 (.inl (perform_create hnew).symm), ?_⟩
    refine mayEnd_bind.2 ⟨.error (.system .noSpace), partly, mayEnd_change.2 (.inr ⟨⟨_, rfl, by decide⟩, .inr ⟨1, ?_⟩⟩),
      rfl, rfl⟩
    exact (congrArg Prod.snd (perform_append (admits_of_newFile hnew) [120])).symm
  have hremove : partly.perform (.remove ".out.tmp".toList) = (.ok (), fs) := by
    have htree : (partly.perform (.remove ".out.tmp".toList)).2.tree = fs.tree := by decide +kernel
    exact Prod.ext (by decide +kernel) (FileSystem.ext_at? (by decide +kernel) fun k => by rw [htree])
  refine mayEnd_bind.2 ⟨_, fs, ⟨rfl, rfl⟩, ?_⟩
  show (planTarget (target fs "out".toList) _).MayEnd fs _ fs
  rw [ht, planTarget_eq]
  refine mayEnd_bind.2 ⟨.ok (), fs, Plan.mayEnd_run _ _, ?_⟩
  simp only [htemp]
  refine mayEnd_bind.2 ⟨_, partly, hfill, ?_⟩
  exact mayEnd_bind.2 ⟨_, _, mayEnd_change.2 (.inl hremove.symm), rfl, rfl⟩

end Replacement
end BranchRender
