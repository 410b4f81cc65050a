/-
TOP LEVEL: a run in a repository takes place at the top level git reports, wherever in it the run starts.

- The root of the project is the path git writes, without the blank characters it ends in (`locate_of_reports`): a
  directory whose name ends in a blank one is not the root, but one without it, if there is any.
- Everything but a configuration asked for is seen from that root. So two runs that start in different directories end
  alike, in all they print and all they leave, if git gives the same answers in both (`root_is_top_level`).

Main statements: `locate_of_reports`, `root_is_top_level`.
-/
import BranchRender.Proofs.EndsAlike

namespace BranchRender

namespace Text

/-- an absolute path stays one without the blank characters it ends in -/
theorem isAbsolute_trimEnd {t : Path} (h : t.isAbsolute = true) : Path.isAbsolute (trimEnd t) = true := by
  obtain ⟨r, rfl⟩ := Path.isAbsolute_iff.1 h
  have hcons : trimEnd ('/' :: r) = '/' :: trimEnd r := trimEnd_append_cons (by decide) [] r
  rw [hcons]
  simp [Path.isAbsolute]

/-- a text is its own trimmed form if it does not end in a blank character -/
theorem trimEnd_eq_self_iff {t : Text} : trimEnd t = t ↔ ∀ c, t.getLast? = some c → isBlank c = false := by
  rcases List.eq_nil_or_concat t with rfl | ⟨r, c, rfl⟩
  · simp [trimEnd]
  · rw [List.concat_eq_append, List.getLast?_concat]
    cases hc : isBlank c with
    | false => simp [trimEnd_concat hc, hc]
    | true =>
      refine iff_of_false (fun h => ?_) fun h => absurd (h c rfl) (by simp [hc])
      have hlen := congrArg List.length h
      have hle := (List.dropWhile_suffix isBlank (l := r.reverse)).length_le
      simp [trimEnd, hc] at hlen
      simp at hle
      omega

/-- a line feed behind an absolute path goes, and the blank characters in front of it -/
theorem trim_line {t : Path} (h : t.isAbsolute = true) : trim (t ++ ['\n']) = trimEnd t := by
  obtain ⟨r, rfl⟩ := Path.isAbsolute_iff.1 h
  rw [trim, List.cons_append, trimStart_eq_self (by decide), ← List.cons_append, trimEnd, List.reverse_append]
  rfl

end Text

namespace World

/-- git, run in the directory, answers that the top level is `top` -/
def Reports (w : World) (dir top : Path) : Prop := ∃ reply, w.startGit dir rootQuery = .ok reply ∧
  reply.exit = .code 0 ∧ reply.stdout = Utf8.encode (top ++ ['\n'])

theorem repositoryRoot?_of_reports {w : World} {dir top : Path} (ha : top.isAbsolute = true) (h : w.Reports dir top) :
    w.repositoryRoot? dir = some (Text.trimEnd top) := by
  obtain ⟨reply, hreply, hexit, hout⟩ := h
  have hreadable : readable reply.stdout = Text.trimEnd top := by
    rw [readable, hout, Utf8.decodeLossy_encode, Text.trim_line ha]
  have hne : Text.trimEnd top ≠ [] := FileSystem.ne_nil_of_isAbsolute (Text.isAbsolute_trimEnd ha)
  simp only [repositoryRoot?, runGit_of_reply hreply hexit, hreadable, hne, ite_false]

end World

namespace Program

open FileSystem (Counterparts counterparts_of_isAbsolute samePlace_of_isAbsolute)

variable {w v : World} {p p' : Project} {D : Path}

/-- a project in a repository is at the top level git reports, without the blank characters it ends in -/
theorem locate_of_reports {dir : Option Path} (ha : D.isAbsolute = true) (hp : Project.locate w dir = .ok p)
    (h : w.Reports p.cwd D) : p.inRepository = true ∧ p.root = Text.trimEnd D := by
  obtain ⟨cwd, rfl⟩ : ∃ cwd, p = Project.around w cwd := by
    unfold Project.locate at hp
    split at hp
    · exact absurd hp (by simp)
    · dsimp only at hp
      split at hp
      · exact ⟨_, (Except.ok.inj hp).symm⟩
      · exact absurd hp (by simp)
  have hcwd : (Project.around w cwd).cwd = cwd := by unfold Project.around; split <;> rfl
  rw [hcwd] at h
  rw [Project.around_repository (World.repositoryRoot?_of_reports ha h)]
  exact ⟨rfl, rfl⟩

theorem discover_none_of_isAbsolute {fs s : FileSystem} {root : Path} (ht : fs.tree = s.tree)
    (ha : root.isAbsolute = true) : Config.discover fs root none = Config.discover s root none := by
  have hplace := samePlace_of_isAbsolute (p := root.join Config.fileName) ht (FileSystem.isAbsolute_join ha)
  simp only [Config.discover, Config.load, hplace.isFile, hplace.readText]

/-- **The root is the top level.** In a repository the root is what git reports, without the blank characters it ends in. A run
without a configuration of its own is the same from wherever git gives the same answers. -/
theorem root_is_top_level {args args' : List Text} {line line' : CommandLine} (hline : CommandLine.parse args = .ok line)
    (hline' : CommandLine.parse args' = .ok line') (hp : Project.locate w line.dir = .ok p)
    (hp' : Project.locate v line'.dir = .ok p') (ha : D.isAbsolute = true) (hr : w.Reports p.cwd D)
    (hr' : v.Reports p'.cwd D) :
    (p.inRepository = true ∧ p.root = Text.trimEnd D ∧
      (p.root = D ↔ ∀ c, D.getLast? = some c → Text.isBlank c = false) ∧ (∀ q, p.path q = Path.join (Text.trimEnd D) q) ∧
      setUp w line = (Config.discover w.files (Text.trimEnd D) (line.config.map p.fromCwd)).map fun c => (p, c)) ∧
    (w.files.tree = v.files.tree → (∀ question, w.runGit p.cwd question = v.runGit p'.cwd question) →
      line.config = none → line'.config = none → line.command = line'.command →
      (main args w).1 = (main args' v).1 ∧ (main args w).2.tree = (main args' v).2.tree) := by
  obtain ⟨hin, hroot⟩ := locate_of_reports ha hp hr
  obtain ⟨hin', hroot'⟩ := locate_of_reports ha hp' hr'
  refine ⟨⟨hin, hroot, ?_, ?_, ?_⟩, ?_⟩
  · rw [hroot]
    exact Text.trimEnd_eq_self_iff
  · intro q
    rw [Project.path, hroot]
  · rw [setUp_of_locate hp, hroot]
  · intro htree hgit hconfig hconfig' hcommand
    have hroots : p.root = p'.root := hroot.trans hroot'.symm
    have habs : p.root.isAbsolute = true := hroot ▸ Text.isAbsolute_trimEnd ha
    have hcounterparts : ∀ q, Counterparts w.files v.files (p.path q) (p'.path q) := fun q => by
      rw [Project.path, Project.path, ← hroots]
      exact counterparts_of_isAbsolute htree (FileSystem.isAbsolute_join habs)
    have hsettings : Settings w v p p' := ⟨htree, hin.trans hin'.symm, by simp only [World.branch, hgit]⟩
    have hdiscover : Config.discover w.files p.root (line.config.map p.fromCwd) =
        Config.discover v.files p'.root (line'.config.map p'.fromCwd) := by
      rw [hconfig, hconfig', ← hroots]
      exact discover_none_of_isAbsolute htree habs
    obtain ⟨hanswer, hfiles⟩ := run_alike hsettings id hp hp' hcommand.symm (hdiscover ▸ .same)
      (fun _ c _ _ _ => hcounterparts c.template)
      (fun o c _ _ _ _ =>
        ⟨hcounterparts _, hcounterparts _, fun _ _ => .inl (by rw [Project.path, Project.path, hroots])⟩)
    simp only [main, hline, hline', hanswer.eq hroots, hfiles, and_self]

/-- a git that knows one top level, whose name ends in a space -/
def blankTop : Git :=
  .ofRules [⟨World.rootQuery, none, { stdout := Utf8.encode "/repo \n".toList }⟩]

/-- a repository whose name ends in a space, and a directory in it, seen from `cwd` -/
def blankRepository (cwd : Location) : World where
  files := ⟨(FileTree.empty.insert ["repo ".toList] .directory).insert ["sub".toList, "repo ".toList] .directory, cwd⟩
  git := blankTop

/-- **A blank is lost.** The root is another directory than the top level, from the top level as from the directory in it. -/
theorem blank_top_level_is_lost :
    let w := blankRepository ["repo ".toList]
    let v := blankRepository ["sub".toList, "repo ".toList]
    let p : Project := ⟨"/repo ".toList, "/repo".toList, true⟩
    let args := ["resolve".toList]
    Project.locate w none = .ok p ∧ w.Reports p.cwd "/repo ".toList ∧ p.root ≠ "/repo ".toList ∧
      (main args w).1 = (main args v).1 ∧ (main args w).2.tree = (main args v).2.tree := by
  intro w v p args
  have hline : CommandLine.parse args = .ok { command := some (.resolve false) } := by decide +kernel
  have hp : Project.locate w none = .ok p := by decide +kernel
  have hp' : Project.locate v none = .ok ⟨"/repo /sub".toList, "/repo".toList, true⟩ := by decide +kernel
  have hr : w.Reports "/repo ".toList "/repo ".toList := ⟨{ stdout := Utf8.encode "/repo \n".toList }, by decide +kernel⟩
  have hr' : v.Reports "/repo /sub".toList "/repo ".toList :=
    ⟨{ stdout := Utf8.encode "/repo \n".toList }, by decide +kernel⟩
  have hgit : ∀ question, w.runGit "/repo ".toList question = v.runGit "/repo /sub".toList question := by
    intro question
    have hfind : w.files.find .target "/repo ".toList = .ok (["repo ".toList], .directory) := by decide +kernel
    have hfind' : v.files.find .target "/repo /sub".toList = .ok (["sub".toList, "repo ".toList], .directory) := by
      decide +kernel
    have hnul : '\x00' ∉ "/repo ".toList ∧ '\x00' ∉ "/repo /sub".toList := by decide
    simp only [World.runGit, World.startGit, hnul, false_or, hfind, hfind']
    rfl
  obtain ⟨⟨-, -, hroot, -⟩, hsame⟩ := root_is_top_level (D := "/repo ".toList) hline hline hp hp' rfl hr hr'
  exact ⟨hp, hr, fun he => absurd (hroot.1 he ' ' rfl) (by decide), hsame rfl hgit rfl rfl rfl⟩

end Program
end BranchRender
