/-
ELSEWHERE: a run in another directory is a run that starts there.

- The directory a command line asks for is spelled from where the run starts: along links, through `.` and `..`. A run
  that starts there knows it by its canonical path. Both paths lead there, and have that canonical path
  (`oneDirectory_of_canonical`).
- Git answers the same in both, so either both runs take place at the same top level, or each at its own spelling of the
  directory. Template, output and configuration then have counterparts (`Apart.counterparts`, `Apart.discover_sameEnd`).
- While no limit of the system is met (`WithinLimits`), and template and output spell no `.` or `..`, the two runs end
  alike (`run_in_directory`). What they print when they fail may spell paths differently.
- A configuration asked for is read from that directory, in both runs.

Main statements: `oneDirectory_of_canonical`, `run_in_directory`.
-/
import BranchRender.Proofs.DirectoryInFront
import BranchRender.Proofs.Endings
import BranchRender.Proofs.EndsAlike
import BranchRender.Proofs.Repetition

namespace BranchRender

/-! ## One directory -/

/-- a path that spells no `.` or `..` -/
def Path.Undotted (p : Path) : Prop := ∀ n ∈ names p, isDots n = false

instance (p : Path) : Decidable p.Undotted := by unfold Path.Undotted; infer_instance

def FileSystem.seenFrom (fs : FileSystem) (dir : Location) : FileSystem := { fs with cwd := dir }

/-- the world, for a run that starts in another directory -/
def World.startingIn (w : World) (dir : Location) : World := { w with files := w.files.seenFrom dir }

namespace FileSystem

open FileTree (Front maxLinks maxName maxPath)

variable {fs : FileSystem} {d : Path} {dir : Location}

/-- a path that leads to a directory leads to the one whose canonical path it has -/
theorem leads_of_canonical (ha : d.isAbsolute = true) (hdir : fs.isDirectory d = true) (hc : fs.canonical d = .ok dir) :
    fs.Leads d dir := by
  obtain ⟨k, hl⟩ := isDirectory_iff_leads.1 hdir
  obtain ⟨-, hcanonical⟩ := (canonical_eq_ok_of_isAbsolute ha).1 hc
  obtain ⟨start, n, hs, hp⟩ := hl
  obtain rfl : start = [] := by rw [start_of_boundedStart hs, if_pos ha]
  obtain rfl := FileTree.canonical_eq_of_walk hcanonical (FileTree.walk_target_of_passes hp _)
  exact ⟨[], n, hs, hp⟩

theorem Leads.front (h : fs.Leads d dir) (ha : d.isAbsolute = true) : Front fs.tree d.names dir := by
  obtain ⟨start, n, hs, hp⟩ := h
  obtain rfl : start = [] := by rw [start_of_boundedStart hs, if_pos ha]
  exact ⟨⟨n, hp⟩, fun x hx hx' => (boundedStart_eq_ok.1 hs).1 (Path.nul_mem_iff.2 ⟨x, hx, hx'⟩)⟩

/-- the canonical path of a directory leads there, and is its own canonical path -/
theorem leads_path (fs : FileSystem) (hdir : fs.tree.at? dir = some .directory) (hfit : ∀ x ∈ dir, Text.size x ≤ maxName)
    (hnul : fs.NulFree) (hsize : dir.path.size < maxPath) :
    fs.Leads dir.path dir ∧ fs.canonical dir.path = .ok dir := by
  have hthere : fs.tree.at? dir ≠ none := by rw [hdir]; simp
  have hname := FileTree.isName_of_at? hthere
  have hnames := Path.names_path hname
  have ha := Location.isAbsolute_path dir
  have hnulPath : '\x00' ∉ dir.path := by
    rw [Path.nul_mem_iff, hnames]
    rintro ⟨x, hx, h⟩
    exact nulFree_iff.1 hnul dir hthere x (List.mem_reverse.1 hx) h
  constructor
  · refine ⟨[], maxLinks, boundedStart_eq_ok.2 ⟨hnulPath, ne_nil_of_isAbsolute ha, hsize, (if_pos ha).symm⟩, ?_⟩
    rw [hnames]
    exact FileTree.passes_reverse maxLinks hdir hfit
  · refine (canonical_eq_ok_of_isAbsolute ha).2 ⟨hnulPath, ?_⟩
    have hcanonical := FileTree.canonical_reverse maxLinks hdir hfit hsize
    cases dir with
    | nil => exact FileTree.canonical_nil _ _ _ _
    | cons name rest => rwa [hnames, Path.endsInSlash_path (hname name List.mem_cons_self)]

/-- the path of a directory and its canonical path lead there, and have that canonical path -/
theorem oneDirectory_of_canonical (ha : d.isAbsolute = true) (hdir : fs.isDirectory d = true)
    (hc : fs.canonical d = .ok dir) (hnul : fs.NulFree) :
    OneDirectory fs (fs.seenFrom dir) d dir.path dir ∧ fs.Leads d dir ∧ (fs.seenFrom dir).Leads dir.path dir := by
  have hleads := leads_of_canonical ha hdir hc
  have hfront := hleads.front ha
  obtain ⟨n, hp⟩ := hfront.passes
  obtain ⟨-, hcanonical⟩ := (canonical_eq_ok_of_isAbsolute ha).1 hc
  have hsize : dir.path.size < maxPath := FileTree.size_path_of_canonical (by decide) hcanonical
  obtain ⟨hleads', hc'⟩ := leads_path (fs.seenFrom dir) (hp.at? (FileTree.at?_root _)) (hp.fits (by simp)) hnul hsize
  have habs := Location.isAbsolute_path dir
  exact ⟨⟨rfl, ⟨ha, habs⟩, ⟨hfront, hleads'.front habs⟩, hc, hc'⟩, hleads, hleads'⟩

end FileSystem

namespace Program

open FileSystem (Counterparts OneDirectory)

variable {w : World} {here d : Path} {dir : Location} {line : CommandLine} {p : Project} {c : Config}

/-! ## Limits -/

/-- the path of the configuration a request goes by, if there is one -/
def configPath (p : Project) (line : CommandLine) : Path := p.root.join ((line.config.map p.fromCwd).getD Config.fileName)

/-- the run of a request meets no limit of the system in the paths it looks up -/
structure WithinLimits (w : World) (line : CommandLine) : Prop where
  config : ∀ p, Project.locate w line.dir = .ok p → w.files.Within (configPath p line)
  report : ∀ p c json, setUp w line = .ok (p, c) → line.command = some (.resolve json) →
    w.files.Within (p.path c.template)
  render : ∀ p c o, Asks w line p c o → c.violation? = none →
    w.files.Within (p.path c.template) ∧ w.files.Within (p.path c.output) ∧
      (Places w p c o.stdout → Replacement.Clear w.files (p.path c.output))

/-- a request without a command meets no limit if its template is found within them, and its output written -/
theorem withinLimits_of_setUp (hcommand : line.command = none) (hs : setUp w line = .ok (p, c))
    (hp : Project.locate w line.dir = .ok p) (hconfig : w.files.Within (configPath p line))
    (ht : w.files.Within (p.path c.template)) (ho : Replacement.Clear w.files (p.path c.output)) :
    WithinLimits w line := by
  refine ⟨?_, ?_, ?_⟩
  · intro q hq
    obtain rfl : p = q := Except.ok.inj (hp.symm.trans hq)
    exact hconfig
  · intro q c json _ hjson
    rw [hcommand] at hjson
    exact absurd hjson (by simp)
  · rintro q _ o ⟨hrender, c', hs', rfl⟩ -
    obtain ⟨rfl, rfl⟩ : p = q ∧ c = c' := by simpa using hs.symm.trans hs'
    obtain rfl : {} = o := by simpa [hcommand] using hrender
    exact ⟨ht, ho.within, fun _ => ho⟩

/-- template and output, as configured and as given, spell no `.` or `..` -/
structure Undotted (w : World) (line : CommandLine) : Prop where
  configured : ∀ p c, setUp w line = .ok (p, c) → Path.Undotted c.template ∧ Path.Undotted c.output
  given : ∀ o, line.command = some (.render o) →
    (∀ t ∈ o.template, Path.Undotted t) ∧ ∀ t ∈ o.output, Path.Undotted t

/-! ## Two projects of one directory -/

variable {v : World} {p' : Project}

/-- a project in the directory `d`, and the project of a run that starts there: at one top level, or each at the directory
as it spells it -/
structure Apart (w v : World) (p p' : Project) (d : Path) (dir : Location) : Prop where
  settings : Settings w v p p'
  one : OneDirectory w.files v.files d dir.path dir
  cwds : p.cwd = d ∧ p'.cwd = dir.path
  roots : p.root = p'.root ∧ p.root.isAbsolute = true ∨ p.root = d ∧ p'.root = dir.path

theorem cwd_around (w : World) (cwd : Path) : (Project.around w cwd).cwd = cwd := by
  unfold Project.around
  split <;> rfl

/-- git answers the same by two paths that lead to one directory -/
theorem runGit_of_leads {e : Path} (hgit : w.git = v.git) (h : w.files.Leads d dir) (h' : v.files.Leads e dir)
    (question : List Text) : w.runGit d question = v.runGit e question := by
  have hnul : ∀ {fs : FileSystem} {q : Path}, fs.Leads q dir → '\x00' ∉ q := by
    rintro fs q ⟨start, n, hs, -⟩
    exact (FileSystem.boundedStart_eq_ok.1 hs).1
  have hstart : w.startGit d question = v.startGit e question := by
    simp only [World.startGit, hnul h, hnul h', false_or, FileSystem.leads_iff.1 h, FileSystem.leads_iff.1 h', hgit]
  simp only [World.runGit, hstart]

theorem apart_startingIn (hone : OneDirectory w.files (w.startingIn dir).files d dir.path dir) (h : w.files.Leads d dir)
    (h' : (w.startingIn dir).files.Leads dir.path dir)
    (habs : ∀ root, w.repositoryRoot? d = some root → root.isAbsolute = true) :
    Apart w (w.startingIn dir) (Project.around w d) (Project.around (w.startingIn dir) dir.path) d dir := by
  have hgit := runGit_of_leads (w := w) (v := w.startingIn dir) rfl h h'
  have hroot : w.repositoryRoot? d = (w.startingIn dir).repositoryRoot? dir.path := by
    simp only [World.repositoryRoot?, hgit]
  have hbranch : w.branch d = (w.startingIn dir).branch dir.path := by simp only [World.branch, hgit]
  refine ⟨⟨rfl, ?_, by rwa [cwd_around, cwd_around]⟩, hone, ⟨cwd_around _ _, cwd_around _ _⟩, ?_⟩
  · simp only [Project.around, ← hroot]
    cases w.repositoryRoot? d <;> rfl
  · simp only [Project.around, ← hroot]
    cases hr : w.repositoryRoot? d with
    | none => exact .inr ⟨rfl, rfl⟩
    | some root => exact .inl ⟨rfl, habs root hr⟩

/-- a path without `.` and `..` has counterparts in both projects -/
theorem Apart.counterparts (h : Apart w v p p' d dir) {t : Path} (hne : t ≠ []) (ht : t.Undotted)
    (hw : w.files.Within (p.path t)) (hw' : v.files.Within (p'.path t)) :
    Counterparts w.files v.files (p.path t) (p'.path t) := by
  unfold Project.path at hw hw' ⊢
  rcases h.roots with ⟨hroots, habs⟩ | ⟨hp, hp'⟩
  · rw [← hroots]
    exact FileSystem.counterparts_of_isAbsolute h.one.tree (FileSystem.isAbsolute_join habs)
  · rw [hp] at hw ⊢
    rw [hp'] at hw' ⊢
    exact h.one.counterparts hne ht hw hw'

/-- a text is read alike from both directories, however it is spelled behind them -/
theorem Apart.readText (h : Apart w v p p' d dir) {f : Path} (hw : w.files.Within (p.fromCwd f))
    (hw' : v.files.Within (p'.fromCwd f)) : w.files.readText (p.fromCwd f) = v.files.readText (p'.fromCwd f) := by
  unfold Project.fromCwd at hw hw' ⊢
  rw [h.cwds.1] at hw ⊢
  rw [h.cwds.2] at hw' ⊢
  have hlocate : w.files.locate .target (d.join f) = v.files.locate .target (dir.path.join f) := by
    cases habs : f.isAbsolute with
    | true =>
      rw [Path.join_absolute habs, Path.join_absolute habs]
      exact FileSystem.locate_of_isAbsolute h.one.tree habs _
    | false =>
      exact (FileSystem.behind_join h.one.absolute h.one.fronts.1 h.one.fronts.2 habs).locate h.one.tree hw hw' (.inr rfl)
  simp only [FileSystem.readText, FileSystem.read, FileSystem.stat, FileSystem.find, hlocate]

theorem load_sameEnd {fs s : FileSystem} {q q' : Path} (h : fs.readText q = s.readText q') :
    SameEnd (q = q') (Config.load fs q) (Config.load s q') := by
  simp only [Config.load, h]
  split
  · exact .failed rfl fun hq => by rw [hq]
  · exact .same

/-- a configuration that is asked for is looked for in the directory of the run -/
theorem configPath_of_config (h : p.cwd.isAbsolute = true) {f : Path} (hf : line.config = some f) :
    configPath p line = p.cwd.join f := by
  simp only [configPath, hf, Option.map_some, Option.getD_some, Project.fromCwd]
  exact Path.join_absolute (FileSystem.isAbsolute_join h)

theorem Apart.absolute (h : Apart w v p p' d dir) : p.cwd.isAbsolute = true ∧ p'.cwd.isAbsolute = true := by
  rw [h.cwds.1, h.cwds.2]
  exact h.one.absolute

/-- both find one configuration, or none for the same reason -/
theorem Apart.discover_sameEnd (h : Apart w v p p' d dir) {line' : CommandLine} (hline : line'.config = line.config)
    (hw : w.files.Within (configPath p line)) (hw' : v.files.Within (configPath p' line')) :
    SameEnd False (Config.discover w.files p.root (line.config.map p.fromCwd))
      (Config.discover v.files p'.root (line'.config.map p'.fromCwd)) := by
  cases hf : line.config with
  | some f =>
    rw [configPath_of_config h.absolute.1 hf] at hw
    rw [configPath_of_config h.absolute.2 (hline.trans hf)] at hw'
    have hread := h.readText hw hw'
    rw [hline, hf]
    simp only [Config.discover, Option.map_some]
    refine (load_sameEnd ?_).mono False.elim
    unfold Project.fromCwd at hread ⊢
    rwa [Path.join_absolute (FileSystem.isAbsolute_join h.absolute.1),
      Path.join_absolute (FileSystem.isAbsolute_join h.absolute.2)]
  | none =>
    have hpath : configPath p line = p.path Config.fileName := by simp [configPath, hf, Project.path]
    have hpath' : configPath p' line' = p'.path Config.fileName := by simp [configPath, hline, hf, Project.path]
    rw [hpath] at hw
    rw [hpath'] at hw'
    have hcounterparts := h.counterparts (t := Config.fileName) (by decide) (by decide) hw hw'
    have hplace := hcounterparts.twin.samePlace hcounterparts.tree hcounterparts.fair
    rw [hline, hf]
    simp only [Config.discover, Option.map_none]
    have hfile := hplace.isFile
    unfold Project.path at hfile hplace
    rw [hfile]
    split
    · exact (load_sameEnd hplace.readText).mono False.elim
    · exact .same

/-! ## Requests -/

theorem ne_nil_of_valid (h : c.violation? = none) : c.template ≠ [] ∧ c.output ≠ [] := by
  have hvalid := Config.violation?_eq_none_iff.1 h
  constructor
  · intro he
    exact hvalid.template (by rw [he]; rfl)
  · intro he
    exact hvalid.output (by rw [he]; rfl)

theorem Undotted.override (h : Undotted w line) {o : RenderOptions} (hs : setUp w line = .ok (p, c))
    (ho : line.command.getD (.render {}) = .render o) :
    Path.Undotted (override c o).template ∧ Path.Undotted (override c o).output := by
  obtain ⟨ht, hout⟩ := h.configured p c hs
  cases hcommand : line.command with
  | none =>
    obtain rfl : {} = o := by simpa [hcommand] using ho
    exact ⟨ht, hout⟩
  | some command =>
    obtain rfl : command = .render o := by simpa [hcommand] using ho
    obtain ⟨hgt, hgo⟩ := h.given o hcommand
    constructor
    · cases hot : o.template with
      | none => simpa [Program.override, hot] using ht
      | some t => simpa [Program.override, hot] using hgt t hot
    · cases hoo : o.output with
      | none => simpa [Program.override, hoo] using hout
      | some t => simpa [Program.override, hoo] using hgo t hoo

/-- two requests for the same end alike in two projects of one directory -/
theorem Apart.run_alike (h : Apart w v p p' d dir) {line' : CommandLine} (hp : Project.locate w line.dir = .ok p)
    (hp' : Project.locate v line'.dir = .ok p') (hcommand : line'.command = line.command)
    (hconfig : line'.config = line.config) (hdots : Undotted w line) (hw : WithinLimits w line)
    (hw' : WithinLimits v line') : RunsAlike (SameEnd False) (run w line) (run v line') := by
  refine Program.run_alike h.settings False.elim hp hp' hcommand
    (h.discover_sameEnd hconfig (hw.config p hp) (hw'.config p' hp')) ?_ ?_
  · intro json c hjson hs hs'
    exact h.counterparts (ne_nil_of_valid (violation?_of_setUp hs)).1 (hdots.configured p c hs).1
      (hw.report p c json hs hjson) (hw'.report p' c json hs' (hcommand ▸ hjson))
  · intro o c ho hs hs' hv
    obtain ⟨hdt, hdo⟩ := hdots.override hs ho
    obtain ⟨hwt, hwo, hclear⟩ := hw.render p _ o ⟨ho, c, hs, rfl⟩ hv
    obtain ⟨hwt', hwo', hclear'⟩ := hw'.render p' _ o ⟨hcommand ▸ ho, c, hs', rfl⟩ hv
    exact ⟨h.counterparts (ne_nil_of_valid hv).1 hdt hwt hwt', h.counterparts (ne_nil_of_valid hv).2 hdo hwo hwo',
      fun hplaces hplaces' => .inr ⟨hclear hplaces, hclear' hplaces'⟩⟩

/-! ## Runs -/

theorem isAbsolute_of_workingDirectory {fs : FileSystem} (h : fs.workingDirectory = .ok here) :
    here.isAbsolute = true := by
  unfold FileSystem.workingDirectory at h
  split at h
  · exact Except.ok.inj h ▸ Location.isAbsolute_path _
  · exact absurd h (by simp)

theorem locate_dir (hhere : w.files.workingDirectory = .ok here) (hdir : w.files.isDirectory (here.join d) = true) :
    Project.locate w (some d) = .ok (Project.around w (here.join d)) := by
  simp [Project.locate, hhere, hdir]

theorem locate_startingIn (h : (w.startingIn dir).files.Leads dir.path dir) :
    Project.locate (w.startingIn dir) none = .ok (Project.around (w.startingIn dir) dir.path) := by
  have hthere : (w.startingIn dir).files.tree.at? dir = some .directory := by
    obtain ⟨n, hp⟩ := (h.front (Location.isAbsolute_path dir)).passes
    exact hp.at? (FileTree.at?_root _)
  have hhere : (w.startingIn dir).files.workingDirectory = .ok dir.path := if_pos hthere
  have hdir : (w.startingIn dir).files.isDirectory dir.path = true := FileSystem.isDirectory_iff_leads.2 ⟨dir, h⟩
  simp [Project.locate, hhere, hdir]

/-- a request with a configuration reads it from the directory of the run -/
theorem setUp_of_config (hp : Project.locate w line.dir = .ok p) (ha : p.cwd.isAbsolute = true) {f : Path}
    (hf : line.config = some f) : setUp w line = (Config.load w.files (p.cwd.join f)).map fun c => (p, c) := by
  simp only [setUp_of_locate hp, hf, Option.map_some, Config.discover, Project.fromCwd,
    Path.join_absolute (FileSystem.isAbsolute_join ha)]

/-- **Run from elsewhere.** A run in a directory ends as a run that starts there, with one exit, one output and one file
system, whatever is asked for. A configuration that is asked for is read from that directory. -/
theorem run_in_directory {args : List Text} (hhere : w.files.workingDirectory = .ok here) (hd : d ≠ [])
    (hdash : d.head? ≠ some '-') (hargs : ∀ a ∈ args, ¬ CommandLine.GivesDir a)
    (hdir : w.files.isDirectory (here.join d) = true) (hc : w.files.canonical (here.join d) = .ok dir)
    (hnul : w.files.NulFree) (hgit : ∀ root, w.repositoryRoot? (here.join d) = some root → root.isAbsolute = true)
    (hplain : ∀ line, CommandLine.parse args = .ok line → Undotted w (line.inDir d))
    (hlimits : ∀ line, CommandLine.parse args = .ok line →
      WithinLimits w (line.inDir d) ∧ WithinLimits (w.startingIn dir) line) :
    ((main ("-C".toList :: d :: args) w).1.exit = (main args (w.startingIn dir)).1.exit ∧
      (main ("-C".toList :: d :: args) w).1.stdout = (main args (w.startingIn dir)).1.stdout ∧
      (main ("-C".toList :: d :: args) w).2.tree = (main args (w.startingIn dir)).2.tree) ∧
    ∀ line f, CommandLine.parse args = .ok line → line.config = some f →
      setUp w (line.inDir d) = (Config.load w.files ((here.join d).join f)).map
        (fun c => (Project.around w (here.join d), c)) ∧
      setUp (w.startingIn dir) line = (Config.load (w.startingIn dir).files (dir.path.join f)).map
        (fun c => (Project.around (w.startingIn dir) dir.path, c)) := by
  have ha : (here.join d).isAbsolute = true := FileSystem.isAbsolute_join (isAbsolute_of_workingDirectory hhere)
  obtain ⟨hone, hleads, hleads'⟩ := FileSystem.oneDirectory_of_canonical ha hdir hc hnul
  have hapart := apart_startingIn (w := w) hone hleads hleads' hgit
  have hp : ∀ line : CommandLine, Project.locate w (line.inDir d).dir = .ok (Project.around w (here.join d)) :=
    fun _ => locate_dir hhere hdir
  have hp' : ∀ line, CommandLine.parse args = .ok line →
      Project.locate (w.startingIn dir) line.dir = .ok (Project.around (w.startingIn dir) dir.path) := by
    intro line hline
    rw [CommandLine.dir_of_parse hargs hline]
    exact locate_startingIn hleads'
  constructor
  · cases hline : CommandLine.parse args with
    | error r =>
      have hline' : CommandLine.parse ("-C".toList :: d :: args) = .error r := by
        rw [CommandLine.parse_directory_in_front hd hdash hargs, hline]
        rfl
      rw [main, main, hline, hline']
      exact ⟨rfl, rfl, rfl⟩
    | ok line =>
      have hline' : CommandLine.parse ("-C".toList :: d :: args) = .ok (line.inDir d) := by
        rw [CommandLine.parse_directory_in_front hd hdash hargs, hline]
        rfl
      obtain ⟨hw, hw'⟩ := hlimits line hline
      have halike := hapart.run_alike (hp line) (hp' line hline) rfl rfl (hplain line hline) hw hw'
      obtain ⟨hexit, hout⟩ := halike.answer.outcome
      simp only [main, hline, hline']
      exact ⟨hexit, hout, halike.tree⟩
  · intro line f hline hf
    have hconfig := setUp_of_config (hp line) hapart.absolute.1 hf
    have hconfig' := setUp_of_config (hp' line hline) hapart.absolute.2 hf
    rw [cwd_around] at hconfig hconfig'
    exact ⟨hconfig, hconfig'⟩

/-- a directory with a template and a configuration, and a link to it -/
def linkedDirectory : World where
  files := ⟨(((FileTree.empty.insert ["sub".toList] .directory).insert ["l".toList] (.link "sub".toList)).insert
    ["t".toList, "sub".toList] (.file (Utf8.encode "ns: {namespace}\n".toList))).insert
    ["c.yaml".toList, "sub".toList] (.file (Utf8.encode "template: t\noutput: o\n".toList)), []⟩
  git := none

/-- a run along the link, with a configuration of that directory, renders as a run in the directory -/
theorem along_link_as_there :
    let w := linkedDirectory
    let dir : Location := ["sub".toList]
    let args := ["--config".toList, "c.yaml".toList]
    (main ("-C".toList :: "l".toList :: args) w).1.exit = (main args (w.startingIn dir)).1.exit ∧
      (main ("-C".toList :: "l".toList :: args) w).1.stdout = (main args (w.startingIn dir)).1.stdout ∧
      (main ("-C".toList :: "l".toList :: args) w).2.tree = (main args (w.startingIn dir)).2.tree ∧
      (main args (w.startingIn dir)).1.exit = 0 ∧ (main args (w.startingIn dir)).2.isFile "/sub/o".toList = true := by
  intro w dir args
  let c : Config := { template := "t".toList, output := "o".toList }
  have hline : CommandLine.parse args = .ok { config := some "c.yaml".toList } := by decide +kernel
  have hs : setUp w { dir := some "l".toList, config := some "c.yaml".toList } =
      .ok (⟨"/l".toList, "/l".toList, false⟩, c) := by decide +kernel
  have hs' : setUp (w.startingIn dir) { config := some "c.yaml".toList } =
      .ok (⟨"/sub".toList, "/sub".toList, false⟩, c) := by decide +kernel
  have hplain : ∀ line, CommandLine.parse args = .ok line → Undotted w (line.inDir "l".toList) := by
    intro line hl
    obtain rfl := Except.ok.inj (hline.symm.trans hl)
    refine ⟨fun q c' hq => ?_, fun o ho => absurd ho (by simp [CommandLine.inDir])⟩
    obtain ⟨-, rfl⟩ : _ ∧ c = c' := by simpa using hs.symm.trans hq
    decide
  have hlimits : ∀ line, CommandLine.parse args = .ok line →
      WithinLimits w (line.inDir "l".toList) ∧ WithinLimits (w.startingIn dir) line := by
    intro line hl
    obtain rfl := Except.ok.inj (hline.symm.trans hl)
    exact ⟨withinLimits_of_setUp rfl hs (by decide +kernel) (by decide +kernel) (by decide +kernel) (by decide +kernel),
      withinLimits_of_setUp rfl hs' (by decide +kernel) (by decide +kernel) (by decide +kernel) (by decide +kernel)⟩
  have hgit : ∀ root, w.repositoryRoot? (Path.join "/".toList "l".toList) = some root → root.isAbsolute = true := by
    have hnone : w.repositoryRoot? (Path.join "/".toList "l".toList) = none := by decide +kernel
    exact fun root hr => absurd (hnone.symm.trans hr) (by simp)
  have hhere : w.files.workingDirectory = .ok "/".toList := by decide +kernel
  have hc : w.files.canonical (Path.join "/".toList "l".toList) = .ok dir := by decide +kernel
  have hargs : ∀ a ∈ args, ¬ CommandLine.GivesDir a := by decide
  obtain ⟨⟨hexit, hout, htree⟩, -⟩ := run_in_directory hhere (by decide) (by decide) hargs (by decide +kernel) hc
    (by decide +kernel) hgit hplain hlimits
  exact ⟨hexit, hout, htree, by decide +kernel, by decide +kernel⟩

end Program
end BranchRender
