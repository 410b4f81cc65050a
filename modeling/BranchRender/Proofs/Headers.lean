/-
HEADERS: when the comment in front of a document is one closed line.

- The header quotes the path of the template and the build command as they are. No rule of a configuration looks into
  the command, and the path only has to be there and to be another than the output (`violation?_header_iff`).
- A line feed of the header before its end is one of the path or of the command. What closes a markup comment cannot
  reach over the edge of either (`onlyBefore_append_cons`): it stands in the header before its end if and only if it
  stands in one of the two.
- What stands behind the first line of a document is the filled template if and only if the header is one line
  (`behindLine_append_iff`).

Main statements: `oneLine_line_iff`, `closesAtEnd_line_iff`, `document_sealed_iff`.
-/
import Mathlib.Data.List.Infix
import BranchRender.Proofs.LineByLine
import BranchRender.Proofs.Renders

namespace BranchRender

namespace Text

variable {x : Char} {a b part last : Text}

/-! ## Occurrences -/

/-- `part` stands in `t` only before `last`, with which `t` ends then -/
def OnlyBefore (part last t : Text) : Prop := ∀ before after, t = before ++ part ++ after → after = last

theorem split_of_not_mem {before after : Text} (hx : x ∉ part) (h : a ++ x :: b = before ++ part ++ after) :
    (∃ m, a = before ++ part ++ m ∧ after = m ++ x :: b) ∨ ∃ m, before = a ++ x :: m ∧ b = m ++ part ++ after := by
  rcases List.append_eq_append_iff.1 h with ⟨m, hm, hb⟩ | ⟨m, ha, hafter⟩
  · cases m with
    | nil =>
      rw [List.append_nil] at hm
      exact .inl ⟨[], by rw [List.append_nil, hm], hb.symm⟩
    | cons y m =>
      obtain ⟨rfl, rfl⟩ := List.cons.inj hb
      rcases List.append_eq_append_iff.1 hm with ⟨k, -, hpart⟩ | ⟨k, hbefore, hk⟩
      · exact absurd (hpart ▸ List.mem_append_right k List.mem_cons_self) hx
      · cases k with
        | nil =>
          rw [List.nil_append] at hk
          exact absurd (hk ▸ List.mem_cons_self) hx
        | cons z k =>
          obtain ⟨rfl, rfl⟩ := List.cons.inj hk
          exact .inr ⟨k, hbefore, rfl⟩
  · exact .inl ⟨m, ha, hafter⟩

/-- where neither has an `x`, what stands before an `x` is looked at on its own -/
theorem onlyBefore_append_cons (hpart : x ∉ part) (hlast : x ∉ last) :
    OnlyBefore part last (a ++ x :: b) ↔ ¬ part <:+: a ∧ OnlyBefore part last b := by
  constructor
  · intro h
    constructor
    · rintro ⟨before, m, rfl⟩
      have hafter := h before (m ++ x :: b) (by simp)
      exact hlast (by simp [← hafter])
    · intro before after hb
      exact h (a ++ x :: before) after (by simp [hb])
  · rintro ⟨ha, hb⟩ before after h
    rcases split_of_not_mem hpart h with ⟨m, rfl, -⟩ | ⟨m, -, hm⟩
    · exact absurd ⟨before, m, rfl⟩ ha
    · exact hb m after hm

/-! ## First lines -/

/-- what stands behind the first line -/
def behindLine (t : Text) : Text := (t.dropWhile (· != '\n')).tail

theorem behindLine_append {u : Text} (hu : '\n' ∉ u) (t : Text) : behindLine (u ++ '\n' :: t) = t := by
  have hall : ∀ c ∈ u, (c != '\n') = true := by
    intro c hc
    simpa using fun he : c = '\n' => hu (he ▸ hc)
  rw [behindLine, List.dropWhile_append_of_pos hall]
  rfl

/-- `t` is one line, with its line feed -/
def OneLine (t : Text) : Prop := ∃ u, t = u ++ ['\n'] ∧ '\n' ∉ u

theorem oneLine_concat_iff : OneLine (a ++ ['\n']) ↔ '\n' ∉ a := by
  constructor
  · rintro ⟨u, he, hu⟩
    rwa [List.append_cancel_right he]
  · intro ha
    exact ⟨a, rfl, ha⟩

/-- what follows a text that ends in a line feed is behind the first line if and only if that text is one -/
theorem behindLine_append_iff (a s : Text) : behindLine (a ++ ['\n'] ++ s) = s ↔ OneLine (a ++ ['\n']) := by
  rw [oneLine_concat_iff]
  by_cases ha : '\n' ∈ a
  · obtain ⟨u, v, rfl, hu⟩ := List.eq_append_cons_of_mem ha
    have hbehind : behindLine (u ++ '\n' :: v ++ ['\n'] ++ s) = v ++ ['\n'] ++ s := by
      rw [List.append_assoc, List.append_assoc, List.cons_append, ← List.append_assoc]
      rw [behindLine_append hu, List.append_assoc]
    rw [hbehind]
    constructor
    · intro hs
      have hlength := congrArg List.length hs
      simp only [List.length_append, List.length_singleton] at hlength
      omega
    · intro hnot
      exact absurd ha hnot
  · rw [List.append_assoc]
    exact ⟨fun _ => ha, fun _ => behindLine_append ha s⟩

end Text

namespace Header

open Text (OnlyBefore OneLine oneLine_concat_iff onlyBefore_append_cons)

variable {style : CommentStyle} {template command : Text}

/-! ## Where a header ends -/

/-- a markup comment is closed right before the line feed `t` ends in, and nowhere else -/
def ClosesAtEnd (t : Text) : Prop := OnlyBefore "-->".toList ['\n'] t

theorem newline_mem_notice : '\n' ∈ notice template command ↔ '\n' ∈ template ∨ '\n' ∈ command := by
  have habout : ∀ {a b c : Text}, '\n' ∉ a → '\n' ∉ b → '\n' ∉ c →
      ('\n' ∈ a ++ template ++ b ++ command ++ c ↔ '\n' ∈ template ∨ '\n' ∈ command) := by
    intro a b c ha hb hc
    simp only [List.mem_append, ha, hb, hc, false_or, or_false]
  exact habout (by decide +kernel) (by decide +kernel) (by decide +kernel)

theorem newline_mem_wrap (style : CommentStyle) (t : Text) : '\n' ∈ style.wrap t ↔ '\n' ∈ t := by
  have hopen : ∀ {a : Text}, '\n' ∉ a → ('\n' ∈ a ++ t ↔ '\n' ∈ t) := by
    intro a ha
    rw [List.mem_append, or_iff_right ha]
  have hclose : ∀ {a b : Text}, '\n' ∉ a → '\n' ∉ b → ('\n' ∈ a ++ t ++ b ↔ '\n' ∈ t) := by
    intro a b ha hb
    rw [List.mem_append, or_iff_left hb, hopen ha]
  cases style with
  | xml => exact hclose (by decide +kernel) (by decide +kernel)
  | hash => exact hopen (by decide +kernel)
  | doubleSlash => exact hopen (by decide +kernel)

theorem oneLine_line_iff : OneLine (line style template command) ↔ '\n' ∉ template ∧ '\n' ∉ command := by
  rw [line, oneLine_concat_iff, newline_mem_wrap, newline_mem_notice, not_or]

theorem closesAtEnd_arrow : ClosesAtEnd ['-', '-', '>', '\n'] := by
  have harrow : "-->".toList = ['-', '-', '>'] := rfl
  intro before after h
  rw [harrow] at h
  rcases before with _ | ⟨c, _ | ⟨d, before⟩⟩
  · simpa using h.symm
  · simp at h
  · have hlength := congrArg List.length h
    simp only [List.length_append, List.length_cons, List.length_nil] at hlength
    omega

/-- the header cut at the blanks and quotes that stand around path and command -/
theorem line_xml_eq : line .xml template command = "<!-- Autogenerated file do not edit. Edit".toList ++ ' ' ::
    (template ++ ' ' :: ("and run ".toList ++ '"' :: (command ++ '"' :: (['.'] ++ ' ' :: ['-', '-', '>', '\n'])))) := by
  have hfirst : "<!-- ".toList ++ "Autogenerated file do not edit. Edit ".toList =
      "<!-- Autogenerated file do not edit. Edit".toList ++ [' '] := by decide +kernel
  have hbetween : " and run \"".toList = ' ' :: ("and run ".toList ++ ['"']) := by decide +kernel
  have hlast : "\".".toList ++ " -->".toList ++ ['\n'] = '"' :: '.' :: ' ' :: ['-', '-', '>', '\n'] := by decide +kernel
  have hparts : ∀ {a b c d e first between last : Text}, a ++ b = first ++ [' '] → c = ' ' :: (between ++ ['"']) →
      d ++ e ++ ['\n'] = last → a ++ (b ++ template ++ c ++ command ++ d) ++ e ++ ['\n'] =
        first ++ ' ' :: (template ++ ' ' :: (between ++ '"' :: (command ++ last))) := by
    rintro a b c d e first between last hab rfl rfl
    calc a ++ (b ++ template ++ ' ' :: (between ++ ['"']) ++ command ++ d) ++ e ++ ['\n']
        = a ++ b ++ (template ++ ' ' :: (between ++ '"' :: (command ++ (d ++ e ++ ['\n'])))) := by simp
      _ = _ := by rw [hab]; simp
  exact hparts hfirst hbetween hlast

/-- what closes the comment has neither a blank nor a quote, so it is in the path, in the command, or at the end -/
theorem closesAtEnd_line_iff : ClosesAtEnd (line .xml template command) ↔
    ¬ "-->".toList <:+: template ∧ ¬ "-->".toList <:+: command := by
  have hblank : ' ' ∉ "-->".toList := by decide +kernel
  have hquote : '"' ∉ "-->".toList := by decide +kernel
  have hfirst : ¬ "-->".toList <:+: "<!-- Autogenerated file do not edit. Edit".toList := by decide +kernel
  have hbetween : ¬ "-->".toList <:+: "and run ".toList := by decide +kernel
  have hlast : ¬ "-->".toList <:+: ['.'] := by decide +kernel
  rw [ClosesAtEnd, line_xml_eq, onlyBefore_append_cons hblank (by decide), onlyBefore_append_cons hblank (by decide),
    onlyBefore_append_cons hquote (by decide), onlyBefore_append_cons hquote (by decide),
    onlyBefore_append_cons hblank (by decide)]
  exact ⟨fun h => ⟨h.2.1, h.2.2.2.1⟩, fun h => ⟨hfirst, h.1, hbetween, h.2, hlast, closesAtEnd_arrow⟩⟩

end Header

/-- of what the header quotes, the rules only ask that the template is there and is not the output -/
theorem Config.violation?_header_iff {c : Config} (hv : c.violation? = none) (template command : Text) :
    { c with template := template, buildCommand := command }.violation? = none ↔
      Text.trim template ≠ [] ∧ template ≠ c.output := by
  rw [Config.violation?_eq_none_iff] at hv ⊢
  constructor
  · intro h
    exact ⟨h.template, h.differ⟩
  · rintro ⟨htemplate, hdiffer⟩
    exact ⟨htemplate, hv.output, hdiffer, hv.branches, hv.fallback⟩

namespace Rendering

theorem render_of_document {fs : FileSystem} {template : Path} {b : Binding} {header d : Text}
    (h : document fs template b header = .ok d) :
    ∃ t s, fs.readText template = .ok t ∧ Template.render b t = .ok s ∧ d = header ++ s := by
  unfold document at h
  cases hread : fs.read template with
  | error e => simp [hread] at h
  | ok bytes =>
    simp only [hread] at h
    obtain ⟨s, hs, rfl⟩ := map_eq_ok.1 h
    obtain ⟨t, ht⟩ := decode?_of_fill hs
    rw [fill_lines_eq template b 1 ht, mapError_eq_ok] at hs
    exact ⟨t, s, by simp [FileSystem.readText, hread, ht], hs, rfl⟩

end Rendering

namespace Program

open Header (ClosesAtEnd)
open Text (OneLine behindLine)

/-- **Headers are sealed.** The header of a document is one line, and a markup comment that closes at its end, exactly as far
as neither the path of the template nor the build command ends it. Only behind one line is the rest of the document the filled
template. A configuration may go by any command. -/
theorem document_sealed_iff (w : World) (p : Project) (c : Config) :
    let header := Header.line c.style c.template c.buildCommand
    (OneLine header ↔ '\n' ∉ c.template ∧ '\n' ∉ c.buildCommand) ∧
    (c.style = .xml → (ClosesAtEnd header ↔ ¬ "-->".toList <:+: c.template ∧ ¬ "-->".toList <:+: c.buildCommand)) ∧
    (∀ d, documentOf w p c = .ok d → ∃ t s, w.files.readText (p.path c.template) = .ok t ∧
      Template.render (c.table.select (w.branch p.cwd)) t = .ok s ∧ d = header ++ s ∧
      (behindLine d = s ↔ OneLine header)) ∧
    (c.violation? = none → ∀ template command, { c with template := template, buildCommand := command }.violation? = none ↔
      Text.trim template ≠ [] ∧ template ≠ c.output) := by
  intro header
  refine ⟨Header.oneLine_line_iff, ?_, ?_, ?_⟩
  · intro hstyle
    rw [show header = Header.line .xml c.template c.buildCommand by rw [← hstyle]]
    exact Header.closesAtEnd_line_iff
  · intro d hd
    obtain ⟨t, s, ht, hs, rfl⟩ := Rendering.render_of_document hd
    exact ⟨t, s, ht, hs, rfl, Text.behindLine_append_iff _ s⟩
  · exact Config.violation?_header_iff

/-- a project whose build command has two lines -/
def twoLineCommand : World where
  files := ⟨(FileTree.empty.insert ["t".toList] (.file (Utf8.encode "x=\x7bsuffix\x7d\n".toList))).insert
    ["nsprep.yaml".toList] (.file (Utf8.encode "template: t\noutput: o\nbuild_command: \"make\\nall\"\n".toList)), []⟩
  git := none

/-- **A header of two lines.** The configuration keeps the rules, and the second line of its document is the rest of the
command. -/
theorem second_line_of_command : ∃ p c d t s, setUp twoLineCommand {} = .ok (p, c) ∧ documentOf twoLineCommand p c = .ok d ∧
    twoLineCommand.files.readText (p.path c.template) = .ok t ∧
    Template.render (c.table.select (twoLineCommand.branch p.cwd)) t = .ok s ∧ Text.behindLine d ≠ s := by
  let p : Project := ⟨"/".toList, "/".toList, false⟩
  let c : Config := { template := "t".toList, output := "o".toList, buildCommand := "make\nall".toList }
  have hs : setUp twoLineCommand {} = .ok (p, c) := by decide +kernel
  have hd : documentOf twoLineCommand p c =
      .ok "# Autogenerated file do not edit. Edit t and run \"make\nall\".\nx=dev\n".toList := by decide +kernel
  obtain ⟨hline, -, hdocument, -⟩ := document_sealed_iff twoLineCommand p c
  obtain ⟨t, s, ht, hrender, -, hbehind⟩ := hdocument _ hd
  refine ⟨p, c, _, t, s, hs, hd, ht, hrender, ?_⟩
  intro hb
  obtain ⟨-, hcommand⟩ := hline.1 (hbehind.1 hb)
  exact hcommand (by decide +kernel)

end Program
end BranchRender
