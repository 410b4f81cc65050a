/-
BRANCH NAMES: the short name of the branch a symbolic reference points to.

Main statement: `slash_not_mem_shortName` (table entries with a slash can never be selected).
-/
import BranchRender.Text

namespace BranchRender.Branch

/-- the last segment of the trimmed reference: `release` of `refs/heads/team/release` -/
def shortName (reference : Text) : Text := Text.lastSegment '/' (Text.trim reference)

theorem slash_not_mem_shortName (reference : Text) : '/' ∉ shortName reference := by
  intro h
  simp only [shortName, Text.lastSegment, List.mem_reverse] at h
  exact absurd (List.all_eq_true.1 List.all_takeWhile _ h) (by decide)

end BranchRender.Branch
