/-
QUOTED TEXT: a text between double quotes, in the form summaries and error messages show values.

A backslash comes before a quote and a backslash; NUL, tab, line feed and carriage return have a letter; every other
hidden character (`Text.isHidden`) is written by its number, `\u` and the hexadecimal digits in braces; all else stands
for itself.
-/
import BranchRender.Text
import BranchRender.Text.Hidden

namespace BranchRender.Text

def escape (c : Char) : Text :=
  if c = '\x00' then ['\\', '0']
  else if c = '\t' then ['\\', 't']
  else if c = '\r' then ['\\', 'r']
  else if c = '\n' then ['\\', 'n']
  else if c = '"' then ['\\', '"']
  else if c = '\\' then ['\\', '\\']
  else if isHidden c then ['\\', 'u', '{'] ++ hexadecimal c.toNat ++ ['}']
  else [c]

def quoted (t : Text) : Text := '"' :: t.flatMap escape ++ ['"']

end BranchRender.Text
