/-
JSON TEXT: the values a report or a binding is written in.

- Strings escape the double quote, the backslash and the characters below the space, five of which have a letter; all
  else stands for itself.
- `pretty` writes the values of a report over several lines, two more spaces per level; an empty list or object stays on
  one line.
-/
import BranchRender.Text

namespace BranchRender.Json

def escape (c : Char) : Text :=
  if c = '"' then ['\\', '"']
  else if c = '\\' then ['\\', '\\']
  else if c = '\x08' then ['\\', 'b']
  else if c = '\x0c' then ['\\', 'f']
  else if c = '\n' then ['\\', 'n']
  else if c = '\r' then ['\\', 'r']
  else if c = '\t' then ['\\', 't']
  else if c.toNat < 0x10 then "\\u000".toList ++ Text.hexadecimal c.toNat
  else if c.toNat < 0x20 then "\\u00".toList ++ Text.hexadecimal c.toNat
  else [c]

def string (t : Text) : Text := '"' :: t.flatMap escape ++ ['"']

inductive Value
  | flag (b : Bool)
  | string (t : Text)
  | strings (l : List Text)
  | fields (l : List (Text × Text))
  | null
  deriving DecidableEq, Repr

/-- the lines of a list or object between its brackets, `depth` spaces in front of the closing one -/
def block (opening closing : Char) (depth : Nat) (lines : List Text) : Text :=
  let line (t : Text) : Text := '\n' :: List.replicate (depth + 2) ' ' ++ t
  match lines with
  | [] => [opening, closing]
  | _ => opening :: Text.joinWith [','] (lines.map line) ++ '\n' :: List.replicate depth ' ' ++ [closing]

def member (name value : Text) : Text := string name ++ ": ".toList ++ value

/-- a value, `depth` spaces in front of its last line -/
def Value.pretty (depth : Nat) : Value → Text
  | .flag true => "true".toList
  | .flag false => "false".toList
  | .string t => Json.string t
  | .strings l => block '[' ']' depth (l.map Json.string)
  | .fields l => block '{' '}' depth (l.map fun e => member e.1 (Json.string e.2))
  | .null => "null".toList

/-- an object, over several lines -/
def pretty (members : List (Text × Value)) : Text :=
  block '{' '}' 0 (members.map fun m => member m.1 (m.2.pretty 2))

end BranchRender.Json
