/-
WHAT YAML SCALARS MEAN: the kind of value a scalar stands for, by its tag and its spelling.

- A plain scalar without a tag is null, a truth value, a number or else a text; with a quote it is a text.
- A tag of the common types must fit the spelling. A tag of the document's own (one exclamation mark) leaves the
  spelling to decide; any other tag makes a text.
- Integers have a sign and a base prefix of two, eight or sixteen, and at most 64 bits to be a number (128 to be
  recognised); digits that start with a zero are a text.
-/
import BranchRender.Binary64
import BranchRender.Text.Utf8

namespace BranchRender.Yaml

/-- what a scalar stands for -/
inductive Kind
  | null
  | bool (b : Bool)
  | integer (n : Int)
  /-- an integer of more than 64 bits -/
  | wide (n : Int)
  | float (x : Binary64)
  | text
  deriving DecidableEq, Repr

/-- a scalar that its tag does not fit, and what it should have been -/
structure Misfit where
  text : Text
  expected : String
  deriving DecidableEq, Repr

namespace Kind

/-! ## Words -/

def isNull (t : Text) : Bool := String.ofList t ∈ ["null", "Null", "NULL", "~"]

def bool? (t : Text) : Option Bool :=
  if String.ofList t ∈ ["true", "True", "TRUE"] then some true
  else if String.ofList t ∈ ["false", "False", "FALSE"] then some false
  else none

/-! ## Integers -/

def digit? (base : Nat) (c : Char) : Option Nat :=
  let value :=
    if '0' ≤ c ∧ c ≤ '9' then some (c.toNat - '0'.toNat)
    else if 'a' ≤ c ∧ c ≤ 'f' then some (c.toNat - 'a'.toNat + 10)
    else if 'A' ≤ c ∧ c ≤ 'F' then some (c.toNat - 'A'.toNat + 10)
    else none
  value.filter (· < base)

/-- the number of a text of digits, `n` in front of them -/
def digitsFrom (base n : Nat) : Text → Option Nat
  | [] => some n
  | c :: t => (digit? base c).bind fun d => digitsFrom base (n * base + d) t

/-- the number of a text of digits, of which there is one -/
def digits? (base : Nat) (t : Text) : Option Nat := if t = [] then none else digitsFrom base 0 t

def dropSign : Text → Text
  | '-' :: t | '+' :: t => t
  | t => t

/-- two or more digits of which the first is a zero, whatever the sign -/
def isPaddedDigits (t : Text) : Bool :=
  match dropSign t with
  | '0' :: c :: r => (c :: r).all Char.isDigit
  | _ => false

/-- a whole number without a sign, with a base prefix or in decimal -/
def magnitude? : Text → Option Nat
  | '0' :: 'x' :: t => digits? 16 t
  | '0' :: 'o' :: t => digits? 8 t
  | '0' :: 'b' :: t => digits? 2 t
  | t => digits? 10 t

/-- an integer of any size -/
def integer? (t : Text) : Option Int :=
  if isPaddedDigits t then none
  else match t with
    | '-' :: t => (magnitude? t).map fun n => -(n : Int)
    | '+' :: t => (magnitude? t).map fun n => (n : Int)
    | t => (magnitude? t).map fun n => (n : Int)

/-- the kind of an integer by its size, if it is small enough to be one -/
def ofInt? (n : Int) : Option Kind :=
  if -Int.pow 2 63 ≤ n ∧ n < Int.pow 2 64 then some (.integer n)
  else if -Int.pow 2 127 ≤ n ∧ n < Int.pow 2 128 then some (.wide n)
  else none

/-! ## Floating-point numbers -/

/-- digits and exponent of a decimal behind its sign -/
def decimal? (t : Text) : Option (Nat × Int) :=
  let whole := t.takeWhile Char.isDigit
  let rest := t.dropWhile Char.isDigit
  let (fraction, rest) := match rest with
    | '.' :: r => (r.takeWhile Char.isDigit, r.dropWhile Char.isDigit)
    | r => ([], r)
  match digits? 10 (whole ++ fraction), rest with
  | none, _ => none
  | some n, [] => some (n, -(fraction.length : Int))
  | some n, c :: r =>
    if c = 'e' ∨ c = 'E' then
      (digits? 10 (dropSign r)).map fun e =>
        (n, (if r.head? = some '-' then -(e : Int) else (e : Int)) - (fraction.length : Int))
    else none

def finite? (t : Text) : Option Binary64 :=
  (decimal? (dropSign t)).bind fun (n, e) =>
    (Binary64.ofDecimal? n e).map fun (m, q) => .finite (t.head? = some '-') m q

/-- a floating-point number, in words or in digits; one too large is none -/
def float? (t : Text) : Option Binary64 :=
  let s := String.ofList t
  if s ∈ [".inf", ".Inf", ".INF", "+.inf", "+.Inf", "+.INF"] then some (.infinite false)
  else if s ∈ ["-.inf", "-.Inf", "-.INF"] then some (.infinite true)
  else if s ∈ [".nan", ".NaN", ".NAN"] then some .notANumber
  else finite? t

/-! ## Kinds -/

/-- the kind of a plain scalar, by its spelling -/
def plainKind (t : Text) : Kind :=
  if t = [] ∨ isNull t then .null
  else match bool? t with
    | some b => .bool b
    | none =>
      match (integer? t).bind ofInt? with
      | some k => k
      | none =>
        if isPaddedDigits t then .text
        else match float? t with
          | some x => .float x
          | none => .text

def commonTag (name : String) : List UInt8 := Utf8.encode ("tag:yaml.org,2002:".toList ++ name.toList)

/-- the name of a tag of the document's own: what follows the exclamation mark, or the mark if it stands alone -/
def ownTag? : Option (List UInt8) → Option Text
  | some (b :: rest) => if b = 33 then (if rest = [] then some ['!'] else Utf8.decode? rest) else none
  | _ => none

/-- whether a tag starts with an exclamation mark -/
def startsOwn (tag : List UInt8) : Bool := tag.head? = some 33

def ofScalar (tag : Option (List UInt8)) (isPlain : Bool) (t : Text) : Except Misfit Kind :=
  let require (k : Option Kind) (expected : String) : Except Misfit Kind :=
    match k with
    | some k => .ok k
    | none => .error ⟨t, expected⟩
  match tag with
  | none => .ok (if isPlain then plainKind t else .text)
  | some tag =>
    if tag = commonTag "bool" then require ((bool? t).map .bool) "a boolean"
    else if tag = commonTag "int" then require ((integer? t).bind ofInt?) "an integer"
    else if tag = commonTag "float" then require ((float? t).map .float) "a float"
    else if tag = commonTag "null" then require (if isNull t then some .null else none) "null"
    else if startsOwn tag && isPlain then .ok (plainKind t)
    else .ok .text

end Kind
end BranchRender.Yaml
