/-
FLOATING-POINT NUMBERS of 64 bits, by their exact values.

- A finite number is a sign and m · 2^q; `ofRatio?` rounds a fraction to the nearest one, of two to the one with even m,
  and refuses what is too large.
- `shortest` finds the decimal with the fewest digits that rounds back, the nearest of those: for each number of digits
  it tries the two neighbours of the value on that decimal grid.
- `text` writes that decimal without an exponent, with a fraction even if it is 0; what is not finite is a word.
-/
import BranchRender.Text

namespace BranchRender

/-- a number of 64 bits -/
inductive Binary64
  | finite (isNegative : Bool) (m : Nat) (q : Int)
  | infinite (isNegative : Bool)
  | notANumber
  deriving DecidableEq, Repr

namespace Binary64

/-- the quotient nearest to n / d, of two the even one -/
def roundDiv (n d : Nat) : Nat :=
  let q := n / d
  let r := n % d
  if 2 * r < d ∨ (2 * r = d ∧ q % 2 = 0) then q else q + 1

def leastExponent : Int := -1074

/-- n / d · 2^(-q), rounded -/
def scaled (n d : Nat) (q : Int) : Nat :=
  if q ≤ 0 then roundDiv (n * Nat.pow 2 (-q).toNat) d else roundDiv n (d * Nat.pow 2 q.toNat)

/-- the m and q nearest to n / d, unless that is too large -/
def ofRatio? (n d : Nat) : Option (Nat × Int) :=
  if n = 0 then some (0, leastExponent)
  else
    let e : Int := n.log2 - d.log2
    let low := max (e - 53) leastExponent
    let q := if Nat.pow 2 53 ≤ scaled n d low then low + 1 else low
    let m := scaled n d q
    let (m, q) := if m = Nat.pow 2 53 then (Nat.pow 2 52, q + 1) else (m, q)
    if 971 < q then none else some (m, q)

/-- the m and q nearest to n · 10^e; far outside the range the digits do not matter -/
def ofDecimal? (n : Nat) (e : Int) : Option (Nat × Int) :=
  let magnitude : Int := (Text.decimal n).length + e
  if n = 0 ∨ magnitude < -330 then some (0, leastExponent)
  else if 400 < magnitude then none
  else if 0 ≤ e then ofRatio? (n * Nat.pow 10 e.toNat) 1
  else ofRatio? n (Nat.pow 10 (-e).toNat)

/-! ## The shortest decimal -/

structure Ratio where
  num : Nat
  den : Nat

/-- x · 2^q as a fraction -/
def Ratio.ofBinary (x : Nat) (q : Int) : Ratio :=
  if 0 ≤ q then ⟨x * Nat.pow 2 q.toNat, 1⟩ else ⟨x, Nat.pow 2 (-q).toNat⟩

/-- c · 10^e as a fraction -/
def Ratio.ofDecimal (c : Nat) (e : Int) : Ratio :=
  if 0 ≤ e then ⟨c * Nat.pow 10 e.toNat, 1⟩ else ⟨c, Nat.pow 10 (-e).toNat⟩

def Ratio.lt (a b : Ratio) : Bool := a.num * b.den < b.num * a.den

/-- the largest whole number up to a · 10^(-e) -/
def Ratio.floor (a : Ratio) (e : Int) : Nat :=
  if 0 ≤ e then a.num / (a.den * Nat.pow 10 e.toNat) else a.num * Nat.pow 10 (-e).toNat / a.den

/-- the numbers that round to m · 2^q: between the two, and the two themselves if m is even -/
def rounding (m : Nat) (q : Int) : Ratio × Ratio :=
  let below := if m = Nat.pow 2 52 ∧ leastExponent < q then 4 * m - 1 else 4 * m - 2
  (.ofBinary below (q - 2), .ofBinary (4 * m + 2) (q - 2))

/-- whether c · 10^e rounds to m · 2^q -/
def readsBack (m : Nat) (q : Int) (c : Nat) (e : Int) : Bool :=
  let (low, high) := rounding m q
  let d := Ratio.ofDecimal c e
  if m % 2 = 0 then !d.lt low && !high.lt d else low.lt d && d.lt high

/-- whether the upper neighbour of c · 10^e is at least as near to m · 2^q -/
def upperIsNearer (m : Nat) (q : Int) (c : Nat) (e : Int) : Bool :=
  !(Ratio.ofBinary (2 * m) q).lt (Ratio.ofDecimal (2 * c + 1) e)

/-- on the grid 10^e, the neighbour of m · 2^q that rounds to it -/
def onGrid? (m : Nat) (q : Int) (e : Int) : Option Nat :=
  let c := (Ratio.ofBinary m q).floor e
  match readsBack m q c e, readsBack m q (c + 1) e with
  | true, true => some (if upperIsNearer m q c e then c + 1 else c)
  | true, false => some c
  | false, true => some (c + 1)
  | false, false => none

/-- one more than the decimal exponent of a fraction, found below `e` -/
def digitsBefore (a : Ratio) : Nat → Int → Int
  | 0, e => e
  | fuel + 1, e => if a.floor (e - 1) = 0 then digitsBefore a fuel (e - 1) else e

/-- digits and exponent of the shortest decimal, from `used` digits on -/
def shortestFrom (m : Nat) (q : Int) (top : Int) : Nat → Nat → Nat × Int
  | 0, used => ((Ratio.ofBinary m q).floor (top - used), top - used)
  | fuel + 1, used =>
    match onGrid? m q (top - used) with
    | some c => (c, top - used)
    | none => shortestFrom m q top fuel (used + 1)

/-- a decimal without zeros at its end, of which there are at most `fuel` -/
def withoutZeros : Nat → Nat × Int → Nat × Int
  | 0, d => d
  | fuel + 1, (c, e) => if c % 10 = 0 then withoutZeros fuel (c / 10, e + 1) else (c, e)

/-- digits and exponent of the shortest decimal that rounds to m · 2^q -/
def shortest (m : Nat) (q : Int) : Nat × Int :=
  if m = 0 then (0, 0)
  else withoutZeros 17 (shortestFrom m q (digitsBefore (.ofBinary m q) 700 310) 17 1)

/-! ## Writing -/

/-- c · 10^e without an exponent, with a fraction -/
def positional (c : Nat) (e : Int) : Text :=
  let digits := Text.decimal c
  if 0 ≤ e then digits ++ List.replicate e.toNat '0' ++ ".0".toList
  else
    let places := (-e).toNat
    let digits := List.replicate (places + 1 - digits.length) '0' ++ digits
    digits.take (digits.length - places) ++ '.' :: digits.drop (digits.length - places)

def text : Binary64 → Text
  | .finite isNegative m q =>
    let (c, e) := shortest m q
    (if isNegative then ['-'] else []) ++ positional c e
  | .infinite isNegative => (if isNegative then ['-'] else []) ++ "inf".toList
  | .notANumber => "NaN".toList

/-- whether two numbers are the same key: both zeros are, and so is what is not a number -/
def same : Binary64 → Binary64 → Bool
  | .finite s m q, .finite s' m' q' => (m = 0 && m' = 0) || (s = s' && m = m' && q = q')
  | a, b => a = b

end Binary64
end BranchRender
