import Espalier.Decimal.Binary
import Espalier.Text.Digit

/-!
# The fewest digits that read back

Every double is the nearest one to a whole interval of reals. `Decimal.shortest` finds the decimals
with the fewest digits in that interval and, of these, the one nearest to the double. Where two are
equally near, the caller says which to take.
-/

namespace Espalier

/-- The positive number `0.d₁d₂… * 10 ^ point`, whose first and last digits are not zero. -/
structure Decimal where
  digits : List Char
  point : Int
  deriving DecidableEq, Repr, Inhabited

namespace Decimal

/-- Which of two equally near decimals is taken. -/
inductive Tie where
  | up
  | even
  deriving DecidableEq, Repr

/-- `a / b ≤ c * 10 ^ e`, or `<` when `strict`. -/
def ratioBelow (strict : Bool) (a b c : Nat) (e : Int) : Bool :=
  let (l, r) := Double.scaled 10 e a (c * b)
  if strict then l < r else l ≤ r

/-- `c * 10 ^ e ≤ a / b`, or `<` when `strict`. -/
def ratioAbove (strict : Bool) (a b c : Nat) (e : Int) : Bool :=
  let (l, r) := Double.scaled 10 e a (c * b)
  if strict then r < l else r ≤ l

/-- The reals that round to a double, between `low / den` and `high / den`, and the double
`mid / den` itself; the ends belong to it when `closed`. -/
structure Interval where
  low : Nat
  mid : Nat
  high : Nat
  den : Nat
  closed : Bool

/-- The interval of a positive finite double. Below a power of two the neighbours are closer. -/
def Interval.ofParts (m : Nat) (e : Int) : Interval :=
  let near := m = Double.leading && -1074 < e
  let (scale, den) := Double.scaled 2 (-e) 1 1
  ⟨(if near then 4 * m - 1 else 4 * m - 2) * scale, 4 * m * scale, (4 * m + 2) * scale, 4 * den,
    m % 2 = 0⟩

/-- Whether `c * 10 ^ e` lies in the interval. -/
def Interval.contains (i : Interval) (c : Nat) (e : Int) : Bool :=
  ratioBelow (!i.closed) i.low i.den c e && ratioAbove (!i.closed) i.high i.den c e

/-- The whole number of units `10 ^ e` in the middle of the interval, rounded down, with twice the
rest and the unit, to compare. -/
def Interval.units (i : Interval) (e : Int) : Nat × Nat × Nat :=
  let (a, b) := Double.scaled 10 e i.mid i.den
  (a / b, 2 * (a % b), b)

/-- The decimal in the interval that is the nearest multiple of `10 ^ e` to its middle, if one of
the two neighbours lies in it. -/
def Interval.pick? (tie : Tie) (i : Interval) (e : Int) : Option Nat :=
  let (c, twice, unit) := i.units e
  let down := i.contains c e && c ≠ 0
  let up := i.contains (c + 1) e
  if down && up then
    let upper := unit < twice || (twice = unit && (tie = .up || c % 2 = 1))
    some (if upper then c + 1 else c)
  else if down then some c
  else if up then some (c + 1)
  else none

/-- The first grid, of units `10 ^ e`, `10 ^ (e - 1)`, …, with a hit; the last one is taken
unseen. -/
def Interval.search (tie : Tie) (i : Interval) : Nat → Int → Nat × Int
  | 0, e => ((i.units e).1, e)
  | n + 1, e =>
    match i.pick? tie e with
    | some c => (c, e)
    | none => search tie i n (e - 1)

/-- Drops zeros at the end of a digit string. -/
def dropZeros (ds : List Char) : List Char := (ds.reverse.dropWhile (· = '0')).reverse

/-- The decimal `c * 10 ^ e`, for a positive `c`. -/
def ofNatExp (c : Nat) (e : Int) : Decimal :=
  let ds := Text.digitsOf 10 c
  ⟨dropZeros ds, (ds.length : Int) + e⟩

/-- A bound on the decimal exponent of `m * 2 ^ e` from above, off by one at most. -/
def exponentBound (m : Nat) (e : Int) : Int := ((m.log2 : Int) + e + 1) * 30103 / 100000 + 1

/-- The decimal of a positive finite double. -/
def shortest (tie : Tie) (x : Float) : Decimal :=
  let p := Double.split x
  let i := Interval.ofParts p.mantissa p.exponent
  let (c, e) := i.search tie 22 (exponentBound p.mantissa p.exponent)
  ofNatExp c e

end Decimal

end Espalier
