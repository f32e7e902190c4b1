/-!
# Doubles as fractions

A finite double is a mantissa times a power of two. `Double.split` takes one apart, and
`Double.ofRatio` rounds a fraction to the nearest double, to the even mantissa in the middle.
-/

namespace Espalier.Double

/-- A magnitude `mantissa * 2 ^ exponent` with its sign. -/
structure Parts where
  negative : Bool
  mantissa : Nat
  exponent : Int
  deriving DecidableEq, Repr

/-- The weight of the first of the fifty-three bits of a mantissa. -/
def leading : Nat := Nat.pow 2 52

/-- The parts of a finite double. The mantissa has fifty-three bits unless the exponent is the
least one. -/
def split (x : Float) : Parts :=
  let bits : Nat := x.toBits.toNat
  let fraction : Nat := bits % leading
  let field : Nat := bits / leading % 2048
  let negative := 2048 * leading ≤ bits
  if field = 0 then ⟨negative, fraction, -1074⟩
  else ⟨negative, leading + fraction, (field : Int) - 1075⟩

/-- `n / d` rounded to the nearest whole number, to the even one in the middle. -/
def divNearestEven (n d : Nat) : Nat :=
  let q := n / d
  let r := n % d
  if 2 * r < d then q
  else if d < 2 * r then q + 1
  else if q % 2 = 0 then q else q + 1

/-- The double with the given mantissa, which has at most fifty-three bits, and exponent. -/
def ofParts (negative : Bool) (mantissa : Nat) (exponent : Int) : Float :=
  let sign := if negative then 2048 * leading else 0
  let magnitude :=
    if mantissa < leading then mantissa
    else if 971 < exponent then 2047 * leading
    else (exponent + 1075).toNat * leading + (mantissa - leading)
  Float.ofBits (UInt64.ofNat (sign + magnitude))

/-- The fraction `n / d` divided by `base ^ e`. -/
def scaled (base : Nat) (e : Int) (n d : Nat) : Nat × Nat :=
  if e < 0 then (n * Nat.pow base (-e).toNat, d) else (n, d * Nat.pow base e.toNat)

/-- The double nearest to `n / d`, for a positive `d`. -/
def ofRatio (negative : Bool) (n d : Nat) : Float :=
  if n = 0 then ofParts negative 0 (-1074)
  else
    -- the quotient lies strictly between `2 ^ (guess - 1)` and `2 ^ (guess + 1)`
    let guess : Int := (n.log2 : Int) - d.log2
    let (a, b) := scaled 2 (guess - 52) n d
    let e := max (if a / b < leading then guess - 53 else guess - 52) (-1074)
    let (a, b) := scaled 2 e n d
    let m := divNearestEven a b
    if m = 2 * leading then ofParts negative leading (e + 1) else ofParts negative m e

/-- The double nearest to a whole number. -/
def ofNat (n : Nat) : Float := ofRatio false n 1

/-- The value of a finite double, rounded toward zero to a whole number. -/
def toIntTrunc (x : Float) : Int :=
  let p := split x
  let (n, d) := scaled 2 (-p.exponent) p.mantissa 1
  let magnitude := n / d
  if p.negative then -(magnitude : Int) else magnitude

/-- Whether a finite double is a whole number. -/
def isWhole (x : Float) : Bool :=
  let p := split x
  let (n, d) := scaled 2 (-p.exponent) p.mantissa 1
  n % d == 0

/-- Toward zero to a whole number; the sign stays, that of zero included. -/
def trunc (x : Float) : Float := if x < 0 then x.ceil else x.floor

/-- What remains of `x` after the whole multiples of `y` nearest to zero; it has the sign of `x`. -/
def remainder (x y : Float) : Float :=
  if x.isNaN || y.isNaN || x.isInf || y == 0 then 0 / 0
  else if y.isInf then x
  else
    let p := split x
    let q := split y
    let e := min p.exponent q.exponent
    let (a, _) := scaled 2 (e - p.exponent) p.mantissa 1
    let (b, _) := scaled 2 (e - q.exponent) q.mantissa 1
    let (n, d) := scaled 2 (-e) (a % b) 1
    ofRatio p.negative n d

end Espalier.Double
