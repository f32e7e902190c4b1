import Espalier.Decimal.Digits

/-!
# Layouts of numbers

Where the point stands, how zeros are filled in and when an exponent is written. A `Layout` holds
these choices; `Decimal.layOut` follows them. `Layout.script` is the layout of numbers in scripts,
`Layout.json` that of fractional numbers in JSON texts and `Layout.plain` never writes an exponent.
-/

namespace Espalier

/-- The choices of a number format. -/
structure Layout where
  /-- Points up to here are reached by filling zeros in. -/
  maxPoint : Option Int
  /-- Points above here, up to zero, are written with zeros after `0.`. -/
  minPoint : Option Int
  /-- What a whole number ends with. -/
  wholeSuffix : String
  /-- The sign of an exponent that is not negative. -/
  plus : String
  /-- How ties between shortest digits are broken. -/
  tie : Decimal.Tie

namespace Layout

/-- Numbers in scripts: positional from `1e-6` up to below `1e21`. -/
def script : Layout := ⟨some 21, some (-6), "", "+", .up⟩

/-- Fractional numbers in JSON: positional from `1e-5` up to below `1e16`, with a point always. -/
def json : Layout := ⟨some 16, some (-5), ".0", "", .even⟩

/-- Positional always. -/
def plain : Layout := ⟨none, none, "", "", .up⟩

end Layout

namespace Decimal

/-- `n` zeros. -/
def zeros (n : Int) : List Char := List.replicate n.toNat '0'

/-- The exponent part of scientific notation. -/
def exponentText (l : Layout) (e : Int) : String :=
  "e" ++ (if e < 0 then "-" else l.plus) ++ toString e.natAbs

/-- A positive decimal as text. -/
def layOut (l : Layout) (d : Decimal) : String :=
  let count : Int := d.digits.length
  let low := l.minPoint.all (· < d.point)
  let high := l.maxPoint.all (d.point ≤ ·)
  if low && high then
    if count ≤ d.point then String.ofList (d.digits ++ zeros (d.point - count)) ++ l.wholeSuffix
    else if 0 < d.point then
      let (whole, fraction) := d.digits.splitAt d.point.toNat
      String.ofList (whole ++ '.' :: fraction)
    else String.ofList ("0.".toList ++ zeros (-d.point) ++ d.digits)
  else
    match d.digits with
    | first :: [] => first.toString ++ exponentText l (d.point - 1)
    | first :: rest => String.ofList (first :: '.' :: rest) ++ exponentText l (d.point - 1)
    | [] => "0" ++ l.wholeSuffix

end Decimal

namespace Number

/-- A finite double as text, with its sign. -/
def finiteText (l : Layout) (x : Float) : String :=
  (if x < 0 then "-" else "") ++ (Decimal.shortest l.tie x.abs).layOut l

/-- A double as scripts write it. Both zeros are `0`. -/
def text (x : Float) : String :=
  if x.isNaN then "NaN"
  else if x == 0 then "0"
  else if x.isInf then (if x < 0 then "-Infinity" else "Infinity")
  else finiteText .script x

/-- A double without an exponent, the sign of zero kept. -/
def plainText (x : Float) : String :=
  if x.isNaN then "NaN"
  else if x.isInf then (if x < 0 then "-inf" else "inf")
  else if x == 0 then (if (Double.split x).negative then "-0" else "0")
  else finiteText .plain x

/-- A double with `places` digits after the point, a half going to the even neighbour. -/
def fixedText (places : Nat) (x : Float) : String :=
  if x.isNaN then "NaN"
  else if x.isInf then (if x < 0 then "-inf" else "inf")
  else
    let p := Double.split x
    let (n, d) := Double.scaled 2 (-p.exponent) (p.mantissa * Nat.pow 10 places) 1
    let ds := Text.digitsOf 10 (Double.divNearestEven n d)
    let ds := List.replicate (places + 1 - ds.length) '0' ++ ds
    let (whole, fraction) := ds.splitAt (ds.length - places)
    let body := if places = 0 then whole else whole ++ '.' :: fraction
    (if p.negative then "-" else "") ++ String.ofList body

end Number

end Espalier
