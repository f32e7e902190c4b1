import Espalier.Decimal.Binary
import Espalier.Text.Digit

/-!
# Reading decimals

A decimal numeral denotes the double nearest to its value. `Number.ofScientific` rounds a digit
string and a power of ten, and `Number.read?` reads a whole text: an optional sign, digits with at
most one point among or beside them and an optional exponent, or a name of infinity or of the value
that is not a number.
-/

namespace Espalier.Number

/-- The double nearest to `m * 10 ^ e`. Magnitudes out of the range of doubles are settled
without computing the power. -/
def ofScientific (negative : Bool) (m : Nat) (e : Int) : Float :=
  let size : Int := (m.log2 : Int) * 3 / 10 + e
  if m = 0 then Double.ofParts negative 0 (-1074)
  else if 400 < size then (if negative then -1 / 0 else 1 / 0)
  else if size < -400 then Double.ofParts negative 0 (-1074)
  else
    let (n, d) := Double.scaled 10 (-e) m 1
    Double.ofRatio negative n d

/-- The parts of a numeral: the digits before and after the point and the exponent. -/
structure Numeral where
  whole : List Char
  fraction : List Char
  exponent : Int

/-- The value of a numeral. -/
def Numeral.value (negative : Bool) (n : Numeral) : Float :=
  ofScientific negative (Text.natOfDigits (n.whole ++ n.fraction)) (n.exponent - n.fraction.length)

/-- An exponent, after its mark: an optional sign and digits, nothing else. -/
def readExponent? (cs : List Char) : Option Int :=
  let (negative, ds) :=
    match cs with
    | '-' :: ds => (true, ds)
    | '+' :: ds => (false, ds)
    | ds => (false, ds)
  if ds.isEmpty || !ds.all Char.isDigit then none
  else
    let n : Int := Text.natOfDigits ds
    some (if negative then -n else n)

/-- An unsigned numeral that fills the text. -/
def readNumeral? (cs : List Char) : Option Numeral := do
  let (whole, rest) := cs.span Char.isDigit
  let (fraction, rest) :=
    match rest with
    | '.' :: rest => rest.span Char.isDigit
    | rest => ([], rest)
  if whole.isEmpty && fraction.isEmpty then none
  else
    match rest with
    | [] => some ⟨whole, fraction, 0⟩
    | mark :: rest =>
      if mark = 'e' || mark = 'E' then (readExponent? rest).map (⟨whole, fraction, ·⟩) else none

/-- A number that fills the text. The names of infinity and of the value that is not a number may
be written in either case. -/
def read? (cs : List Char) : Option Float :=
  let (negative, body) :=
    match cs with
    | '-' :: body => (true, body)
    | '+' :: body => (false, body)
    | body => (false, body)
  match readNumeral? body with
  | some n => some (n.value negative)
  | none =>
    let name := String.ofList (body.map Char.toLower)
    if name == "inf" || name == "infinity" then some (if negative then -1 / 0 else 1 / 0)
    else if name == "nan" then some (0 / 0)
    else none

end Espalier.Number
