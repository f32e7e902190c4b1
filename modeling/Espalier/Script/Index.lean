import Espalier.Script.Value
import Espalier.Decimal.Binary
import Espalier.Text.Digit

/-!
# Indices

Places in texts and arrays, as scripts give them: as keys of properties, which must be whole
numbers, and as arguments, which are rounded toward zero and moved into the bounds.
-/

namespace Espalier.Script

/-- The index that a number is. -/
def indexOfNumber? (x : Float) : Option Nat :=
  if 0 ≤ x && x < 4294967295 && Double.isWhole x then some (Double.toIntTrunc x).toNat else none

/-- The index that a property key is. -/
def arrayIndex? : Value → Option Nat
  | .number x => indexOfNumber? x
  | .string s =>
    match s.toList with
    | [] => none
    | ['0'] => some 0
    | '0' :: _ => none
    | cs =>
      if cs.all Char.isDigit then
        let n := Text.natOfDigits cs
        if n < Nat.pow 2 64 then some n else none
      else none
  | _ => none

/-- The character at a place of a text. -/
def charAt? (s : String) (i : Nat) : Option Char := if i < s.length then (s.drop i).front? else none

/-- A place that may be counted from the end of `length` items. -/
def relativeIndex (length : Nat) (x : Float) : Nat :=
  if x.isNaN then 0
  else if x.isInf then (if x < 0 then 0 else length)
  else
    let n := Double.toIntTrunc x
    if n < 0 then (length + n).toNat else min n.toNat length

/-- A place up to the end of `length` items. -/
def clampedIndex (length : Nat) (x : Float) : Nat :=
  if x.isNaN then 0
  else if x.isInf then (if x < 0 then 0 else length)
  else min (Double.toIntTrunc x).toNat length

end Espalier.Script
