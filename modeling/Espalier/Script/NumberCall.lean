import Espalier.Script.StringCall

/-!
# Functions on numbers

How numbers are read from texts and written in other bases, the mathematical functions, and the
methods of numbers.
-/

namespace Espalier.Script

/-- A whole number at the start of a text, in a base that the text may name by `0x` unless it is
given as another one. -/
def parseInt (s : String) (base : Int) : Float :=
  let nan : Float := 0 / 0
  let (negative, cs) :=
    match Text.trimStart s.toList with
    | '-' :: cs => (true, cs)
    | '+' :: cs => (false, cs)
    | cs => (false, cs)
  let (base, cs) :=
    if base = 0 ∨ base = 16 then
      match cs with
      | '0' :: 'x' :: cs | '0' :: 'X' :: cs => (16, cs)
      | cs => (if base = 0 then 10 else base, cs)
    else (base, cs)
  if base < 2 ∨ 36 < base then nan
  else
    let digits := (cs.map (Text.digitValue? base.toNat)).takeWhile (·.isSome)
    if digits.isEmpty then nan
    else
      let value := digits.foldl (fun x d => x * ofInt base + Double.ofNat (d.getD 0)) 0
      if negative then -value else value

/-- The longest numeral at the start of a text. -/
def numeralAtStart? (cs : List Char) : Option Number.Numeral :=
  let (whole, rest) := cs.span Char.isDigit
  let (fraction, rest) :=
    match rest with
    | '.' :: rest => rest.span Char.isDigit
    | rest => ([], rest)
  if whole.isEmpty && fraction.isEmpty then none
  else
    let exponent :=
      match rest with
      | 'e' :: rest | 'E' :: rest =>
        let (sign, ds) :=
          match rest with
          | '-' :: ds => (['-'], ds)
          | '+' :: ds => (['+'], ds)
          | ds => ([], ds)
        (Number.readExponent? (sign ++ ds.takeWhile Char.isDigit)).getD 0
      | _ => 0
    some ⟨whole, fraction, exponent⟩

/-- The number at the start of a text. -/
def parseFloat (s : String) : Float :=
  let (negative, cs) :=
    match Text.trimStart s.toList with
    | '-' :: cs => (true, cs)
    | '+' :: cs => (false, cs)
    | cs => (false, cs)
  if "Infinity".toList.isPrefixOf cs then (if negative then -1 / 0 else 1 / 0)
  else (numeralAtStart? cs).elim (0 / 0) (·.value negative)

/-- A whole number in a base from two to thirty-six. Other numbers, and those that are too great to
be exact, are written as always. -/
def inBase (base : Nat) (x : Float) : String :=
  if x.isNaN || x.isInf || !(x.abs < Json.wholeLimit && Double.isWhole x) then Number.text x
  else
    (if x < 0 then "-" else "") ++ String.ofList (Text.digitsOf base (Double.toIntTrunc x).natAbs)

/-- Carries out a method of a number. -/
def callNumber (method : NumberMethod) (x : Float) (args : Array Value) : Script Value := do
  match method with
  | .toString =>
    match Args.item args 0 with
    | .undefined => return .string (Number.text x)
    | v =>
      let base := (toInt32 (← toNumber v)).toInt
      if base < 2 ∨ 36 < base then raise .radix
      else return .string (inBase base.toNat x)
  | .toFixed =>
    let places ←
      match args[0]? with
      | some v => toNumber v
      | none => pure 0
    if 0 ≤ places && places ≤ 100 then
      return .string (Number.fixedText (Double.toIntTrunc places).toNat x)
    else raise .fixedDigits

/-- The first of two numbers if it is better than the second, the second otherwise; so the last of
equal ones is kept. -/
def better (isBetter : Float → Float → Bool) (x y : Float) : Float :=
  if x.isNaN || y.isNaN then 0 / 0 else if isBetter x y then x else y

/-- Carries out a mathematical function. -/
def callMath (f : MathFunction) (args : Array Value) : Script Value := do
  let x : Script Float := toNumber (Args.item args 0)
  let best (isBetter : Float → Float → Bool) (start : Float) : Script Float := do
    return (← args.mapM toNumber).foldl (better isBetter) start
  match f with
  | .max => return .number (← best (fun x y => y < x) (-1 / 0))
  | .min => return .number (← best (fun x y => x < y) (1 / 0))
  | .floor => return .number (← x).floor
  | .ceil => return .number (← x).ceil
  | .round => return .number ((← x) + 0.5).floor
  | .trunc => return .number (Double.trunc (← x))
  | .sign =>
    let x ← x
    return .number (if x.isNaN || x == 0 then x else if x < 0 then -1 else 1)
  | .abs => return .number (← x).abs
  | .pow => return .number ((← x).pow (← toNumber (Args.item args 1)))
  | .sqrt => return .number (← x).sqrt

end Espalier.Script
