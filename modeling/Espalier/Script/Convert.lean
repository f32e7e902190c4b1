import Espalier.Decimal.Read
import Espalier.Script.Machine
import Espalier.Text.Letter

/-!
# Conversions

A value as a text and as a number. The text of an array is made of the texts of its
items, and its number is that of its only item, so neither exists for an array that contains itself.
The text of a container that is being written to does not exist either.
-/

namespace Espalier.Script

/-- A value that has items or properties of its own. -/
inductive Container
  | array (id : ArrayId)
  | object (id : ObjectId)
  deriving DecidableEq, Repr

/-! ### Numbers -/

/-- A whole number of sixty-four bits in a base, with an optional sign in front. -/
def wordOf? (base : Nat) (cs : List Char) : Option Nat := do
  let cs := match cs with
    | '+' :: ds => ds
    | ds => ds
  if cs.isEmpty then none
  else
    let n ← cs.foldlM (fun n c => (Text.digitValue? base c).map (n * base + ·)) 0
    if n < Nat.pow 2 64 then some n else none

/-- What may stand in the numeral of a text. -/
def isNumeralChar (c : Char) : Bool :=
  c.isDigit || c == '.' || c == 'e' || c == 'E' || c == '+' || c == '-'

/-- The number that a text denotes. -/
def numberOfString (s : String) : Float :=
  let nan : Float := 0 / 0
  let word (base : Nat) (digits : List Char) : Float :=
    ((wordOf? base digits).map Double.ofNat).getD nan
  match Text.trim s.toList with
  | [] => 0
  | '0' :: 'x' :: ds | '0' :: 'X' :: ds => word 16 ds
  | '0' :: 'o' :: ds | '0' :: 'O' :: ds => word 8 ds
  | '0' :: 'b' :: ds | '0' :: 'B' :: ds => word 2 ds
  | cs =>
    let text := String.ofList cs
    if text == "Infinity" || text == "+Infinity" then 1 / 0
    else if text == "-Infinity" then -1 / 0
    else if cs.all isNumeralChar then (Number.read? cs).getD nan
    else nan

namespace Machine

/-- More containers than this cannot lie inside each other. -/
def nesting (m : Machine) : Nat := m.arrays.size + m.objects.size + 1

/-- The number that a value denotes, through at most `fuel` arrays. -/
def numberWithin? (m : Machine) : (fuel : Nat) → Value → Option Float
  | _, .undefined => some (0 / 0)
  | _, .null => some 0
  | _, .bool b => some (if b then 1 else 0)
  | _, .number x => some x
  | _, .string s => some (numberOfString s)
  | 0, .array _ => none
  | fuel + 1, .array a =>
    match (m.items a).toList with
    | [] => some 0
    | [v] => m.numberWithin? fuel v
    | _ => some (0 / 0)
  | _, _ => some (0 / 0)

/-- The text of a value, through at most `fuel` containers. There is none of a container that is
`locked`. -/
def textWithin? (m : Machine) (locked : Option Container) : (fuel : Nat) → Value → Option String
  | _, .undefined => some "undefined"
  | _, .null => some "null"
  | _, .bool b => some (if b then "true" else "false")
  | _, .number x => some (Number.text x)
  | _, .string s => some s
  | 0, .array _ => none
  | fuel + 1, .array a =>
    if locked == some (.array a) then none
    else do
      let texts ← (m.items a).toList.mapM fun v =>
        if v.isNullish then some "" else m.textWithin? locked fuel v
      return ",".intercalate texts
  | 0, .object _ => none
  | fuel + 1, .object o =>
    if locked == some (.object o) then none
    else
      let object := m.object o
      match object.kind with
      | .error => do
        let part (key whenMissing : String) : Option String :=
          match object.get? key with
          | some v => m.textWithin? locked fuel v
          | none => some whenMissing
        let name ← part "name" "Error"
        let message ← part "message" ""
        return if message.isEmpty then name else name ++ ": " ++ message
      | _ => some "[object Object]"
  | _, .function f => some ("function " ++ f.name ++ "() \x7b [code] \x7d")
  | _, .native f => some ("function " ++ f.name ++ "() \x7b [native code] \x7d")
  | _, .regex r => some r.text
  | _, .node _ => some "[object Object]"
  | _, .path _ => some "[object Object]"

/-- The number that a value denotes. -/
def number? (m : Machine) (v : Value) : Option Float := m.numberWithin? m.nesting v

/-- The text of a value. -/
def text? (m : Machine) (v : Value) (locked : Option Container := none) : Option String :=
  m.textWithin? locked m.nesting v

end Machine

/-- The number that a value denotes. -/
def toNumber (v : Value) : Script Float := do
  match v with
  | .number x => return x
  | v =>
    match (← get).number? v with
    | some x => return x
    | none => giveUp .aborted

/-- The text of a value, while a container may be locked. -/
def toTextLocking (locked : Option Container) (v : Value) : Script String := do
  match v with
  | .string s => return s
  | v =>
    match (← get).text? v locked with
    | some s => return s
    | none => giveUp .aborted

/-- The text of a value. -/
def toText (v : Value) : Script String := toTextLocking none v

/-- A number as a word of thirty-two bits: the whole part, as far as it fits. -/
def toInt32 (x : Float) : Int32 :=
  if x.isNaN || x.isInf then 0 else Int32.ofInt (Double.toIntTrunc x)

/-- A whole number. -/
def ofInt (n : Int) : Float := Double.ofRatio (n < 0) n.natAbs 1

/-- The number that a truth value, a number or a text denotes. -/
def plainNumber? : Value → Option Float
  | .bool b => some (if b then 1 else 0)
  | .number x => some x
  | .string s => some (numberOfString s)
  | _ => none

/-- Whether both values denote numbers without looking into containers, and the same number. -/
def equalAsNumbers (v w : Value) : Bool :=
  match plainNumber? v, plainNumber? w with
  | some x, some y => x == y
  | _, _ => false

/-- Equality of values of different kinds: nothing equals nothing, and truth values, numbers and
texts are compared as numbers. -/
def looseEqual (v w : Value) : Bool :=
  if v.isNullish && w.isNullish then true
  else if v.isNullish || w.isNullish then false
  else
    match v, w with
    | .number _, .string _ | .string _, .number _ | .bool _, _ | _, .bool _ => equalAsNumbers v w
    | v, w => v.strictEqual w

/-- What is shown of a failure. -/
def Machine.failureText? (m : Machine) : Failure → Option String
  | .thrown v =>
    let message? : Option Value :=
      match v with
      | .object o => (m.object o).get? "message"
      | _ => none
    m.text? (message?.getD v)
  | .raised fault => some fault.message
  | .exhausted what => some what.message
  | .plugin cause => some cause.message
  | .input cause => some cause.message
  | .aborted => none

/-- The value that a handler gets of a failure. -/
def caughtValue : Failure → Script Value
  | .thrown v => return v
  | .raised fault => newError fault.kind fault.message
  | failure => giveUp failure

end Espalier.Script
