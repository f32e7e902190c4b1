import Espalier.Script.Convert
import Espalier.Script.Index

/-!
# Operators

What operators make of the values of their operands.
-/

namespace Espalier.Script

/-- What makes a sum one of numbers. -/
def isSummand : Value → Bool
  | .number _ | .bool _ | .null | .undefined => true
  | _ => false

/-- A text that is not too long. -/
def boundedText (s : String) : Script Value :=
  if maxLength < s.utf8ByteSize then raise .stringLength else return .string s

/-- The sum of two numbers, or the texts of both values one after the other. -/
def add (v w : Value) : Script Value := do
  if isSummand v && isSummand w then return .number ((← toNumber v) + (← toNumber w))
  else
    let s ← toText v
    let t ← toText w
    boundedText (s ++ t)

/-- Whether an order of two values satisfies a relation: texts are in the order of their characters,
all else in the order of numbers. -/
def compareWith (texts : String → String → Bool) (numbers : Float → Float → Bool) (v w : Value) :
    Script Value := do
  match v, w with
  | .string s, .string t => return .bool (texts s t)
  | v, w => return .bool (numbers (← toNumber v) (← toNumber w))

/-- The number that a function makes of two numbers. -/
def withNumbers (f : Float → Float → Float) (v w : Value) : Script Value :=
  return .number (f (← toNumber v) (← toNumber w))

/-- The number that a function makes of two words. -/
def withWords (f : Int32 → Int32 → Int) (v w : Value) : Script Value :=
  return .number (ofInt (f (toInt32 (← toNumber v)) (toInt32 (← toNumber w))))

/-- Whether a value is an error of the kind that a function makes. -/
def instanceOf (v type : Value) : Script Bool := do
  match type with
  | .native (.global (.error kind)) =>
    match v with
    | .object o =>
      let object := (← get).object o
      if object.kind != .error then return false
      else if kind = .error then return true
      else
        match object.get? "name" with
        | some name => return (← toText name) == kind.text
        | none => return false
    | _ => return false
  | .native _ | .function _ => return false
  | _ => raise .instanceOfOperand

/-- What an operator makes of two values, the search for a property apart. -/
def binary (op : BinaryOp) (hasProperty : Value → Value → Script Bool) (v w : Value) :
    Script Value :=
  match op with
  | .add => add v w
  | .sub => withNumbers (· - ·) v w
  | .mul => withNumbers (· * ·) v w
  | .div => withNumbers (· / ·) v w
  | .mod => withNumbers Double.remainder v w
  | .pow => withNumbers Float.pow v w
  | .equal => return .bool (looseEqual v w)
  | .notEqual => return .bool (!looseEqual v w)
  | .strictEqual => return .bool (v.strictEqual w)
  | .strictNotEqual => return .bool (!v.strictEqual w)
  | .less => compareWith (fun s t => s < t) (fun x y => x < y) v w
  | .lessEqual => compareWith (fun s t => !(t < s)) (fun x y => x ≤ y) v w
  | .greater => compareWith (fun s t => t < s) (fun x y => y < x) v w
  | .greaterEqual => compareWith (fun s t => !(s < t)) (fun x y => y ≤ x) v w
  | .shiftLeft => withWords (fun a b => (a <<< b).toInt) v w
  | .shiftRight => withWords (fun a b => (a >>> b).toInt) v w
  | .shiftRightZero => withWords (fun a b => (a.toUInt32 >>> b.toUInt32).toNat) v w
  | .bitOr => withWords (fun a b => (a ||| b).toInt) v w
  | .bitXor => withWords (fun a b => (a ^^^ b).toInt) v w
  | .bitAnd => withWords (fun a b => (a &&& b).toInt) v w
  | .isIn => return .bool (← hasProperty v w)
  | .instanceOf => return .bool (← instanceOf v w)

/-- What an operator in front of a value makes of it. -/
def unary (op : UnaryOp) (v : Value) : Script Value := do
  match op with
  | .minus => return .number (-(← toNumber v))
  | .plus => return .number (← toNumber v)
  | .not => return .bool (!v.truthy)
  | .bitNot => return .number (ofInt (~~~(toInt32 (← toNumber v))).toInt)
  | .typeof => return .string v.typeName
  | .void | .delete => return .undefined

end Espalier.Script
