import Espalier.Script.StringCall

/-!
# Methods of arrays

Methods that call a function do so for the items that the array had when the method was called.
-/

namespace Espalier.Script

/-- A function that was given as an argument. -/
def callable (v : Value) : Script Unit := do
  if !v.isCallable then raise (.notAFunction (← toText v))

/-- Equality of items: a number that is none equals itself. -/
def Value.sameItem (v w : Value) : Bool :=
  v.strictEqual w ||
    match v, w with
    | .number x, .number y => x.isNaN && y.isNaN
    | _, _ => false

/-- The result of a method that has looked at all items. `kept` are the values it has collected. -/
def IterationMethod.atEnd (method : IterationMethod) (kept : Array Value) : Script Value :=
  match method with
  | .map | .filter => newArray kept
  | .forEach | .find => return .undefined
  | .findIndex => return .number (-1)
  | .some => return .bool false
  | .every => return .bool true

/-- What the answer of the function for an item does: it settles the result, or some value is
collected. -/
def IterationMethod.take (method : IterationMethod) (i : Nat) (item answer : Value) :
    Value ⊕ Option Value :=
  let settling (condition : Bool) (result : Value) : Value ⊕ Option Value :=
    if condition then .inl result else .inr Option.none
  match method with
  | .map => .inr (Option.some answer)
  | .filter => .inr (if answer.truthy then Option.some item else Option.none)
  | .forEach => .inr Option.none
  | .find => settling answer.truthy item
  | .findIndex => settling answer.truthy (.nat i)
  | .some => settling answer.truthy (.bool true)
  | .every => settling (!answer.truthy) (.bool false)

/-- Calls a function for items in turn, the first of them at place `i`. -/
def iterating (call : Caller) (method : IterationMethod) (callback array : Value)
    (kept : Array Value) (i : Nat) : List Value → Script Value
  | [] => method.atEnd kept
  | item :: rest => do
    let answer ← call callback .undefined #[item, .nat i, array]
    match method.take i item answer with
    | .inl result => return result
    | .inr v? => iterating call method callback array (v?.elim kept kept.push) (i + 1) rest

/-- Calls a function with what it made of the items before and the next item. -/
def reducing (call : Caller) (callback array acc : Value) (i : Nat) : List Value → Script Value
  | [] => return acc
  | item :: rest => do
    let acc ← call callback .undefined #[acc, item, .nat i, array]
    reducing call callback array acc (i + 1) rest

/-- The texts of items, nothing for the ones that are nothing, with a text between them. -/
def joining (separator : String) (items : Array Value) : Script String := do
  let parts ← items.toList.mapM fun v => if v.isNullish then pure "" else toText v
  return separator.intercalate parts

/-- Carries out a method of an array. -/
def callArray (call : Caller) (method : ArrayMethod) (a : ArrayId) (args : Array Value) :
    Script Value := do
  let items : Script (Array Value) := return (← get).items a
  match method with
  | .toString => return .string (← toText (.array a))
  | .push =>
    let size := (← items).size + args.size
    if maxLength < size then raise .arrayLength
    modifyItems a (· ++ args)
    return .nat size
  | .pop =>
    let last := (← items).back?
    modifyItems a Array.pop
    return last.getD .undefined
  | .shift =>
    let first := (← items)[0]?
    modifyItems a (·.eraseIdxIfInBounds 0)
    return first.getD .undefined
  | .unshift =>
    modifyItems a (args ++ ·)
    return .nat (← items).size
  | .join =>
    let separator ←
      match Args.item args 0 with
      | .undefined => pure ","
      | v => toText v
    return .string (← joining separator (← items))
  | .iterate method =>
    let callback := Args.item args 0
    callable callback
    iterating call method callback (.array a) #[] 0 (← items).toList
  | .reduce =>
    let callback := Args.item args 0
    callable callback
    match args[1]?, (← items).toList with
    | some start, all => reducing call callback (.array a) start 0 all
    | none, first :: rest => reducing call callback (.array a) first 1 rest
    | none, [] => raise .emptyReduce
  | .includes =>
    let v := Args.item args 0
    return .bool ((← items).any (·.sameItem v))
  | .indexOf =>
    let v := Args.item args 0
    return .placeOrNone ((← items).findIdx? (·.strictEqual v))
  | .slice =>
    let all ← items
    let (start, stop) ← Args.range args all.size
    newArray (all.extract start stop)
  | .concat =>
    let all ← args.foldlM (fun all v => do
      match v with
      | .array b => return all ++ (← get).items b
      | v => return all.push v) (← items)
    newArray all
  | .reverse =>
    modifyItems a Array.reverse
    return .array a

end Espalier.Script
