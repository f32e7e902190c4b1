import Espalier.Script.ArrayCall
import Espalier.Script.Console
import Espalier.Script.JsonValue
import Espalier.Script.NumberCall
import Espalier.Script.Property

/-!
# Calling functions that are not code of the script

`callNative` calls any of them, `constructNative` makes errors by `new`.
-/

namespace Espalier.Script

/-- A new error; without a message, or with nothing as a message, the message is empty. -/
def makeError (kind : ErrorKind) (args : Array Value) : Script Value := do
  let message ←
    match Args.item args 0 with
    | .undefined => pure ""
    | v => toText v
  newError kind message

/-- What a function on properties collects of one of them. -/
def ObjectFunction.collect (f : ObjectFunction) (v : Value) (key : String) : Script Value := do
  match f with
  | .keys => return .string key
  | .values => getProperty v (.string key)
  | _ => newArray #[.string key, ← getProperty v (.string key)]

/-- Copies the properties that a value lists to another one. -/
def assignFrom (target source : Value) : Script Unit := do
  (← ownKeys source).forM fun key => do
    setProperty target (.string key) (← getProperty source (.string key))

/-- Calls a function on properties. -/
def callObject (f : ObjectFunction) (args : Array Value) : Script Value := do
  let v := Args.item args 0
  match f with
  | .keys | .values | .entries =>
    if v.isNullish then raise .nullishToObject
    newArray (← (← ownKeys v).mapM (f.collect v)).toArray
  | .assign =>
    (args.toList.drop 1).forM (assignFrom v)
    return v
  | .freeze => return v

/-- Calls a function that has no receiver. -/
def callGlobal (f : Global) (args : Array Value) : Script Value := do
  let v := Args.item args 0
  match f with
  | .string =>
    match args[0]? with
    | none => return .string ""
    | some v => return .string (← toText v)
  | .number =>
    match args[0]? with
    | none => return .number 0
    | some v => return .number (← toNumber v)
  | .boolean => return .bool v.truthy
  | .parseInt =>
    let text ← toText v
    let base ←
      match Args.item args 1 with
      | .undefined => pure 0
      | base => do pure (toInt32 (← toNumber base)).toInt
    return .number (parseInt text base)
  | .parseFloat => return .number (parseFloat (← toText v))
  | .isNaN => return .bool (← toNumber v).isNaN
  | .isFinite => return .bool (← toNumber v).isFinite
  | .error kind => makeError kind args
  | .console f =>
    log f.level args
    return .undefined
  | .stringify => stringify v (Args.item args 2)
  | .parseJson => parseJson (← toText v)
  | .math f => callMath f args
  | .object f => callObject f args
  | .isArray =>
    match v with
    | .array _ => return .bool true
    | _ => return .bool false
  | .arrayFrom => newArray (← iterate v)
  | .assertVersion => return .undefined

/-- Calls a method of a regular expression. -/
def callRegex (method : RegexMethod) (r : RegexValue) (args : Array Value) : Script Value := do
  match method with
  | .toString => return .string r.text
  | .test =>
    let subject ←
      match args[0]? with
      | some v => toText v
      | none => pure ""
    return .bool (← r.test subject)

/-- Calls a function that is not code of the script. -/
def callNative (call : Caller) (f : Native) (args : Array Value) : Script Value := do
  match f with
  | .global f => callGlobal f args
  | .bound _ (.string method s) => callString call method s args
  | .bound _ (.array method a) => callArray call method a args
  | .bound _ (.number method x) => callNumber method x args
  | .bound _ (.regex method r) => callRegex method r args
  | .bound _ (.path method p) =>
    match method.edit? p with
    | some edit => editing edit (callPathMethod method p args)
    | none => callPathMethod method p args
  | .bound _ (.is key this) => return .bool (← isOfType key this args)

end Espalier.Script
