import Espalier.Script.Index
import Espalier.Script.PathValue
import Espalier.Script.RegexValue

/-!
# Properties

Reading and writing the properties of values, listing their names, and the items that a value gives
when it is iterated over.
-/

namespace Espalier.Script

/-- A method of a receiver, or nothing if there is none of the name. -/
def methodOr (method : Option Method) : Script Value :=
  match method with
  | some method => newMethod method
  | none => return .undefined

/-- A property of an object that every value without a place of its own has. -/
def objectProperty (o : ObjectId) (name : String) : Script Value := do
  let object := (← get).object o
  match object.get? name, object.kind with
  | some v, _ => return v
  | none, .types => methodOr ((pathProperty.isQuestion? name).map (.is · none))
  | none, _ => return .undefined

/-- The value of a property. -/
def getProperty (v key : Value) : Script Value := do
  match v with
  | .undefined => raise (.readingOf "undefined" (← toText key))
  | .null => raise (.readingOf "null" (← toText key))
  | .node steps => nodeProperty steps (← toText key)
  | .path id => pathProperty id (← toText key)
  | .object o => objectProperty o (← toText key)
  | .array a =>
    match arrayIndex? key with
    | some i => return ((← get).items a).getD i .undefined
    | none =>
      let name ← toText key
      if name == "length" then return .nat ((← get).items a).size
      else methodOr ((ArrayMethod.ofText? name).map (.array · a))
  | .string s =>
    match arrayIndex? key with
    | some i => return (charAt? s i).elim .undefined .char
    | none =>
      let name ← toText key
      if name == "length" then return .nat s.length
      else methodOr ((StringMethod.ofText? name).map (.string · s))
  | .number x => methodOr ((NumberMethod.ofText? (← toText key)).map (.number · x))
  | .regex r =>
    match ← toText key with
    | "source" => return .string r.source
    | "flags" => return .string r.flags
    | "global" => return .bool r.isGlobal
    | "lastIndex" => return .nat (← lastIndex r)
    | name => methodOr ((RegexMethod.ofText? name).map (.regex · r))
  | .function f =>
    match ← toText key with
    | "name" => return .string f.name
    | "length" => return .nat f.code.params.length
    | _ => return .undefined
  | .native f => return if (← toText key) == "name" then .string f.name else .undefined
  | .bool _ =>
    let _ ← toText key
    return .undefined

/-- An array with `n` items: some are taken away from its end, or nothings are added there. -/
def resize (n : Nat) (items : Array Value) : Array Value :=
  if items.size < n then items ++ Array.replicate (n - items.size) .undefined else items.take n

/-- Gives a property a value. An array is as long as its last index needs; it has no other
properties. The container is locked while the key becomes a text. -/
def setProperty (v key value : Value) : Script Unit := do
  match v with
  | .object o =>
    let name ← toTextLocking (some (.object o)) key
    modifyObject o (·.set name value)
  | .array a =>
    match arrayIndex? key with
    | some i =>
      if maxLength ≤ i then raise .arrayLength
      modifyItems a fun items =>
        (if items.size ≤ i then resize (i + 1) items else items).setIfInBounds i value
    | none =>
      if (← toTextLocking (some (.array a)) key) == "length" then
        match (arrayIndex? value).filter (· < maxLength) with
        | some n => modifyItems a (resize n)
        | none => raise .arrayLength
  | .node steps =>
    let name ← toText key
    editing (.assignment steps name) (setNodeProperty steps name value)
  | .path _ => raise (.assignToPath (← toText key))
  | .undefined => raise (.settingOf "undefined" (← toText key))
  | .null => raise (.settingOf "null" (← toText key))
  | _ => return

/-- Takes a property away. Of a node none can be taken; other values than objects keep theirs. -/
def deleteProperty (v key : Value) : Script Unit := do
  let name ← toText key
  match v with
  | .object o => modifyObject o (·.remove name)
  | .node _ => raise (.deleteFromNode name)
  | _ => return

/-- Whether a value has a property of the name. -/
def hasProperty (key v : Value) : Script Bool := do
  let name ← toText key
  match v with
  | .object o => return (((← get).object o).get? name).isSome
  | .array a =>
    return name == "length" || (arrayIndex? key).any (· < ((← get).items a).size)
  | .node _ | .path _ =>
    match ← getProperty v key with
    | .undefined => return false
    | _ => return true
  | v => raise (.inOperand name (← toText v))

/-- The names of the properties that a value lists. -/
def ownKeys (v : Value) : Script (List String) := do
  let indices (n : Nat) : List String := (List.range n).map toString
  match v with
  | .node steps => nodeKeys steps
  | .object o => return ((← get).object o).keys
  | .array a => return indices ((← get).items a).size
  | .string s => return indices s.length
  | _ => return []

/-- The items that a value gives in turn. -/
def iterate (v : Value) : Script (Array Value) := do
  match v with
  | .array a => return (← get).items a
  | .string s => return (s.toList.map Value.char).toArray
  | .undefined => raise (.notIterable "undefined")
  | .null => raise (.notIterable "null")
  | v => raise (.notIterable v.typeName)

end Espalier.Script
