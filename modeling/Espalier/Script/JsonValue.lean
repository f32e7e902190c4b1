import Espalier.Json.Read
import Espalier.Script.Index
import Espalier.Script.NodeValue

/-!
# JSON texts of values

Values as JSON texts and back. Functions and nothings are left out of objects and are `null` in
arrays; a node becomes an object with its fields.
-/

namespace Espalier.Script

/-- How deep containers may lie in each other in a JSON text. -/
def maxJsonDepth : Nat := 128

namespace Machine

/-- A value as a JSON value, if it has one, through less than `room` levels. -/
def jsonWithin (m : Machine) : (room : Nat) → Value → Except Fault (Option Json)
  | 0, _ => .error .circularJson
  | room + 1, v =>
    match v with
    | .undefined | .function _ | .native _ => .ok none
    | .null => .ok (some .null)
    | .bool b => .ok (some (.bool b))
    | .number x => .ok (some (.number x))
    | .string s => .ok (some (.string s))
    | .array a => do
      let items ← (m.items a).toList.mapM fun v => return (← m.jsonWithin room v).getD .null
      return some (.array items)
    | .object o => do
      let object := m.object o
      let properties := if object.kind == .error then [] else object.properties
      let members ← properties.mapM fun (name, v) => return (← m.jsonWithin room v).map (name, ·)
      return some (.object (members.filterMap id))
    | .regex _ | .path _ => .ok (some (.object []))
    | .node steps => .ok (some (((m.nodeAt? steps).map (·.tree.json)).getD .null))

/-- A value as a JSON value, if it has one. -/
def json (m : Machine) (v : Value) : Except Fault (Option Json) := m.jsonWithin (maxJsonDepth + 1) v

end Machine

/-- What the lines of a JSON text are indented by: at most ten blanks, or ten characters of a
text. -/
def jsonIndent : Value → String
  | .number x => if 1 ≤ x then String.ofList (List.replicate (clampedIndex 10 x) ' ') else ""
  | .string s => String.ofList (s.toList.take 10)
  | _ => ""

/-- The JSON text of a value; nothing if it has none. -/
def stringify (v space : Value) : Script Value := do
  match (← get).json v with
  | .error fault => raise fault
  | .ok none => return .undefined
  | .ok (some json) =>
    let indent := jsonIndent space
    return .string (if indent.isEmpty then json.text else json.pretty indent)

mutual

/-- The value that a JSON value denotes. -/
def ofJson : Json → Script Value
  | .null => return .null
  | .bool b => return .bool b
  | .number x => return .number x
  | .string s => return .string s
  | .array items => do newArray (← itemsOfJson #[] items)
  | .object members => do newObject (.ofList (← membersOfJson [] members))

def itemsOfJson (done : Array Value) : List Json → Script (Array Value)
  | [] => return done
  | j :: js => do itemsOfJson (done.push (← ofJson j)) js

def membersOfJson (done : List (String × Value)) :
    List (String × Json) → Script (List (String × Value))
  | [] => return done.reverse
  | (name, j) :: js => do membersOfJson ((name, ← ofJson j) :: done) js

end

/-- The value that a JSON text denotes. -/
def parseJson (source : String) : Script Value := do
  match (← get).engines.readJson source with
  | .error cause => raise (.json source cause)
  | .ok json => ofJson json

end Espalier.Script
