import Espalier.Json
import Espalier.Script.Convert

/-!
# Nodes in scripts

A node of the program under work is looked up anew whenever a script asks something of it, so that
every change is seen at once, whoever made it. Where the steps lead nowhere any more the node counts
as removed.
-/

namespace Espalier

mutual

/-- A node as a JSON value: its type and its place, then its fields. -/
def Tree.json : Tree → Json
  | ⟨type, span, fields⟩ =>
    .object
      (("type", .string type.text) :: ("start", .number (Double.ofNat span.start)) ::
        ("end", .number (Double.ofNat span.stop)) :: fieldsJson fields)

def fieldsJson : List TreeField → List (String × Json)
  | [] => []
  | .value name (.string s) :: rest => (name, .string s) :: fieldsJson rest
  | .value name (.number x) :: rest => (name, .number x) :: fieldsJson rest
  | .value name (.bool b) :: rest => (name, .bool b) :: fieldsJson rest
  | .absent name :: rest => (name, .null) :: fieldsJson rest
  | .child name t :: rest => (name, t.json) :: fieldsJson rest
  | .list name ts :: rest => (name, .array (treesJson ts)) :: fieldsJson rest

def treesJson : List Tree → List Json
  | [] => []
  | t :: ts => t.json :: treesJson ts

end

namespace Script

/-- The type of the node that steps lead to. -/
def Machine.typeAt? (m : Machine) (steps : List Step) : Option NodeType :=
  (m.nodeAt? steps).map (·.type)

/-- The number of items in a list field of the node that steps lead to; none if there is no such
field. -/
def Machine.itemCount (m : Machine) (steps : List Step) (field : String) : Nat :=
  ((m.nodeAt? steps).bind (·.items? field)).elim 0 (·.slots.length)

/-- The node that steps lead to. -/
def nodeAt (steps : List Step) (key : String) : Script Node := do
  orRaise (.removedNode key) ((← get).nodeAt? steps)

def Value.ofScalar : Scalar → Value
  | .string s => .string s
  | .number x => .number x
  | .bool b => .bool b

/-- A property of a node: what every node has, or a field. -/
def nodeProperty (steps : List Step) (key : String) : Script Value := do
  let node ← nodeAt steps key
  match key with
  | "type" => return .string node.type.text
  | "start" => return .nat node.span.start
  | "end" => return .nat node.span.stop
  | key =>
    match node.field? key with
    | some (.child _) => return .node (steps ++ [⟨key, none⟩])
    | some (.list items) =>
      newArray ((Array.range items.slots.length).map fun i => .node (steps ++ [⟨key, some i⟩]))
    | some (.value v _) | some (.fixed v) => return .ofScalar v
    | some .absent => return .null
    | none => return .undefined

/-- The names of the properties of a node. -/
def nodeKeys (steps : List Step) : Script (List String) := do
  let node ← nodeAt steps "keys"
  return ["type", "start", "end"] ++ node.fields.map (·.1)

/-- Edits the program under work in place: the program that the edit leaves is then the one under
work, whether the edit succeeds or not. -/
def editProgram (fault : Fault) (edit : Program → Option (Except EditError Unit × Program)) :
    Script Unit := do
  let (given, left) ← orRaise fault ((← get).target.bind edit)
  modify fun m => { m with target := some left }
  match given with
  | .ok () => return
  | .error cause => raise (.edit cause)

/-- Changes a field of a node that holds a text, a number or a truth value. -/
def setNodeProperty (steps : List Step) (key : String) (v : Value) : Script Unit := do
  let type := (← nodeAt steps key).type
  if key == "type" then raise (.changeType type)
  let scalar : Scalar ←
    match v with
    | .string s => pure (.string s)
    | .number x => pure (.number x)
    | .bool b => pure (.bool b)
    | v => raise (.assignToNode v.typeName type key)
  editProgram (.removedNode key) (·.setScalarIn? steps key scalar)

/-- Whether the node that steps lead to is of a type and has the given values in some of its
properties. -/
def nodeIs (key : VisitorKey) (steps : List Step) (expected : Value) : Script Bool := do
  if !((← get).typeAt? steps).any key.covers then return false
  else
    match expected with
    | .object o =>
      ((← get).object o).properties.allM fun (name, v) => do
        return (← nodeProperty steps name).strictEqual v
    | _ => return true

end Script

end Espalier
