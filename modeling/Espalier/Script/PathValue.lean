import Espalier.Grammar
import Espalier.Script.NodeValue

/-!
# Paths in scripts

A visitor gets a path for the node that it visits. A path tells where its node stands, takes the
node out of the program and puts other code in its place.
-/

namespace Espalier.Script

/-- A property of a path: where its node stands, what has been asked for, and its methods. -/
def pathProperty (id : PathId) (key : String) : Script Value := do
  let p := (← get).path id
  let last := p.steps.getLast?
  match key with
  | "node" => return if p.isRemoved then .null else .node p.steps
  | "type" => return .string p.type.text
  | "parent" => return if last.isSome then .node p.steps.dropLast else .null
  | "key" =>
    match last with
    | some ⟨_, some i⟩ => return .nat i
    | some ⟨field, none⟩ => return .string field
    | none => return .null
  | "listKey" =>
    match last with
    | some ⟨field, some _⟩ => return .string field
    | _ => return .undefined
  | "removed" => return .bool p.isRemoved
  | "shouldSkip" => return .bool p.isSkipped
  | "shouldStop" => return .bool (← get).isStopped
  | key =>
    match PathMethod.ofText? key with
    | some method => newMethod (.path method id)
    | none =>
      match isQuestion? key with
      | some type => newMethod (.is type (some id))
      | none => return .undefined
where
  /-- The type that a property `isX` asks for. -/
  isQuestion? (key : String) : Option VisitorKey :=
    match key.toList with
    | 'i' :: 's' :: name => VisitorKey.ofText? (String.ofList name)
    | _ => none

/-- Whether the node of a path, or else the first argument, is of a type; the argument after it may
ask for values of properties. -/
def isOfType (key : VisitorKey) (this : Option PathId) (args : Array Value) : Script Bool := do
  match this with
  | some id =>
    let p := (← get).path id
    if p.isRemoved then return false else nodeIs key p.steps (args.getD 0 .undefined)
  | none =>
    match args.getD 0 .undefined with
    | .node steps => nodeIs key steps (args.getD 1 .undefined)
    | _ => return false

/-- Takes a node out of the program. Its steps are given from the node up. With the only expression
of a statement goes the statement, with the last variable of a declaration in a list the
declaration. Gives the depth of what left the program. -/
def removeNode : List Step → Script Nat
  | [] => raise .removeProgram
  | last :: above => do
    let parent := above.reverse
    let type := (← nodeAt (parent ++ [last]) "remove").type
    let parentType := (← nodeAt parent "remove").type
    match last.index with
    | some i =>
      editProgram (.removedNode "remove") (·.removeIn? parent last.field i)
      let isEmptied := parentType == .variableDeclaration &&
        (← get).itemCount parent last.field == 0
      if isEmptied && above.head?.any (·.index.isSome) then removeNode above
      else return parent.length + 1
    | none =>
      if parentType == .expressionStatement then removeNode above
      else raise (.removeFrom type parentType last.field)

/-- Takes the node of a path out of the program. -/
def removePath (id : PathId) : Script Unit := do
  let p := (← get).path id
  if p.isRemoved then raise .removedPath
  let depth ← removeNode p.steps.reverse
  modifyPath id ({ · with removedAt := some depth })

/-- Puts an expression in place of the node of a path. -/
def replacePath (id : PathId) (source : String) : Script Unit := do
  let p := (← get).path id
  if p.isRemoved then raise .removedPath
  match Expr.parse source with
  | .error cause => raise (.replacement cause)
  | .ok e =>
    editProgram .replaceProgram (·.replaceIn? p.steps e)
    let type := (← nodeAt p.steps "replaceWithSourceString").type
    modifyPath id ({ · with type, isReplaced := true })

/-- Calls a method of a path. -/
def callPathMethod (method : PathMethod) (id : PathId) (args : Array Value) : Script Value := do
  match method with
  | .skip => modifyPath id ({ · with isSkipped := true })
  | .stop => modify ({ · with isStopped := true })
  | .remove => removePath id
  | .replaceWithSource =>
    let source ← match args[0]? with
      | some v => toText v
      | none => pure ""
    replacePath id source
  return .undefined

/-- The edit that a method of a path makes. -/
def PathMethod.edit? (method : PathMethod) (id : PathId) : Option Edit :=
  match method with
  | .remove => some (.removal id)
  | .replaceWithSource => some (.replacement id)
  | .skip | .stop => none

end Espalier.Script
