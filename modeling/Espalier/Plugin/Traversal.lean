import Espalier.Plugin.Visitor

/-!
# Traversal

A visitor walks over the program under work, depth first, and the program may change under its feet:
the functions that it calls take nodes out and put others in. A node that has left a list makes room
for the next one, which is then visited in its place.
-/

namespace Espalier.Plugin

open Script

/-- What the visit of a node asks of the visit of the node above. -/
inductive Flow
  | onward
  /-- The node at this depth has left the program. -/
  | removed (depth : Nat)
  | stop
  deriving DecidableEq, Repr, Inhabited

/-- Calls functions for a path, up to the first that settles how the visit goes on. -/
def callHandlers (call : Caller) (id : PathId) (state : Value) : List Value → Script (Option Flow)
  | [] => return none
  | f :: fs => do
    let _ ← call f state #[.path id, state]
    let m ← get
    let p := m.path id
    if m.isStopped then return some .stop
    else
      match p.removedAt with
      | some depth => return some (.removed depth)
      | none => if p.isReplaced then return none else callHandlers call id state fs

/-- Calls the functions for a path in a phase. -/
def dispatch (call : Caller) (handlers : Handlers) (phase : Phase) (id : PathId) (state : Value) :
    Script (Option Flow) := do
  let type := ((← get).path id).type
  callHandlers call id state (handlers.find phase type)

/-- Visits the items of a list from place `i` on. -/
def visitItems (visit : List Step → Script Flow) (steps : List Step) (field : String) :
    (room : Nat) → (i : Nat) → Script Flow
  | 0, _ => giveUp .aborted
  | room + 1, i => do
    if (← get).itemCount steps field ≤ i then return .onward
    match ← visit (steps ++ [⟨field, some i⟩]) with
    | .onward => visitItems visit steps field room (i + 1)
    | .removed depth =>
      if depth = steps.length + 1 then visitItems visit steps field room i
      else return .removed depth
    | .stop => return .stop

/-- Visits the children in some fields; `true` marks a list. -/
def visitFields (visit : List Step → Script Flow) (room : Nat) (steps : List Step) :
    List (String × Bool) → Script Flow
  | [] => return .onward
  | (field, isList) :: rest => do
    let flow ←
      if isList then visitItems visit steps field room 0 else visit (steps ++ [⟨field, none⟩])
    match flow with
    | .onward => visitFields visit room steps rest
    | .removed depth =>
      if depth = steps.length + 1 then visitFields visit room steps rest else return .removed depth
    | .stop => return .stop

/-- The fields of a node that hold nodes; `true` marks a list. -/
def childFields (n : Node) : List (String × Bool) :=
  n.fields.filterMap fun (name, field) =>
    match field with
    | .child _ => some (name, false)
    | .list _ => some (name, true)
    | _ => none

/-- Visits a node and the nodes below it. -/
def visit (call : Caller) (handlers : Handlers) (state : Value) (room : Nat) :
    (fuel : Nat) → List Step → Script Flow
  | 0, _ => giveUp .aborted
  | fuel + 1, steps => do
    let some type := (← get).typeAt? steps | return .onward
    let id ← newPath { steps, type }
    if let some flow ← dispatch call handlers .enter id state then return flow
    if ((← get).path id).isSkipped then return .onward
    modifyPath id ({ · with isReplaced := false })
    let some node := (← get).nodeAt? steps | return .onward
    match ← visitFields (visit call handlers state room fuel) room steps (childFields node) with
    | .onward => return (← dispatch call handlers .exit id state).getD .onward
    | flow => return flow

/-- No visit goes deeper than this, and no list takes more rounds: each round goes on in a list,
which lies in a memory with addresses of 64 bits, or follows the removal of an item, which takes one
of the steps, and these are counted with 64 bits. -/
def traversalRoom (p : Program) : Nat := p.tree.preorder.length + 1 + Nat.pow 2 65

/-- Walks over the program under work. -/
def traverse (call : Caller) (handlers : Handlers) (state : Value) : Script Unit := do
  modify ({ · with isStopped := false })
  let room := (← get).target.elim 0 traversalRoom
  let _ ← visit call handlers state room room []

end Espalier.Plugin
