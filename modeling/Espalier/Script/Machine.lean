import Espalier.Node
import Espalier.Script.Fault

/-!
# The machine that runs scripts

What a run keeps: its budget and what is used of it, the arrays, objects, scopes and paths that the
script has made, the program under work and the lines of the console. All of it stays as it is when
an operation fails, so that a script can catch a failure and go on.

Regular expressions and JSON texts are read by `Engines`, which a run is given like its budget. What
is proved of machines and runs holds with any engines, `Engines.standard` being those that are run.

`Script` is the type of operations on the machine.
-/

namespace Espalier.Script

/-- How far a run may go. -/
structure Budget where
  /-- Statements executed plus functions called. -/
  maxSteps : Nat := 1000000
  maxCallDepth : Nat := 256
  deriving DecidableEq, Repr, Inhabited

/-- What reads regular expressions and JSON texts for scripts. A script gets to see what these give,
and nothing else of them. -/
structure Engines where
  /-- Reads a regular expression, or says why it is none. -/
  readRegex : List Char → Except Regex.Error Regex.Searcher
  /-- Reads a JSON text, or says why it is none. -/
  readJson : String → Except Json.Error Json
  /-- Values that nest deeper than this are refused. -/
  readJson_nestsWithin : ∀ {source : String} {j : Json}, readJson source = .ok j →
    j.NestsWithin Json.maxDepth

/-- The engines that run the program of a pattern, and read JSON texts from left to right. -/
def Engines.standard : Engines where
  readRegex source := (Regex.Matcher.read {} source).map (·.searcher)
  readJson := Json.read
  readJson_nestsWithin := Json.nestsWithin_of_read

/-- The kinds of objects. -/
inductive ObjectKind
  | plain
  | error
  /-- Has a question `isX` for every type and group of nodes. -/
  | types
  deriving DecidableEq, Repr, Inhabited

/-- An object: its properties, in the order in which they were added. -/
structure ObjectData where
  kind : ObjectKind := .plain
  properties : List (String × Value) := []
  deriving Inhabited

namespace ObjectData

/-- The value of a property. -/
def get? (o : ObjectData) (key : String) : Option Value := o.properties.lookup key

/-- Gives a property a value, after the others if it is new. -/
def setIn (key : String) (value : Value) : List (String × Value) → List (String × Value)
  | [] => [(key, value)]
  | (k, v) :: rest => if k == key then (k, value) :: rest else (k, v) :: setIn key value rest

def set (o : ObjectData) (key : String) (value : Value) : ObjectData :=
  { o with properties := setIn key value o.properties }

def remove (o : ObjectData) (key : String) : ObjectData :=
  { o with properties := o.properties.filter (·.1 != key) }

def keys (o : ObjectData) : List String := o.properties.map (·.1)

/-- An object with the given properties, of which the last of a name counts. -/
def ofList (properties : List (String × Value)) : ObjectData :=
  properties.foldl (fun o (k, v) => o.set k v) {}

end ObjectData

/-- A variable. -/
structure Binding where
  value : Value
  isMutable : Bool
  deriving Inhabited

/-- The variables of a scope. -/
structure Scope where
  bindings : List (String × Binding) := []
  /-- The receiver, in the scope of a function that has one. -/
  this : Option Value := none
  /-- Whether variables declared with `var` belong here. -/
  isFunction : Bool
  deriving Inhabited

namespace Scope

/-- Puts a binding in place of the one of the same name, or adds it. -/
def declareIn (name : String) (b : Binding) : List (String × Binding) → List (String × Binding)
  | [] => [(name, b)]
  | (n, c) :: rest => if n == name then (n, b) :: rest else (n, c) :: declareIn name b rest

def declare (s : Scope) (name : String) (b : Binding) : Scope :=
  { s with bindings := declareIn name b s.bindings }

def get? (s : Scope) (name : String) : Option Binding := s.bindings.lookup name

end Scope

/-- A path: where its node stands, and what a visitor has asked for. -/
structure PathData where
  steps : List Step
  type : NodeType
  isSkipped : Bool := false
  /-- The depth of the node that left the program with the node of the path. -/
  removedAt : Option Nat := none
  isReplaced : Bool := false
  deriving Inhabited

/-- Whether the node of a path has left the program. -/
def PathData.isRemoved (p : PathData) : Bool := p.removedAt.isSome

/-- An edit that a script makes of the program under work. -/
inductive Edit
  /-- A property of the node that steps lead to was given a value. -/
  | assignment (steps : List Step) (key : String)
  | removal (path : PathId)
  | replacement (path : PathId)
  deriving DecidableEq, Repr

/-- The state of a run. -/
structure Machine where
  budget : Budget
  engines : Engines := .standard
  /-- The steps taken so far. -/
  steps : Nat := 0
  /-- The calls of functions of the script that are under way. -/
  depth : Nat := 0
  /-- The number of the next function. -/
  nextFunction : Nat := 0
  arrays : Array (Array Value) := #[]
  objects : Array ObjectData := #[]
  scopes : Array Scope := #[]
  paths : Array PathData := #[]
  /-- Where each regular expression goes on, in bytes. -/
  lastIndices : Array Nat := #[]
  /-- The code of the functions made so far, by the span of their text. -/
  code : List (Span × Code) := []
  /-- The program that a plugin works on. -/
  target : Option Program := none
  /-- The edits so far that the script has made of it, the last one first. -/
  edits : List Edit := []
  /-- Whether a visitor has stopped the traversal. -/
  isStopped : Bool := false
  console : Array (Level × String) := #[]
  /-- The failures so far that the script could not catch, the last one first. -/
  raised : List Failure := []
  /-- Those of them that what a script does at last has taken the place of. -/
  overruled : List Failure := []

/-- An operation of the machine. -/
abbrev Script := EStateM Failure Machine

/-- The greatest number of items of an array that grows by assignment, and of bytes of a text that
is put together. -/
def maxLength : Nat := Nat.pow 2 24

namespace Machine

def items (m : Machine) (a : ArrayId) : Array Value := m.arrays.getD a.place #[]

def object (m : Machine) (o : ObjectId) : ObjectData := m.objects.getD o.place default

def path (m : Machine) (p : PathId) : PathData := m.paths.getD p.place default

/-- The node that a path of steps leads to in the program under work. -/
def nodeAt? (m : Machine) (steps : List Step) : Option Node := m.target.bind (·.nodeAt? steps)

/-- The value of the innermost variable of a name. -/
def lookup? (m : Machine) (name : String) : Env → Option Value
  | [] => none
  | s :: env =>
    match m.scopes[s.place]?.bind (·.get? name) with
    | some b => some b.value
    | none => m.lookup? name env

/-- The receiver of the innermost function that has one. -/
def this (m : Machine) : Env → Value
  | [] => .undefined
  | s :: env =>
    match m.scopes[s.place]?.bind (·.this) with
    | some v => v
    | none => m.this env

/-- The scope that variables declared with `var` belong to. -/
def functionScope (m : Machine) : Env → Option ScopeId
  | [] => none
  | [s] => some s
  | s :: env => if m.scopes[s.place]?.any (·.isFunction) then some s else m.functionScope env

/-- The scope of the innermost variable of a name. -/
def scopeOf? (m : Machine) (name : String) (env : Env) : Option ScopeId :=
  env.find? fun s => (m.scopes[s.place]?.bind (·.get? name)).isSome

end Machine

/-! ### Failing -/

/-- Raises an error. -/
def raise {α : Type} (fault : Fault) : Script α := throw (.raised fault)

/-- Raises an error if there is no value. -/
def orRaise {α : Type} (fault : Fault) : Option α → Script α
  | some a => return a
  | none => raise fault

/-- Ends the run: the script cannot catch the failure. -/
def giveUp {α : Type} (failure : Failure) : Script α := do
  modify fun m => { m with raised := failure :: m.raised }
  throw failure

/-- Counts a step, and ends the run if there was none left. -/
def tick : Script Unit := do
  let m ← getModify fun m => { m with steps := m.steps + 1 }
  if m.budget.maxSteps ≤ m.steps then giveUp (.exhausted (.steps m.budget.maxSteps))

/-- Runs an operation one call deeper. -/
def callingDeeper {α : Type} (run : Script α) : Script α := fun m =>
  let m := { m with depth := m.depth + 1 }
  let back (m : Machine) : Machine := { m with depth := m.depth - 1 }
  let result :=
    if m.budget.maxCallDepth < m.depth then giveUp (.exhausted .callDepth) m else run m
  match result with
  | .ok a m => .ok a (back m)
  | .error e m => .error e (back m)

/-- Hands a failure to a handler, if it can be caught. What the operation did stays done. -/
def catching {α : Type} (run : Script α) (handler : Failure → Script α) : Script α := fun m =>
  match run m with
  | .ok a m => .ok a m
  | .error e m => if e.isCatchable then handler e m else .error e m

/-- The result of an operation as a value, whether it failed or not; one that cannot be carried out
has none. -/
def outcome {α : Type} (run : Script α) : Script (Except Failure α) := fun m =>
  match run m with
  | .ok a m => .ok (.ok a) m
  | .error .aborted m => .error .aborted m
  | .error e m => .ok (.error e) m

/-- Ends with a result that is known. -/
def resume {α : Type} : Except Failure α → Script α
  | .ok a => return a
  | .error e => throw e

/-- Makes an edit of the program under work, and notes it if it succeeds. -/
def editing {α : Type} (edit : Edit) (run : Script α) : Script α := do
  let a ← run
  modify fun m => { m with edits := edit :: m.edits }
  return a

/-! ### Making and changing values -/

/-- A number that no function has yet. -/
def newFunctionId : Script Nat :=
  modifyGet fun m => (m.nextFunction, { m with nextFunction := m.nextFunction + 1 })

/-- A new array. -/
def newArray (items : Array Value) : Script Value :=
  modifyGet fun m => (.array ⟨m.arrays.size⟩, { m with arrays := m.arrays.push items })

/-- A new object. -/
def newObject (o : ObjectData) : Script Value :=
  modifyGet fun m => (.object ⟨m.objects.size⟩, { m with objects := m.objects.push o })

/-- A new error. -/
def newError (kind : ErrorKind) (message : String) : Script Value :=
  newObject
    { kind := .error, properties := [("name", .string kind.text), ("message", .string message)] }

/-- A new scope inside others. -/
def newScope (s : Scope) (env : Env) : Script Env :=
  modifyGet fun m => (⟨m.scopes.size⟩ :: env, { m with scopes := m.scopes.push s })

/-- A new scope of a block. -/
def newBlock (env : Env) : Script Env := newScope { isFunction := false } env

/-- A new scope beside the innermost one, with variables of the same names and values. -/
def forkScope : Env → Script Env
  | [] => return []
  | s :: env => do newScope ((← get).scopes.getD s.place default) env

/-- A new method of a receiver. -/
def newMethod (method : Method) : Script Value := return .native (.bound (← newFunctionId) method)

/-- A new path to a node. -/
def newPath (p : PathData) : Script PathId :=
  modifyGet fun m => (⟨m.paths.size⟩, { m with paths := m.paths.push p })

/-- Changes the items of an array. -/
def modifyItems (a : ArrayId) (f : Array Value → Array Value) : Script Unit :=
  modify fun m => { m with arrays := m.arrays.modify a.place f }

/-- Changes an object. -/
def modifyObject (o : ObjectId) (f : ObjectData → ObjectData) : Script Unit :=
  modify fun m => { m with objects := m.objects.modify o.place f }

/-- Changes a scope. -/
def modifyScope (s : ScopeId) (f : Scope → Scope) : Script Unit :=
  modify fun m => { m with scopes := m.scopes.modify s.place f }

/-- Changes a path. -/
def modifyPath (p : PathId) (f : PathData → PathData) : Script Unit :=
  modify fun m => { m with paths := m.paths.modify p.place f }

/-- Writes a line to the console. -/
def writeLine (level : Level) (text : String) : Script Unit :=
  modify fun m => { m with console := m.console.push (level, text) }

/-- Declares a variable in the innermost scope. -/
def declare (env : Env) (name : String) (value : Value) (isMutable : Bool) : Script Unit :=
  match env with
  | [] => return
  | s :: _ => modifyScope s (·.declare name ⟨value, isMutable⟩)

/-- The value of a variable. -/
def lookup (name : String) (env : Env) : Script Value := do
  match (← get).lookup? name env with
  | some v => return v
  | none => raise (.notDefined name)

/-- Gives an existing variable a value. -/
def assign (name : String) (value : Value) (env : Env) : Script Unit := do
  match (← get).scopeOf? name env with
  | none => raise (.notDefined name)
  | some s =>
    if ((← get).scopes[s.place]?.bind (·.get? name)).any (·.isMutable) then
      modifyScope s (·.declare name ⟨value, true⟩)
    else raise .constantAssignment

/-- A function of the script. The first function with a span gives its code to all of that span. -/
def newClosure (span : Span) (name : String) (code : Code) (env : Env) : Script Value := do
  let id ← newFunctionId
  match (← get).code.lookup span with
  | some known => return .function ⟨id, name, known, env⟩
  | none =>
    modify fun m => { m with code := (span, code) :: m.code }
    return .function ⟨id, name, code, env⟩

end Espalier.Script
