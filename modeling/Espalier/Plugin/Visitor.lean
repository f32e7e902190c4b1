import Espalier.Plugin.Module

/-!
# Visitors

A plugin is an object, or a function that makes one. Its property `visitor` says which functions are
to be called for which nodes: the keys are types or groups of nodes, several of them with `|`
between them, or `enter` and `exit` for all nodes; the values are functions, or objects with the
functions `enter` and `exit`.
-/

namespace Espalier.Plugin

open Script

/-- When a function is called for a node: before the nodes below it or after them. -/
inductive Phase
  | enter | exit
  deriving DecidableEq, Repr, Inhabited

def Phase.text : Phase → String
  | enter => "enter" | exit => "exit"

/-- A function that is to be called for nodes of some types. -/
structure Handler where
  phase : Phase
  types : List NodeType
  function : Value

/-- The functions of a visitor, in the order in which the visitor lists them. -/
abbrev Handlers := List Handler

namespace Handlers

/-- The functions for the nodes of a type. -/
def find (hs : Handlers) (phase : Phase) (type : NodeType) : List Value :=
  (hs.filter fun h => h.phase == phase && h.types.contains type).map (·.function)

/-- Whether no node has a function. -/
def isEmpty (hs : Handlers) : Bool := hs.all (·.types.isEmpty)

end Handlers

/-- Keys of a visitor that are about other things than nodes. -/
def otherKeys : List String := ["noScope", "denylist", "blacklist", "skipKeys", "shouldSkip"]

/-- Whether a key of a visitor is passed over. -/
def isIgnored (key : String) : Bool := key.toList.head? == some '_' || otherKeys.contains key

/-- The parts of a key. -/
def keyParts (key : String) : List String :=
  let cs := key.toList
  (Text.gaps cs (Text.matchesOf ['|'] cs)).map fun part => String.ofList (Text.trim part)

/-- The types that a part of a key stands for. -/
def partTypes (part : String) : Except PluginError (List NodeType) :=
  if part == "enter" || part == "exit" then .ok NodeType.all
  else
    match VisitorKey.ofText? part with
    | some key => .ok key.types
    | none => .error (.unknownType part)

/-- The types that a key stands for. -/
def keyTypes (key : String) : Except PluginError (List NodeType) :=
  return (← (keyParts key).mapM partTypes).flatten

/-- Ends the run if a script is no plugin. -/
def orNoPlugin {α : Type} : Except PluginError α → Script α
  | .ok a => return a
  | .error cause => giveUp (.plugin cause)

/-- A function for a phase. -/
def handler (key : String) (types : List NodeType) (phase : Phase) (v : Value) : Script Handler :=
  if v.isCallable then return ⟨phase, types, v⟩
  else giveUp (.plugin (.handlerProperty key phase.text))

/-- The functions of a property of a visitor. -/
def handlersOf (key : String) (v : Value) : Script Handlers := do
  if isIgnored key then return []
  let types ← orNoPlugin (keyTypes key)
  if key == "enter" then return [← handler key types .enter v]
  else if key == "exit" then return [← handler key types .exit v]
  else if v.isCallable then return [⟨.enter, types, v⟩]
  else
    match v with
    | .object _ =>
      let inPhase (phase : Phase) : Script Handlers := do
        match ← getProperty v (.string phase.text) with
        | .undefined => return []
        | f => return [← handler key types phase f]
      return (← inPhase .enter) ++ (← inPhase .exit)
    | v => giveUp (.plugin (.handlerType key v.typeName))

/-- The functions of the visitor of a plugin. -/
def visitorHandlers (plugin : Value) : Script Handlers := do
  match ← getProperty plugin (.string "visitor") with
  | .undefined => return []
  | .object o =>
    return (← ((← get).object o).properties.mapM fun (key, v) => handlersOf key v).flatten
  | _ => giveUp (.plugin .visitorNotAnObject)

/-- The version that plugins are told. -/
def version : String := "0.2.0"

/-- What a function that makes a plugin gets to know. -/
def newApi : Script Value := do
  newObject
    { properties :=
        [("types", ← typesObject), ("version", .string version),
          ("assertVersion", .native (.global .assertVersion))] }

/-- The plugin that a module exports. -/
def resolve (self : Evaluator) (exports : Exports) : Script Value := do
  let some entry := exports.entry? | giveUp (.plugin .noExport)
  let plugin ←
    if entry.isCallable then do
      let options ← newObject {}
      self.call entry .undefined #[← newApi, options, .string "/"]
    else pure entry
  match plugin with
  | .object o => return .object o
  | _ => giveUp (.plugin .notAnObject)

/-- The state that the functions of a plugin share. -/
def newState (input : String) : Script Value := do
  let options ← newObject {}
  let file ← newObject { properties := [("code", .string input)] }
  newObject { properties := [("opts", options), ("file", file), ("filename", .undefined)] }

/-- Calls a function of the plugin that is no handler, if it has it. -/
def callHook (self : Evaluator) (plugin state : Value) (hook : String) : Script Unit := do
  match ← getProperty plugin (.string hook) with
  | .undefined => return
  | f =>
    if f.isCallable then
      let _ ← self.call f state #[state]
    else giveUp (.plugin (.hookNotAFunction hook))

end Espalier.Plugin
