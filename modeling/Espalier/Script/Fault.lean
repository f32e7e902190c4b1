import Espalier.Grammar.Error
import Espalier.Json.Read
import Espalier.Node.Edit
import Espalier.Regex.Error
import Espalier.Script.Value

/-!
# Why scripts fail

A `Fault` is an error that an operation raises in the middle of a script; it has a kind and a
wording, and the script may catch it. A `PluginError` says that a script is no plugin. A `Failure`
is any way in which a script can end early: `Failure.isCatchable` tells those that it can catch from
those that end the run.
-/

namespace Espalier.Script

/-- Why the text of a regular expression is refused. -/
inductive RegexFault
  | flag (flag : Char)
  | pattern (source : String) (cause : Regex.Error)

def RegexFault.message : RegexFault → String
  | flag c => s!"Invalid regular expression flags '{c}'"
  | pattern source cause => s!"Invalid regular expression: /{source}/: {cause.message}"

/-- An error that an operation raises. -/
inductive Fault
  | unsupported (what : String)
  | constantAssignment
  | notDefined (name : String)
  | notDestructurable (text : String)
  | assignmentTarget
  | compoundTarget
  | updateTarget
  | straySpread
  | notAFunction (what : String)
  | notAConstructor (what : String)
  | stringLength
  | arrayLength
  | inOperand (key text : String)
  | instanceOfOperand
  | notIterable (what : String)
  | readingOf (object key : String)
  | settingOf (object key : String)
  | nullishToObject
  | circularJson
  | replaceAllNotGlobal
  | emptyReduce
  | repeatCount (count : Float)
  | radix
  | fixedDigits
  | regex (cause : RegexFault)
  | json (source : String) (cause : Json.Error)
  | removedNode (key : String)
  | deleteFromNode (key : String)
  | assignToPath (key : String)
  | changeType (type : NodeType)
  | assignToNode (typeName : String) (type : NodeType) (key : String)
  | edit (cause : EditError)
  | removedPath
  | removeProgram
  | replaceProgram
  | removeFrom (type parent : NodeType) (field : String)
  | replacement (cause : ParseError)
  | unknownModule (name : String)

namespace Fault

/-- The kind of error that a script sees. -/
def kind : Fault → ErrorKind
  | unsupported _ | constantAssignment | notDestructurable _ | assignmentTarget | compoundTarget
  | notAFunction _ | notAConstructor _ | stringLength | arrayLength | inOperand _ _
  | instanceOfOperand | notIterable _ | readingOf _ _ | settingOf _ _ | nullishToObject
  | circularJson | replaceAllNotGlobal | emptyReduce | removedNode _
  | assignToNode _ _ _ => .typeError
  | notDefined _ => .referenceError
  | updateTarget | straySpread | regex _ | json _ _ | replacement _ => .syntaxError
  | repeatCount _ | radix | fixedDigits => .rangeError
  | deleteFromNode _ | assignToPath _ | changeType _ | edit _ | removedPath | removeProgram
  | replaceProgram | removeFrom _ _ _ | unknownModule _ => .error

/-- The wording. -/
def message : Fault → String
  | unsupported what => s!"{what} are not supported in transform code"
  | constantAssignment => "Assignment to constant variable."
  | notDefined name => s!"{name} is not defined"
  | notDestructurable text => s!"Cannot destructure '{text}' as it is {text}."
  | assignmentTarget => "Invalid assignment target"
  | compoundTarget => "Invalid left-hand side in assignment"
  | updateTarget => "Invalid left-hand side expression in update operation"
  | straySpread => "Unexpected spread element"
  | notAFunction what => s!"{what} is not a function"
  | notAConstructor what => s!"{what} is not a constructor"
  | stringLength => "Invalid string length"
  | arrayLength => "Invalid array length"
  | inOperand key text => s!"Cannot use 'in' operator to search for '{key}' in {text}"
  | instanceOfOperand => "Right-hand side of 'instanceof' is not callable"
  | notIterable what => s!"{what} is not iterable"
  | readingOf object key => s!"Cannot read properties of {object} (reading '{key}')"
  | settingOf object key => s!"Cannot set properties of {object} (setting '{key}')"
  | nullishToObject => "Cannot convert undefined or null to object"
  | circularJson => "Converting circular structure to JSON"
  | replaceAllNotGlobal => "replaceAll must be called with a global RegExp"
  | emptyReduce => "Reduce of empty array with no initial value"
  | repeatCount count => "Invalid count value: " ++ Number.text count
  | radix => "toString() radix must be between 2 and 36"
  | fixedDigits => "toFixed() digits argument must be between 0 and 100"
  | regex cause => cause.message
  | json source cause => "JSON.parse: " ++ cause.message source
  | removedNode key => s!"Cannot read properties of a removed node (reading '{key}')"
  | deleteFromNode key => s!"Cannot delete node property '{key}'; use path.remove()"
  | assignToPath key => s!"Cannot assign to path.{key}"
  | changeType type =>
    s!"Cannot change the type of a {type.text}; use path.replaceWithSourceString"
  | assignToNode typeName type key =>
    s!"Cannot assign {typeName} to {type.text}.{key}; " ++
      "use path.replaceWithSourceString to replace nodes"
  | edit cause => cause.message
  | removedPath => "NodePath has been removed so is read-only."
  | removeProgram => "Cannot remove the Program node"
  | replaceProgram => "Cannot replace the Program node"
  | removeFrom type parent field => s!"Cannot remove the {type.text} in {parent.text}.{field}"
  | replacement cause => "replaceWithSourceString: " ++ cause.message
  | unknownModule name => s!"Cannot find module '{name}'"

end Fault

/-- Why a script is no plugin. -/
inductive PluginError
  | nestedModuleItem
  | noExport
  | notAnObject
  | visitorNotAnObject
  | unknownType (name : String)
  | handlerType (key typeName : String)
  | handlerProperty (key property : String)
  | hookNotAFunction (hook : String)
  | notATextFunction
  deriving DecidableEq, Repr

/-- The wording. -/
def PluginError.message : PluginError → String
  | nestedModuleItem => "import and export are only allowed at the top level"
  | noExport =>
    "The transform code has no default export. " ++
      "Use \x60export default\x60 or \x60module.exports\x60."
  | notAnObject => "Plugin/Preset did not return an object."
  | visitorNotAnObject => "Plugin .visitor must be an object"
  | unknownType name => s!"You gave us a visitor for the node type {name} but it's not a valid type"
  | handlerType key typeName =>
    s!"You passed traverse() a visitor object with the property {key} " ++
      s!"that has the invalid type {typeName}"
  | handlerProperty key property =>
    s!"You passed traverse() a visitor object with the property {key} " ++
      s!"that has the invalid property {property}"
  | hookNotAFunction hook => s!"Plugin .{hook} must be a function"
  | notATextFunction =>
    "Direct-code transforms must export a function that takes the input text"

/-- Which part of the budget is used up. -/
inductive Exhausted
  | steps (max : Nat)
  | callDepth
  deriving DecidableEq, Repr

/-- The wording. -/
def Exhausted.message : Exhausted → String
  | steps max => s!"transform exceeded its execution budget of {max} steps"
  | callDepth => "Maximum call stack size exceeded"

/-- A way in which a script ends early. -/
inductive Failure
  | thrown (value : Value)
  | raised (fault : Fault)
  | exhausted (what : Exhausted)
  | plugin (cause : PluginError)
  /-- The program to work on cannot be read. -/
  | input (cause : ParseError)
  /-- An operation that cannot be carried out: the text of a container that contains itself, or that
  is being written to. -/
  | aborted

/-- Whether the script can catch the failure. -/
def Failure.isCatchable : Failure → Bool
  | thrown _ | raised _ => true
  | exhausted _ | plugin _ | input _ | aborted => false

end Espalier.Script
