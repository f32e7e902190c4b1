import Espalier.Plugin.Traversal
import Espalier.Print

/-!
# Transforms

A transform is a script that makes a text of a text: as a plugin, which edits the program that the
input is, or as a function on texts. A run of it ends with an output or with a message, and has
written lines to the console.
-/

namespace Espalier

/-- What a transform does. -/
inductive TransformMode
  | astMutation | directCode
  deriving DecidableEq, Repr, Inhabited

namespace TransformMode

def text : TransformMode → String
  | astMutation => "ast-mutation" | directCode => "direct-code"

def all : List TransformMode := [astMutation, directCode]

def ofText? (s : String) : Option TransformMode := all.find? (·.text == s)

end TransformMode

/-- The circumstances of a run. -/
structure TransformOptions where
  mode : TransformMode := .astMutation
  /-- How the input is read. -/
  parser : ParserOptions := {}
  /-- What the output is indented by. -/
  unit : String := Program.defaultUnit
  budget : Script.Budget := {}
  /-- What reads the regular expressions and JSON texts of the script. -/
  engines : Script.Engines := .standard

/-- How a run ends. -/
inductive TransformResult
  | output (text : String)
  | failure (text : String)
  deriving DecidableEq, Repr, Inhabited

/-- A run of a transform: its result and the lines of the console. -/
structure TransformRun where
  result : TransformResult
  console : List (Script.Level × String)
  deriving Repr, Inhabited

namespace Transform

open Script Plugin

/-- Lets the plugin that a module exports work on the input. -/
def mutate (self : Evaluator) (options : TransformOptions) (input : String) (exports : Exports) :
    Script String := do
  match Program.parse input options.parser with
  | .error cause => giveUp (.input cause)
  | .ok program =>
    let plugin ← resolve self exports
    let handlers ← visitorHandlers plugin
    let state ← newState input
    modify ({ · with target := some program })
    callHook self plugin state "pre"
    if !handlers.isEmpty then traverse self.call handlers state
    callHook self plugin state "post"
    return ((← get).target.getD program).print options.unit

/-- Applies the function that a module exports to the input. -/
def apply (self : Evaluator) (input : String) (exports : Exports) : Script String := do
  match exports.entry? <|> exports.lastExpression with
  | some f =>
    if f.isCallable then toText (← self.call f .undefined #[.string input])
    else giveUp (.plugin .notATextFunction)
  | none => giveUp (.plugin .notATextFunction)

/-- Carries out a transform. -/
def script (self : Evaluator) (options : TransformOptions) (input : String) (code : Program) :
    Script String := do
  let exports ← load self code.body
  match options.mode with
  | .astMutation => mutate self options input exports
  | .directCode => apply self input exports

/-- What is shown of an operation that cannot be carried out. -/
def abortedMessage : String := "transform thread failed: transform thread panicked"

/-- How a transform ends of which the code has been read, and the machine as it is left. -/
def ending (options : TransformOptions) (input code : String) (program : Program) :
    EStateM.Result Failure Machine String :=
  let self := Evaluator.ofFuel (Evaluator.fuelFor options.budget code.utf8ByteSize)
  script self options input program (.start options.budget options.engines)

/-- Runs a transform. Its code is always read as a module. -/
def run (options : TransformOptions) (input code : String) : TransformRun :=
  match Program.parse code with
  | .error cause => ⟨.failure cause.message, []⟩
  | .ok program =>
    match ending options input code program with
    | .ok text m => ⟨.output text, m.console.toList⟩
    | .error failure m =>
      ⟨.failure ((m.failureText? failure).getD abortedMessage), m.console.toList⟩

end Transform

end Espalier
