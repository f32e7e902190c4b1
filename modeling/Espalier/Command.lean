import Espalier.Caret
import Espalier.Report
import Espalier.Settings

/-!
# Commands

What can be asked for on a command line, and the answers: an outline of a source, a run of a
transform, the type at a caret, the ranges of a type. Which files are needed follows from the
command alone, so that an answer is a function of their texts.
-/

namespace Espalier

/-- What is asked for. Sources and transforms are named by their files. -/
inductive Command
  | version
  | tree (input : String)
  | run (input code : String)
  | locate (code : String) (caret : Caret)
  | resolve (input name : String)
  deriving DecidableEq, Repr

/-- How a command is carried out. -/
structure CommandOptions where
  /-- Whether the answer is a JSON text. -/
  json : Bool := false
  /-- Where files are looked for. -/
  folder : Option String := none
  /-- The file that holds the settings. -/
  settings : Option String := none
  depth : Option Nat := none
  showAll : Bool := false
  shown : List String := []
  active : Option String := none
  mode : Option TransformMode := none
  caret : Option Caret := none
  deriving Repr

/-- Why words are no command. -/
inductive CommandError
  | unknownCommand (words : List String)
  | unknownOption (word : String)
  | badValue (option value : String)
  | noCaret
  deriving DecidableEq, Repr

/-- The wording of the error. -/
def CommandError.message : CommandError → String
  | unknownCommand [] =>
    "usage: version | tree INPUT | run INPUT CODE | locate CODE --cursor L:C | resolve INPUT TYPE"
  | unknownCommand words => "unknown command '" ++ " ".intercalate words ++ "'"
  | unknownOption word => s!"unexpected argument '{word}'"
  | badValue option value => s!"invalid value '{value}' for '{option}'"
  | noCaret => "a value is required for '--cursor'"

namespace CommandOptions

/-- Switches an option on that takes no value. -/
def switch? (o : CommandOptions) : String → Option CommandOptions
  | "--json" => some { o with json := true }
  | "--show-all" => some { o with showAll := true }
  | _ => none

/-- Whether a word is an option that takes a value. -/
def takesValue (word : String) : Bool :=
  ["--cwd", "--config", "--depth", "--whitelist", "--active", "--mode", "--cursor"].contains word

/-- Gives a value to an option. -/
def put? (o : CommandOptions) (value : String) : String → Option CommandOptions
  | "--cwd" => some { o with folder := some value }
  | "--config" => some { o with settings := some value }
  | "--depth" => (Caret.readNumber? value.toList).map fun n => { o with depth := some n }
  | "--whitelist" => some { o with shown := o.shown ++ value.splitOn "," }
  | "--active" => some { o with active := some value }
  | "--mode" =>
    if value == "ast" then some { o with mode := some .astMutation }
    else if value == "code" then some { o with mode := some .directCode }
    else none
  | "--cursor" => (Caret.ofText value).toOption.map fun c => { o with caret := some c }
  | _ => none

/-- The options among some words, and the words that are left. -/
def ofWords (o : CommandOptions) :
    List String → Except CommandError (CommandOptions × List String)
  | [] => .ok (o, [])
  | word :: words =>
    match switch? o word, words with
    | some o, words => ofWords o words
    | none, value :: rest =>
      if takesValue word then
        match o.put? value word with
        | some o => ofWords o rest
        | none => .error (.badValue word value)
      else if word.startsWith "-" then .error (.unknownOption word)
      else (ofWords o (value :: rest)).map fun (o, others) => (o, word :: others)
    | none, [] => if word.startsWith "-" then .error (.unknownOption word) else .ok (o, [word])

end CommandOptions

/-- What a command answers: the text itself, what is reported beside it, and whether it
succeeded. -/
structure Answer where
  output : String := ""
  report : List String := []
  succeeded : Bool := true
  deriving DecidableEq, Repr

namespace Command

/-- The command that words ask for, with its options. -/
def ofWords (words : List String) : Except CommandError (CommandOptions × Command) := do
  let (options, words) ← CommandOptions.ofWords {} words
  match words, options.caret with
  | ["version"], _ => return (options, version)
  | ["tree", input], _ => return (options, tree input)
  | ["run", input, code], _ => return (options, run input code)
  | ["locate", code], some caret => return (options, locate code caret)
  | ["locate", _], none => throw .noCaret
  | ["resolve", input, name], _ => return (options, resolve input name)
  | words, _ => throw (.unknownCommand words)

/-- The files that a command is about. -/
def files : Command → List String
  | version => []
  | tree input => [input]
  | run input code => [input, code]
  | locate code _ => [code]
  | resolve input _ => [input]

/-- A JSON text as an answer. -/
def jsonText (j : Json) : String := j.pretty "  " ++ "\n"

/-- The answer about a source that may not be a program. -/
def withTree (settings : Settings) (input source : String) (answer : SyntaxTree → Answer) :
    Answer :=
  match SyntaxTree.parse source settings.parser with
  | .ok ast => answer ast
  | .error cause => { report := [s!"{input}: {cause.message}"], succeeded := false }

/-- What the settings and the options say of outlines. -/
def outlineOptions (settings : Settings) (o : CommandOptions) : OutlineOptions :=
  let base := settings.outlineOptions
  { maxDepth := o.depth <|> base.maxDepth
    shown := if o.shown.isEmpty then base.shown else o.shown
    showAll := base.showAll || o.showAll }

/-- The answer to a command, given the settings and the texts of its files. -/
def answer (settings : Settings) (o : CommandOptions) (textOf : String → String) : Command → Answer
  | version => { output := "astplay 0.2.0\n" }
  | tree input =>
    withTree settings input (textOf input) fun ast =>
      let outline := Outline.ofTree (outlineOptions settings o) o.active ast.index ast.program.tree
      { output := if o.json then jsonText outline.report else outline.render }
  | run input code =>
    let mode := o.mode.getD settings.mode
    let run := Transform.run { settings.transformOptions with mode } (textOf input) (textOf code)
    let lines := run.console.map fun (level, line) => s!"{level.text}: {line}"
    match run.result, o.json with
    | .output text, false => { output := text ++ "\n", report := lines }
    | .failure text, false => { report := lines ++ [s!"error: {text}"], succeeded := false }
    | .output _, true => { output := jsonText (run.report mode), report := lines }
    | .failure _, true =>
      { output := jsonText (run.report mode), report := lines, succeeded := false }
  | locate code caret =>
    let type := Caret.locate? (textOf code) caret
    let json := Json.object [("cursor", caret.report), ("node_type", .ofOption .string type)]
    { output := if o.json then jsonText json else type.getD "(none)" ++ "\n" }
  | resolve input name =>
    withTree settings input (textOf input) fun ast =>
      let found := Highlight.ofName ast (some name)
      if o.json then { output := jsonText (found.report name) }
      else
        { output := String.join (found.ranges.map (·.text ++ "\n"))
          report :=
            if found.skipped > 0 then [s!"{found.skipped} node(s) without a location skipped"]
            else [] }

end Command

end Espalier
