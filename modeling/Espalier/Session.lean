import Espalier.Caret
import Espalier.Session.Timer
import Espalier.Settings

/-!
# Sessions

A session keeps together what belongs to an input and a transform that are being edited: the program
that the input is, its outline, the output of the transform, and the nodes that the transform is
about at the place of the cursor, which are highlighted in the input. The session reads no clock:
whoever reports a change tells the time.

The input is read when it has stayed as it is for a while. One that cannot be read leaves the
program and its outline as they were.
-/

namespace Espalier

/-- A session. -/
structure Session where
  settings : Settings
  host : Host := {}
  timer : Timer
  input : String
  /-- The input that was read last, with or without success. -/
  accepted : String
  code : String
  ast : Option SyntaxTree := none
  outline : Option Outline := none
  parseError : Option ParseError := none
  /-- The name of the nodes that are highlighted. -/
  active : Option String := none
  output : Option TransformResult := none
  decorations : List Nat := []
  /-- The lines that the runs have written to the console. -/
  console : List (Script.Level × String) := []

namespace Session

/-- Makes the outline anew. -/
def reproject (s : Session) : Session :=
  { s with
    outline := s.ast.map fun ast =>
      Outline.ofTree s.settings.outlineOptions s.active ast.index ast.program.tree }

/-- The ranges that are to be highlighted. -/
def highlighted (s : Session) : List SourceRange :=
  match s.active, s.ast with
  | some active, some ast => (Highlight.ofName ast (some active)).ranges
  | _, _ => []

/-- Puts the decorations on what is to be highlighted. The editor is left alone if there is nothing
to take away and nothing to put there. -/
def redecorate (s : Session) : Session :=
  if s.highlighted.isEmpty && s.decorations.isEmpty then s
  else
    let (host, decorations) := s.host.setDecorations s.decorations s.highlighted
    { s with host, decorations }

/-- Reads the accepted input. -/
def reparse (s : Session) : Session :=
  match SyntaxTree.parse s.accepted s.settings.parser with
  | .ok ast => reproject { s with ast := some ast, parseError := none }
  | .error e => { s with parseError := some e }

/-- Runs the transform on the accepted input, unless its code is blank. -/
def runNow (s : Session) : Session :=
  if Text.isBlank s.code then s
  else
    let run := Transform.run s.settings.transformOptions s.accepted s.code
    { s with output := some run.result, console := s.console ++ run.console }

/-- Accepts the input as it is now. The transform is run if the input can be read or need not be. -/
def flush (s : Session) : Session :=
  let s := (reparse { s with accepted := s.input }).redecorate
  if s.parseError.isNone || s.settings.mode == .directCode then s.runNow else s

/-- A session on an input and the code of a transform. -/
def start (settings : Settings) (input code : String) : Session :=
  let timer : Timer := { delay := settings.delay }
  (reparse { settings, timer, input, accepted := input, code }).runNow

/-! ### Events -/

/-- The input has been changed. -/
def changeInput (s : Session) (text : String) (now : Nat) : Session :=
  { s with input := text, timer := s.timer.schedule now }

/-- The code of the transform has been changed. -/
def changeCode (s : Session) (code : String) : Session := { s with code }

/-- Accepts the input if it is time to, and tells whether it was. -/
def poll (s : Session) (now : Nat) : Session × Bool :=
  match s.timer.takeDue now with
  | (timer, true) => (flush { s with timer }, true)
  | (_, false) => (s, false)

/-- A key has been pressed. The shortcut runs the transform, on the input as it is now if it is time
to accept it. Tells whether it was the shortcut. -/
def pressKey (s : Session) (e : KeyEvent) (now : Nat) : Session × Bool :=
  if s.settings.shortcut.accepts e then
    match s.poll now with
    | (s, true) => (s, true)
    | (s, false) => (s.runNow, true)
  else (s, false)

/-- The cursor has been moved in the code of the transform. -/
def moveCaret (s : Session) (caret : Caret) : Session :=
  let active := caret.locate? s.code
  if active == s.active then s else (reproject { s with active }).redecorate

end Session

end Espalier
