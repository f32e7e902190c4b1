import Espalier.Command

/-!
# The command line

Reads the files that a command needs and prints its answer.
-/

namespace Espalier.CommandLine

/-- The place of a file that is named relative to a folder. -/
def placeOf (folder : Option String) (file : String) : String :=
  match folder with
  | some folder => if file.startsWith "/" then file else s!"{folder}/{file}"
  | none => file

/-- The text of a file, if it can be read. -/
def textOf? (folder : Option String) (file : String) : IO (Option String) := do
  try
    return some (← IO.FS.readFile (placeOf folder file))
  catch _ =>
    return none

/-- Ends with a line about what went wrong. -/
def complain (line : String) : IO UInt32 := do
  IO.eprintln line
  return 1

/-- Carries out the command that words ask for. -/
def carryOut (words : List String) : IO UInt32 := do
  match Command.ofWords words with
  | .error cause => complain cause.message
  | .ok (options, command) =>
    let source := options.settings.getD Settings.fileName
    let found ← textOf? options.folder source
    match Settings.discover (found.toList.map (source, ·)) options.settings with
    | .error cause => complain (source ++ ": " ++ cause.message (found.getD ""))
    | .ok settings =>
      let mut texts := []
      for file in command.files do
        match ← textOf? options.folder file with
        | some text => texts := (file, text) :: texts
        | none => return ← complain s!"failed to read {placeOf options.folder file}"
      let answer := command.answer settings options fun file => (texts.lookup file).getD ""
      IO.print answer.output
      answer.report.forM IO.eprintln
      return if answer.succeeded then 0 else 1

end Espalier.CommandLine

def main (words : List String) : IO UInt32 :=
  Espalier.CommandLine.carryOut words
