import Espalier.Text.Letter
import Espalier.Text.Digit
import Espalier.Text.Find

/-!
# The caret and the name that it is in

Which node type somebody is writing about is guessed from the text in front of the caret: the last
capitalized word after the table of visitors has been opened, up to where another one is.
-/

namespace Espalier

/-- A caret in an editor: a line and a column, counted from one. -/
structure Caret where
  line : Nat
  column : Nat
  deriving DecidableEq, Repr, Inhabited

/-- Why a text names no caret. -/
inductive CaretError
  | noColon (text : String)
  | badLine (text : String)
  | badColumn (text : String)
  deriving DecidableEq, Repr

/-- The wording of the error. -/
def CaretError.message : CaretError → String
  | noColon text => s!"expected LINE:COLUMN, got '{text}'"
  | badLine text => s!"invalid line '{text}'"
  | badColumn text => s!"invalid column '{text}'"

namespace Caret

/-- A number below `2 ^ 32`, written by decimal digits after an optional plus sign. -/
def readNumber? (cs : List Char) : Option Nat :=
  let ds := match cs with | '+' :: ds => ds | ds => ds
  if ds.isEmpty || !ds.all Char.isDigit then none
  else
    let n := Text.natOfDigits ds
    if n < Nat.pow 2 32 then some n else none

/-- The caret that a text `line:column` names. Blanks around the numbers do not count. -/
def ofText (s : String) : Except CaretError Caret :=
  match Text.cut? [':'] s.toList with
  | none => .error (.noColon s)
  | some (line, column) =>
    match readNumber? (Text.trim line), readNumber? (Text.trim column) with
    | none, _ => .error (.badLine (String.ofList line))
    | _, none => .error (.badColumn (String.ofList column))
    | some line, some column => .ok ⟨line, column⟩

/-- The characters in front of a caret `skip` lines on, of which the last line ends in front of
`column`. -/
def charsUntil (column : Nat) : (skip : Nat) → List Char → List Char
  | 0, cs => (cs.takeWhile (· ≠ '\n')).take (column - 1)
  | _ + 1, [] => []
  | n + 1, c :: cs => c :: charsUntil column (if c = '\n' then n else n + 1) cs

/-- The text in front of a caret. Line and column zero count as one; a column past the end of its
line stands for the end of the line, and a line past the last one for the end of the text. -/
def textUntil (source : String) (caret : Caret) : List Char :=
  charsUntil caret.column (caret.line - 1) source.toList

/-- What opens the table of visitors. -/
def visitorMarker : List Char := "visitor: \x7b".toList

/-- A capital letter and what follows it directly in lower case. -/
def humps (cs : List Char) : List Char :=
  match cs with
  | c :: d :: ds =>
    if c.isUpper && (d.isLower || d.isDigit) then
      let tail := d :: ds
      let run := tail.takeWhile fun x => x.isLower || x.isDigit
      c :: run ++ humps (tail.drop run.length)
    else []
  | _ => []
termination_by cs.length
decreasing_by simp only [List.length_drop, List.length_cons]; omega

/-- The last capitalized word of a text: one or more runs of a capital letter and letters or digits
in lower case. -/
def lastWord? (last : Option (List Char)) (cs : List Char) : Option (List Char) :=
  match cs with
  | [] => last
  | c :: rest =>
    match humps (c :: rest) with
    | [] => lastWord? last rest
    | word => lastWord? (some word) (rest.drop (word.length - 1))
termination_by cs.length
decreasing_by all_goals (simp only [List.length_drop, List.length_cons]; omega)

/-- The name that the caret is in, if any. -/
def locate? (source : String) (caret : Caret) : Option String := do
  let (_, after) ← Text.cut? visitorMarker (caret.textUntil source)
  let handlers := (Text.cut? visitorMarker after).elim after (·.1)
  (lastWord? none handlers).map String.ofList

end Caret

end Espalier
