import Espalier.Decimal.Layout
import Espalier.Text.Digit

/-!
# JSON values

Values as they are written in JSON texts. The members of an object stay in the order in which they
were written, and a name may occur more than once.
-/

namespace Espalier

/-- A JSON value. -/
inductive Json
  | null
  | bool (value : Bool)
  | number (value : Float)
  | string (value : String)
  | array (items : List Json)
  | object (members : List (String × Json))
  deriving Inhabited

namespace Json

/-- Whether arrays and objects nest in a value at most so many levels deep. -/
inductive NestsWithin : Nat → Json → Prop
  | null {n : Nat} : NestsWithin n .null
  | bool {n : Nat} (b : Bool) : NestsWithin n (.bool b)
  | number {n : Nat} (x : Float) : NestsWithin n (.number x)
  | string {n : Nat} (s : String) : NestsWithin n (.string s)
  | array {n : Nat} {items : List Json} (h : ∀ j ∈ items, NestsWithin n j) :
      NestsWithin (n + 1) (.array items)
  | object {n : Nat} {members : List (String × Json)} (h : ∀ m ∈ members, NestsWithin n m.2) :
      NestsWithin (n + 1) (.object members)

/-- A character as it stands between quotes. -/
def escape (c : Char) : List Char :=
  if c == '"' then ['\\', '"']
  else if c == '\\' then ['\\', '\\']
  else if c == '\x08' then ['\\', 'b']
  else if c == '\x0c' then ['\\', 'f']
  else if c == '\n' then ['\\', 'n']
  else if c == '\r' then ['\\', 'r']
  else if c == '\t' then ['\\', 't']
  else if c.toNat < 32 then ['\\', 'u'] ++ (Text.hex4 c.toNat).toList
  else [c]

/-- A text between quotes. -/
def quote (s : String) : String := "\"" ++ String.ofList (s.toList.flatMap escape) ++ "\""

/-- Whole numbers below this magnitude are written without a point. -/
def wholeLimit : Float := 9007199254740992

/-- A number. One that is not finite has no form of its own. -/
def numberText (x : Float) : String :=
  if x.isNaN || x.isInf then "null"
  else if x.abs < wholeLimit && Double.isWhole x then
    let n := Double.toIntTrunc x
    (if n < 0 then "-" else "") ++ String.ofList (Text.digitsOf 10 n.natAbs)
  else Number.finiteText .json x

/-- How the parts of an array or object are set apart. -/
structure Style where
  /-- What stands in front of a part at the given depth. -/
  newline : Nat → String
  /-- What stands between a name and its value. -/
  colon : String

namespace Style

/-- Without blanks. -/
def compact : Style := ⟨fun _ => "", ":"⟩

/-- Every part on a line of its own, indented by `unit` for each level. -/
def lines (unit : String) : Style :=
  ⟨fun depth => "\n" ++ String.join (List.replicate depth unit), ": "⟩

/-- Parts between brackets. -/
def enclose (s : Style) (depth : Nat) (opening closing : String) (parts : List String) : String :=
  match parts with
  | [] => opening ++ closing
  | parts =>
    opening ++ s.newline (depth + 1) ++ ("," ++ s.newline (depth + 1)).intercalate parts ++
      s.newline depth ++ closing

end Style

mutual

/-- A value as text. -/
def write (style : Style) (depth : Nat) : Json → String
  | null => "null"
  | bool b => if b then "true" else "false"
  | number x => numberText x
  | string s => quote s
  | array items => style.enclose depth "[" "]" (writeItems style (depth + 1) items)
  | object members => style.enclose depth "\x7b" "\x7d" (writeMembers style (depth + 1) members)

def writeItems (style : Style) (depth : Nat) : List Json → List String
  | [] => []
  | v :: vs => write style depth v :: writeItems style depth vs

def writeMembers (style : Style) (depth : Nat) : List (String × Json) → List String
  | [] => []
  | (name, v) :: vs =>
    (quote name ++ style.colon ++ write style depth v) :: writeMembers style depth vs

end

/-- A value without blanks. -/
def text (j : Json) : String := j.write .compact 0

/-- A value on several lines, indented by `unit`. -/
def pretty (unit : String) (j : Json) : String := j.write (.lines unit) 0

end Json

end Espalier
