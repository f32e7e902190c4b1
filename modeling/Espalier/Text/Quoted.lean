import Espalier.Text.Class.Hidden
import Espalier.Text.Digit

/-!
# Quoted text

A text between double quotes in which every character can be seen: quotes and backslashes are
escaped, so are line ends and tabs, and a character without a form of its own, or one that would
attach to the character before it, is written by its code point.
-/

namespace Espalier.Text.Quoted

/-- A character as it stands between the quotes. -/
def escape (c : Char) : String :=
  match c with
  | '\x00' => "\\0"
  | '\t' => "\\t"
  | '\r' => "\\r"
  | '\n' => "\\n"
  | '"' => "\\\""
  | '\\' => "\\\\"
  | c =>
    if CharClass.graphemeExtend.contains c || CharClass.hidden.contains c then
      "\\u\x7b" ++ hex c.toNat ++ "\x7d"
    else c.toString

/-- The text between double quotes. -/
def quote (s : String) : String := "\"" ++ String.join (s.toList.map escape) ++ "\""

end Espalier.Text.Quoted
