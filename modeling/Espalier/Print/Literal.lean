import Espalier.Text.Digit

/-!
# Printed strings and templates

Inside double quotes a backslash, a quote and what would end or hide a line are escaped; inside a
template, a backslash, the closing quote and what would start a substitution.
-/

namespace Espalier.Print

/-- A control character. -/
def isControl (c : Char) : Bool := c.toNat < 32 || (127 ≤ c.toNat && c.toNat ≤ 159)

/-- What stands for a character between double quotes. -/
def stringChar (c : Char) : List Char :=
  if c == '\\' then ['\\', '\\']
  else if c == '"' then ['\\', '"']
  else if c == '\n' then ['\\', 'n']
  else if c == '\r' then ['\\', 'r']
  else if c == '\t' then ['\\', 't']
  else if c == '\x00' then ['\\', '0']
  else if isControl c || c == '\u2028' || c == '\u2029' then
    ['\\', 'u'] ++ (Text.hex4 c.toNat).toList
  else [c]

/-- A string in double quotes. -/
def quoted (s : String) : String := "\"" ++ String.ofList (s.toList.flatMap stringChar) ++ "\""

/-- The characters that stand for those of a piece of a template. -/
def templateChars : List Char → List Char
  | [] => []
  | c :: cs =>
    if c == '\\' || c == '\x60' || (c == '$' && cs.head? == some '\x7b') then
      '\\' :: c :: templateChars cs
    else c :: templateChars cs

/-- A template: the text of its pieces and, between them, its substitutions. Substitutions after the
last piece are left out. -/
def templateBody : (pieces : List String) → (substitutions : List String) → String
  | [], _ => ""
  | p :: ps, es =>
    String.ofList (templateChars p.toList) ++
      match es with
      | [] => templateBody ps []
      | e :: es => "$\x7b" ++ e ++ "\x7d" ++ templateBody ps es

end Espalier.Print
