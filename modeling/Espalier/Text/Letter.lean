import Espalier.Text.Class.Alphabetic
import Espalier.Text.Class.Numeric

/-!
# Letters, digits and blanks

Which characters are letters and which are letters or numerals, in all scripts, and which are blank.
Below U+0080 the answer is read off the character itself; above, off the tables. Trimming takes away
every character with the property White_Space, at one end or at both.
-/

namespace Espalier.Text

/-- A letter of any script. -/
def isLetter (c : Char) : Bool :=
  if c.toNat < 128 then c.isAlpha else CharClass.alphabetic.contains c

/-- A letter or numeral of any script. -/
def isLetterOrNumeral (c : Char) : Bool :=
  if c.toNat < 128 then c.isAlphanum
  else CharClass.alphabetic.contains c || CharClass.numeric.contains c

/-- A character with the property White_Space. -/
def isWhite (c : Char) : Bool :=
  if c.toNat < 128 then c == ' ' || (9 ≤ c.toNat && c.toNat ≤ 13) else CharClass.white.contains c

/-- The text without the blanks at its start. -/
def trimStart (cs : List Char) : List Char := cs.dropWhile isWhite

/-- The text without the blanks at its end. -/
def trimEnd (cs : List Char) : List Char := (cs.reverse.dropWhile isWhite).reverse

/-- The text without the blanks at both ends. -/
def trim (cs : List Char) : List Char := trimEnd (trimStart cs)

/-- Whether there is nothing but blanks. -/
def isBlank (s : String) : Bool := s.toList.all isWhite

end Espalier.Text
