import Espalier.Decimal.Read
import Espalier.Source.Position
import Espalier.Text.Bytes
import Espalier.Text.Letter
import Espalier.Token

/-!
# Reading tokens

`scan` reads the token that follows the blanks and comments at a place of the source. A slash is
always read as a division sign there, and a closing brace as a brace: only who knows the grammar can
tell that an expression starts at the slash, or that the brace ends a substitution, and then reads
the same place again with `scanRegex` or `scanTemplate`.
-/

namespace Espalier

namespace Token

/-! ### Blanks and comments -/

/-- A character that may stand between tokens. -/
def isBlank (c : Char) : Bool :=
  if c.toNat < 128 then c == ' ' || (9 ≤ c.toNat && c.toNat ≤ 13)
  else
    c == '\u0085' || c == '\u00a0' || ('\u2000' ≤ c && c ≤ '\u200a') || c == '\u2028' ||
      c == '\u2029' || c == '\u202f' || c == '\u205f' || c == '\ufeff'

/-- A blank that ends a line. -/
def endsLine (c : Char) : Bool := c == '\n' || c == '\u2028' || c == '\u2029'

/-- What the characters of a gap belong to. -/
inductive GapPart
  | blank
  | lineComment
  | blockComment
  deriving DecidableEq, Repr

/-- What lies between two tokens: whether a line ended in it, where it ends, and whether a comment
was still open there. -/
structure Gap where
  newline : Bool
  after : Cursor
  unclosed : Bool

/-- The gap at the start of a text, of which the current part is known. -/
def gap (part : GapPart) (newline : Bool) (pos : Nat) : List Char → Gap
  | [] => ⟨newline, ⟨pos, []⟩, part == .blockComment⟩
  | c :: cs =>
    match part with
    | .blank =>
      if isBlank c then gap .blank (newline || endsLine c) (pos + c.utf8Size) cs
      else if c == '/' then
        match cs with
        | '/' :: ds => gap .lineComment newline (pos + 2) ds
        | '*' :: ds => gap .blockComment newline (pos + 2) ds
        | _ => ⟨newline, ⟨pos, c :: cs⟩, false⟩
      else ⟨newline, ⟨pos, c :: cs⟩, false⟩
    | .lineComment =>
      if c == '\n' then gap .blank true (pos + 1) cs
      else gap .lineComment newline (pos + c.utf8Size) cs
    | .blockComment =>
      if c == '*' then
        match cs with
        | '/' :: ds => gap .blank newline (pos + 2) ds
        | ds => gap .blockComment newline (pos + 1) ds
      else gap .blockComment (newline || c == '\n') (pos + c.utf8Size) cs

/-! ### Runs of characters -/

/-- The characters from the start that satisfy `p`, put after those in `acc` (which is reversed). -/
def run (p : Char → Bool) (acc : List Char) (pos : Nat) : List Char → List Char × Cursor
  | [] => (acc.reverse, ⟨pos, []⟩)
  | c :: cs =>
    if p c then run p (c :: acc) (pos + c.utf8Size) cs else (acc.reverse, ⟨pos, c :: cs⟩)

/-- The digits from the start, without the underscores in front of digits. -/
def digitRun (p : Char → Bool) (acc : List Char) (pos : Nat) : List Char → List Char × Cursor
  | [] => (acc.reverse, ⟨pos, []⟩)
  | c :: cs =>
    if p c then digitRun p (c :: acc) (pos + c.utf8Size) cs
    else if c == '_' && cs.head?.any p then digitRun p acc (pos + 1) cs
    else (acc.reverse, ⟨pos, c :: cs⟩)

/-- The code point written by at most `limit` hexadecimal digits. Values that are no code points are
all alike. -/
def hexRun (value pos : Nat) (limit : Nat) (cs : List Char) : Nat × Cursor :=
  match limit, cs with
  | n + 1, c :: cs =>
    match Text.digitValue? 16 c with
    | some d => hexRun (min (16 * value + d) 0x110000) (pos + 1) n cs
    | none => (value, ⟨pos, c :: cs⟩)
  | _, cs => (value, ⟨pos, cs⟩)

/-! ### Names -/

/-- A character that a name may start with. -/
def startsName (c : Char) : Bool := c == '_' || c == '$' || Text.isLetter c

/-- A character that a name may go on with. -/
def continuesName (c : Char) : Bool := c == '_' || c == '$' || Text.isLetterOrNumeral c

/-- The name or keyword at a place. -/
def scanName (at_ : Cursor) : Kind × Cursor :=
  let (cs, after) := run continuesName [] at_.pos at_.rest
  let word := String.ofList cs
  ((Keyword.ofText? word).elim (.name word) .keyword, after)

/-! ### Numbers -/

/-- The base that the letter after a leading zero announces. -/
def radixOf? (c : Char) : Option Nat :=
  if c == 'x' || c == 'X' then some 16
  else if c == 'b' || c == 'B' then some 2
  else if c == 'o' || c == 'O' then some 8
  else none

/-- The value of digits in a base; a sum that needs more bits than a double has is rounded at every
digit. -/
def radixValue (radix : Nat) (ds : List Char) : Float :=
  ds.foldl
    (fun acc c => acc * Double.ofNat radix + Double.ofNat ((Text.digitValue? radix c).getD 0)) 0

/-- A number with a base, after its first two characters `mark`. -/
def scanRadix (radix : Nat) (mark : List Char) (at_ : Cursor) : Kind × Cursor :=
  let (ds, after) := digitRun (fun c => (Text.digitValue? radix c).isSome) [] at_.pos at_.rest
  if ds.isEmpty then (.invalid .noRadixDigit, after)
  else if after.rest.head? == some 'n' then (.bigint (String.ofList (mark ++ ds)), after.step)
  else (.number (radixValue radix ds), after)

/-- The exponent at a place, if one with a digit stands there. -/
def scanExponent (at_ : Cursor) : Int × Cursor :=
  match at_.rest with
  | [] => (0, at_)
  | c :: cs =>
    if c != 'e' && c != 'E' then (0, at_)
    else
      let (negative, first) : Bool × Cursor :=
        match cs with
        | '+' :: ds => (false, ⟨at_.pos + 2, ds⟩)
        | '-' :: ds => (true, ⟨at_.pos + 2, ds⟩)
        | ds => (false, ⟨at_.pos + 1, ds⟩)
      let (ds, after) := digitRun Char.isDigit [] first.pos first.rest
      if ds.isEmpty then (0, at_)
      else
        let n : Int := Text.natOfDigits ds
        (if negative then -n else n, after)

/-- A number that starts with a digit. -/
def scanNumber (at_ : Cursor) : Kind × Cursor :=
  let (whole, k) := digitRun Char.isDigit [] at_.pos at_.rest
  if k.rest.head? == some 'n' then (.bigint (String.ofList whole), k.step)
  else
    let (fraction, k) :=
      match k.rest with
      | '.' :: cs => digitRun Char.isDigit [] (k.pos + 1) cs
      | _ => ([], k)
    let (exponent, k) := scanExponent k
    match k.rest with
    | c :: _ =>
      if c.isAlpha || c == '_' || c == '$' then (.invalid .nameAfterNumber, k.step)
      else (.number (Number.Numeral.value false ⟨whole, fraction, exponent⟩), k)
    | [] => (.number (Number.Numeral.value false ⟨whole, fraction, exponent⟩), k)

/-- A number that starts with a digit, in base ten or in the base that it announces. -/
def scanNumeral (at_ : Cursor) : Kind × Cursor :=
  match at_.rest with
  | '0' :: c :: cs =>
    match radixOf? c with
    | some radix => scanRadix radix ['0', c] ⟨at_.pos + 2, cs⟩
    | none => scanNumber at_
  | _ => scanNumber at_

/-- A number that starts with a point. -/
def scanFraction (at_ : Cursor) : Kind × Cursor :=
  let k := at_.step
  let (fraction, k) := digitRun Char.isDigit [] k.pos k.rest
  (.number (Number.Numeral.value false ⟨[], fraction, 0⟩), k)

/-! ### Strings, templates and regular expressions -/

/-- The character of a code point, or the replacement character. -/
def charOfCode (n : Nat) : Char := if n.isValidChar then Char.ofNat n else '\ufffd'

/-- What the escape after a backslash denotes: a character, or nothing where it only continues the
line. -/
def scanEscape (pos : Nat) : List Char → Option Char × Cursor
  | [] => (none, ⟨pos, []⟩)
  | 'n' :: cs => (some '\n', ⟨pos + 1, cs⟩)
  | 'r' :: cs => (some '\r', ⟨pos + 1, cs⟩)
  | 't' :: cs => (some '\t', ⟨pos + 1, cs⟩)
  | 'b' :: cs => (some '\x08', ⟨pos + 1, cs⟩)
  | 'f' :: cs => (some '\x0c', ⟨pos + 1, cs⟩)
  | 'v' :: cs => (some '\x0b', ⟨pos + 1, cs⟩)
  | '0' :: cs => (some (if cs.head?.any Char.isDigit then '0' else '\x00'), ⟨pos + 1, cs⟩)
  | 'x' :: cs =>
    let (n, after) := hexRun 0 (pos + 1) 2 cs
    (some (charOfCode n), after)
  | 'u' :: '\x7b' :: cs =>
    let (n, after) := hexRun 0 (pos + 2) cs.length cs
    (some (charOfCode n), if after.rest.head? == some '\x7d' then after.step else after)
  | 'u' :: cs =>
    let (n, after) := hexRun 0 (pos + 1) 4 cs
    (some (charOfCode n), after)
  | '\r' :: '\n' :: cs => (none, ⟨pos + 2, cs⟩)
  | '\r' :: cs => (none, ⟨pos + 1, cs⟩)
  | '\n' :: cs => (none, ⟨pos + 1, cs⟩)
  | c :: cs => (some c, ⟨pos + c.utf8Size, cs⟩)

theorem hexRun_rest_le (value pos limit : Nat) (cs : List Char) :
    (hexRun value pos limit cs).2.rest.length ≤ cs.length := by
  fun_induction hexRun value pos limit cs <;> simp_all <;> omega

theorem scanEscape_rest_le (pos : Nat) (cs : List Char) :
    (scanEscape pos cs).2.rest.length ≤ cs.length := by
  have := hexRun_rest_le
  fun_cases scanEscape pos cs <;> grind [Cursor.step]

/-- The rest of a string after its opening quote. -/
def scanString (quote : Char) (acc : List Char) (pos : Nat) (cs : List Char) : Kind × Cursor :=
  match cs with
  | [] => (.invalid .unclosedString, ⟨pos, []⟩)
  | c :: cs =>
    if c == quote then (.string (String.ofList acc.reverse), ⟨pos + 1, cs⟩)
    else if c == '\n' || c == '\r' then (.invalid .unclosedString, ⟨pos, c :: cs⟩)
    else if c == '\\' then
      have := scanEscape_rest_le (pos + 1) cs
      let escape := scanEscape (pos + 1) cs
      scanString quote (escape.1.toList ++ acc) escape.2.pos escape.2.rest
    else scanString quote (c :: acc) (pos + c.utf8Size) cs
termination_by cs.length
decreasing_by all_goals simp <;> omega

/-- The rest of a part of a template, up to its closing quote or the next substitution. The part is
the template's first or a later one. -/
def scanTemplatePart (first : Bool) (acc : List Char) (pos : Nat) (cs : List Char) :
    Kind × Cursor :=
  match cs with
  | [] => (.invalid .unclosedTemplate, ⟨pos, []⟩)
  | '\x60' :: cs =>
    let value := String.ofList acc.reverse
    (if first then .templateWhole value else .templateTail value, ⟨pos + 1, cs⟩)
  | '$' :: '\x7b' :: cs =>
    let value := String.ofList acc.reverse
    (if first then .templateHead value else .templateMiddle value, ⟨pos + 2, cs⟩)
  | '\\' :: cs =>
    have := scanEscape_rest_le (pos + 1) cs
    let escape := scanEscape (pos + 1) cs
    scanTemplatePart first (escape.1.toList ++ acc) escape.2.pos escape.2.rest
  | '\r' :: '\n' :: cs => scanTemplatePart first ('\n' :: acc) (pos + 2) cs
  | '\r' :: cs => scanTemplatePart first ('\n' :: acc) (pos + 1) cs
  | c :: cs => scanTemplatePart first (c :: acc) (pos + c.utf8Size) cs
termination_by cs.length
decreasing_by all_goals simp <;> omega

/-- The pattern of a regular expression after its opening slash, and the place of the slash that
closes it. A slash between brackets closes nothing. -/
def regexBody (bracket : Bool) (acc : List Char) (pos : Nat) :
    List Char → Option (List Char) × Cursor
  | [] => (none, ⟨pos, []⟩)
  | c :: cs =>
    if c == '/' && !bracket then (some acc.reverse, ⟨pos, c :: cs⟩)
    else if c == '\n' || c == '\r' then (none, ⟨pos, c :: cs⟩)
    else if c == '\\' then
      match cs with
      | [] => (none, ⟨pos + 1, []⟩)
      | d :: ds => regexBody bracket (d :: c :: acc) (pos + 1 + d.utf8Size) ds
    else
      regexBody (if c == '[' then true else if c == ']' then false else bracket) (c :: acc)
        (pos + c.utf8Size) cs

/-- A flag that a regular expression may carry. -/
def isRegexFlag (c : Char) : Bool := "dgimsuyv".toList.contains c

/-- A regular expression, from its opening slash on. -/
def scanRegexBody (at_ : Cursor) : Kind × Cursor :=
  let k := at_.step
  match regexBody false [] k.pos k.rest with
  | (none, after) => (.invalid .unclosedRegex, after)
  | (some pattern, slash) =>
    let k := slash.step
    let (flags, after) := run Char.isAlpha [] k.pos k.rest
    match flags.find? (!isRegexFlag ·) with
    | some c => (.invalid (.unknownFlag c), after)
    | none => (.regex (String.ofList pattern) (String.ofList flags), after)

/-! ### Tokens -/

/-- The kind of the token at a place where no blank or comment starts. -/
def scanKind (at_ : Cursor) : Kind × Cursor :=
  match at_.rest with
  | [] => (.eof, at_)
  | c :: cs =>
    if startsName c then scanName at_
    else if c.isDigit then scanNumeral at_
    else if c == '"' || c == '\'' then scanString c [] (at_.pos + 1) cs
    else if c == '\x60' then scanTemplatePart true [] (at_.pos + 1) cs
    else if c == '\\' then (.invalid .escapedName, at_.step)
    else if c == '.' && cs.head?.any Char.isDigit then scanFraction at_
    else
      match Punct.read? at_.rest with
      | some p => (.punct p, ⟨at_.pos + p.text.length, at_.rest.drop p.text.length⟩)
      | none => (.invalid (.strayChar c), at_.step)

/-- A token with the places where it starts and ends. -/
structure Scanned where
  token : Token
  first : Cursor
  after : Cursor
  deriving Repr, Inhabited

/-- A token read by `scanAt` between two places. -/
def Scanned.ofKind (newline : Bool) (first : Cursor) (read : Kind × Cursor) : Scanned :=
  ⟨⟨read.1, ⟨first.pos, read.2.pos⟩, newline⟩, first, read.2⟩

/-- The next token after a place. An open comment is a token of its own at the end of the source. -/
def scan (place : Cursor) : Scanned :=
  let g := gap .blank false place.pos place.rest
  .ofKind g.newline g.after
    (if g.unclosed then (.invalid .unclosedComment, g.after) else scanKind g.after)

/-- The regular expression whose opening slash is at a place. -/
def scanRegex (newline : Bool) (place : Cursor) : Scanned :=
  .ofKind newline place (scanRegexBody place)

/-- The part of a template that follows the closing brace at a place. -/
def scanTemplate (newline : Bool) (place : Cursor) : Scanned :=
  let k := place.step
  .ofKind newline place (scanTemplatePart false [] k.pos k.rest)

end Token

end Espalier
