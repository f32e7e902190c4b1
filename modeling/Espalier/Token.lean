import Espalier.Source.Position
import Espalier.Token.Keyword
import Espalier.Token.Punct

/-!
# Tokens

A token is a kind with the span it was read from, and a mark whether a line ended between it and the
token before it. Text that is no token becomes one of kind `invalid`, which says why.
-/

namespace Espalier

/-- Why a text is not a token. -/
inductive LexicalError
  | unclosedComment
  | escapedName
  | strayChar (c : Char)
  | nameAfterNumber
  | noRadixDigit
  | unclosedString
  | unclosedTemplate
  | unclosedRegex
  | unknownFlag (c : Char)
  deriving DecidableEq, Repr, Inhabited

/-- The wording of a lexical error. -/
def LexicalError.message : LexicalError → String
  | unclosedComment => "Unterminated comment"
  | escapedName => "Unicode escapes in identifiers are not supported"
  | strayChar c => s!"Unexpected character '{c}'"
  | nameAfterNumber => "Identifier directly after number"
  | noRadixDigit => "Expected number in radix"
  | unclosedString => "Unterminated string constant"
  | unclosedTemplate => "Unterminated template"
  | unclosedRegex => "Unterminated regular expression"
  | unknownFlag c => s!"Invalid regular expression flag '{c}'"

namespace Token

/-- What a token is. Strings and templates carry the text they denote; a template is cut at its
substitutions. -/
inductive Kind
  | name (text : String)
  | string (value : String)
  | number (value : Float)
  | bigint (digits : String)
  | regex (pattern flags : String)
  | templateWhole (value : String)
  | templateHead (value : String)
  | templateMiddle (value : String)
  | templateTail (value : String)
  | keyword (word : Keyword)
  | punct (sign : Punct)
  | eof
  | invalid (error : LexicalError)
  deriving Repr, Inhabited

namespace Kind

/-- The text of a kind that has only one. -/
def fixedText? : Kind → Option String
  | keyword k => k.text
  | punct p => p.text
  | _ => none

def isKeyword : Kind → Bool
  | keyword _ => true
  | _ => false

def isEof : Kind → Bool
  | eof => true
  | _ => false

def isKey (k : Keyword) : Kind → Bool
  | keyword j => j == k
  | _ => false

def isPunct (p : Punct) : Kind → Bool
  | punct q => q == p
  | _ => false

/-- Whether it is the given name. -/
def isName (word : String) : Kind → Bool
  | name text => text == word
  | _ => false

/-- The assignment that it is. -/
def assignOp? : Kind → Option AssignOp
  | punct p => p.assignOp?
  | _ => none

/-- The operator between two operands that it is. -/
def operator? : Kind → Option InfixOp
  | keyword .inKw => some (.binary .isIn)
  | keyword .instanceofKw => some (.binary .instanceOf)
  | punct p => p.operator?
  | _ => none

/-- How messages speak of it. -/
def describe : Kind → String
  | keyword k => s!"'{k.text}'"
  | punct p => s!"'{p.text}'"
  | name text => s!"identifier '{text}'"
  | string _ => "string"
  | number _ => "number"
  | bigint _ => "bigint"
  | regex _ _ => "regular expression"
  | templateWhole _ | templateHead _ | templateMiddle _ | templateTail _ => "template"
  | invalid error => error.message
  | eof => "end of input"

end Kind

end Token

/-- A token at its place. -/
structure Token where
  kind : Token.Kind
  span : Span
  newlineBefore : Bool
  deriving Repr, Inhabited

namespace Token

def isKey (t : Token) (k : Keyword) : Bool := t.kind.isKey k

def isPunct (t : Token) (p : Punct) : Bool := t.kind.isPunct p

def isName (t : Token) (word : String) : Bool := t.kind.isName word

end Token

end Espalier
