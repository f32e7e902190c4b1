import Espalier.Syntax.Operator

/-!
# Punctuators

Brackets, separators and operators written in signs. Where several of them begin a text, the
longest is read, except that `?.` is not read in front of a digit: `a?.5:b` chooses between `.5` and
`b`.
-/

namespace Espalier

/-- A punctuator. -/
inductive Punct
  | leftParen | rightParen | leftBrace | rightBrace | leftBracket | rightBracket
  | semicolon | comma | colon | dot | question | hash | arrow | ellipsis | questionDot
  | assign | plusAssign | minusAssign | starAssign | slashAssign | percentAssign | powerAssign
  | ampAssign | pipeAssign | caretAssign | shiftLeftAssign | shiftRightAssign
  | shiftRightZeroAssign | andAssign | orAssign | coalesceAssign
  | equal | strictEqual | notEqual | strictNotEqual | less | lessEqual | greater | greaterEqual
  | plus | minus | star | slash | percent | power | increment | decrement
  | amp | pipe | caret | tilde | shiftLeft | shiftRight | shiftRightZero
  | and | or | bang | coalesce
  deriving DecidableEq, Repr, Inhabited

namespace Punct

/-- The signs of a punctuator. -/
def text : Punct → String
  | leftParen => "(" | rightParen => ")" | leftBrace => "\x7b" | rightBrace => "\x7d"
  | leftBracket => "[" | rightBracket => "]"
  | semicolon => ";" | comma => "," | colon => ":" | dot => "." | question => "?" | hash => "#"
  | arrow => "=>" | ellipsis => "..." | questionDot => "?."
  | assign => "=" | plusAssign => "+=" | minusAssign => "-=" | starAssign => "*="
  | slashAssign => "/=" | percentAssign => "%=" | powerAssign => "**="
  | ampAssign => "&=" | pipeAssign => "|=" | caretAssign => "^="
  | shiftLeftAssign => "<<=" | shiftRightAssign => ">>=" | shiftRightZeroAssign => ">>>="
  | andAssign => "&&=" | orAssign => "||=" | coalesceAssign => "??="
  | equal => "==" | strictEqual => "===" | notEqual => "!=" | strictNotEqual => "!=="
  | less => "<" | lessEqual => "<=" | greater => ">" | greaterEqual => ">="
  | plus => "+" | minus => "-" | star => "*" | slash => "/" | percent => "%" | power => "**"
  | increment => "++" | decrement => "--"
  | amp => "&" | pipe => "|" | caret => "^" | tilde => "~"
  | shiftLeft => "<<" | shiftRight => ">>" | shiftRightZero => ">>>"
  | and => "&&" | or => "||" | bang => "!" | coalesce => "??"

/-- All punctuators, longer ones first. -/
def all : List Punct :=
  [shiftRightZeroAssign,
    ellipsis, powerAssign, shiftLeftAssign, shiftRightAssign, andAssign, orAssign, coalesceAssign,
    strictEqual, strictNotEqual, shiftRightZero,
    arrow, questionDot, plusAssign, minusAssign, starAssign, slashAssign, percentAssign, ampAssign,
    pipeAssign, caretAssign, equal, notEqual, lessEqual, greaterEqual, power, increment, decrement,
    shiftLeft, shiftRight, and, or, coalesce,
    leftParen, rightParen, leftBrace, rightBrace, leftBracket, rightBracket, semicolon, comma,
    colon, dot, question, hash, assign, less, greater, plus, minus, star, slash, percent, amp, pipe,
    caret, tilde, bang]

theorem mem_all (p : Punct) : p ∈ all := by cases p <;> decide

/-- Whether `p` may be read at the start of a text. -/
def startsAt (p : Punct) (cs : List Char) : Bool :=
  match cs, p with
  | '?' :: '.' :: c :: _, questionDot => !c.isDigit
  | _, _ => p.text.toList.isPrefixOf cs

/-- The punctuator at the start of a text. -/
def read? (cs : List Char) : Option Punct := all.find? (·.startsAt cs)

/-- The operator between two operands that the signs spell. -/
def operator? : Punct → Option InfixOp
  | plus => some (.binary .add)
  | minus => some (.binary .sub)
  | star => some (.binary .mul)
  | slash => some (.binary .div)
  | percent => some (.binary .mod)
  | power => some (.binary .pow)
  | equal => some (.binary .equal)
  | notEqual => some (.binary .notEqual)
  | strictEqual => some (.binary .strictEqual)
  | strictNotEqual => some (.binary .strictNotEqual)
  | less => some (.binary .less)
  | lessEqual => some (.binary .lessEqual)
  | greater => some (.binary .greater)
  | greaterEqual => some (.binary .greaterEqual)
  | shiftLeft => some (.binary .shiftLeft)
  | shiftRight => some (.binary .shiftRight)
  | shiftRightZero => some (.binary .shiftRightZero)
  | pipe => some (.binary .bitOr)
  | caret => some (.binary .bitXor)
  | amp => some (.binary .bitAnd)
  | and => some (.logical .and)
  | or => some (.logical .or)
  | coalesce => some (.logical .coalesce)
  | _ => none

theorem text_of_operator? {p : Punct} {op : InfixOp} (h : p.operator? = some op) :
    p.text = op.text := by
  cases p <;> simp only [operator?, reduceCtorEq, Option.some.injEq] at h <;> subst h <;> rfl

/-- The assignment that the signs spell. -/
def assignOp? : Punct → Option AssignOp
  | assign => some .plain
  | plusAssign => some (.compound (.binary .add))
  | minusAssign => some (.compound (.binary .sub))
  | starAssign => some (.compound (.binary .mul))
  | slashAssign => some (.compound (.binary .div))
  | percentAssign => some (.compound (.binary .mod))
  | powerAssign => some (.compound (.binary .pow))
  | shiftLeftAssign => some (.compound (.binary .shiftLeft))
  | shiftRightAssign => some (.compound (.binary .shiftRight))
  | shiftRightZeroAssign => some (.compound (.binary .shiftRightZero))
  | ampAssign => some (.compound (.binary .bitAnd))
  | pipeAssign => some (.compound (.binary .bitOr))
  | caretAssign => some (.compound (.binary .bitXor))
  | andAssign => some (.compound (.logical .and))
  | orAssign => some (.compound (.logical .or))
  | coalesceAssign => some (.compound (.logical .coalesce))
  | _ => none

theorem text_of_assignOp? {p : Punct} {op : AssignOp} (h : p.assignOp? = some op) :
    p.text = op.text := by
  cases p <;> simp only [assignOp?, reduceCtorEq, Option.some.injEq] at h <;> subst h <;> rfl

end Punct

end Espalier
