/-!
# Operators

The operators of expressions and the other closed sets of words in the syntax tree, each with its
spelling.
-/

namespace Espalier

/-- An operator in front of one operand. -/
inductive UnaryOp
  | minus | plus | not | bitNot | typeof | void | delete
  deriving DecidableEq, Repr, Inhabited

namespace UnaryOp

def text : UnaryOp → String
  | minus => "-" | plus => "+" | not => "!" | bitNot => "~"
  | typeof => "typeof" | void => "void" | delete => "delete"

def all : List UnaryOp := [minus, plus, not, bitNot, typeof, void, delete]

def ofText? (s : String) : Option UnaryOp := all.find? (·.text == s)

end UnaryOp

/-- An operator that changes a variable by one. -/
inductive UpdateOp
  | increment | decrement
  deriving DecidableEq, Repr, Inhabited

namespace UpdateOp

def text : UpdateOp → String
  | increment => "++" | decrement => "--"

def all : List UpdateOp := [increment, decrement]

def ofText? (s : String) : Option UpdateOp := all.find? (·.text == s)

end UpdateOp

/-- An operator between two operands, both of which are evaluated. -/
inductive BinaryOp
  | add | sub | mul | div | mod | pow
  | equal | notEqual | strictEqual | strictNotEqual | less | lessEqual | greater | greaterEqual
  | shiftLeft | shiftRight | shiftRightZero | bitOr | bitXor | bitAnd
  | isIn | instanceOf
  deriving DecidableEq, Repr, Inhabited

namespace BinaryOp

def text : BinaryOp → String
  | add => "+" | sub => "-" | mul => "*" | div => "/" | mod => "%" | pow => "**"
  | equal => "==" | notEqual => "!=" | strictEqual => "===" | strictNotEqual => "!=="
  | less => "<" | lessEqual => "<=" | greater => ">" | greaterEqual => ">="
  | shiftLeft => "<<" | shiftRight => ">>" | shiftRightZero => ">>>"
  | bitOr => "|" | bitXor => "^" | bitAnd => "&"
  | isIn => "in" | instanceOf => "instanceof"

def all : List BinaryOp :=
  [add, sub, mul, div, mod, pow, equal, notEqual, strictEqual, strictNotEqual, less, lessEqual,
    greater, greaterEqual, shiftLeft, shiftRight, shiftRightZero, bitOr, bitXor, bitAnd, isIn,
    instanceOf]

def ofText? (s : String) : Option BinaryOp := all.find? (·.text == s)

end BinaryOp

/-- An operator between two operands, of which the second is evaluated only if the first does not
settle the result. -/
inductive LogicalOp
  | and | or | coalesce
  deriving DecidableEq, Repr, Inhabited

namespace LogicalOp

def text : LogicalOp → String
  | and => "&&" | or => "||" | coalesce => "??"

def all : List LogicalOp := [and, or, coalesce]

def ofText? (s : String) : Option LogicalOp := all.find? (·.text == s)

end LogicalOp

/-- An operator between two operands. -/
inductive InfixOp
  | binary (op : BinaryOp)
  | logical (op : LogicalOp)
  deriving DecidableEq, Repr, Inhabited

namespace InfixOp

def text : InfixOp → String
  | binary op => op.text
  | logical op => op.text

/-- How tightly an operator binds; the tightest has the highest number. -/
def precedence : InfixOp → Nat
  | logical .coalesce => 1
  | logical .or => 2
  | logical .and => 3
  | binary .bitOr => 4
  | binary .bitXor => 5
  | binary .bitAnd => 6
  | binary .equal | binary .notEqual | binary .strictEqual | binary .strictNotEqual => 7
  | binary .less | binary .lessEqual | binary .greater | binary .greaterEqual | binary .isIn
  | binary .instanceOf => 8
  | binary .shiftLeft | binary .shiftRight | binary .shiftRightZero => 9
  | binary .add | binary .sub => 10
  | binary .mul | binary .div | binary .mod => 11
  | binary .pow => 12

/-- The precedence of the operator that binds tightest. -/
def tightest : Nat := 12

theorem precedence_le (op : InfixOp) : op.precedence ≤ tightest := by
  rcases op with op | op <;> cases op <;> decide

/-- Whether a chain of the operator groups from the right: the power operator alone does. -/
def isRightAssociative (op : InfixOp) : Bool := op == binary .pow

end InfixOp

/-- An assignment: of the right side itself, or of what an operator makes of the old value and the
right side. -/
inductive AssignOp
  | plain
  | compound (op : InfixOp)
  deriving DecidableEq, Repr, Inhabited

namespace AssignOp

/-- The operator that is applied before assigning. -/
def base? : AssignOp → Option InfixOp
  | plain => none
  | compound op => op

def text : AssignOp → String
  | plain => "="
  | compound op => op.text ++ "="

/-- All assignments that can be written. -/
def all : List AssignOp :=
  plain :: [InfixOp.binary .add, .binary .sub, .binary .mul, .binary .div, .binary .mod,
    .binary .pow, .binary .shiftLeft, .binary .shiftRight, .binary .shiftRightZero, .binary .bitOr,
    .binary .bitXor, .binary .bitAnd, .logical .and, .logical .or, .logical .coalesce].map compound

def ofText? (s : String) : Option AssignOp := all.find? (·.text == s)

end AssignOp

/-- The word that starts a declaration of variables. -/
inductive VarKind
  | varKind | letKind | constKind
  deriving DecidableEq, Repr, Inhabited

namespace VarKind

def text : VarKind → String
  | varKind => "var" | letKind => "let" | constKind => "const"

def all : List VarKind := [varKind, letKind, constKind]

def ofText? (s : String) : Option VarKind := all.find? (·.text == s)

end VarKind

/-- The role of a method. -/
inductive MethodKind
  | method | getter | setter | constructor
  deriving DecidableEq, Repr, Inhabited

namespace MethodKind

def text : MethodKind → String
  | method => "method" | getter => "get" | setter => "set" | constructor => "constructor"

def all : List MethodKind := [method, getter, setter, constructor]

def ofText? (s : String) : Option MethodKind := all.find? (·.text == s)

end MethodKind

/-- Whether a source may import and export. -/
inductive SourceType
  | script | module
  deriving DecidableEq, Repr, Inhabited

def SourceType.text : SourceType → String
  | script => "script" | module => "module"

end Espalier
