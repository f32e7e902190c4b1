import Espalier.Syntax

/-!
# Where parentheses are needed

Printed expressions have levels: an expression is put between parentheses where its own level is
below the least one that its place admits. Besides, a statement may not start with what would read
as a declaration or a block, and the callee of `new` may not hold a call.
-/

namespace Espalier

namespace Print.Level

def sequence : Nat := 1
def assignment : Nat := 2
def conditional : Nat := 3
/-- The test of a choice between two expressions. -/
def test : Nat := 4
def unary : Nat := 15
/-- The operand of a change by one after it, and the base of a power. -/
def postfixOperand : Nat := 16
/-- The callee of `new`. -/
def creation : Nat := 17
/-- What a member, a call or a template follows. -/
def member : Nat := 18

end Print.Level

/-- The level of an operator between two operands. -/
def InfixOp.level : InfixOp → Nat
  | .logical .coalesce => 4
  | op => op.precedence + 2

/-- Whether two logical operators may not stand side by side without parentheses. -/
def LogicalOp.clashes (op inner : LogicalOp) : Bool := (op == .coalesce) != (inner == .coalesce)

/-- The least level that an operand of a logical operator may have, where `least` would do but for
operators that may not stand side by side. -/
def LogicalOp.operandLevel (op : LogicalOp) (least : Nat) : Expr → Nat
  | .logical _ inner _ _ =>
    if op.clashes inner then (InfixOp.logical inner).level + 1 else least
  | _ => least

/-- Whether an `if` statement has no `else`. -/
def Stmt.isOpenIf : Stmt → Bool
  | .ifThen _ _ _ none => true
  | _ => false

def Stmt.isBlock : Stmt → Bool
  | .block _ => true
  | _ => false

/-- Whether an expression printed at the start of a statement would be read as a declaration or a
block. -/
def Expr.startsAmbiguously : Expr → Bool
  | .object _ _ | .function _ | .classExpr _ => true
  | .member _ e _ _ | .call _ e _ _ | .tagged _ e _ | .binary _ _ e _ | .logical _ _ e _
  | .conditional _ e _ _ | .update _ _ false e => e.startsAmbiguously
  | .sequence _ (e :: _) => e.startsAmbiguously
  | .assign _ _ (.object _ _) _ => true
  | .assign _ _ (.target e) _ => e.startsAmbiguously
  | _ => false

/-- Whether an expression ends in members and templates of a call. -/
def Expr.containsCall : Expr → Bool
  | .call _ _ _ _ => true
  | .member _ e _ _ | .tagged _ e _ => e.containsCall
  | _ => false

/-- The name that a shorthand property may be printed as, for its key and value. -/
def Expr.shorthandName? : PropertyKey → Expr → Option String
  | .ident k, .ident v => if k.name == v.name then some k.name else none
  | _, _ => none

/-- Whether a key and a pattern may be printed as the pattern alone. -/
def Pattern.isShorthandFor (key : PropertyKey) : Pattern → Bool
  | .ident i | .default _ (.ident i) _ =>
    match key with
    | .ident k => k.name == i.name
    | _ => false
  | _ => false

end Espalier
