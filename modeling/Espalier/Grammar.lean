import Espalier.Grammar.Statement

/-!
# Parsing

`Program.parse` reads a whole source, `Expr.parse` a source that is one expression. Statements,
assignments, patterns, operands and the right sides of powers nest at most `Grammar.maxDepth` levels
deep.
-/

namespace Espalier

namespace Grammar

/-- How deep a source may nest. -/
def maxDepth : Nat := 128

/-- The grammar one level around `g`. -/
def around (g : Grammar) : Grammar where
  statement := anyStatement g
  pattern := bindingPattern g
  assignment := assignmentExpr g
  power := binary g InfixOp.tightest
  operand := unary g
  creation := construct g (leftHandSide g)

/-- The grammar that lets `depth` more levels nest. -/
def ofDepth : (depth : Nat) → Grammar
  | 0 =>
    { statement := Parse.failHere .tooDeep
      pattern := Parse.failHere .tooDeep
      assignment := Parse.failHere .tooDeep
      power := Parse.failHere .tooDeep
      operand := Parse.failHere .tooDeep
      creation := Parse.failHere .tooDeep }
  | n + 1 => (ofDepth n).around

/-- The grammar of whole sources. -/
def full : Grammar := ofDepth maxDepth

end Grammar

namespace Parse

/-- Runs a reader from the start of a source. -/
def run {α : Type} (p : Parse α) (source : String) (options : ParserOptions) :
    Except ParseError α :=
  let env : Env := { options, size := source.utf8ByteSize, inAsync := options.isModule }
  let st : State := { current := Token.scan (.ofSource source), prevEnd := 0 }
  match p env st with
  | .ok (a, _) => .ok a
  | .error e => .error (.ofSyntaxError (.ofSource source) e)

/-- All statements up to the end of the source. -/
def statements : Parse (List Stmt) := itemsUntil Token.Kind.isEof Grammar.full.statement

/-- One expression that ends where the source does. -/
def wholeExpression : Parse Expr := do
  let e ← Grammar.full.expression
  if ← isEof then return e else unexpected

end Parse

/-- Parses a whole source. -/
def Program.parse (source : String) (options : ParserOptions := {}) : Except ParseError Program :=
  return {
    body := ← Parse.statements.run source options
    sourceType := if options.isModule then .module else .script
    span := ⟨0, source.utf8ByteSize⟩ }

/-- Parses a source that is one expression. -/
def Expr.parse (source : String) : Except ParseError Expr :=
  Parse.wholeExpression.run source {}

/-- A test that a result passes shows that there is one. -/
theorem exists_ok_of_toOption_any {ε α : Type} {x : Except ε α} {f : α → Bool}
    (h : x.toOption.any f = true) : ∃ a, x = .ok a ∧ f a = true := by
  cases x with
  | ok a => exact ⟨a, rfl, h⟩
  | error cause => cases h

/-- A source is accepted if it gives something. -/
theorem exists_ok_of_isSome {ε α : Type} {x : Except ε α} (h : x.toOption.isSome = true) :
    ∃ a, x = .ok a := by
  cases x with
  | ok a => exact ⟨a, rfl⟩
  | error cause => cases h

end Espalier
