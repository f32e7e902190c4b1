import Espalier.Node.Kind
import Espalier.Syntax

/-!
# The type of a construct

The type under which a statement, an expression or a pattern is shown.
-/

namespace Espalier

/-- The type of an expression. Members and calls in a chain with an optional link have types of
their own. -/
def Expr.nodeType : Expr → NodeType
  | null _ => .nullLiteral
  | bool _ _ => .booleanLiteral
  | number _ _ => .numericLiteral
  | bigint _ _ => .bigIntLiteral
  | string _ _ => .stringLiteral
  | regex _ _ _ => .regExpLiteral
  | template _ => .templateLiteral
  | tagged _ _ _ => .taggedTemplateExpression
  | ident _ => .identifier
  | this _ => .thisExpression
  | super _ => .super
  | importWord _ => .importWord
  | metaProperty _ _ _ => .metaProperty
  | array _ _ => .arrayExpression
  | object _ _ => .objectExpression
  | function _ => .functionExpression
  | arrow _ => .arrowFunctionExpression
  | classExpr _ => .classExpression
  | unary _ _ _ => .unaryExpression
  | update _ _ _ _ => .updateExpression
  | binary _ _ _ _ => .binaryExpression
  | logical _ _ _ _ => .logicalExpression
  | assign _ _ _ _ => .assignmentExpression
  | conditional _ _ _ _ => .conditionalExpression
  | sequence _ _ => .sequenceExpression
  | member s e p optional =>
    if (member s e p optional).isOptionalChain then .optionalMemberExpression
    else .memberExpression
  | call s e args optional =>
    if (call s e args optional).isOptionalChain then .optionalCallExpression else .callExpression
  | new _ _ _ => .newExpression
  | spread _ _ => .spreadElement
  | yield _ _ _ => .yieldExpression
  | await _ _ => .awaitExpression

/-- The type of a pattern. -/
def Pattern.nodeType : Pattern → NodeType
  | ident _ => .identifier
  | array _ _ => .arrayPattern
  | object _ _ => .objectPattern
  | default _ _ _ => .assignmentPattern
  | rest _ _ => .restElement
  | target e => e.nodeType

/-- The type of a statement. -/
def Stmt.nodeType : Stmt → NodeType
  | var _ => .variableDeclaration
  | function _ => .functionDeclaration
  | classDecl _ => .classDeclaration
  | block _ => .blockStatement
  | expr _ _ => .expressionStatement
  | empty _ => .emptyStatement
  | debugger _ => .debuggerStatement
  | ifThen _ _ _ _ => .ifStatement
  | switch _ _ _ => .switchStatement
  | forLoop _ _ _ _ _ => .forStatement
  | forIn _ _ _ _ => .forInStatement
  | forOf _ _ _ _ _ => .forOfStatement
  | whileLoop _ _ _ => .whileStatement
  | doWhile _ _ _ => .doWhileStatement
  | breakTo _ _ => .breakStatement
  | continueTo _ _ => .continueStatement
  | returns _ _ => .returnStatement
  | throws _ _ => .throwStatement
  | tryCatch _ _ _ _ => .tryStatement
  | labeled _ _ _ => .labeledStatement
  | importDecl _ _ _ => .importDeclaration
  | exportNamed _ _ _ _ => .exportNamedDeclaration
  | exportDefault _ _ => .exportDefaultDeclaration
  | exportAll _ _ _ => .exportAllDeclaration

end Espalier
