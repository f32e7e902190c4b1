/-!
# Node types

The types under which the syntax tree is shown and addressed, and the groups of them that have names
of their own.
-/

namespace Espalier

/-- The type of a node. -/
inductive NodeType
  | program | expressionStatement | blockStatement | emptyStatement | debuggerStatement
  | returnStatement | ifStatement | switchStatement | switchCase | throwStatement | tryStatement
  | catchClause | whileStatement | doWhileStatement | forStatement | forInStatement
  | forOfStatement | breakStatement | continueStatement | labeledStatement | variableDeclaration
  | variableDeclarator | functionDeclaration | classDeclaration | importDeclaration
  | importSpecifier | importDefaultSpecifier | importNamespaceSpecifier | exportNamedDeclaration
  | exportSpecifier | exportDefaultDeclaration | exportAllDeclaration | identifier | stringLiteral
  | numericLiteral | booleanLiteral | nullLiteral | regExpLiteral | bigIntLiteral | templateLiteral
  | templateElement | taggedTemplateExpression | thisExpression | super | importWord | metaProperty
  | arrayExpression | objectExpression | objectProperty | objectMethod | spreadElement
  | functionExpression | arrowFunctionExpression | classExpression | unaryExpression
  | updateExpression | binaryExpression | logicalExpression | assignmentExpression
  | conditionalExpression | sequenceExpression | memberExpression | optionalMemberExpression
  | callExpression | optionalCallExpression | newExpression | awaitExpression | yieldExpression
  | classBody | classMethod | classProperty | arrayPattern | objectPattern | assignmentPattern
  | restElement
  deriving DecidableEq, Repr, Inhabited, Hashable

namespace NodeType

/-- The name of a type. -/
def text : NodeType → String
  | program => "Program" | expressionStatement => "ExpressionStatement"
  | blockStatement => "BlockStatement" | emptyStatement => "EmptyStatement"
  | debuggerStatement => "DebuggerStatement" | returnStatement => "ReturnStatement"
  | ifStatement => "IfStatement" | switchStatement => "SwitchStatement"
  | switchCase => "SwitchCase" | throwStatement => "ThrowStatement"
  | tryStatement => "TryStatement" | catchClause => "CatchClause"
  | whileStatement => "WhileStatement" | doWhileStatement => "DoWhileStatement"
  | forStatement => "ForStatement" | forInStatement => "ForInStatement"
  | forOfStatement => "ForOfStatement" | breakStatement => "BreakStatement"
  | continueStatement => "ContinueStatement" | labeledStatement => "LabeledStatement"
  | variableDeclaration => "VariableDeclaration" | variableDeclarator => "VariableDeclarator"
  | functionDeclaration => "FunctionDeclaration" | classDeclaration => "ClassDeclaration"
  | importDeclaration => "ImportDeclaration" | importSpecifier => "ImportSpecifier"
  | importDefaultSpecifier => "ImportDefaultSpecifier"
  | importNamespaceSpecifier => "ImportNamespaceSpecifier"
  | exportNamedDeclaration => "ExportNamedDeclaration" | exportSpecifier => "ExportSpecifier"
  | exportDefaultDeclaration => "ExportDefaultDeclaration"
  | exportAllDeclaration => "ExportAllDeclaration" | identifier => "Identifier"
  | stringLiteral => "StringLiteral" | numericLiteral => "NumericLiteral"
  | booleanLiteral => "BooleanLiteral" | nullLiteral => "NullLiteral"
  | regExpLiteral => "RegExpLiteral" | bigIntLiteral => "BigIntLiteral"
  | templateLiteral => "TemplateLiteral" | templateElement => "TemplateElement"
  | taggedTemplateExpression => "TaggedTemplateExpression" | thisExpression => "ThisExpression"
  | super => "Super" | importWord => "Import" | metaProperty => "MetaProperty"
  | arrayExpression => "ArrayExpression" | objectExpression => "ObjectExpression"
  | objectProperty => "ObjectProperty" | objectMethod => "ObjectMethod"
  | spreadElement => "SpreadElement" | functionExpression => "FunctionExpression"
  | arrowFunctionExpression => "ArrowFunctionExpression" | classExpression => "ClassExpression"
  | unaryExpression => "UnaryExpression" | updateExpression => "UpdateExpression"
  | binaryExpression => "BinaryExpression" | logicalExpression => "LogicalExpression"
  | assignmentExpression => "AssignmentExpression"
  | conditionalExpression => "ConditionalExpression" | sequenceExpression => "SequenceExpression"
  | memberExpression => "MemberExpression" | optionalMemberExpression => "OptionalMemberExpression"
  | callExpression => "CallExpression" | optionalCallExpression => "OptionalCallExpression"
  | newExpression => "NewExpression" | awaitExpression => "AwaitExpression"
  | yieldExpression => "YieldExpression" | classBody => "ClassBody" | classMethod => "ClassMethod"
  | classProperty => "ClassProperty" | arrayPattern => "ArrayPattern"
  | objectPattern => "ObjectPattern" | assignmentPattern => "AssignmentPattern"
  | restElement => "RestElement"

/-- All types. -/
def all : List NodeType :=
  [program, expressionStatement, blockStatement, emptyStatement, debuggerStatement,
    returnStatement, ifStatement, switchStatement, switchCase, throwStatement, tryStatement,
    catchClause, whileStatement, doWhileStatement, forStatement, forInStatement, forOfStatement,
    breakStatement, continueStatement, labeledStatement, variableDeclaration, variableDeclarator,
    functionDeclaration, classDeclaration, importDeclaration, importSpecifier,
    importDefaultSpecifier, importNamespaceSpecifier, exportNamedDeclaration, exportSpecifier,
    exportDefaultDeclaration, exportAllDeclaration, identifier, stringLiteral, numericLiteral,
    booleanLiteral, nullLiteral, regExpLiteral, bigIntLiteral, templateLiteral, templateElement,
    taggedTemplateExpression, thisExpression, super, importWord, metaProperty, arrayExpression,
    objectExpression, objectProperty, objectMethod, spreadElement, functionExpression,
    arrowFunctionExpression, classExpression, unaryExpression, updateExpression, binaryExpression,
    logicalExpression, assignmentExpression, conditionalExpression, sequenceExpression,
    memberExpression, optionalMemberExpression, callExpression, optionalCallExpression,
    newExpression, awaitExpression, yieldExpression, classBody, classMethod, classProperty,
    arrayPattern, objectPattern, assignmentPattern, restElement]

theorem mem_all (t : NodeType) : t ∈ all := by cases t <;> decide

/-- The type of a name. -/
def ofText? (name : String) : Option NodeType := all.find? (·.text == name)

theorem ofText?_text (t : NodeType) : ofText? t.text = some t := by cases t <;> decide

theorem text_of_ofText? {name : String} {t : NodeType} (h : ofText? name = some t) :
    t.text = name := by
  simpa using List.find?_some h

/-- The wording of an unknown name. -/
def unknownMessage (name : String) : String := s!"unknown node type \x60{name}\x60"

end NodeType

/-- A group of node types. -/
inductive Alias
  | expression | statement | declaration | function | literal | loop | forLoop | whileLoop
  | classDef | pattern | moduleDeclaration | exportDeclaration | moduleSpecifier | method
  | objectMember
  | property | binary | conditional | completionStatement | block
  deriving DecidableEq, Repr, Inhabited

namespace Alias

/-- The name of a group. -/
def text : Alias → String
  | expression => "Expression" | statement => "Statement" | declaration => "Declaration"
  | function => "Function" | literal => "Literal" | loop => "Loop" | forLoop => "For"
  | whileLoop => "While" | classDef => "Class" | pattern => "Pattern"
  | moduleDeclaration => "ModuleDeclaration" | exportDeclaration => "ExportDeclaration"
  | moduleSpecifier => "ModuleSpecifier" | method => "Method" | objectMember => "ObjectMember"
  | property => "Property" | binary => "Binary" | conditional => "Conditional"
  | completionStatement => "CompletionStatement" | block => "Block"

/-- All groups. -/
def all : List Alias :=
  [expression, statement, declaration, function, literal, loop, forLoop, whileLoop, classDef,
    pattern, moduleDeclaration, exportDeclaration, moduleSpecifier, method, objectMember, property,
    binary, conditional, completionStatement, block]

theorem mem_all (a : Alias) : a ∈ all := by cases a <;> decide

/-- The group of a name. -/
def ofText? (name : String) : Option Alias := all.find? (·.text == name)

theorem text_of_ofText? {name : String} {a : Alias} (h : ofText? name = some a) :
    a.text = name := by
  simpa using List.find?_some h

/-- No group has the name of a type. -/
theorem ofText?_text_eq_none (a : Alias) : NodeType.ofText? a.text = none := by
  cases a <;> decide

/-- The types of a group. -/
def types : Alias → List NodeType
  | expression =>
    [.identifier, .stringLiteral, .numericLiteral, .booleanLiteral, .nullLiteral, .regExpLiteral,
    .bigIntLiteral, .templateLiteral, .taggedTemplateExpression, .thisExpression, .super,
    .importWord, .metaProperty, .arrayExpression, .objectExpression, .functionExpression,
    .arrowFunctionExpression, .classExpression, .unaryExpression, .updateExpression,
    .binaryExpression, .logicalExpression, .assignmentExpression, .conditionalExpression,
    .sequenceExpression, .memberExpression, .optionalMemberExpression, .callExpression,
    .optionalCallExpression, .newExpression, .awaitExpression, .yieldExpression]
  | statement =>
    [.expressionStatement, .blockStatement, .emptyStatement, .debuggerStatement, .returnStatement,
    .ifStatement, .switchStatement, .throwStatement, .tryStatement, .whileStatement,
    .doWhileStatement, .forStatement, .forInStatement, .forOfStatement, .breakStatement,
    .continueStatement, .labeledStatement, .variableDeclaration, .functionDeclaration,
    .classDeclaration, .importDeclaration, .exportNamedDeclaration, .exportDefaultDeclaration,
    .exportAllDeclaration]
  | declaration =>
    [.variableDeclaration, .functionDeclaration, .classDeclaration, .importDeclaration,
    .exportNamedDeclaration, .exportDefaultDeclaration, .exportAllDeclaration]
  | function =>
    [.functionDeclaration, .functionExpression, .arrowFunctionExpression, .objectMethod,
    .classMethod]
  | literal =>
    [.stringLiteral, .numericLiteral, .booleanLiteral, .nullLiteral, .regExpLiteral,
    .bigIntLiteral, .templateLiteral]
  | loop =>
    [.forStatement, .forInStatement, .forOfStatement, .whileStatement, .doWhileStatement]
  | forLoop =>
    [.forStatement, .forInStatement, .forOfStatement]
  | whileLoop =>
    [.whileStatement, .doWhileStatement]
  | classDef =>
    [.classDeclaration, .classExpression]
  | pattern =>
    [.arrayPattern, .objectPattern, .assignmentPattern]
  | moduleDeclaration =>
    [.importDeclaration, .exportNamedDeclaration, .exportDefaultDeclaration, .exportAllDeclaration]
  | exportDeclaration =>
    [.exportNamedDeclaration, .exportDefaultDeclaration, .exportAllDeclaration]
  | moduleSpecifier =>
    [.importSpecifier, .importDefaultSpecifier, .importNamespaceSpecifier, .exportSpecifier]
  | method =>
    [.objectMethod, .classMethod]
  | objectMember =>
    [.objectProperty, .objectMethod]
  | property =>
    [.objectProperty, .classProperty]
  | binary =>
    [.binaryExpression, .logicalExpression]
  | conditional =>
    [.ifStatement, .conditionalExpression]
  | completionStatement =>
    [.breakStatement, .continueStatement, .returnStatement, .throwStatement]
  | block =>
    [.blockStatement, .program]

/-- Whether a type belongs to a group. -/
def covers (a : Alias) (t : NodeType) : Bool := a.types.contains t

end Alias

/-- The groups that a type belongs to. -/
def NodeType.aliases (t : NodeType) : List Alias := Alias.all.filter (·.covers t)

end Espalier
