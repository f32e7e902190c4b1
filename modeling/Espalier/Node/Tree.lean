import Espalier.Decimal.Layout
import Espalier.Node.Kind
import Espalier.Syntax
import Espalier.Text.Quoted

/-!
# The tree of nodes

The uniform view of a program: every node has a type, a span and named fields, each of which holds a
scalar, a child, a list of children or nothing. `Program.tree` gives it. Constructs that are nothing
but another one in a certain place are not nodes of their own, and holes in arrays are no children.
-/

namespace Espalier

/-- The value of a field that holds no node: a text, a number or a truth value. -/
inductive Scalar
  | string (value : String)
  | number (value : Float)
  | bool (value : Bool)
  deriving Repr, Inhabited

/-- A scalar as it is shown: texts quoted, numbers as a program writes them. -/
def Scalar.text : Scalar → String
  | string s => Text.Quoted.quote s
  | number n => Number.text n
  | bool b => if b then "true" else "false"

mutual

/-- A node with all that is below it. -/
structure Tree where
  type : NodeType
  span : Span
  fields : List TreeField

/-- A field of a node. -/
inductive TreeField
  | value (name : String) (scalar : Scalar)
  | absent (name : String)
  | child (name : String) (tree : Tree)
  | list (name : String) (trees : List Tree)

end

/-- A step from a node to a child: its field and, in a list, its index. -/
structure Step where
  field : String
  index : Option Nat
  deriving DecidableEq, Repr, Inhabited, Hashable

namespace TreeField

/-- The name of a field. -/
def name : TreeField → String
  | value n _ | absent n | child n _ | list n _ => n

/-- The children in a field, with the steps to them. -/
def children : TreeField → List (Step × Tree)
  | value _ _ | absent _ => []
  | child n t => [(⟨n, none⟩, t)]
  | list n ts => ts.zipIdx.map fun (t, i) => (⟨n, some i⟩, t)

def text (name value : String) : TreeField := .value name (.string value)

def flag (name : String) (value : Bool) : TreeField := .value name (.bool value)

/-- A child that may be missing. -/
def orAbsent (name : String) : Option Tree → TreeField
  | none => absent name
  | some t => child name t

end TreeField

namespace Tree

/-- The children of a node with the steps to them, in the order of the fields. -/
def children (t : Tree) : List (Step × Tree) := t.fields.flatMap TreeField.children

/-- The field of a name. -/
def field? (t : Tree) (name : String) : Option TreeField := t.fields.find? (·.name == name)

/-- The child that a step leads to. -/
def child? (t : Tree) (step : Step) : Option Tree :=
  match t.field? step.field, step.index with
  | some (.child _ c), none => some c
  | some (.list _ cs), some i => cs[i]?
  | _, _ => none

/-- The node that a path leads to. -/
def descend? (t : Tree) (path : List Step) : Option Tree := path.foldlM child? t

mutual

/-- A node and all that is below it, each before what is below it. -/
def preorder : Tree → List Tree
  | ⟨type, span, fields⟩ => ⟨type, span, fields⟩ :: preorderFields fields

def preorderFields : List TreeField → List Tree
  | [] => []
  | .child _ t :: fs => preorder t ++ preorderFields fs
  | .list _ ts :: fs => preorderList ts ++ preorderFields fs
  | .value _ _ :: fs => preorderFields fs
  | .absent _ :: fs => preorderFields fs

def preorderList : List Tree → List Tree
  | [] => []
  | t :: ts => preorder t ++ preorderList ts

end

end Tree

/-! ### The view of the syntax tree -/

open TreeField (text flag orAbsent)

/-- A name as a node. -/
def Ident.tree (i : Ident) : Tree := ⟨.identifier, i.span, [text "name" i.name]⟩

/-- A piece of a template as a node. -/
def TemplateElement.tree (e : TemplateElement) : Tree :=
  ⟨.templateElement, e.span, [text "value" e.cooked, flag "tail" e.tail]⟩

def ImportSpecifier.tree : ImportSpecifier → Tree
  | .default s b => ⟨.importDefaultSpecifier, s, [.child "local" b.tree]⟩
  | .star s b => ⟨.importNamespaceSpecifier, s, [.child "local" b.tree]⟩
  | .named s i b => ⟨.importSpecifier, s, [.child "imported" i.tree, .child "local" b.tree]⟩

def ExportSpecifier.tree (e : ExportSpecifier) : Tree :=
  ⟨.exportSpecifier, e.span, [.child "local" e.binding.tree, .child "exported" e.exported.tree]⟩

mutual

/-- An expression as a node. -/
def Expr.tree : Expr → Tree
  | .null s => ⟨.nullLiteral, s, []⟩
  | .bool s value => ⟨.booleanLiteral, s, [flag "value" value]⟩
  | .number s value => ⟨.numericLiteral, s, [.value "value" (.number value)]⟩
  | .bigint s digits => ⟨.bigIntLiteral, s, [text "value" digits]⟩
  | .string s value => ⟨.stringLiteral, s, [text "value" value]⟩
  | .regex s pattern flags => ⟨.regExpLiteral, s, [text "pattern" pattern, text "flags" flags]⟩
  | .template t => t.tree
  | .tagged s tag quasi =>
    ⟨.taggedTemplateExpression, s, [.child "tag" tag.tree, .child "quasi" quasi.tree]⟩
  | .ident i => i.tree
  | .this s => ⟨.thisExpression, s, []⟩
  | .super s => ⟨.super, s, []⟩
  | .importWord s => ⟨.importWord, s, []⟩
  | .metaProperty s object property =>
    ⟨.metaProperty, s, [.child "meta" object.tree, .child "property" property.tree]⟩
  | .array s es => ⟨.arrayExpression, s, [.list "elements" (optionalExprTrees es)]⟩
  | .object s ps => ⟨.objectExpression, s, [.list "properties" (propertyTrees ps)]⟩
  | .function f => f.tree .functionExpression
  | .arrow a => a.tree
  | .classExpr c => c.tree .classExpression
  | .unary s op e =>
    ⟨.unaryExpression, s, [text "operator" op.text, flag "prefix" true, .child "argument" e.tree]⟩
  | .update s op isPrefix e =>
    ⟨.updateExpression, s,
      [text "operator" op.text, flag "prefix" isPrefix, .child "argument" e.tree]⟩
  | .binary s op l r =>
    ⟨.binaryExpression, s, [.child "left" l.tree, text "operator" op.text, .child "right" r.tree]⟩
  | .logical s op l r =>
    ⟨.logicalExpression, s, [.child "left" l.tree, text "operator" op.text, .child "right" r.tree]⟩
  | .assign s op l r =>
    ⟨.assignmentExpression, s,
      [text "operator" op.text, .child "left" l.tree, .child "right" r.tree]⟩
  | .conditional s t c a =>
    ⟨.conditionalExpression, s,
      [.child "test" t.tree, .child "consequent" c.tree, .child "alternate" a.tree]⟩
  | .sequence s es => ⟨.sequenceExpression, s, [.list "expressions" (exprTrees es)]⟩
  | .member s e p isOptional =>
    let fields := [.child "object" e.tree, flag "computed" p.isComputed, .child "property" p.tree]
    if isOptional || e.isOptionalChain then
      ⟨.optionalMemberExpression, s, fields ++ [flag "optional" isOptional]⟩
    else ⟨.memberExpression, s, fields⟩
  | .call s f args isOptional =>
    let fields := [.child "callee" f.tree, .list "arguments" (exprTrees args)]
    if isOptional || f.isOptionalChain then
      ⟨.optionalCallExpression, s, fields ++ [flag "optional" isOptional]⟩
    else ⟨.callExpression, s, fields⟩
  | .new s f args =>
    ⟨.newExpression, s, [.child "callee" f.tree, .list "arguments" (exprTrees args)]⟩
  | .spread s e => ⟨.spreadElement, s, [.child "argument" e.tree]⟩
  | .yield s e delegate =>
    ⟨.yieldExpression, s, [flag "delegate" delegate, optionalExprField "argument" e]⟩
  | .await s e => ⟨.awaitExpression, s, [.child "argument" e.tree]⟩

def MemberName.tree : MemberName → Tree
  | .ident i => i.tree
  | .computed e => e.tree

def exprTrees : List Expr → List Tree
  | [] => []
  | e :: es => e.tree :: exprTrees es

def optionalExprTrees : List (Option Expr) → List Tree
  | [] => []
  | none :: es => optionalExprTrees es
  | some e :: es => e.tree :: optionalExprTrees es

def optionalExprField (name : String) : Option Expr → TreeField
  | none => .absent name
  | some e => .child name e.tree

def Template.tree : Template → Tree
  | ⟨quasis, es, s⟩ =>
    ⟨.templateLiteral, s,
      [.list "quasis" (quasis.map TemplateElement.tree), .list "expressions" (exprTrees es)]⟩

def PropertyKey.tree : PropertyKey → Tree
  | .ident i => i.tree
  | .literal e => e.tree
  | .computed e => e.tree

def Property.tree : Property → Tree
  | .init s k value shorthand =>
    ⟨.objectProperty, s,
      [flag "method" false, .child "key" k.tree, flag "computed" k.isComputed,
        flag "shorthand" shorthand, .child "value" value.tree]⟩
  | .method s k kind f =>
    ⟨.objectMethod, s,
      [flag "method" (kind == .method), .child "key" k.tree, flag "computed" k.isComputed,
        text "kind" kind.text] ++ f.fields⟩
  | .spread s e => ⟨.spreadElement, s, [.child "argument" e.tree]⟩

def propertyTrees : List Property → List Tree
  | [] => []
  | p :: ps => p.tree :: propertyTrees ps

/-- The fields of a function that methods share. -/
def Func.fields : Func → List TreeField
  | ⟨_, params, body, isAsync, isGenerator, _⟩ =>
    [flag "generator" isGenerator, flag "async" isAsync, .list "params" (patternTrees params),
      .child "body" body.tree]

def Func.tree (type : NodeType) : Func → Tree
  | ⟨id, params, body, isAsync, isGenerator, s⟩ =>
    ⟨type, s,
      [orAbsent "id" (id.map Ident.tree), flag "generator" isGenerator, flag "async" isAsync,
        .list "params" (patternTrees params), .child "body" body.tree]⟩

def Arrow.tree : Arrow → Tree
  | ⟨params, body, isAsync, s⟩ =>
    ⟨.arrowFunctionExpression, s,
      [.absent "id", flag "generator" false, flag "async" isAsync,
        .list "params" (patternTrees params), .child "body" body.tree]⟩

def ArrowBody.tree : ArrowBody → Tree
  | .expr e => e.tree
  | .block b => b.tree

def Class.tree (type : NodeType) : Class → Tree
  | ⟨id, superClass, body, s⟩ =>
    ⟨type, s,
      [orAbsent "id" (id.map Ident.tree), optionalExprField "superClass" superClass,
        .child "body" body.tree]⟩

def ClassBody.tree : ClassBody → Tree
  | ⟨members, s⟩ => ⟨.classBody, s, [.list "body" (memberTrees members)]⟩

def ClassMember.tree : ClassMember → Tree
  | .method s k kind isStatic f =>
    ⟨.classMethod, s,
      [flag "static" isStatic, .child "key" k.tree, flag "computed" k.isComputed,
        text "kind" kind.text] ++ f.fields⟩
  | .property s k value isStatic =>
    ⟨.classProperty, s,
      [flag "static" isStatic, .child "key" k.tree, flag "computed" k.isComputed,
        optionalExprField "value" value]⟩

def memberTrees : List ClassMember → List Tree
  | [] => []
  | m :: ms => m.tree :: memberTrees ms

/-- A pattern as a node. -/
def Pattern.tree : Pattern → Tree
  | .ident i => i.tree
  | .array s ps => ⟨.arrayPattern, s, [.list "elements" (optionalPatternTrees ps)]⟩
  | .object s ps => ⟨.objectPattern, s, [.list "properties" (patternPropertyTrees ps)]⟩
  | .default s l r => ⟨.assignmentPattern, s, [.child "left" l.tree, .child "right" r.tree]⟩
  | .rest s p => ⟨.restElement, s, [.child "argument" p.tree]⟩
  | .target e => e.tree

def patternTrees : List Pattern → List Tree
  | [] => []
  | p :: ps => p.tree :: patternTrees ps

def optionalPatternTrees : List (Option Pattern) → List Tree
  | [] => []
  | none :: ps => optionalPatternTrees ps
  | some p :: ps => p.tree :: optionalPatternTrees ps

def PatternProperty.tree : PatternProperty → Tree
  | .entry s k value shorthand =>
    ⟨.objectProperty, s,
      [flag "method" false, .child "key" k.tree, flag "computed" k.isComputed,
        flag "shorthand" shorthand, .child "value" value.tree]⟩
  | .rest s p => ⟨.restElement, s, [.child "argument" p.tree]⟩

def patternPropertyTrees : List PatternProperty → List Tree
  | [] => []
  | p :: ps => p.tree :: patternPropertyTrees ps

def Block.tree : Block → Tree
  | ⟨body, s⟩ => ⟨.blockStatement, s, [.list "body" (stmtTrees body)]⟩

def VarDecl.tree : VarDecl → Tree
  | ⟨kind, ds, s⟩ =>
    ⟨.variableDeclaration, s, [.list "declarations" (declaratorTrees ds), text "kind" kind.text]⟩

def VarDeclarator.tree : VarDeclarator → Tree
  | ⟨id, init, s⟩ =>
    ⟨.variableDeclarator, s, [.child "id" id.tree, optionalExprField "init" init]⟩

def declaratorTrees : List VarDeclarator → List Tree
  | [] => []
  | d :: ds => d.tree :: declaratorTrees ds

def ForInit.tree : ForInit → Tree
  | .decl d => d.tree
  | .expr e => e.tree

def forInitField : Option ForInit → TreeField
  | none => .absent "init"
  | some i => .child "init" i.tree

def ForHead.tree : ForHead → Tree
  | .decl d => d.tree
  | .pattern p => p.tree

def SwitchCase.tree : SwitchCase → Tree
  | ⟨test, body, s⟩ =>
    ⟨.switchCase, s, [optionalExprField "test" test, .list "consequent" (stmtTrees body)]⟩

def switchCaseTrees : List SwitchCase → List Tree
  | [] => []
  | c :: cs => c.tree :: switchCaseTrees cs

def CatchClause.tree : CatchClause → Tree
  | ⟨none, body, s⟩ => ⟨.catchClause, s, [.absent "param", .child "body" body.tree]⟩
  | ⟨some p, body, s⟩ => ⟨.catchClause, s, [.child "param" p.tree, .child "body" body.tree]⟩

def handlerField : Option CatchClause → TreeField
  | none => .absent "handler"
  | some c => .child "handler" c.tree

def finalizerField : Option Block → TreeField
  | none => .absent "finalizer"
  | some b => .child "finalizer" b.tree

def ExportDefault.tree : ExportDefault → Tree
  | .function f => f.tree .functionDeclaration
  | .classDecl c => c.tree .classDeclaration
  | .expr e => e.tree

/-- A statement as a node. -/
def Stmt.tree : Stmt → Tree
  | .var d => d.tree
  | .function f => f.tree .functionDeclaration
  | .classDecl c => c.tree .classDeclaration
  | .block b => b.tree
  | .expr s e => ⟨.expressionStatement, s, [.child "expression" e.tree]⟩
  | .empty s => ⟨.emptyStatement, s, []⟩
  | .debugger s => ⟨.debuggerStatement, s, []⟩
  | .ifThen s test consequent alternate =>
    ⟨.ifStatement, s,
      [.child "test" test.tree, .child "consequent" consequent.tree,
        optionalStmtField "alternate" alternate]⟩
  | .switch s e cases =>
    ⟨.switchStatement, s, [.child "discriminant" e.tree, .list "cases" (switchCaseTrees cases)]⟩
  | .forLoop s init test update body =>
    ⟨.forStatement, s,
      [forInitField init, optionalExprField "test" test, optionalExprField "update" update,
        .child "body" body.tree]⟩
  | .forIn s left right body =>
    ⟨.forInStatement, s,
      [.child "left" left.tree, .child "right" right.tree, .child "body" body.tree]⟩
  | .forOf s left right body isAwait =>
    ⟨.forOfStatement, s,
      [flag "await" isAwait, .child "left" left.tree, .child "right" right.tree,
        .child "body" body.tree]⟩
  | .whileLoop s test body =>
    ⟨.whileStatement, s, [.child "test" test.tree, .child "body" body.tree]⟩
  | .doWhile s body test =>
    ⟨.doWhileStatement, s, [.child "body" body.tree, .child "test" test.tree]⟩
  | .breakTo s label => ⟨.breakStatement, s, [orAbsent "label" (label.map Ident.tree)]⟩
  | .continueTo s label => ⟨.continueStatement, s, [orAbsent "label" (label.map Ident.tree)]⟩
  | .returns s e => ⟨.returnStatement, s, [optionalExprField "argument" e]⟩
  | .throws s e => ⟨.throwStatement, s, [.child "argument" e.tree]⟩
  | .tryCatch s b h f =>
    ⟨.tryStatement, s, [.child "block" b.tree, handlerField h, finalizerField f]⟩
  | .labeled s label body =>
    ⟨.labeledStatement, s, [.child "label" label.tree, .child "body" body.tree]⟩
  | .importDecl s specifiers source =>
    ⟨.importDeclaration, s,
      [.list "specifiers" (specifiers.map ImportSpecifier.tree), .child "source" source.tree]⟩
  | .exportNamed s declaration specifiers source =>
    ⟨.exportNamedDeclaration, s,
      [optionalStmtField "declaration" declaration,
        .list "specifiers" (specifiers.map ExportSpecifier.tree),
        optionalExprField "source" source]⟩
  | .exportDefault s d => ⟨.exportDefaultDeclaration, s, [.child "declaration" d.tree]⟩
  | .exportAll s name source =>
    ⟨.exportAllDeclaration, s,
      [orAbsent "exported" (name.map Ident.tree), .child "source" source.tree]⟩

def optionalStmtField (name : String) : Option Stmt → TreeField
  | none => .absent name
  | some s => .child name s.tree

def stmtTrees : List Stmt → List Tree
  | [] => []
  | s :: ss => s.tree :: stmtTrees ss

end

/-- A program as a node. -/
def Program.tree (p : Program) : Tree :=
  ⟨.program, p.span, [text "sourceType" p.sourceType.text, .list "body" (stmtTrees p.body)]⟩

end Espalier
