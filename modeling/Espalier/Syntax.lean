import Espalier.Source.Position
import Espalier.Syntax.Operator

/-!
# The syntax tree

Statements, expressions and patterns of a program. Everything that came from a stretch of the source
carries its span. Parentheses leave no trace. Where one construct is nothing but another one in a
certain place (a name as an expression, a block as a statement), the outer one has no span of its
own.
-/

namespace Espalier

/-- A name at its place. -/
structure Ident where
  name : String
  span : Span
  deriving DecidableEq, Repr, Inhabited

/-- A piece of a template between its substitutions, with the text that it denotes. -/
structure TemplateElement where
  cooked : String
  tail : Bool
  span : Span
  deriving DecidableEq, Repr, Inhabited

/-- One binding of an import. -/
inductive ImportSpecifier
  | default (span : Span) (binding : Ident)
  | star (span : Span) (binding : Ident)
  | named (span : Span) (imported binding : Ident)
  deriving DecidableEq, Repr, Inhabited

/-- One name of an export. -/
structure ExportSpecifier where
  span : Span
  binding : Ident
  exported : Ident
  deriving DecidableEq, Repr, Inhabited

mutual

/-- An expression. A spread stands only among arguments and elements. -/
inductive Expr
  | null (span : Span)
  | bool (span : Span) (value : Bool)
  | number (span : Span) (value : Float)
  | bigint (span : Span) (digits : String)
  | string (span : Span) (value : String)
  | regex (span : Span) (pattern flags : String)
  | template (template : Template)
  | tagged (span : Span) (tag : Expr) (quasi : Template)
  | ident (ident : Ident)
  | this (span : Span)
  | super (span : Span)
  | importWord (span : Span)
  | metaProperty (span : Span) (object property : Ident)
  | array (span : Span) (elements : List (Option Expr))
  | object (span : Span) (properties : List Property)
  | function (func : Func)
  | arrow (arrow : Arrow)
  | classExpr (cls : Class)
  | unary (span : Span) (op : UnaryOp) (argument : Expr)
  | update (span : Span) (op : UpdateOp) (isPrefix : Bool) (argument : Expr)
  | binary (span : Span) (op : BinaryOp) (left right : Expr)
  | logical (span : Span) (op : LogicalOp) (left right : Expr)
  | assign (span : Span) (op : AssignOp) (left : Pattern) (right : Expr)
  | conditional (span : Span) (test consequent alternate : Expr)
  | sequence (span : Span) (expressions : List Expr)
  | member (span : Span) (object : Expr) (property : MemberName) (optional : Bool)
  | call (span : Span) (callee : Expr) (arguments : List Expr) (optional : Bool)
  | new (span : Span) (callee : Expr) (arguments : List Expr)
  | spread (span : Span) (argument : Expr)
  | yield (span : Span) (argument : Option Expr) (delegate : Bool)
  | await (span : Span) (argument : Expr)

/-- The name of a member, after a point or between brackets. -/
inductive MemberName
  | ident (ident : Ident)
  | computed (key : Expr)

/-- A template: its pieces and, between them, its substitutions. -/
structure Template where
  quasis : List TemplateElement
  expressions : List Expr
  span : Span

/-- A property of an object literal. -/
inductive Property
  | init (span : Span) (key : PropertyKey) (value : Expr) (shorthand : Bool)
  | method (span : Span) (key : PropertyKey) (kind : MethodKind) (func : Func)
  | spread (span : Span) (argument : Expr)

/-- The key of a property: a word, a literal, or an expression between brackets. -/
inductive PropertyKey
  | ident (ident : Ident)
  | literal (value : Expr)
  | computed (key : Expr)

/-- A function written with a word, or the function of a method. -/
structure Func where
  id : Option Ident
  params : List Pattern
  body : Block
  isAsync : Bool
  isGenerator : Bool
  span : Span

/-- A function written with an arrow. -/
structure Arrow where
  params : List Pattern
  body : ArrowBody
  isAsync : Bool
  span : Span

/-- What follows an arrow. -/
inductive ArrowBody
  | expr (value : Expr)
  | block (block : Block)

/-- A class. -/
structure Class where
  id : Option Ident
  superClass : Option Expr
  body : ClassBody
  span : Span

/-- The members of a class between their braces. -/
structure ClassBody where
  members : List ClassMember
  span : Span

/-- A member of a class. -/
inductive ClassMember
  | method (span : Span) (key : PropertyKey) (kind : MethodKind) (isStatic : Bool) (func : Func)
  | property (span : Span) (key : PropertyKey) (value : Option Expr) (isStatic : Bool)

/-- What values are bound to or assigned to. -/
inductive Pattern
  | ident (ident : Ident)
  | array (span : Span) (elements : List (Option Pattern))
  | object (span : Span) (properties : List PatternProperty)
  | default (span : Span) (left : Pattern) (right : Expr)
  | rest (span : Span) (argument : Pattern)
  | target (member : Expr)

/-- A part of an object pattern. -/
inductive PatternProperty
  | entry (span : Span) (key : PropertyKey) (value : Pattern) (shorthand : Bool)
  | rest (span : Span) (argument : Pattern)

/-- Statements between braces. -/
structure Block where
  body : List Stmt
  span : Span

/-- A declaration of variables. -/
structure VarDecl where
  kind : VarKind
  declarations : List VarDeclarator
  span : Span

/-- One declared variable or pattern. -/
structure VarDeclarator where
  id : Pattern
  init : Option Expr
  span : Span

/-- What a loop with three clauses starts with. -/
inductive ForInit
  | decl (decl : VarDecl)
  | expr (value : Expr)

/-- What a loop over values or keys binds. -/
inductive ForHead
  | decl (decl : VarDecl)
  | pattern (pattern : Pattern)

/-- A case of a switch; the default case has no test. -/
structure SwitchCase where
  test : Option Expr
  consequent : List Stmt
  span : Span

/-- What handles an exception. -/
structure CatchClause where
  param : Option Pattern
  body : Block
  span : Span

/-- What a module exports as its default. -/
inductive ExportDefault
  | function (func : Func)
  | classDecl (cls : Class)
  | expr (value : Expr)

/-- A statement. -/
inductive Stmt
  | var (decl : VarDecl)
  | function (func : Func)
  | classDecl (cls : Class)
  | block (block : Block)
  | expr (span : Span) (value : Expr)
  | empty (span : Span)
  | debugger (span : Span)
  | ifThen (span : Span) (test : Expr) (consequent : Stmt) (alternate : Option Stmt)
  | switch (span : Span) (discriminant : Expr) (cases : List SwitchCase)
  | forLoop (span : Span) (init : Option ForInit) (test update : Option Expr) (body : Stmt)
  | forIn (span : Span) (left : ForHead) (right : Expr) (body : Stmt)
  | forOf (span : Span) (left : ForHead) (right : Expr) (body : Stmt) (isAwait : Bool)
  | whileLoop (span : Span) (test : Expr) (body : Stmt)
  | doWhile (span : Span) (body : Stmt) (test : Expr)
  | breakTo (span : Span) (label : Option Ident)
  | continueTo (span : Span) (label : Option Ident)
  | returns (span : Span) (argument : Option Expr)
  | throws (span : Span) (argument : Expr)
  | tryCatch (span : Span) (block : Block) (handler : Option CatchClause) (finalizer : Option Block)
  | labeled (span : Span) (label : Ident) (body : Stmt)
  | importDecl (span : Span) (specifiers : List ImportSpecifier) (source : Expr)
  | exportNamed (span : Span) (declaration : Option Stmt) (specifiers : List ExportSpecifier)
      (source : Option Expr)
  | exportDefault (span : Span) (declaration : ExportDefault)
  | exportAll (span : Span) (exported : Option Ident) (source : Expr)

end

/-- A whole program. -/
structure Program where
  body : List Stmt
  sourceType : SourceType
  span : Span

instance : Inhabited Expr := ⟨.null default⟩

instance : Inhabited Pattern := ⟨.ident default⟩

instance : Inhabited Stmt := ⟨.empty default⟩

/-- The span of an expression. -/
def Expr.span : Expr → Span
  | null s | bool s _ | number s _ | bigint s _ | string s _ | regex s _ _ | tagged s _ _ | this s
  | super s | importWord s | metaProperty s _ _ | array s _ | object s _ | unary s _ _
  | update s _ _ _ | binary s _ _ _ | logical s _ _ _ | assign s _ _ _ | conditional s _ _ _
  | sequence s _ | member s _ _ _ | call s _ _ _ | new s _ _ | spread s _ | yield s _ _
  | await s _ => s
  | template t => t.span
  | ident i => i.span
  | function f => f.span
  | arrow a => a.span
  | classExpr c => c.span

/-- The span of a pattern. -/
def Pattern.span : Pattern → Span
  | ident i => i.span
  | array s _ | object s _ | default s _ _ | rest s _ => s
  | target e => e.span

/-- The span of a statement. -/
def Stmt.span : Stmt → Span
  | var d => d.span
  | function f => f.span
  | classDecl c => c.span
  | block b => b.span
  | expr s _ | empty s | debugger s | ifThen s _ _ _ | switch s _ _ | forLoop s _ _ _ _
  | forIn s _ _ _ | forOf s _ _ _ _ | whileLoop s _ _ | doWhile s _ _ | breakTo s _
  | continueTo s _ | returns s _ | throws s _ | tryCatch s _ _ _ | labeled s _ _ | importDecl s _ _
  | exportNamed s _ _ _ | exportDefault s _ | exportAll s _ _ => s

/-- A statement with another span. One that is a declaration or a block is left as it is. -/
def Stmt.withSpan (span : Span) : Stmt → Stmt
  | expr _ e => expr span e
  | empty _ => empty span
  | debugger _ => debugger span
  | ifThen _ t c a => ifThen span t c a
  | switch _ e cs => switch span e cs
  | forLoop _ i t u b => forLoop span i t u b
  | forIn _ l r b => forIn span l r b
  | forOf _ l r b isAwait => forOf span l r b isAwait
  | whileLoop _ t b => whileLoop span t b
  | doWhile _ b t => doWhile span b t
  | breakTo _ l => breakTo span l
  | continueTo _ l => continueTo span l
  | returns _ e => returns span e
  | throws _ e => throws span e
  | tryCatch _ b h f => tryCatch span b h f
  | labeled _ l b => labeled span l b
  | importDecl _ ss e => importDecl span ss e
  | exportNamed _ d ss e => exportNamed span d ss e
  | exportDefault _ d => exportDefault span d
  | exportAll _ n e => exportAll span n e
  | s => s

/-- The word or text of a key that is a word or a string. -/
def PropertyKey.word? : PropertyKey → Option String
  | ident i => some i.name
  | literal (.string _ value) => some value
  | _ => none

/-- Whether a key is an expression between brackets. -/
def PropertyKey.isComputed : PropertyKey → Bool
  | computed _ => true
  | _ => false

/-- Whether the name of a member is an expression between brackets. -/
def MemberName.isComputed : MemberName → Bool
  | computed _ => true
  | ident _ => false

/-- The expression that applies an operator to two operands. -/
def Expr.operation (span : Span) (op : InfixOp) (left right : Expr) : Expr :=
  match op with
  | .binary op => .binary span op left right
  | .logical op => .logical span op left right

/-- Whether a member access or call belongs to a chain with an optional link (`a?.b.c`). -/
def Expr.isOptionalChain : Expr → Bool
  | member _ o _ optional => optional || o.isOptionalChain
  | call _ f _ optional => optional || f.isOptionalChain
  | _ => false

end Espalier
