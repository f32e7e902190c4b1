import Espalier.Node.Edit
import Espalier.Node.Type

/-!
# Nodes and the places that hold them

`Node` is one construct of the syntax tree, seen as a node. Its fields (`Node.fields`) give scalars
with the way to change them, and places (`Slot`) with the node that is there and the way to put
another one back. `Node.slotAt?` follows a path of steps to a place; what is put there is put into
the whole.
-/

namespace Espalier

/-- Where a function or class stands. -/
inductive Standing
  | declared
  | inExpression
  | exportedDefault
  deriving DecidableEq, Repr

/-- A construct of the syntax tree that is a node. -/
inductive Node
  | program (program : Program)
  | stmt (stmt : Stmt)
  | block (block : Block)
  | varDecl (decl : VarDecl)
  | declarator (declarator : VarDeclarator)
  | function (func : Func) (standing : Standing)
  | arrow (arrow : Arrow)
  | classDef (cls : Class) (standing : Standing)
  | classBody (body : ClassBody)
  | classMember (member : ClassMember)
  | switchCase (clause : SwitchCase)
  | catchClause (clause : CatchClause)
  | importSpecifier (specifier : ImportSpecifier)
  | exportSpecifier (specifier : ExportSpecifier)
  | expr (expr : Expr)
  | template (template : Template)
  | templateElement (element : TemplateElement)
  | property (property : Property)
  | patternProperty (property : PatternProperty)
  | pattern (pattern : Pattern)
  | ident (ident : Ident)

namespace Node

/-! ### Constructs as nodes and back -/

/-- The node that a statement is. -/
def ofStmt : Stmt → Node
  | .var d => varDecl d
  | .function f => function f .declared
  | .classDecl c => classDef c .declared
  | .block b => block b
  | s => stmt s

/-- The node that an expression is. -/
def ofExpr : Expr → Node
  | .ident i => ident i
  | .template t => template t
  | .function f => function f .inExpression
  | .arrow a => arrow a
  | .classExpr c => classDef c .inExpression
  | e => expr e

/-- The node that a pattern is. -/
def ofPattern : Pattern → Node
  | .ident i => ident i
  | .target e => ofExpr e
  | p => pattern p

/-- The statement that a node is. -/
def toStmt? : Node → Option Stmt
  | varDecl d => some (.var d)
  | function f _ => some (.function f)
  | classDef c _ => some (.classDecl c)
  | block b => some (.block b)
  | stmt s => some s
  | _ => none

/-- The expression that a node is. -/
def toExpr? : Node → Option Expr
  | ident i => some (.ident i)
  | template t => some (.template t)
  | function f _ => some (.function f)
  | arrow a => some (.arrow a)
  | classDef c _ => some (.classExpr c)
  | expr e => some e
  | _ => none

/-- The pattern that a node is. -/
def toPattern? : Node → Option Pattern
  | ident i => some (.ident i)
  | pattern p => some p
  | n => n.toExpr?.map .target

theorem toStmt?_ofStmt (s : Stmt) : (ofStmt s).toStmt? = some s := by cases s <;> rfl

theorem toExpr?_ofExpr (e : Expr) : (ofExpr e).toExpr? = some e := by cases e <;> rfl

/-! ### What is read off a node -/

/-- The node with all that is below it. -/
def tree : Node → Tree
  | program p => p.tree
  | stmt s => s.tree
  | block b => b.tree
  | varDecl d => d.tree
  | declarator d => d.tree
  | function f .inExpression => f.tree .functionExpression
  | function f _ => f.tree .functionDeclaration
  | arrow a => a.tree
  | classDef c .inExpression => c.tree .classExpression
  | classDef c _ => c.tree .classDeclaration
  | classBody b => b.tree
  | classMember m => m.tree
  | switchCase c => c.tree
  | catchClause c => c.tree
  | importSpecifier s => s.tree
  | exportSpecifier s => s.tree
  | expr e => e.tree
  | template t => t.tree
  | templateElement e => e.tree
  | property p => p.tree
  | patternProperty p => p.tree
  | pattern p => p.tree
  | ident i => i.tree

/-- The type of a node. -/
def type : Node → NodeType
  | program _ => .program
  | stmt s => s.nodeType
  | block _ => .blockStatement
  | varDecl _ => .variableDeclaration
  | declarator _ => .variableDeclarator
  | function _ .inExpression => .functionExpression
  | function _ _ => .functionDeclaration
  | arrow _ => .arrowFunctionExpression
  | classDef _ .inExpression => .classExpression
  | classDef _ _ => .classDeclaration
  | classBody _ => .classBody
  | classMember (.method _ _ _ _ _) => .classMethod
  | classMember (.property _ _ _ _) => .classProperty
  | switchCase _ => .switchCase
  | catchClause _ => .catchClause
  | importSpecifier (.default _ _) => .importDefaultSpecifier
  | importSpecifier (.star _ _) => .importNamespaceSpecifier
  | importSpecifier (.named _ _ _) => .importSpecifier
  | exportSpecifier _ => .exportSpecifier
  | expr e => e.nodeType
  | template _ => .templateLiteral
  | templateElement _ => .templateElement
  | property (.init _ _ _ _) => .objectProperty
  | property (.method _ _ _ _) => .objectMethod
  | property (.spread _ _) => .spreadElement
  | patternProperty (.entry _ _ _ _) => .objectProperty
  | patternProperty (.rest _ _) => .restElement
  | pattern p => p.nodeType
  | ident _ => .identifier

/-- The span of a node. -/
def span : Node → Span
  | program p => p.span
  | stmt s => s.span
  | block b => b.span
  | varDecl d => d.span
  | declarator d => d.span
  | function f _ => f.span
  | arrow a => a.span
  | classDef c _ => c.span
  | classBody b => b.span
  | classMember (.method s _ _ _ _) | classMember (.property s _ _ _) => s
  | switchCase c => c.span
  | catchClause c => c.span
  | importSpecifier (.default s _) | importSpecifier (.star s _)
  | importSpecifier (.named s _ _) => s
  | exportSpecifier s => s.span
  | expr e => e.span
  | template t => t.span
  | templateElement e => e.span
  | property (.init s _ _ _) | property (.method s _ _ _) | property (.spread s _) => s
  | patternProperty (.entry s _ _ _) | patternProperty (.rest s _) => s
  | pattern p => p.span
  | ident i => i.span

/-- What the node in a place of its own is called where no expression may be put. -/
def placeName : Node → String
  | function _ .exportedDefault => "Function"
  | classDef _ .exportedDefault => "Class"
  | n => n.type.text

/-- What a node is called where one of its fields may not be assigned to. -/
def ownerName : Node → String
  | function _ _ => "Function"
  | n => n.placeName

end Node

/-! ### Places -/

/-- What a place may hold: a statement, an expression, a pattern, a name, or a node of a fixed
type. -/
inductive SlotKind
  | stmt
  | expr
  | pattern
  | ident
  | node
  deriving DecidableEq, Repr

/-- The name of a kind of place. -/
def SlotKind.text : SlotKind → String
  | stmt => "stmt" | expr => "expr" | pattern => "pattern" | ident => "ident" | node => "node"

/-- A place inside an `α`: the node that is there, the `α` with that node changed, and the `α` with
an expression instead of it, if the place can hold one. -/
structure Slot (α : Type) where
  kind : SlotKind
  node : Node
  put : Node → α
  replace : Expr → Except EditError α

namespace Slot

variable {α β : Type}

/-- A place inside what `f` makes of the `α`. -/
def map (f : α → β) (s : Slot α) : Slot β where
  kind := s.kind
  node := s.node
  put n := f (s.put n)
  replace e := (s.replace e).map f

/-- A place of a statement. An expression put there becomes a statement. -/
def atStmt (s : Stmt) (put : Stmt → α) : Slot α where
  kind := .stmt
  node := .ofStmt s
  put n := put (n.toStmt?.getD s)
  replace e := .ok (put (.expr e.span e))

/-- A place of an expression. -/
def atExpr (e : Expr) (put : Expr → α) : Slot α where
  kind := .expr
  node := .ofExpr e
  put n := put (n.toExpr?.getD e)
  replace e := .ok (put e)

/-- A place of a pattern. What is assigned to stays an expression when it is edited. -/
def atPattern (p : Pattern) (put : Pattern → α) : Slot α where
  kind := .pattern
  node := .ofPattern p
  put n :=
    match p with
    | .target e => put (.target (n.toExpr?.getD e))
    | p => put (n.toPattern?.getD p)
  replace e := e.toReplacedPattern.map put

/-- A place of a name. -/
def atIdent (i : Ident) (put : Ident → α) : Slot α where
  kind := .ident
  node := .ident i
  put n := put (match n with | .ident i => i | _ => i)
  replace e := e.toReplacedName.map put

/-- A place of a construct that is always a node of its own type. -/
def atPart (wrap : β → Node) (unwrap : Node → Option β) (part : β) (put : β → α) : Slot α where
  kind := .node
  node := wrap part
  put n := put ((unwrap n).getD part)
  replace _ := .error (.notAnExpressionPlace (wrap part).placeName)

def atBlock : Block → (Block → α) → Slot α :=
  atPart .block fun | .block b => some b | _ => none

def atVarDecl : VarDecl → (VarDecl → α) → Slot α :=
  atPart .varDecl fun | .varDecl d => some d | _ => none

def atDeclarator : VarDeclarator → (VarDeclarator → α) → Slot α :=
  atPart .declarator fun | .declarator d => some d | _ => none

def atFunction : Func → (Func → α) → Slot α :=
  atPart (.function · .exportedDefault) fun | .function f _ => some f | _ => none

def atClass : Class → (Class → α) → Slot α :=
  atPart (.classDef · .exportedDefault) fun | .classDef c _ => some c | _ => none

def atClassBody : ClassBody → (ClassBody → α) → Slot α :=
  atPart .classBody fun | .classBody b => some b | _ => none

def atClassMember : ClassMember → (ClassMember → α) → Slot α :=
  atPart .classMember fun | .classMember m => some m | _ => none

def atSwitchCase : SwitchCase → (SwitchCase → α) → Slot α :=
  atPart .switchCase fun | .switchCase c => some c | _ => none

def atCatchClause : CatchClause → (CatchClause → α) → Slot α :=
  atPart .catchClause fun | .catchClause c => some c | _ => none

def atImportSpecifier : ImportSpecifier → (ImportSpecifier → α) → Slot α :=
  atPart .importSpecifier fun | .importSpecifier s => some s | _ => none

def atExportSpecifier : ExportSpecifier → (ExportSpecifier → α) → Slot α :=
  atPart .exportSpecifier fun | .exportSpecifier s => some s | _ => none

def atTemplate : Template → (Template → α) → Slot α :=
  atPart .template fun | .template t => some t | _ => none

def atTemplateElement : TemplateElement → (TemplateElement → α) → Slot α :=
  atPart .templateElement fun | .templateElement e => some e | _ => none

def atProperty : Property → (Property → α) → Slot α :=
  atPart .property fun | .property p => some p | _ => none

def atPatternProperty : PatternProperty → (PatternProperty → α) → Slot α :=
  atPart .patternProperty fun | .patternProperty p => some p | _ => none

/-- The place of the key of a property. -/
def atKey (key : PropertyKey) (put : PropertyKey → α) : Slot α :=
  match key with
  | .ident i => atIdent i (put ∘ .ident)
  | .literal e => atExpr e (put ∘ .literal)
  | .computed e => atExpr e (put ∘ .computed)

end Slot

/-- The places of a list field, and the way to take one of them out of the list. -/
structure Items (α : Type) where
  slots : List (Slot α)
  remove : Nat → Except EditError α

namespace Items

variable {α β : Type}

/-- The items of a list. -/
def ofList (slot : β → (β → α) → Slot α) (xs : List β) (put : List β → α) : Items α where
  slots := xs.zipIdx.map fun (x, i) => slot x (put ∘ xs.set i)
  remove i := if i < xs.length then .ok (put (xs.eraseIdx i)) else .error .notInContainer

/-- The items of a list with holes, which are not counted. -/
def ofHoles (slot : β → (β → α) → Slot α) (xs : List (Option β)) (put : List (Option β) → α) :
    Items α :=
  let present : List (β × Nat) := xs.zipIdx.filterMap fun (x?, i) => x?.map (·, i)
  { slots := present.map fun (x, i) => slot x fun y => put (xs.set i (some y))
    remove k :=
      match present[k]? with
      | some (_, i) => .ok (put (xs.eraseIdx i))
      | none => .error .notInContainer }

/-- The items of a list from which none can be taken: the parts of a template. -/
def ofParts (slot : β → (β → α) → Slot α) (xs : List β) (put : List β → α) : Items α where
  slots := (ofList slot xs put).slots
  remove _ := .error .templatePart

end Items

/-- A field of a node of an `α`. -/
inductive Field (α : Type)
  | value (scalar : Scalar) (set : Scalar → Except EditError α)
  | fixed (scalar : Scalar)
  | absent
  | child (slot : Slot α)
  | list (items : Items α)

namespace Field

variable {α β : Type}

/-- A truth value that can be changed. -/
def flag (name : String) (value : Bool) (put : Bool → α) : String × Field α :=
  (name, .value (.bool value) fun v => (v.expectBool name).map put)

/-- A text that can be changed. -/
def text (name value : String) (put : String → α) : String × Field α :=
  (name, .value (.string value) fun v => (v.expectString name).map put)

/-- A text that can be changed to one of some words. -/
def word (name value : String) (ofText? : String → Option β) (put : β → α) : String × Field α :=
  (name, .value (.string value) fun v => (v.expectWord name ofText?).map put)

def fixedFlag (name : String) (value : Bool) : String × Field α := (name, .fixed (.bool value))

def one (name : String) (slot : Slot α) : String × Field α := (name, .child slot)

def many (name : String) (items : Items α) : String × Field α := (name, .list items)

/-- A child that may be missing. -/
def optional (name : String) (slot : β → (β → α) → Slot α) (x? : Option β) (put : Option β → α) :
    String × Field α :=
  match x? with
  | none => (name, .absent)
  | some x => (name, .child (slot x (put ∘ some)))

/-- Whether a key stands between brackets. -/
def computedKey (key : PropertyKey) (put : PropertyKey → α) : String × Field α :=
  ("computed", .value (.bool key.isComputed) fun v => do
    return put (← key.setComputed (← v.expectBool "computed")))

end Field

/-! ### The fields of each construct -/

open Espalier.Field Espalier.Slot Espalier.Items

/-- The fields of a function that methods share. -/
def Func.nodeFields {α : Type} (f : Func) (put : Func → α) : List (String × Field α) :=
  [flag "generator" f.isGenerator fun b => put { f with isGenerator := b },
    flag "async" f.isAsync fun b => put { f with isAsync := b },
    many "params" (ofList atPattern f.params fun ps => put { f with params := ps }),
    one "body" (atBlock f.body fun b => put { f with body := b })]

def ImportSpecifier.nodeFields {α : Type} (put : ImportSpecifier → α) :
    ImportSpecifier → List (String × Field α)
  | .default s b => [one "local" (atIdent b fun b => put (.default s b))]
  | .star s b => [one "local" (atIdent b fun b => put (.star s b))]
  | .named s i b =>
    [one "imported" (atIdent i fun i => put (.named s i b)),
      one "local" (atIdent b fun b => put (.named s i b))]

def ClassMember.nodeFields {α : Type} (put : ClassMember → α) :
    ClassMember → List (String × Field α)
  | .method s k kind isStatic f =>
    [flag "static" isStatic fun b => put (.method s k kind b f),
      one "key" (atKey k fun k => put (.method s k kind isStatic f)),
      computedKey k fun k => put (.method s k kind isStatic f),
      word "kind" kind.text MethodKind.ofText? fun kind => put (.method s k kind isStatic f)] ++
      f.nodeFields fun f => put (.method s k kind isStatic f)
  | .property s k v isStatic =>
    [flag "static" isStatic fun b => put (.property s k v b),
      one "key" (atKey k fun k => put (.property s k v isStatic)),
      computedKey k fun k => put (.property s k v isStatic),
      optional "value" atExpr v fun v => put (.property s k v isStatic)]

def Property.nodeFields {α : Type} (put : Property → α) : Property → List (String × Field α)
  | .init s k v shorthand =>
    [fixedFlag "method" false,
      one "key" (atKey k fun k => put (.init s k v shorthand)),
      computedKey k fun k => put (.init s k v shorthand),
      flag "shorthand" shorthand fun b => put (.init s k v b),
      one "value" (atExpr v fun v => put (.init s k v shorthand))]
  | .method s k kind f =>
    [fixedFlag "method" (kind == .method),
      one "key" (atKey k fun k => put (.method s k kind f)),
      computedKey k fun k => put (.method s k kind f),
      word "kind" kind.text MethodKind.ofObjectText? fun kind => put (.method s k kind f)] ++
      f.nodeFields fun f => put (.method s k kind f)
  | .spread s e => [one "argument" (atExpr e fun e => put (.spread s e))]

def PatternProperty.nodeFields {α : Type} (put : PatternProperty → α) :
    PatternProperty → List (String × Field α)
  | .entry s k v shorthand =>
    [fixedFlag "method" false,
      one "key" (atKey k fun k => put (.entry s k v shorthand)),
      computedKey k fun k => put (.entry s k v shorthand),
      flag "shorthand" shorthand fun b => put (.entry s k v b),
      one "value" (atPattern v fun v => put (.entry s k v shorthand))]
  | .rest s p => [one "argument" (atPattern p fun p => put (.rest s p))]

/-- The fields of a pattern that is no name and no member. -/
def Pattern.nodeFields {α : Type} (put : Pattern → α) : Pattern → List (String × Field α)
  | .array s ps => [many "elements" (ofHoles atPattern ps fun ps => put (.array s ps))]
  | .object s ps => [many "properties" (ofList atPatternProperty ps fun ps => put (.object s ps))]
  | .default s l r =>
    [one "left" (atPattern l fun l => put (.default s l r)),
      one "right" (atExpr r fun r => put (.default s l r))]
  | .rest s p => [one "argument" (atPattern p fun p => put (.rest s p))]
  | .ident _ | .target _ => []

def ForInit.slot {α : Type} (init : ForInit) (put : ForInit → α) : Slot α :=
  match init with
  | .decl d => atVarDecl d (put ∘ .decl)
  | .expr e => atExpr e (put ∘ .expr)

def ForHead.slot {α : Type} (head : ForHead) (put : ForHead → α) : Slot α :=
  match head with
  | .decl d => atVarDecl d (put ∘ .decl)
  | .pattern p => atPattern p (put ∘ .pattern)

def ArrowBody.slot {α : Type} (body : ArrowBody) (put : ArrowBody → α) : Slot α :=
  match body with
  | .expr e => atExpr e (put ∘ .expr)
  | .block b => atBlock b (put ∘ .block)

def ExportDefault.slot {α : Type} (declaration : ExportDefault) (put : ExportDefault → α) :
    Slot α :=
  match declaration with
  | .function f => atFunction f (put ∘ .function)
  | .classDecl c => atClass c (put ∘ .classDecl)
  | .expr e => atExpr e (put ∘ .expr)

def MemberName.slot {α : Type} (name : MemberName) (put : MemberName → α) : Slot α :=
  match name with
  | .ident i => atIdent i (put ∘ .ident)
  | .computed e => atExpr e (put ∘ .computed)

/-- The fields of an expression that is a node of its own. -/
def Expr.nodeFields {α : Type} (put : Expr → α) : Expr → List (String × Field α)
  | .bool s v => [flag "value" v fun b => put (.bool s b)]
  | .number s n =>
    [("value", .value (.number n) fun v =>
      (v.expectNumber "value").map fun n => put (.number s n))]
  | .bigint s digits => [text "value" digits fun v => put (.bigint s v)]
  | .string s t => [text "value" t fun v => put (.string s v)]
  | .regex s pattern flags =>
    [text "pattern" pattern fun v => put (.regex s v flags),
      text "flags" flags fun v => put (.regex s pattern v)]
  | .tagged s tag quasi =>
    [one "tag" (atExpr tag fun tag => put (.tagged s tag quasi)),
      one "quasi" (atTemplate quasi fun quasi => put (.tagged s tag quasi))]
  | .metaProperty s o p =>
    [one "meta" (atIdent o fun i => put (.metaProperty s i p)),
      one "property" (atIdent p fun i => put (.metaProperty s o i))]
  | .array s es => [many "elements" (ofHoles atExpr es fun es => put (.array s es))]
  | .object s ps => [many "properties" (ofList atProperty ps fun ps => put (.object s ps))]
  | .unary s op e =>
    [word "operator" op.text UnaryOp.ofText? fun op => put (.unary s op e),
      fixedFlag "prefix" true,
      one "argument" (atExpr e fun e => put (.unary s op e))]
  | .update s op isPrefix e =>
    [word "operator" op.text UpdateOp.ofText? fun op => put (.update s op isPrefix e),
      flag "prefix" isPrefix fun b => put (.update s op b e),
      one "argument" (atExpr e fun e => put (.update s op isPrefix e))]
  | .binary s op l r =>
    [one "left" (atExpr l fun l => put (.binary s op l r)),
      word "operator" op.text InfixOp.ofText? fun op => put (.operation s op l r),
      one "right" (atExpr r fun r => put (.binary s op l r))]
  | .logical s op l r =>
    [one "left" (atExpr l fun l => put (.logical s op l r)),
      word "operator" op.text InfixOp.ofText? fun op => put (.operation s op l r),
      one "right" (atExpr r fun r => put (.logical s op l r))]
  | .assign s op l r =>
    [word "operator" op.text AssignOp.ofText? fun op => put (.assign s op l r),
      one "left" (atPattern l fun l => put (.assign s op l r)),
      one "right" (atExpr r fun r => put (.assign s op l r))]
  | .conditional s t c a =>
    [one "test" (atExpr t fun t => put (.conditional s t c a)),
      one "consequent" (atExpr c fun c => put (.conditional s t c a)),
      one "alternate" (atExpr a fun a => put (.conditional s t c a))]
  | .sequence s es => [many "expressions" (ofList atExpr es fun es => put (.sequence s es))]
  | .member s e p isOptional =>
    [one "object" (atExpr e fun e => put (.member s e p isOptional)),
      ("computed", .value (.bool p.isComputed) fun v => do
        return put (.member s e (← p.setComputed (← v.expectBool "computed")) isOptional)),
      one "property" (p.slot fun p => put (.member s e p isOptional))] ++
      if isOptional || e.isOptionalChain then [fixedFlag "optional" isOptional] else []
  | .call s f args isOptional =>
    [one "callee" (atExpr f fun f => put (.call s f args isOptional)),
      many "arguments" (ofList atExpr args fun args => put (.call s f args isOptional))] ++
      if isOptional || f.isOptionalChain then [fixedFlag "optional" isOptional] else []
  | .new s f args =>
    [one "callee" (atExpr f fun f => put (.new s f args)),
      many "arguments" (ofList atExpr args fun args => put (.new s f args))]
  | .spread s e => [one "argument" (atExpr e fun e => put (.spread s e))]
  | .yield s e delegate =>
    [flag "delegate" delegate fun b => put (.yield s e b),
      optional "argument" atExpr e fun e => put (.yield s e delegate)]
  | .await s e => [one "argument" (atExpr e fun e => put (.await s e))]
  | .null _ | .this _ | .super _ | .importWord _ => []
  | .template _ | .ident _ | .function _ | .arrow _ | .classExpr _ => []

/-- The fields of a statement that is a node of its own. -/
def Stmt.nodeFields {α : Type} (put : Stmt → α) : Stmt → List (String × Field α)
  | .expr s e => [one "expression" (atExpr e fun e => put (.expr s e))]
  | .ifThen s t c a =>
    [one "test" (atExpr t fun t => put (.ifThen s t c a)),
      one "consequent" (atStmt c fun c => put (.ifThen s t c a)),
      optional "alternate" atStmt a fun a => put (.ifThen s t c a)]
  | .switch s e cs =>
    [one "discriminant" (atExpr e fun e => put (.switch s e cs)),
      many "cases" (ofList atSwitchCase cs fun cs => put (.switch s e cs))]
  | .forLoop s i t u b =>
    [optional "init" ForInit.slot i fun i => put (.forLoop s i t u b),
      optional "test" atExpr t fun t => put (.forLoop s i t u b),
      optional "update" atExpr u fun u => put (.forLoop s i t u b),
      one "body" (atStmt b fun b => put (.forLoop s i t u b))]
  | .forIn s l r b =>
    [one "left" (l.slot fun l => put (.forIn s l r b)),
      one "right" (atExpr r fun r => put (.forIn s l r b)),
      one "body" (atStmt b fun b => put (.forIn s l r b))]
  | .forOf s l r b isAwait =>
    [flag "await" isAwait fun a => put (.forOf s l r b a),
      one "left" (l.slot fun l => put (.forOf s l r b isAwait)),
      one "right" (atExpr r fun r => put (.forOf s l r b isAwait)),
      one "body" (atStmt b fun b => put (.forOf s l r b isAwait))]
  | .whileLoop s t b =>
    [one "test" (atExpr t fun t => put (.whileLoop s t b)),
      one "body" (atStmt b fun b => put (.whileLoop s t b))]
  | .doWhile s b t =>
    [one "body" (atStmt b fun b => put (.doWhile s b t)),
      one "test" (atExpr t fun t => put (.doWhile s b t))]
  | .breakTo s l => [optional "label" atIdent l fun l => put (.breakTo s l)]
  | .continueTo s l => [optional "label" atIdent l fun l => put (.continueTo s l)]
  | .returns s e => [optional "argument" atExpr e fun e => put (.returns s e)]
  | .throws s e => [one "argument" (atExpr e fun e => put (.throws s e))]
  | .tryCatch s b h f =>
    [one "block" (atBlock b fun b => put (.tryCatch s b h f)),
      optional "handler" atCatchClause h fun h => put (.tryCatch s b h f),
      optional "finalizer" atBlock f fun f => put (.tryCatch s b h f)]
  | .labeled s l b =>
    [one "label" (atIdent l fun l => put (.labeled s l b)),
      one "body" (atStmt b fun b => put (.labeled s l b))]
  | .importDecl s ss e =>
    [many "specifiers" (ofList atImportSpecifier ss fun ss => put (.importDecl s ss e)),
      one "source" (atExpr e fun e => put (.importDecl s ss e))]
  | .exportNamed s d ss e =>
    [optional "declaration" atStmt d fun d => put (.exportNamed s d ss e),
      many "specifiers" (ofList atExportSpecifier ss fun ss => put (.exportNamed s d ss e)),
      optional "source" atExpr e fun e => put (.exportNamed s d ss e)]
  | .exportDefault s d => [one "declaration" (d.slot fun d => put (.exportDefault s d))]
  | .exportAll s n e =>
    [optional "exported" atIdent n fun n => put (.exportAll s n e),
      one "source" (atExpr e fun e => put (.exportAll s n e))]
  | .empty _ | .debugger _ | .var _ | .function _ | .classDecl _ | .block _ => []

namespace Node

/-- The fields of a node, in the order in which they are shown. -/
def fields : Node → List (String × Field Node)
  | program p =>
    [("sourceType", .fixed (.string p.sourceType.text)),
      many "body" (ofList atStmt p.body fun ss => program { p with body := ss })]
  | stmt s => s.nodeFields stmt
  | block b => [many "body" (ofList atStmt b.body fun ss => block { b with body := ss })]
  | varDecl d =>
    [many "declarations"
        (ofList atDeclarator d.declarations fun ds => varDecl { d with declarations := ds }),
      word "kind" d.kind.text VarKind.ofText? fun kind => varDecl { d with kind := kind }]
  | declarator d =>
    [one "id" (atPattern d.id fun p => declarator { d with id := p }),
      optional "init" atExpr d.init fun e => declarator { d with init := e }]
  | function f standing =>
    optional "id" atIdent f.id (fun i => function { f with id := i } standing) ::
      f.nodeFields (function · standing)
  | arrow a =>
    [("id", .absent),
      fixedFlag "generator" false,
      flag "async" a.isAsync fun b => arrow { a with isAsync := b },
      many "params" (ofList atPattern a.params fun ps => arrow { a with params := ps }),
      one "body" (a.body.slot fun b => arrow { a with body := b })]
  | classDef c standing =>
    [optional "id" atIdent c.id fun i => classDef { c with id := i } standing,
      optional "superClass" atExpr c.superClass fun e =>
        classDef { c with superClass := e } standing,
      one "body" (atClassBody c.body fun b => classDef { c with body := b } standing)]
  | classBody b =>
    [many "body" (ofList atClassMember b.members fun ms => classBody { b with members := ms })]
  | classMember m => m.nodeFields classMember
  | switchCase c =>
    [optional "test" atExpr c.test fun e => switchCase { c with test := e },
      many "consequent"
        (ofList atStmt c.consequent fun ss => switchCase { c with consequent := ss })]
  | catchClause c =>
    [optional "param" atPattern c.param fun p => catchClause { c with param := p },
      one "body" (atBlock c.body fun b => catchClause { c with body := b })]
  | importSpecifier s => s.nodeFields importSpecifier
  | exportSpecifier s =>
    [one "local" (atIdent s.binding fun i => exportSpecifier { s with binding := i }),
      one "exported" (atIdent s.exported fun i => exportSpecifier { s with exported := i })]
  | expr e => e.nodeFields expr
  | template t =>
    [many "quasis" (ofParts atTemplateElement t.quasis fun qs => template { t with quasis := qs }),
      many "expressions"
        (ofParts atExpr t.expressions fun es => template { t with expressions := es })]
  | templateElement e =>
    [text "value" e.cooked fun v => templateElement { e with cooked := v },
      fixedFlag "tail" e.tail]
  | property p => p.nodeFields property
  | patternProperty p => p.nodeFields patternProperty
  | pattern p => p.nodeFields pattern
  | ident i => [text "name" i.name fun v => ident { i with name := v }]

/-- The field of a name. -/
def field? (n : Node) (name : String) : Option (Field Node) :=
  (n.fields.find? (·.1 == name)).map (·.2)

/-- The items of the list field of a name. -/
def items? (n : Node) (name : String) : Option (Items Node) :=
  match n.field? name with
  | some (.list items) => some items
  | _ => none

/-- The place that a step leads to. -/
def slot? (n : Node) (step : Step) : Option (Slot Node) :=
  match n.field? step.field, step.index with
  | some (.child slot), none => some slot
  | some (.list items), some i => items.slots[i]?
  | _, _ => none

/-- The place that a path of steps leads to. -/
def slotAt? (n : Node) : List Step → Option (Slot Node)
  | [] => none
  | [step] => n.slot? step
  | step :: path => do
    let slot ← n.slot? step
    let inner ← slot.node.slotAt? path
    return inner.map slot.put

/-- The node that a path of steps leads to. -/
def descend? (n : Node) : List Step → Option Node
  | [] => some n
  | step :: path => do
    let slot ← n.slot? step
    slot.node.descend? path

/-- The steps from a node to its children, with the children, in the order of the fields. -/
def children (n : Node) : List (Step × Node) :=
  n.fields.flatMap fun (name, field) =>
    match field with
    | .child slot => [(⟨name, none⟩, slot.node)]
    | .list items => items.slots.zipIdx.map fun (slot, i) => (⟨name, some i⟩, slot.node)
    | _ => []

/-! ### Edits -/

/-- Changes a field that holds a scalar. -/
def setScalar (n : Node) (name : String) (v : Scalar) : Except EditError Node :=
  match n.field? name with
  | some (.value _ set) => set v
  | _ => .error (.readOnly n.ownerName name)

/-- Changes a field that holds a scalar, in place. An operator between two operands is changed by
taking the expression apart, any other field by writing what has been checked. -/
def setScalarIn (name : String) (v : Scalar) : InPlace Node Unit := do
  match ← get with
  | expr e =>
    if name == "operator" && e.isOperation then (Expr.setOperator v).within expr e
    else .write (·.setScalar name v)
  | _ => .write (·.setScalar name v)

/-- The program that a node is, or else `p`. -/
def asProgram (p : Program) : Node → Program
  | program q => q
  | _ => p

end Node

namespace Program

/-- The place in a program that a path leads to. -/
def slotAt? (p : Program) (path : List Step) : Option (Slot Program) :=
  ((Node.program p).slotAt? path).map (·.map (·.asProgram p))

/-- The node of a program that a path leads to. -/
def nodeAt? (p : Program) (path : List Step) : Option Node := (Node.program p).descend? path

/-- Edits the node that a path leads to. Gives nothing if it leads nowhere. -/
def editAt? (p : Program) (path : List Step) (edit : Node → Except EditError Node) :
    Option (Except EditError Program) :=
  match path with
  | [] => some ((edit (.program p)).map (·.asProgram p))
  | path => (p.slotAt? path).map fun slot => (edit slot.node).map slot.put

/-- Puts an expression where the node is that a path leads to. -/
def replaceAt? (p : Program) (path : List Step) (e : Expr) : Option (Except EditError Program) :=
  (p.slotAt? path).map (·.replace e)

/-- Takes an item out of a list field of the node that a path leads to. Gives nothing if there is no
such list. -/
def removeAt? (p : Program) (path : List Step) (field : String) (i : Nat) :
    Option (Except EditError Program) := do
  let items ← (← p.nodeAt? path).items? field
  p.editAt? path fun _ => items.remove i

/-- Edits the node that a path leads to in place. Gives nothing if it leads nowhere. -/
def editIn? (p : Program) (path : List Step) (edit : InPlace Node Unit) :
    Option (Except EditError Unit × Program) :=
  match path with
  | [] => some ((edit.within (·.asProgram p) (.program p)).leaves p)
  | path => (p.slotAt? path).map fun slot => (edit.within slot.put slot.node).leaves p

/-- Puts an expression where the node is that a path leads to, in place. -/
def replaceIn? (p : Program) (path : List Step) (e : Expr) :
    Option (Except EditError Unit × Program) :=
  (p.slotAt? path).map fun slot => (InPlace.write fun _ => slot.replace e).leaves p

/-- Takes an item out of a list field of the node that a path leads to, in place. Gives nothing if
there is no such list. -/
def removeIn? (p : Program) (path : List Step) (field : String) (i : Nat) :
    Option (Except EditError Unit × Program) := do
  let items ← (← p.nodeAt? path).items? field
  p.editIn? path (.write fun _ => items.remove i)

/-- Moves a statement at the top to another span. Declarations and blocks keep the span that they
have as nodes of their own. -/
def moveStatement (p : Program) (i : Nat) (span : Span) : Program :=
  { p with body := p.body.modify i (·.withSpan span) }

/-- Changes a field of the node that a path leads to. -/
def setScalarAt? (p : Program) (path : List Step) (field : String) (v : Scalar) :
    Option (Except EditError Program) :=
  p.editAt? path (·.setScalar field v)

/-- Changes a field of the node that a path leads to, in place. -/
def setScalarIn? (p : Program) (path : List Step) (field : String) (v : Scalar) :
    Option (Except EditError Unit × Program) :=
  p.editIn? path (Node.setScalarIn field v)

end Program

end Espalier
