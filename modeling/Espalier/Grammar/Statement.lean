import Espalier.Grammar.Expression

/-!
# Reading statements

Declarations, control flow and the statements of modules.
-/

namespace Espalier.Grammar

open Parse

/-! ### Declarations -/

/-- Whether the `let` in front of the next token starts a declaration. -/
def letStartsDeclaration : Parse Bool := do
  match (← peek).kind with
  | .name _ | .punct .leftBracket | .punct .leftBrace => return true
  | _ => return false

/-- Whether `function` follows on the same line. -/
def functionFollows : Parse Bool := do
  let next ← peek
  return next.isKey .functionKw && !next.newlineBefore

def declarator (g : Grammar) : Parse VarDeclarator := do
  let start ← start
  let id ← g.pattern
  let init ← (do
    if ← eat .assign then return some (← g.assignment) else return none : Parse (Option Expr))
  return { id, init, span := ← finish start }

/-- A declaration of variables without its semicolon. -/
def declaration (g : Grammar) : Parse VarDecl := do
  let t ← advance
  let kind : VarKind :=
    if t.isKey .varKw then .varKind else if t.isKey .constKw then .constKind else .letKind
  let first ← declarator g
  let declarations ← itemsAfterCommas [first] (declarator g)
  return { kind, declarations, span := ← finish t.span.start }

def varStatement (g : Grammar) : Parse Stmt := do
  let decl ← declaration g
  semicolon
  return .var { decl with span := ← finish decl.span.start }

/-! ### Control flow -/

/-- An expression between parentheses. -/
def condition (g : Grammar) : Parse Expr := do
  expect .leftParen
  let e ← withIn true (expression g)
  expect .rightParen
  return e

/-- Reads `p` unless the current token is `stop`. -/
def unlessAt {α : Type} (stop : Punct) (p : Parse α) : Parse (Option α) := do
  if ← isPunct stop then return none else return some (← p)

def ifStatement (g : Grammar) : Parse Stmt := do
  let start ← start
  expectKey .ifKw
  let test ← condition g
  let consequent ← g.statement
  let alternate ← (do
    if ← eatKey .elseKw then return some (← g.statement) else return none : Parse (Option Stmt))
  return .ifThen (← finish start) test consequent alternate

/-- Whether a token ends the statements of a case. -/
def endsCase (k : Token.Kind) : Bool :=
  k.isKey .caseKw || k.isKey .defaultKw || k.isPunct .rightBrace || k.isEof

/-- A case of a switch, of which another one may already be the default case. -/
def switchCase (g : Grammar) (hasDefault : Bool) : Parse SwitchCase := do
  let start ← start
  let test ← (do
    if ← eatKey .caseKw then return some (← withIn true (expression g))
    else if ← isKey .defaultKw then
      if hasDefault then failHere .repeatedDefault
      else
        let _ ← advance
        return none
    else unexpected : Parse (Option Expr))
  expect .colon
  let consequent ← itemsUntil endsCase g.statement
  return { test, consequent, span := ← finish start }

def switchStatement (g : Grammar) : Parse Stmt := do
  let start ← start
  expectKey .switchKw
  let discriminant ← condition g
  expect .leftBrace
  let cases ← repeatFrom (fun (cases : List SwitchCase) => do
    let k ← kind
    if k.isPunct .rightBrace || k.isEof then return .last cases
    else return .again ((← switchCase g (cases.any (·.test.isNone))) :: cases)) []
  expect .rightBrace
  return .switch (← finish start) discriminant cases.reverse

/-- A loop over values or keys, from the word between its head and what it runs over. -/
def forEach (g : Grammar) (start : Nat) (left : ForHead) (isAwait : Bool) : Parse Stmt := do
  let isOf ← isName "of"
  let _ ← advance
  let right ← withIn true (if isOf then g.assignment else expression g)
  expect .rightParen
  let body ← g.statement
  let span ← finish start
  return if isOf then .forOf span left right body isAwait else .forIn span left right body

/-- A loop with three clauses, after the first one. -/
def forRest (g : Grammar) (start : Nat) (init : Option ForInit) : Parse Stmt := do
  expect .semicolon
  let test ← unlessAt .semicolon (withIn true (expression g))
  expect .semicolon
  let update ← unlessAt .rightParen (withIn true (expression g))
  expect .rightParen
  let body ← g.statement
  return .forLoop (← finish start) init test update body

/-- Whether the current token stands between the head of a loop and what it runs over. -/
def atForEach : Parse Bool := do
  let k ← kind
  return k.isName "of" || k.isKey .inKw

def forStatement (g : Grammar) : Parse Stmt := do
  let start ← start
  expectKey .forKw
  let isAwait ← (do
    if (← read).inAsync then eatName "await" else return false : Parse Bool)
  expect .leftParen
  if ← isPunct .semicolon then forRest g start none
  else
    let k ← kind
    let declares ← (do
      if k.isName "let" then letStartsDeclaration
      else return k.isKey .varKw || k.isKey .constKw : Parse Bool)
    if declares then
      let decl ← withIn false (declaration g)
      if ← atForEach then
        if decl.declarations.length != 1 then fail .severalDeclarations decl.span
        else forEach g start (.decl decl) isAwait
      else forRest g start (some (.decl decl))
    else
      let e ← withIn false (expression g)
      if ← atForEach then
        let pattern ← MonadExcept.ofExcept e.toPattern
        forEach g start (.pattern pattern) isAwait
      else forRest g start (some (.expr e))

def whileStatement (g : Grammar) : Parse Stmt := do
  let start ← start
  expectKey .whileKw
  let test ← condition g
  let body ← g.statement
  return .whileLoop (← finish start) test body

def doStatement (g : Grammar) : Parse Stmt := do
  let start ← start
  expectKey .doKw
  let body ← g.statement
  expectKey .whileKw
  let test ← condition g
  let _ ← eat .semicolon
  return .doWhile (← finish start) body test

/-- A statement that leaves a loop or goes on with it. -/
def jumpStatement (make : Span → Option Ident → Stmt) : Parse Stmt := do
  let start ← start
  let _ ← advance
  let label ← (do
    if (← isAnyName) && !(← token).newlineBefore then return some (← bindingName)
    else return none : Parse (Option Ident))
  semicolon
  return make (← finish start) label

def returnStatement (g : Grammar) : Parse Stmt := do
  let start ← start
  let env ← read
  if !env.inFunction && !env.options.allowReturn then failHere .returnOutsideFunction
  else
    let _ ← advance
    let argument ← (do
      if (← isPunct .semicolon) || (← atImplicitEnd) then return none
      else return some (← withIn true (expression g)) : Parse (Option Expr))
    semicolon
    return .returns (← finish start) argument

def throwStatement (g : Grammar) : Parse Stmt := do
  let start ← start
  let _ ← advance
  if (← token).newlineBefore then failHere .newlineAfterThrow
  else
    let argument ← withIn true (expression g)
    semicolon
    return .throws (← finish start) argument

def catchClause (g : Grammar) : Parse CatchClause := do
  let start ← start
  expectKey .catchKw
  let param ← (do
    if ← eat .leftParen then
      let param ← g.pattern
      expect .rightParen
      return some param
    else return none : Parse (Option Pattern))
  let body ← block g
  return { param, body, span := ← finish start }

def tryStatement (g : Grammar) : Parse Stmt := do
  let start ← start
  expectKey .tryKw
  let body ← block g
  let handler ← (do
    if ← isKey .catchKw then return some (← catchClause g) else return none :
      Parse (Option CatchClause))
  let finalizer ← (do
    if ← eatKey .finallyKw then return some (← block g) else return none : Parse (Option Block))
  if handler.isNone && finalizer.isNone then failHere .missingHandler
  else return .tryCatch (← finish start) body handler finalizer

def expressionStatement (g : Grammar) : Parse Stmt := do
  let start ← start
  let e ← withIn true (expression g)
  semicolon
  return .expr (← finish start) e

/-- A label and the statement that it names. -/
def labeledStatement (g : Grammar) : Parse Stmt := do
  let start ← start
  let label ← bindingName
  let _ ← advance
  let body ← g.statement
  return .labeled (← finish start) label body

/-! ### Modules -/

/-- Fails unless the source is a module. -/
def requireModule : Parse Unit := do
  unless (← read).options.isModule do failHere .moduleOnly

def importSpecifier : Parse ImportSpecifier := do
  let start ← start
  let imported ← identifierName
  let binding ← (do
    if ← eatName "as" then bindingName else return imported : Parse Ident)
  return .named (← finish start) imported binding

/-- What an import binds apart from a default: everything as one object, or single names. -/
def importClause : Parse (List ImportSpecifier) := do
  let start ← start
  if ← eat .star then
    expectName "as"
    let binding ← bindingName
    return [.star (← finish start) binding]
  else if ← eat .leftBrace then
    let specifiers ← itemsBefore .rightBrace (do return (← importSpecifier, false))
    expect .rightBrace
    return specifiers
  else return []

/-- All that an import binds. -/
def importSpecifiers : Parse (List ImportSpecifier) := do
  match ← kind with
  | .string _ => return []
  | .name _ =>
    let binding ← bindingName
    let specifier := ImportSpecifier.default binding.span binding
    if ← eat .comma then return specifier :: (← importClause) else return [specifier]
  | _ => importClause

def importDeclaration : Parse Stmt := do
  let start ← start
  requireModule
  expectKey .importKw
  let specifiers ← importSpecifiers
  unless specifiers.isEmpty do expectName "from"
  let source ← stringLiteral
  semicolon
  return .importDecl (← finish start) specifiers source

def exportSpecifier : Parse ExportSpecifier := do
  let start ← start
  let binding ← identifierName
  let exported ← (do
    if ← eatName "as" then identifierName else return binding : Parse Ident)
  return { span := ← finish start, binding, exported }

/-- What a module exports as its default, after `default`. -/
def exportedDefault (g : Grammar) : Parse ExportDefault := do
  let start ← start
  if ← isKey .functionKw then return .function (← function g start false false)
  else if (← isName "async") && (← functionFollows) then
    let _ ← advance
    return .function (← function g start true false)
  else if ← isKey .classKw then return .classDecl (← classDef g (leftHandSide g) start false)
  else
    let e ← withIn true g.assignment
    semicolon
    return .expr e

def exportDeclaration (g : Grammar) : Parse Stmt := do
  let start ← start
  requireModule
  expectKey .exportKw
  let declared : Parse Stmt := do
    let declaration ← g.statement
    return .exportNamed (← finish start) (some declaration) [] none
  match ← kind with
  | .keyword .defaultKw =>
    let _ ← advance
    let declaration ← exportedDefault g
    return .exportDefault (← finish start) declaration
  | .punct .star =>
    let _ ← advance
    let exported ← (do
      if ← eatName "as" then return some (← identifierName) else return none :
        Parse (Option Ident))
    expectName "from"
    let source ← stringLiteral
    semicolon
    return .exportAll (← finish start) exported source
  | .punct .leftBrace =>
    let _ ← advance
    let specifiers ← itemsBefore .rightBrace (do return (← exportSpecifier, false))
    expect .rightBrace
    let source ← (do
      if ← eatName "from" then return some (← stringLiteral) else return none :
        Parse (Option Expr))
    semicolon
    return .exportNamed (← finish start) none specifiers source
  | .keyword .varKw | .keyword .constKw | .keyword .functionKw | .keyword .classKw => declared
  | .name "let" | .name "async" => declared
  | _ => unexpected

/-! ### All statements -/

/-- A statement that starts with a name that is no declaration: a label or an expression. -/
def nameStatement (g : Grammar) : Parse Stmt := do
  if (← peek).isPunct .colon then labeledStatement g else expressionStatement g

/-- A statement of any form. -/
def anyStatement (g : Grammar) : Parse Stmt := do
  let t ← token
  let start := t.span.start
  match t.kind with
  | .keyword .varKw | .keyword .constKw => varStatement g
  | .name "let" => if ← letStartsDeclaration then varStatement g else nameStatement g
  | .name "async" =>
    if ← functionFollows then
      let _ ← advance
      return .function (← function g start true true)
    else nameStatement g
  | .name _ => nameStatement g
  | .keyword .functionKw => return .function (← function g start false true)
  | .keyword .classKw => return .classDecl (← classDef g (leftHandSide g) start true)
  | .keyword .ifKw => ifStatement g
  | .keyword .switchKw => switchStatement g
  | .keyword .forKw => forStatement g
  | .keyword .whileKw => whileStatement g
  | .keyword .doKw => doStatement g
  | .keyword .breakKw => jumpStatement .breakTo
  | .keyword .continueKw => jumpStatement .continueTo
  | .keyword .returnKw => returnStatement g
  | .keyword .throwKw => throwStatement g
  | .keyword .tryKw => tryStatement g
  | .keyword .debuggerKw =>
    let _ ← advance
    semicolon
    return .debugger (← finish start)
  | .keyword .withKw => failHere .withStatement
  | .punct .leftBrace => return .block (← block g)
  | .punct .semicolon =>
    let _ ← advance
    return .empty (← finish start)
  | .keyword .importKw =>
    let next ← peek
    if next.isPunct .leftParen || next.isPunct .dot then expressionStatement g
    else importDeclaration
  | .keyword .exportKw => exportDeclaration g
  | _ => expressionStatement g

end Espalier.Grammar
