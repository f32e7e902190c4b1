import Espalier.Grammar.Pattern

/-!
# Reading functions and classes

Blocks, parameters, functions, methods and classes. What a class extends is given to `classDef` as a
reader, because it may itself hold classes and is not counted as nesting.
-/

namespace Espalier.Grammar

open Parse

/-- Statements between braces. -/
def block (g : Grammar) : Parse Block := do
  let start ← start
  expect .leftBrace
  let body ← itemsUntil (fun k => k.isPunct .rightBrace || k.isEof) g.statement
  expect .rightBrace
  return ⟨body, ← finish start⟩

/-- The parameters of a function, between their parentheses. -/
def parameters (g : Grammar) : Parse (List Pattern) := do
  expect .leftParen
  let params ← itemsBefore .rightParen do
    let start ← start
    if ← eat .ellipsis then return (← restPattern g start, true)
    else return (← bindingElement g, false)
  expect .rightParen
  return params

/-- The parameters and the body of a function whose other parts are known. The span of the function
starts at `start`. -/
def functionRest (g : Grammar) (start : Nat) (id : Option Ident) (isAsync isGenerator : Bool) :
    Parse Func := do
  let (params, body) ← withinFunction isAsync isGenerator do
    let params ← parameters g
    let body ← withIn true (block g)
    return (params, body)
  return { id, params, body, isAsync, isGenerator, span := ← finish start }

/-- The name of a function or class, which only some places can do without. -/
def definitionName (isRequired : Bool) (cause : SyntaxCause) : Parse (Option Ident) := do
  if ← isAnyName then return some (← bindingName)
  else if isRequired then failHere cause
  else return none

/-- A function from its keyword on. -/
def function (g : Grammar) (start : Nat) (isAsync nameRequired : Bool) : Parse Func := do
  expectKey .functionKw
  let isGenerator ← eat .star
  let id ← definitionName nameRequired .functionNameRequired
  functionRest g start id isAsync isGenerator

/-- Whether `word` stands here in front of the name of a member, instead of being that name. -/
def isModifier (word : String) : Parse Bool := do
  if ← isName word then
    let next ← peek
    let endsName :=
      match next.kind with
      | .punct p => [Punct.leftParen, .assign, .semicolon, .rightBrace, .comma, .colon].contains p
      | .eof => true
      | _ => false
    return !endsName && !(word == "async" && next.newlineBefore)
  else return false

/-- Leaves the current token if it is `word` in front of the name of a member. -/
def eatModifier (word : String) : Parse Bool := do
  if ← isModifier word then
    let _ ← advance
    return true
  else return false

/-- What stands in front of the name of a method. -/
structure MethodModifiers where
  isAsync : Bool
  isGenerator : Bool
  accessor : Option MethodKind

def MethodModifiers.any (m : MethodModifiers) : Bool :=
  m.isAsync || m.isGenerator || m.accessor.isSome

def methodModifiers : Parse MethodModifiers := do
  let isAsync ← eatModifier "async"
  let isGenerator ← eat .star
  let accessor ← (do
    if isAsync || isGenerator then return none
    else if ← eatModifier "get" then return some MethodKind.getter
    else if ← eatModifier "set" then return some MethodKind.setter
    else return none : Parse (Option MethodKind))
  return { isAsync, isGenerator, accessor }

/-- The function of a method, from its parameters on. -/
def methodFunction (g : Grammar) (m : MethodModifiers) : Parse Func := do
  functionRest g (← start) none m.isAsync m.isGenerator

/-- A member of a class. A method named `constructor` that is not static is the constructor. -/
def classMember (g : Grammar) : Parse ClassMember := do
  let start ← start
  let isStatic ← eatModifier "static"
  let modifiers ← methodModifiers
  if ← isPunct .hash then failHere .privateMember
  else
    let key ← propertyKey g
    if (← isPunct .leftParen) || modifiers.any then
      let func ← methodFunction g modifiers
      let kind :=
        modifiers.accessor.getD
          (if !isStatic && key.word? == some "constructor" then .constructor else .method)
      return .method (← finish start) key kind isStatic func
    else
      let value ← (do
        if ← eat .assign then
          some <$> withReader (fun env => { env with inFunction := true })
            (withIn true g.assignment)
        else return none : Parse (Option Expr))
      semicolon
      return .property (← finish start) key value isStatic

/-- The members of a class between their braces, among which semicolons may stand. -/
def classBody (g : Grammar) : Parse ClassBody := do
  let start ← start
  expect .leftBrace
  let members ← repeatFrom (fun members => do
    let k ← kind
    if k.isPunct .rightBrace || k.isEof then return .last members
    else if ← eat .semicolon then return .again members
    else return .again ((← classMember g) :: members)) []
  expect .rightBrace
  return ⟨members.reverse, ← finish start⟩

/-- A class from its keyword on. `heritage` reads what it extends. -/
def classDef (g : Grammar) (heritage : Parse Expr) (start : Nat) (nameRequired : Bool) :
    Parse Class := do
  expectKey .classKw
  let id ← definitionName nameRequired .classNameRequired
  let superClass ← (do
    if ← eatKey .extendsKw then return some (← heritage) else return none : Parse (Option Expr))
  let body ← classBody g
  return { id, superClass, body, span := ← finish start }

end Espalier.Grammar
