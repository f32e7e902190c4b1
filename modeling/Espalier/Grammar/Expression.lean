import Espalier.Grammar.Cover
import Espalier.Grammar.Function

/-!
# Reading expressions

Binary operators are read by precedence climbing (`binary`), everything else by recursive descent.
What may turn out to be a pattern or the parameters of an arrow is read as an expression first.
-/

namespace Espalier.Grammar

open Parse

/-- Expressions divided by commas. -/
def expression (g : Grammar) : Parse Expr := do
  let first ← g.assignment
  if ← isPunct .comma then
    let expressions ← itemsAfterCommas [first] g.assignment
    return .sequence (← finish first.span.start) expressions
  else return first

/-! ### Literals -/

/-- Reads the current closing brace again as the end of a substitution, and leaves it. It is read
from the cursor in front of it, which in addressable sources stands where its span starts
(`Token.Scanned.IsRead`). -/
def continueTemplate : Parse Token := do
  modify fun s =>
    { s with current := Token.scanTemplate s.current.token.newlineBefore s.current.first }
  advance

/-- Reads the current slash again as the start of a regular expression, and leaves it, from the
cursor in front of it as `continueTemplate` does. -/
def regexToken : Parse Token := do
  modify fun s =>
    { s with current := Token.scanRegex s.current.token.newlineBefore s.current.first }
  advance

/-- A piece of a template. Its span leaves out the quote or brace at its start and the `width` bytes
of what ends it. -/
def templateElement (t : Token) (cooked : String) (tail : Bool) (width : Nat) : TemplateElement :=
  ⟨cooked, tail, ⟨t.span.start + 1, t.span.stop - width⟩⟩

/-- A template from its first piece on. -/
def template (g : Grammar) : Parse Template := do
  let start ← start
  let head ← advance
  match head.kind with
  | .templateWhole cooked =>
    return ⟨[templateElement head cooked true 1], [], ← finish start⟩
  | .templateHead cooked =>
    let (quasis, expressions) ← repeatFrom (fun (quasis, expressions) => do
      let e ← withIn true (expression g)
      unless ← isPunct .rightBrace do failHere (.expectedSign .rightBrace)
      let part ← continueTemplate
      match part.kind with
      | .templateMiddle cooked =>
        return .again (templateElement part cooked false 2 :: quasis, e :: expressions)
      | .templateTail cooked =>
        return .last (templateElement part cooked true 1 :: quasis, e :: expressions)
      | .invalid error => fail (.lexical error) part.span
      | _ => fail .unexpectedToken part.span) ([templateElement head cooked false 2], [])
    return ⟨quasis.reverse, expressions.reverse, ← finish start⟩
  | _ => fail .unexpectedToken head.span

/-- A regular expression, of which the current token is the opening slash. -/
def regex : Parse Expr := do
  let slash ← token
  let t ← regexToken
  match t.kind with
  | .regex pattern flags => return .regex (← finish slash.span.start) pattern flags
  | .invalid error => fail (.lexical error) slash.span
  | _ => fail .unexpectedToken slash.span

/-- An argument or element: an expression or a spread. -/
def spreadOrAssignment (g : Grammar) : Parse Expr := do
  let start ← start
  if ← eat .ellipsis then
    let argument ← withIn true g.assignment
    return .spread (← finish start) argument
  else withIn true g.assignment

/-- An array literal. Commas with nothing between them leave holes. -/
def arrayLiteral (g : Grammar) : Parse Expr := do
  let start ← start
  expect .leftBracket
  let elements ← repeatFrom (fun elements => do
    if ← isPunct .rightBracket then return .last elements
    else if ← eat .comma then return .again (none :: elements)
    else
      let element ← spreadOrAssignment g
      unless ← isPunct .rightBracket do expect .comma
      return .again (some element :: elements)) []
  expect .rightBracket
  return .array (← finish start) elements.reverse

/-- A property of an object literal. A default after a lone name (`{ a = 1 }`) makes sense only in a
pattern; it is read as an assignment. -/
def objectProperty (g : Grammar) : Parse Property := do
  let start ← start
  if ← eat .ellipsis then
    let argument ← withIn true g.assignment
    return .spread (← finish start) argument
  else
    let modifiers ← methodModifiers
    let key ← propertyKey g
    if (← isPunct .leftParen) || modifiers.any then
      let func ← methodFunction g modifiers
      return .method (← finish start) key (modifiers.accessor.getD .method) func
    else if ← eat .colon then
      let value ← withIn true g.assignment
      return .init (← finish start) key value false
    else
      match key with
      | .ident name =>
        if (Keyword.ofText? name.name).isSome then fail (.keywordAsName name.name) name.span
        else if ← eat .assign then
          let right ← withIn true g.assignment
          let span ← finish start
          return .init span key (.assign span .plain (.ident name) right) true
        else return .init (← finish start) key (.ident name) true
      | _ => unexpected

def objectLiteral (g : Grammar) : Parse Expr := do
  let start ← start
  expect .leftBrace
  let properties ← itemsBefore .rightBrace (do return (← objectProperty g, false))
  expect .rightBrace
  return .object (← finish start) properties

/-! ### Arrows and parentheses -/

/-- The body of an arrow function, after the arrow. -/
def arrowBody (g : Grammar) (start : Nat) (isAsync : Bool) (params : List Pattern) :
    Parse Expr := do
  let body ← withinFunction isAsync false do
    if ← isPunct .leftBrace then return ArrowBody.block (← withIn true (block g))
    else return ArrowBody.expr (← g.assignment)
  return .arrow { params, body, isAsync, span := ← finish start }

/-- The parameters that expressions between parentheses spell. -/
def arrowParams : List Expr → Except SyntaxError (List Pattern)
  | [] => .ok []
  | e :: es => do
    let p ← e.toPattern
    p.checkBinding
    return p :: (← arrowParams es)

/-- What starts with a parenthesis: the parameters of an arrow function, or expressions; after
`async`, the parameters or the arguments of a call. -/
def parenthesized (g : Grammar) (start : Nat) (isAsync : Bool) : Parse Expr := do
  expect .leftParen
  let (items, rest) ← withIn true <| repeatFrom (fun (items, rest) => do
    if ← isPunct .rightParen then return .last (items, rest)
    else
      let itemStart ← Parse.start
      if ← eat .ellipsis then return .last (items, some (← restPattern g itemStart))
      else
        let item ← g.assignment
        if ← eat .comma then return .again (item :: items, rest)
        else return .last (item :: items, rest)) (([] : List Expr), (none : Option Pattern))
  let items := items.reverse
  expect .rightParen
  if (← isPunct .arrow) && !(← token).newlineBefore then
    let _ ← advance
    let params ← MonadExcept.ofExcept (arrowParams items)
    arrowBody g start isAsync (params ++ rest.toList)
  else
    match rest with
    | some rest => fail .strayRest rest.span
    | none =>
      if isAsync then
        let callee := Expr.ident ⟨"async", ⟨start, start + 5⟩⟩
        return .call (← finish start) callee items false
      else
        match items with
        | [] => fail .strayClosingParen (.empty (← get).prevEnd)
        | [item] => return item
        | first :: others =>
          return .sequence ⟨first.span.start, ((others.getLast?).getD first).span.stop⟩ items

/-! ### Members and calls -/

/-- The name of a member after a point. -/
def memberName : Parse MemberName := do
  if ← isPunct .hash then failHere .privateName
  else return .ident (← identifierName)

/-- The name of a member between brackets. -/
def computedMember (g : Grammar) : Parse MemberName := do
  expect .leftBracket
  let key ← withIn true (expression g)
  expect .rightBracket
  return .computed key

/-- The arguments of a call, between their parentheses. -/
def arguments (g : Grammar) : Parse (List Expr) := do
  expect .leftParen
  let arguments ← itemsBefore .rightParen (do return (← spreadOrAssignment g, false))
  expect .rightParen
  return arguments

/-- The property of `new.` or `import.`, which has only one. -/
def metaProperty (start : Nat) (object : Ident) (name : String) (cause : SyntaxCause) :
    Parse Expr := do
  let property ← identifierName
  if property.name != name then fail cause property.span
  else return .metaProperty (← finish start) object property

/-- An expression that neither an operator nor a member, call or template extends. -/
def primary (g : Grammar) (heritage : Parse Expr) : Parse Expr := do
  let start ← start
  let t ← token
  let literal (make : Span → Expr) : Parse Expr := do
    let _ ← advance
    return make t.span
  match t.kind with
  | .name text =>
    let next ← peek
    if text == "async" && !next.newlineBefore && next.isKey .functionKw then
      let _ ← advance
      return .function (← function g start true false)
    else if text == "async" && !next.newlineBefore && next.isPunct .leftParen then
      let _ ← advance
      parenthesized g start true
    else literal fun span => .ident ⟨text, span⟩
  | .number value => literal (.number · value)
  | .string value => literal (.string · value)
  | .bigint digits => literal (.bigint · digits)
  | .keyword .trueKw => literal (.bool · true)
  | .keyword .falseKw => literal (.bool · false)
  | .keyword .nullKw => literal .null
  | .keyword .thisKw => literal .this
  | .keyword .superKw => literal .super
  | .punct .slash | .punct .slashAssign => regex
  | .templateWhole _ | .templateHead _ => return .template (← template g)
  | .punct .leftParen => parenthesized g start false
  | .punct .leftBracket => arrayLiteral g
  | .punct .leftBrace => objectLiteral g
  | .keyword .functionKw => return .function (← function g start false false)
  | .keyword .classKw => return .classExpr (← classDef g heritage start false)
  | .keyword .importKw =>
    let _ ← advance
    if ← eat .dot then metaProperty start ⟨"import", t.span⟩ "meta" .importMetaProperty
    else if ← isPunct .leftParen then return .importWord (← finish start)
    else unexpected
  | _ => unexpected

/-- What `new` creates, and its arguments. No call belongs to the callee. -/
def construct (g : Grammar) (heritage : Parse Expr) : Parse Expr := do
  let newToken ← token
  let start := newToken.span.start
  expectKey .newKw
  if ← eat .dot then metaProperty start ⟨"new", newToken.span⟩ "target" .newMetaProperty
  else
    let calleeStart ← Parse.start
    let callee ← (do
      if ← isKey .newKw then g.creation else primary g heritage : Parse Expr)
    let callee ← repeatFrom (fun callee => do
      match ← kind with
      | .punct .dot =>
        let _ ← advance
        let property ← memberName
        return .again (.member (← finish calleeStart) callee property false)
      | .punct .leftBracket =>
        let property ← computedMember g
        return .again (.member (← finish calleeStart) callee property false)
      | .punct .questionDot => failHere .constructorInOptionalChain
      | _ => return .last callee) callee
    let arguments ← (do
      if ← isPunct .leftParen then arguments g else return [] : Parse (List Expr))
    return .new (← finish start) callee arguments

/-- What follows `?.` after an expression that started at `start`. -/
def optionalLink (g : Grammar) (start : Nat) (e : Expr) : Parse Expr := do
  match ← kind with
  | .punct .leftParen =>
    let arguments ← arguments g
    return .call (← finish start) e arguments true
  | .punct .leftBracket =>
    let property ← computedMember g
    return .member (← finish start) e property true
  | _ =>
    let property ← memberName
    return .member (← finish start) e property true

/-- An expression with the members, calls and templates that extend it. -/
def leftHandSideWith (g : Grammar) (heritage : Parse Expr) : Parse Expr := do
  let start ← start
  let e ← (do
    if ← isKey .newKw then construct g heritage else primary g heritage : Parse Expr)
  repeatFrom (fun e => do
    match ← kind with
    | .punct .dot =>
      let _ ← advance
      let property ← memberName
      return .again (.member (← finish start) e property false)
    | .punct .questionDot =>
      let _ ← advance
      return .again (← optionalLink g start e)
    | .punct .leftBracket =>
      let property ← computedMember g
      return .again (.member (← finish start) e property false)
    | .punct .leftParen =>
      let arguments ← arguments g
      return .again (.call (← finish start) e arguments false)
    | .templateWhole _ | .templateHead _ =>
      if e.isOptionalChain then failHere .taggedOptionalChain
      else
        let quasi ← template g
        return .again (.tagged (← finish start) e quasi)
    | _ => return .last e) e

/-- An expression with the members, calls and templates that extend it. -/
def leftHandSide (g : Grammar) : Parse Expr := furtherOn (leftHandSideWith g)

/-! ### Operators -/

/-- The operator in front of an operand that a token is. -/
def unaryOp? : Token.Kind → Option UnaryOp
  | .punct .minus => some .minus
  | .punct .plus => some .plus
  | .punct .bang => some .not
  | .punct .tilde => some .bitNot
  | .keyword .typeofKw => some .typeof
  | .keyword .voidKw => some .void
  | .keyword .deleteKw => some .delete
  | _ => none

/-- The change by one that a token is. -/
def updateOp? : Token.Kind → Option UpdateOp
  | .punct .increment => some .increment
  | .punct .decrement => some .decrement
  | _ => none

/-- Fails unless an expression is something that can be changed in place. -/
def checkUpdateTarget (e : Expr) : Parse Unit :=
  match e with
  | .ident _ => return
  | .member s _ _ _ => if e.isOptionalChain then fail .updateTarget s else return
  | e => fail .updateTarget e.span

/-- An operand with a change by one after it. -/
def postfixUpdate (g : Grammar) : Parse Expr := do
  let start ← start
  let e ← leftHandSide g
  match updateOp? (← kind) with
  | some op =>
    if (← token).newlineBefore then return e
    else
      checkUpdateTarget e
      let _ ← advance
      return .update (← finish start) op false e
  | none => return e

/-- An operand with the operators in front of it. -/
def unary (g : Grammar) : Parse Expr := do
  let start ← start
  let k ← kind
  match unaryOp? k with
  | some op =>
    let _ ← advance
    let argument ← g.operand
    return .unary (← finish start) op argument
  | none =>
    match updateOp? k with
    | some op =>
      let _ ← advance
      let argument ← g.operand
      checkUpdateTarget argument
      return .update (← finish start) op true argument
    | none =>
      if k.isName "await" && (← read).inAsync then
        let _ ← advance
        let argument ← g.operand
        return .await (← finish start) argument
      else postfixUpdate g

/-- Operands and the operators between them, as far as these bind at least as tightly as `least`.
The right operand of an operator takes in only what binds tighter, except that powers group from the
right. -/
def binary (g : Grammar) (least : Nat) : Parse Expr := do
  let start ← start
  let left ← unary g
  repeatFrom (fun left => do
    let k ← kind
    match k.operator? with
    | none => return .last left
    | some op =>
      if _h : op.precedence < least then return .last left
      else if k.isKey .inKw && !(← read).allowIn then return .last left
      else
        let _ ← advance
        let right ← if op.isRightAssociative then g.power else binary g (op.precedence + 1)
        return .again (.operation (← finish start) op left right)) left
termination_by InfixOp.tightest + 1 - least
decreasing_by
  have := op.precedence_le
  omega

/-- A choice between two expressions, or only its test. -/
def conditional (g : Grammar) : Parse Expr := do
  let start ← start
  let test ← binary g 0
  if ← eat .question then
    let consequent ← withIn true g.assignment
    expect .colon
    let alternate ← g.assignment
    return .conditional (← finish start) test consequent alternate
  else return test

/-! ### Assignments -/

/-- Whether a token ends a `yield` that has no argument. -/
def endsYield : Token.Kind → Bool
  | .punct p =>
    [Punct.rightParen, .rightBracket, .rightBrace, .comma, .semicolon, .colon].contains p
  | .eof => true
  | _ => false

def yieldExpr (g : Grammar) : Parse Expr := do
  let start ← start
  let _ ← advance
  let delegate ← (do
    if (← token).newlineBefore then return false else eat .star : Parse Bool)
  let t ← token
  if endsYield t.kind || (t.newlineBefore && !delegate) then
    return .yield (← finish start) none delegate
  else
    let argument ← g.assignment
    return .yield (← finish start) (some argument) delegate

/-- An assignment, or an expression that assigns nothing. -/
def plainAssignment (g : Grammar) : Parse Expr := do
  let start ← start
  let left ← conditional g
  match (← kind).assignOp? with
  | none => return left
  | some op =>
    let target ← MonadExcept.ofExcept (if op = .plain then left.toPattern else left.toSimpleTarget)
    let _ ← advance
    let right ← g.assignment
    return .assign (← finish start) op target right

/-- An expression without commas: a `yield`, an arrow function with one bare parameter, or an
assignment. -/
def assignmentExpr (g : Grammar) : Parse Expr := do
  let t ← token
  let start := t.span.start
  if t.isName "yield" && (← read).inGenerator then yieldExpr g
  else if ← isAnyName then
    let next ← peek
    if next.isPunct .arrow && !next.newlineBefore then
      let param ← g.pattern
      let _ ← advance
      arrowBody g start false [param]
    else
      match next.kind with
      | .name _ =>
        if t.isName "async" && !next.newlineBefore then
          let _ ← advance
          let param ← g.pattern
          expect .arrow
          arrowBody g start true [param]
        else plainAssignment g
      | _ => plainAssignment g
  else plainAssignment g

end Espalier.Grammar
