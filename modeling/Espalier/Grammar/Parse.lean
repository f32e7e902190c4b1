import Espalier.Grammar.Error
import Espalier.Syntax
import Espalier.Token.Scan

/-!
# The reading monad

`Parse α` reads an `α` from the current token on. What surrounds the place being read (`Parse.Env`)
is passed down; the current token and those that were left behind (`Parse.State`) are threaded
through. A repetition (`repeatFrom`) and a recursion that is not counted as nesting (`furtherOn`)
have to move on in the source, and that is all that bounds them.
-/

namespace Espalier

/-- How a source is to be read. -/
structure ParserOptions where
  /-- Whether it may import and export, and await outside functions. -/
  isModule : Bool := true
  /-- Whether it may return outside functions. -/
  allowReturn : Bool := false
  deriving DecidableEq, Repr

namespace Parse

/-- What surrounds the place being read. -/
structure Env where
  options : ParserOptions
  /-- The number of bytes of the source. -/
  size : Nat
  /-- Whether `in` is an operator. -/
  allowIn : Bool := true
  inFunction : Bool := false
  inAsync : Bool
  inGenerator : Bool := false

/-- The current token, and what has been left behind. -/
structure State where
  current : Token.Scanned
  /-- Where the last token left ends. -/
  prevEnd : Nat
  /-- The tokens that were left behind, the last one first. -/
  left : List Token := []

end Parse

/-- A reader of an `α`. -/
abbrev Parse := ReaderT Parse.Env (StateT Parse.State (Except SyntaxError))

namespace Parse

/-! ### The current token -/

/-- The current token. -/
def token : Parse Token := return (← get).current.token

/-- The kind of the current token. -/
def kind : Parse Token.Kind := return (← token).kind

/-- Where the current token starts. -/
def start : Parse Nat := return (← token).span.start

/-- The token after the current one. -/
def peek : Parse Token := return (Token.scan (← get).current.after).token

/-- Goes on to the next token and gives the one left. -/
def advance : Parse Token := do
  let s ← get
  set {
    current := Token.scan s.current.after
    prevEnd := s.current.token.span.stop
    left := s.current.token :: s.left : State }
  return s.current.token

/-- The span from `start` to the end of the last token left. -/
def finish (start : Nat) : Parse Span := return ⟨start, max (← get).prevEnd start⟩

/-! ### Failing -/

def fail {α : Type} (cause : SyntaxCause) (span : Span) : Parse α := throw ⟨cause, span⟩

/-- Fails at the current token. -/
def failHere {α : Type} (cause : SyntaxCause) : Parse α := do fail cause (← token).span

/-- Fails because the current token does not belong here. -/
def unexpected {α : Type} : Parse α := do
  match ← kind with
  | .invalid e => failHere (.lexical e)
  | _ => failHere .unexpectedToken

/-! ### Expecting tokens -/

def isPunct (p : Punct) : Parse Bool := return (← kind).isPunct p

def isKey (k : Keyword) : Parse Bool := return (← kind).isKey k

def isName (word : String) : Parse Bool := return (← kind).isName word

def isAnyName : Parse Bool := do
  match ← kind with
  | .name _ => return true
  | _ => return false

def isEof : Parse Bool := return (← kind).isEof

/-- Leaves the current token if it is `p`, and tells whether it was. -/
def eat (p : Punct) : Parse Bool := do
  if ← isPunct p then
    let _ ← advance
    return true
  else return false

/-- Leaves the current token if it is `k`, and tells whether it was. -/
def eatKey (k : Keyword) : Parse Bool := do
  if ← isKey k then
    let _ ← advance
    return true
  else return false

/-- Leaves the current token if it is `word`, and tells whether it was. -/
def eatName (word : String) : Parse Bool := do
  if ← isName word then
    let _ ← advance
    return true
  else return false

/-- Fails because the current token is not the one that has to stand here. -/
def failExpecting (cause : SyntaxCause) : Parse Unit := do
  match ← kind with
  | .invalid e => failHere (.lexical e)
  | _ => failHere cause

def expect (p : Punct) : Parse Unit := do
  unless ← eat p do failExpecting (.expectedSign p)

def expectKey (k : Keyword) : Parse Unit := do
  unless ← eatKey k do failExpecting (.expectedKeyword k)

def expectName (word : String) : Parse Unit := do
  unless ← eatName word do failHere (.expectedWord word)

/-- Whether a statement may end in front of the current token without a semicolon. -/
def atImplicitEnd : Parse Bool := do
  let t ← token
  return t.isPunct .rightBrace || t.kind.isEof || t.newlineBefore

/-- The end of a statement: a semicolon, or a place where it may be left out. -/
def semicolon : Parse Unit := do
  unless ← eat .semicolon do
    unless ← atImplicitEnd do
      fail .missingSemicolon (.empty (← get).prevEnd)

/-! ### Changing what surrounds the place -/

/-- Reads with `in` as an operator or not. -/
def withIn {α : Type} (allow : Bool) (p : Parse α) : Parse α :=
  withReader (fun env => { env with allowIn := allow }) p

/-- Reads inside a function. -/
def withinFunction {α : Type} (isAsync isGenerator : Bool) (p : Parse α) : Parse α :=
  withReader
    (fun env => { env with inFunction := true, inAsync := isAsync, inGenerator := isGenerator }) p

/-! ### Repetition -/

/-- What follows a round of a repetition: another one, or the end. -/
inductive Round (σ : Type)
  | again (s : σ)
  | last (s : σ)

/-- Repeats `round`, starting with `s`. A round after which another one follows has to move on in
the source. -/
def repeatFrom {σ : Type} (round : σ → Parse (Round σ)) (s : σ) : Parse σ := fun env st =>
  match round s env st with
  | .error e => .error e
  | .ok (.last s, st') => .ok (s, st')
  | .ok (.again s, st') =>
    if st.current.first.pos < env.size ∧ st.current.first.pos < st'.current.first.pos then
      repeatFrom round s env st'
    else failHere .stalled env st'
termination_by env st => env.size - st.current.first.pos

/-- A reading of `p` in which `p` may be read again further on in the source, though no more than
`room` bytes from its end. -/
def furtherOnWithin {α : Type} (p : Parse α → Parse α) (room : Nat) : Parse α :=
  p fun env st =>
    if env.size - st.current.first.pos < room then
      furtherOnWithin p (env.size - st.current.first.pos) env st
    else failHere .stalled env st
termination_by room

/-- A reading of `p` in which `p` may be read again further on in the source. -/
def furtherOn {α : Type} (p : Parse α → Parse α) : Parse α := fun env st =>
  furtherOnWithin p (env.size - st.current.first.pos) env st

/-- The items in front of the first token that satisfies `stop`. -/
def itemsUntil {α : Type} (stop : Token.Kind → Bool) (item : Parse α) : Parse (List α) := do
  let items ← repeatFrom (fun items => do
    if stop (← kind) then return .last items
    else return .again ((← item) :: items)) []
  return items.reverse

/-- The items in front of `close`, divided by commas. An item may declare itself the last one. -/
def itemsBefore {α : Type} (close : Punct) (item : Parse (α × Bool)) : Parse (List α) := do
  let items ← repeatFrom (fun items => do
    if ← isPunct close then return .last items
    else
      let (a, isLast) ← item
      if isLast then return .last (a :: items)
      else if ← eat .comma then return .again (a :: items)
      else return .last (a :: items)) []
  return items.reverse

/-- An item, and more of them after commas. -/
def itemsAfterCommas {α : Type} (first : List α) (item : Parse α) : Parse (List α) := do
  let items ← repeatFrom (fun items => do
    if ← eat .comma then return .again ((← item) :: items)
    else return .last items) first
  return items.reverse

/-! ### Names and literals -/

/-- A name or a keyword, where both are names. -/
def identifierName : Parse Ident := do
  let t ← token
  match t.kind with
  | .name text =>
    let _ ← advance
    return ⟨text, t.span⟩
  | .keyword k =>
    let _ ← advance
    return ⟨k.text, t.span⟩
  | _ => unexpected

/-- A name that binds or refers to a variable. -/
def bindingName : Parse Ident := do
  let t ← token
  match t.kind with
  | .name text =>
    let _ ← advance
    return ⟨text, t.span⟩
  | .keyword k => failHere (.keywordAsName k.text)
  | _ => unexpected

/-- A string as an expression. -/
def stringLiteral : Parse Expr := do
  let t ← token
  match t.kind with
  | .string value =>
    let _ ← advance
    return .string t.span value
  | _ => unexpected

end Parse

/-- The readings that nest: each counts as one more level, and a grammar at the last level refuses
them all. -/
structure Grammar where
  statement : Parse Stmt
  pattern : Parse Pattern
  assignment : Parse Expr
  /-- The right operand of a power. -/
  power : Parse Expr
  /-- The operand of an operator in front. -/
  operand : Parse Expr
  /-- What another `new` creates. -/
  creation : Parse Expr

end Espalier
