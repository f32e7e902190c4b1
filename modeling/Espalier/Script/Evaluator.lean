import Espalier.Script.NativeCall

/-!
# Evaluators

The parts of a script refer to each other in circles: expressions hold functions, functions hold
statements, statements hold patterns and expressions. An `Evaluator` is what is needed of all of
them to carry out one more level: each operation on a part is defined in terms of an evaluator for
the parts inside it.
-/

namespace Espalier.Script

/-- How a statement ends. -/
inductive Completion
  | normal
  | returned (value : Value)
  | broken (label : Option String)
  | continued (label : Option String)

/-- How a name gets a value: as a new variable, of the function, of the block or a constant of the
block, or as a variable that exists. -/
inductive Binder
  | functionVariable | blockVariable | constant | existing
  deriving DecidableEq, Repr, Inhabited

/-- How a declaration binds its names. -/
def Binder.ofKind : VarKind → Binder
  | .varKind => functionVariable
  | .letKind => blockVariable
  | .constKind => constant

/-- The operations on the parts of a script. -/
structure Evaluator where
  /-- The value of an expression. -/
  eval : Expr → Env → Script Value
  /-- The value of a chain of members and calls; none if an optional link ends it. -/
  chain : Expr → Env → Script (Option Value)
  /-- Binds the names in a pattern to parts of a value. -/
  bind : Pattern → Value → Env → Binder → Script Unit
  /-- Carries out a statement. -/
  exec : Stmt → Env → Script Completion
  /-- Calls a function. -/
  call : Caller

/-- The evaluator that gives up at once. A statement is a step before. -/
def Evaluator.none : Evaluator where
  eval _ _ := giveUp .aborted
  chain _ _ := giveUp .aborted
  bind _ _ _ _ := giveUp .aborted
  exec _ _ := do
    tick
    giveUp .aborted
  call _ _ _ := giveUp .aborted

/-! ### Repeating -/

/-- Repeats a round, each time a step of the run, until it gives a result. There are at most `room`
rounds. -/
def rounds {σ α : Type} (round : σ → Script (σ ⊕ α)) : (room : Nat) → σ → Script α
  | 0, _ => giveUp .aborted
  | room + 1, s => do
    tick
    match ← round s with
    | .inl s => rounds round room s
    | .inr a => return a

/-- Repeats a round until it gives a result. The run ends when no step is left for a round, so there
is room for all of them. -/
def repeating {σ α : Type} (round : σ → Script (σ ⊕ α)) (start : σ) : Script α := do
  let m ← get
  rounds round (m.budget.maxSteps - m.steps + 1) start

/-! ### Names -/

/-- What a function is called in a message: the expression, as far as it consists of names. -/
def described : Expr → String
  | .ident i => i.name
  | .this _ => "this"
  | .member _ object (.ident i) _ => described object ++ "." ++ i.name
  | .member _ object (.computed _) _ => described object ++ "[...]"
  | .call _ callee _ _ => described callee ++ "(...)"
  | _ => "expression"

namespace Evaluator

variable (self : Evaluator)

/-- The text of a key. -/
def key (env : Env) : PropertyKey → Script String
  | .computed e => do toText (← self.eval e env)
  | .literal (.number _ x) => return Number.text x
  | k => return k.word?.getD ""

/-- The key of a member. -/
def memberKey (env : Env) : MemberName → Script Value
  | .ident i => return .string i.name
  | .computed e => self.eval e env

/-- The values of elements, of which spreads give several. -/
def elements (env : Env) (done : Array Value) : List (Option Expr) → Script (Array Value)
  | [] => return done
  | .none :: es => elements env (done.push .undefined) es
  | some (.spread _ e) :: es => do
    let items ← iterate (← self.eval e env)
    elements env (done ++ items) es
  | some e :: es => do
    let v ← self.eval e env
    elements env (done.push v) es

/-- The values of arguments. -/
def arguments (env : Env) (es : List Expr) : Script (Array Value) :=
  self.elements env #[] (es.map some)

end Evaluator

/-! ### Functions -/

/-- The function that a definition makes. Without a name of its own it is anonymous. -/
def makeFunction (f : Func) (env : Env) : Script Value :=
  newClosure f.span (f.id.elim "anonymous" (·.name)) (.ofFunction f) env

/-- The function that an arrow makes. -/
def makeArrow (a : Arrow) (env : Env) : Script Value :=
  newClosure a.span "anonymous" (.ofArrow a) env

/-- The function that a statement declares. -/
def declaredFunction? : Stmt → Option Func
  | .function f => some f
  | .exportNamed _ (some (.function f)) _ _ => some f
  | _ => none

/-- Declares the functions of statements before any of them is carried out. -/
def hoist (stmts : List Stmt) (env : Env) : Script Unit :=
  (stmts.filterMap declaredFunction?).forM fun f =>
    match f.id with
    | some id => do declare env id.name (← makeFunction f env) true
    | none => return

end Espalier.Script
