import Espalier.Script.Expression

/-!
# Statements and functions

Carrying out statements and calling functions of the script. Every statement, every round of a loop
and every call is a step.
-/

namespace Espalier.Script

/-- How the end of the body of a loop ends the loop, if it does. `label` is the label of the
loop. -/
def Completion.leaving? (label : Option String) : Completion → Option Completion
  | .normal | .continued none => none
  | .broken none => some .normal
  | .continued (some l) => if label == some l then none else some (.continued (some l))
  | .broken (some l) => if label == some l then some .normal else some (.broken (some l))
  | .returned v => some (.returned v)

/-- Whether a statement repeats. -/
def isLoop : Stmt → Bool
  | .forLoop _ _ _ _ _ | .forIn _ _ _ _ | .forOf _ _ _ _ _ | .whileLoop _ _ _
  | .doWhile _ _ _ => true
  | _ => false

/-- Notes that the end of an operation is forgotten. -/
def Machine.overrule (m : Machine) : Except Failure Completion → Machine
  | .error e => if e.isCatchable then m else { m with overruled := e :: m.overruled }
  | .ok _ => m

/-- Does what is to be done at last, and then ends as the operation before did. If what is done last
ends otherwise than by reaching its end, the end of the operation before is forgotten, even if that
was a failure that cannot be caught. -/
def concluding (pending : Except Failure Completion) (last : Script Completion) :
    Script Completion := fun m =>
  match last m with
  | .ok .normal m => resume pending m
  | .ok c m => .ok c (m.overrule pending)
  | .error e m => .error e (m.overrule pending)

namespace Evaluator

variable (self : Evaluator)

/-- Carries out statements until one of them ends otherwise than by reaching its end. -/
def execList (env : Env) : List Stmt → Script Completion
  | [] => return .normal
  | s :: ss => do
    match ← self.exec s env with
    | .normal => execList env ss
    | c => return c

/-- Carries out the statements of a body, its functions being there from the start. -/
def execBody (stmts : List Stmt) (env : Env) : Script Completion := do
  hoist stmts env
  self.execList env stmts

/-- Carries out a block. -/
def execBlock (b : Block) (env : Env) : Script Completion := do
  self.execBody b.body (← newBlock env)

/-! ### Loops -/

/-- Carries out the body of a loop for each of some values. -/
def forEach (head : ForHead) (body : Stmt) (env : Env) (label : Option String) :
    List Value → Script Completion
  | [] => return .normal
  | v :: vs => do
    tick
    let inner ← newBlock env
    match head with
    | .decl decl =>
      (decl.declarations.take 1).forM fun d => self.bind d.id v inner (.ofKind decl.kind)
    | .pattern p => self.bind p v inner .existing
    match (← self.exec body inner).leaving? label with
    | some c => return c
    | .none => forEach head body env label vs

/-- Whether a loop goes on. -/
def holds (test : Option Expr) (env : Env) : Script Bool := do
  match test with
  | some e => return (← self.eval e env).truthy
  | .none => return true

/-- Carries out a loop. Each round of one that declares variables of a block has variables of its
own. -/
def execLoop (loop : Stmt) (env : Env) (label : Option String) : Script Completion := do
  match loop with
  | .forLoop _ init test update body =>
    let env ← newBlock env
    let (ownVariables : Bool) ←
      match init with
      | some (.decl decl) => do
        self.declareAll decl env
        pure (decl.kind != .varKind)
      | some (.expr e) => do
        let _ ← self.eval e env
        pure false
      | .none => pure false
    repeating (fun env => do
      if !(← self.holds test env) then return .inr .normal
      match (← self.exec body env).leaving? label with
      | some c => return .inr c
      | .none =>
        let env ← if ownVariables then forkScope env else pure env
        update.forM fun e => do let _ ← self.eval e env
        return .inl env) env
  | .forIn _ head right body =>
    let keys ← ownKeys (← self.eval right env)
    self.forEach head body env label (keys.map .string)
  | .forOf _ head right body isAwait =>
    if isAwait then raise (.unsupported "for await loops")
    let items ← iterate (← self.eval right env)
    self.forEach head body env label items.toList
  | .whileLoop _ test body =>
    repeating (fun () => do
      if !(← self.holds (some test) env) then return .inr .normal
      match (← self.exec body env).leaving? label with
      | some c => return .inr c
      | .none => return .inl ()) ()
  | .doWhile _ body test =>
    repeating (fun () => do
      match (← self.exec body env).leaving? label with
      | some c => return .inr c
      | .none => return if ← self.holds (some test) env then .inl () else .inr .normal) ()
  | s => self.exec s env

/-! ### Choices and failures -/

/-- The cases from the first one on whose test gives the value. -/
def casesFrom? (v : Value) (env : Env) : List SwitchCase → Script (Option (List SwitchCase))
  | [] => return .none
  | c :: cs => do
    match c.test with
    | some e =>
      if (← self.eval e env).strictEqual v then return some (c :: cs) else casesFrom? v env cs
    | .none => casesFrom? v env cs

/-- Carries out the cases that apply: those from the first one on that has the value, or else from
the one without a test. -/
def execSwitch (v : Value) (cases : List SwitchCase) (env : Env) : Script Completion := do
  cases.forM fun c => hoist c.consequent env
  let chosen := (← self.casesFrom? v env cases).getD (cases.dropWhile (·.test.isSome))
  match ← self.execList env (chosen.flatMap (·.consequent)) with
  | .broken .none => return .normal
  | c => return c

/-- Hands a failure to the handler of a statement. -/
def handle (handler : CatchClause) (failure : Failure) (env : Env) : Script Completion := do
  let env ← newBlock env
  match handler.param with
  | some p => self.bind p (← caughtValue failure) env .blockVariable
  | .none => pure ()
  self.execBody handler.body.body env

/-- Carries out a block, the handler if it fails, and in any case what is to be done at last. -/
def execTry (block : Block) (handler : Option CatchClause) (finalizer : Option Block) (env : Env) :
    Script Completion := do
  let guarded : Script Completion :=
    match handler with
    | some handler => catching (self.execBlock block env) (self.handle handler · env)
    | .none => self.execBlock block env
  match finalizer with
  | .none => guarded
  | some finalizer =>
    let pending ← outcome guarded
    concluding pending (self.execBlock finalizer env)

/-! ### Statements -/

/-- Carries out a statement. -/
def execStmt (s : Stmt) (env : Env) : Script Completion := do
  tick
  match s with
  | .var decl =>
    self.declareAll decl env
    return .normal
  | .function _ | .empty _ | .debugger _ => return .normal
  | .classDecl _ => raise (.unsupported "Classes")
  | .block b => self.execBlock b env
  | .expr _ e =>
    let _ ← self.eval e env
    return .normal
  | .ifThen _ test consequent alternate =>
    if (← self.eval test env).truthy then self.exec consequent env
    else
      match alternate with
      | some s => self.exec s env
      | .none => return .normal
  | .switch _ e cases =>
    let v ← self.eval e env
    self.execSwitch v cases (← newBlock env)
  | .forLoop _ _ _ _ _ | .forIn _ _ _ _ | .forOf _ _ _ _ _ | .whileLoop _ _ _
  | .doWhile _ _ _ => self.execLoop s env .none
  | .breakTo _ label => return .broken (label.map (·.name))
  | .continueTo _ label => return .continued (label.map (·.name))
  | .returns _ e =>
    match e with
    | some e => return .returned (← self.eval e env)
    | .none => return .returned .undefined
  | .throws _ e => throw (.thrown (← self.eval e env))
  | .tryCatch _ block handler finalizer => self.execTry block handler finalizer env
  | .labeled _ label body =>
    let c ← if isLoop body then self.execLoop body env (some label.name) else self.exec body env
    match c with
    | .broken (some l) => return if l == label.name then .normal else .broken (some l)
    | c => return c
  | .importDecl _ _ _ | .exportNamed _ _ _ _ | .exportDefault _ _ | .exportAll _ _ _ =>
    giveUp (.plugin .nestedModuleItem)

/-! ### Functions -/

/-- Binds parameters to the arguments from place `i` on. -/
def bindParams (args : Array Value) (env : Env) (i : Nat) (params : List Pattern) : Script Unit :=
  self.bindElements args env .blockVariable i (params.map some)

/-- Carries out a function. One written with an arrow has the receiver and the arguments of the
function around it. -/
def callClosure (f : Closure) (this : Value) (args : Array Value) : Script Value := do
  tick
  if f.code.isAsync || f.code.isGenerator then
    raise (.unsupported "Async functions and generators")
  let env ←
    if f.code.isArrow then newScope { isFunction := true } f.env
    else do
      let all ← newArray args
      newScope { bindings := [("arguments", ⟨all, true⟩)], this := some this, isFunction := true }
        f.env
  self.bindParams args env 0 f.code.params
  match f.code.body with
  | .block b =>
    match ← self.execBody b.body env with
    | .returned v => return v
    | _ => return .undefined
  | .expr e => self.eval e env

/-- Calls a function. -/
def callValue (f this : Value) (args : Array Value) : Script Value := do
  match f with
  | .function closure => callingDeeper (self.callClosure closure this args)
  | .native native => callNative self.call native args
  | v => raise (.notAFunction (← toText v))

end Evaluator

end Espalier.Script
