import Espalier.Script.Binding

/-!
# Expressions

The values of expressions. A chain of members and calls is left early at an optional link behind
which there is nothing.
-/

namespace Espalier.Script.Evaluator

variable (self : Evaluator)

/-- Calls the value of an expression, which must be a function. -/
def callNamed (callee : Expr) (f this : Value) (args : Array Value) : Script Value :=
  if f.isCallable then self.call f this args else raise (.notAFunction (described callee))

/-- A function that is to be called, and its receiver. None if an optional link ends the chain. -/
def callee (e : Expr) (env : Env) : Script (Option (Value × Value)) := do
  match e with
  | .member _ object property optional =>
    match ← self.chain object env with
    | .none => return .none
    | some object =>
      if optional && object.isNullish then return .none
      let key ← self.memberKey env property
      return some (← getProperty object key, object)
  | e => return (← self.chain e env).map (·, .undefined)

/-- The value of a chain of members and calls. None if an optional link ends it. -/
def chainValue (e : Expr) (env : Env) : Script (Option Value) := do
  match e with
  | .member _ object property optional =>
    match ← self.chain object env with
    | .none => return .none
    | some object =>
      if optional && object.isNullish then return .none
      let key ← self.memberKey env property
      return some (← getProperty object key)
  | .call _ f args optional =>
    match ← self.callee f env with
    | .none => return .none
    | some (function, this) =>
      if optional && function.isNullish then return .none
      let args ← self.arguments env args
      return some (← self.callNamed f function this args)
  | e => return some (← self.eval e env)

/-- The text of a template. -/
def templateText (env : Env) (done : String) : List TemplateElement → List Expr → Script String
  | [], _ => return done
  | q :: qs, [] => templateText env (done ++ q.cooked) qs []
  | q :: qs, e :: es => do
    let text ← toText (← self.eval e env)
    templateText env (done ++ q.cooked ++ text) qs es

/-- An object with one more property of a literal. -/
def addProperty (env : Env) (o : ObjectData) : Property → Script ObjectData
  | .init _ key e _ => do
    let key ← self.key env key
    return o.set key (← self.eval e env)
  | .method _ key kind f => do
    if kind == .getter || kind == .setter then raise (.unsupported "Getters and setters")
    let key ← self.key env key
    return o.set key (← newClosure f.span key (.ofFunction f) env)
  | .spread _ e => do
    let v ← self.eval e env
    (← ownKeys v).foldlM (fun o key => return o.set key (← getProperty v (.string key))) o

/-- Calls a function with `new`. What it returns is the result if it is an object or an array, and
the new receiver otherwise. -/
def construct (callee : Expr) (f : Value) (args : Array Value) : Script Value := do
  match f with
  | .native (.global (.error kind)) => makeError kind args
  | .function closure =>
    if closure.code.isArrow then raise (.notAConstructor (described callee))
    let this ← newObject {}
    match ← self.call f this args with
    | .object o => return .object o
    | .array a => return .array a
    | _ => return this
  | _ => raise (.notAConstructor (described callee))

/-- Changes a variable or member by one. -/
def update (op : UpdateOp) (isPrefix : Bool) (target : Expr) (env : Env) : Script Value := do
  let isTarget : Bool :=
    match target with
    | .ident _ | .member _ _ _ _ => true
    | _ => false
  if !isTarget then raise .updateTarget
  let old ← toNumber (← self.eval target env)
  let new := match op with
    | .increment => old + 1
    | .decrement => old - 1
  self.assignTo target (.number new) env
  return .number (if isPrefix then new else old)

/-- Applies an operator to one operand. Names that do not exist have a type too, and a member is not
evaluated to be taken away. -/
def applyUnary (op : UnaryOp) (e : Expr) (env : Env) : Script Value := do
  match op, e with
  | .typeof, .ident i =>
    return .string (((← get).lookup? i.name env).getD .undefined).typeName
  | .delete, .member _ object property _ =>
    let object ← self.eval object env
    let key ← self.memberKey env property
    deleteProperty object key
    return .bool true
  | .delete, _ => return .bool true
  | op, e => unary op (← self.eval e env)

/-- Whether the first operand settles the result. -/
def settles (op : LogicalOp) (v : Value) : Bool :=
  match op with
  | .and => !v.truthy
  | .or => v.truthy
  | .coalesce => !v.isNullish

/-- Assigns the value of the right side, or what an operator makes of the old value and it. -/
def assignment (op : AssignOp) (left : Pattern) (right : Expr) (env : Env) : Script Value := do
  match op with
  | .plain =>
    let v ← self.eval right env
    self.bind left v env .existing
    return v
  | .compound (.logical op) =>
    let current ← self.targetValue left env
    if settles op current then return current
    else
      let v ← self.eval right env
      self.bind left v env .existing
      return v
  | .compound (.binary op) =>
    let current ← self.targetValue left env
    let right ← self.eval right env
    let v ← binary op hasProperty current right
    self.bind left v env .existing
    return v

/-- The value of an expression. -/
def evalExpr (e : Expr) (env : Env) : Script Value := do
  match e with
  | .null _ => return .null
  | .bool _ b => return .bool b
  | .number _ x => return .number x
  | .bigint _ digits => return .number ((Number.read? digits.toList).getD (0 / 0))
  | .string _ s => return .string s
  | .regex _ pattern flags => newRegex pattern flags
  | .template t => return .string (← self.templateText env "" t.quasis t.expressions)
  | .tagged _ tag quasi =>
    match ← self.callee tag env with
    | .none => return .undefined
    | some (f, this) =>
      let strings ← newArray (quasi.quasis.map fun q => .string q.cooked).toArray
      let values ← quasi.expressions.mapM (self.eval · env)
      self.callNamed tag f this (strings :: values).toArray
  | .ident i => lookup i.name env
  | .this _ => return (← get).this env
  | .super _ => raise (.unsupported "'super' expressions")
  | .importWord _ => raise (.unsupported "Dynamic imports")
  | .metaProperty _ _ _ => return .undefined
  | .array _ es => newArray (← self.elements env #[] es)
  | .object _ properties => newObject (← properties.foldlM (self.addProperty env) {})
  | .function f => makeFunction f env
  | .arrow a => makeArrow a env
  | .classExpr _ => raise (.unsupported "Classes")
  | .unary _ op e => self.applyUnary op e env
  | .update _ op isPrefix e => self.update op isPrefix e env
  | .binary _ op left right =>
    let v ← self.eval left env
    let w ← self.eval right env
    binary op hasProperty v w
  | .logical _ op left right =>
    let v ← self.eval left env
    if settles op v then return v else self.eval right env
  | .assign _ op left right => self.assignment op left right env
  | .conditional _ test consequent alternate =>
    if (← self.eval test env).truthy then self.eval consequent env else self.eval alternate env
  | .sequence _ es => es.foldlM (fun _ e => self.eval e env) .undefined
  | .member _ _ _ _ | .call _ _ _ _ => return (← self.chainValue e env).getD .undefined
  | .new _ callee args =>
    let f ← self.eval callee env
    let args ← self.arguments env args
    self.construct callee f args
  | .spread _ _ => raise .straySpread
  | .yield _ _ _ | .await _ _ => raise (.unsupported "Async functions and generators")

end Espalier.Script.Evaluator
