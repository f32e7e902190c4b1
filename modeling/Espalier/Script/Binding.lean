import Espalier.Script.Evaluator

/-!
# Binding

Names, members and patterns get values: in declarations, as parameters and in assignments.
-/

namespace Espalier.Script

/-- Gives a name a value. -/
def bindName (name : String) (v : Value) (env : Env) (binder : Binder) : Script Unit := do
  match binder with
  | .functionVariable =>
    match (← get).functionScope env with
    | some s => modifyScope s (·.declare name ⟨v, true⟩)
    | none => return
  | .blockVariable => declare env name v true
  | .constant => declare env name v false
  | .existing => assign name v env

namespace Evaluator

variable (self : Evaluator)

/-- Gives the variable or member that an expression names a value. -/
def assignTo (target : Expr) (v : Value) (env : Env) : Script Unit := do
  match target with
  | .ident i => bindName i.name v env .existing
  | .member _ object property _ =>
    let object ← self.eval object env
    let key ← self.memberKey env property
    setProperty object key v
  | _ => raise .assignmentTarget

/-- The value of what an operator is to change. -/
def targetValue (target : Pattern) (env : Env) : Script Value :=
  match target with
  | .ident i => lookup i.name env
  | .target e => self.eval e env
  | _ => raise .compoundTarget

/-- Binds patterns to the items from place `i` on. -/
def bindElements (items : Array Value) (env : Env) (binder : Binder) (i : Nat) :
    List (Option Pattern) → Script Unit
  | [] => return
  | .none :: ps => bindElements items env binder (i + 1) ps
  | some (.rest _ p) :: ps => do
    let rest ← newArray (items.extract i items.size)
    self.bind p rest env binder
    bindElements items env binder (i + 1) ps
  | some p :: ps => do
    self.bind p (items.getD i .undefined) env binder
    bindElements items env binder (i + 1) ps

/-- Binds patterns to the properties of a value. `used` are the keys before, which the rest leaves
out. -/
def bindProperties (v : Value) (env : Env) (binder : Binder) (used : List String) :
    List PatternProperty → Script Unit
  | [] => return
  | .entry _ key p _ :: ps => do
    let key ← self.key env key
    self.bind p (← getProperty v (.string key)) env binder
    bindProperties v env binder (key :: used) ps
  | .rest _ p :: ps => do
    let keys := (← ownKeys v).filter (!used.contains ·)
    let rest ← keys.foldlM (fun o key => return o.set key (← getProperty v (.string key)))
      ({} : ObjectData)
    self.bind p (← newObject rest) env binder
    bindProperties v env binder used ps

/-- Binds the names in a pattern to parts of a value. -/
def bindPattern (pattern : Pattern) (v : Value) (env : Env) (binder : Binder) : Script Unit := do
  match pattern with
  | .ident i => bindName i.name v env binder
  | .array _ elements => self.bindElements (← iterate v) env binder 0 elements
  | .object _ properties =>
    if v.isNullish then raise (.notDestructurable (← toText v))
    self.bindProperties v env binder [] properties
  | .default _ left right =>
    match v with
    | .undefined => self.bind left (← self.eval right env) env binder
    | v => self.bind left v env binder
  | .rest _ p => self.bind p v env binder
  | .target e => self.assignTo e v env

/-- Carries out a declaration of variables. A `var` without a value leaves one that exists as it
is. -/
def declareAll (decl : VarDecl) (env : Env) : Script Unit :=
  decl.declarations.forM fun d => do
    match d.init with
    | some init => self.bind d.id (← self.eval init env) env (.ofKind decl.kind)
    | .none =>
      let m ← get
      let exists_ : Bool :=
        match decl.kind, d.id with
        | .varKind, .ident i =>
          (m.functionScope env).any fun s => (m.scopes[s.place]?.bind (·.get? i.name)).isSome
        | _, _ => false
      if !exists_ then self.bind d.id .undefined env (.ofKind decl.kind)

end Evaluator

end Espalier.Script
