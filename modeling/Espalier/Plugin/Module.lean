import Espalier.Script.Interpreter

/-!
# Modules

A script is a module: it may import the questions about types of nodes, and it exports a plugin or a
function, by name or through `module.exports`.
-/

namespace Espalier.Plugin

open Script

/-- What a module has exported so far. -/
structure Exports where
  default : Option Value := none
  /-- The value of `module.exports`, if the module has changed it. -/
  replaced : Option Value := none
  /-- The value of the last expression that stands as a statement. -/
  lastExpression : Option Value := none
  deriving Inhabited

/-- What a module offers for use. -/
def Exports.entry? (e : Exports) : Option Value := e.default <|> e.replaced

mutual

/-- The names that a pattern binds. -/
def boundNames : Pattern → List String
  | .ident i => [i.name]
  | .array _ ps => boundNamesOfElements ps
  | .object _ ps => boundNamesOfProperties ps
  | .default _ p _ => boundNames p
  | .rest _ p => boundNames p
  | .target _ => []

def boundNamesOfElements : List (Option Pattern) → List String
  | [] => []
  | none :: ps => boundNamesOfElements ps
  | some p :: ps => boundNames p ++ boundNamesOfElements ps

def boundNamesOfProperties : List PatternProperty → List String
  | [] => []
  | .entry _ _ p _ :: ps => boundNames p ++ boundNamesOfProperties ps
  | .rest _ p :: ps => boundNames p ++ boundNamesOfProperties ps

end

/-- The names that a declaration binds. -/
def declaredNames : Stmt → List String
  | .var decl => decl.declarations.flatMap fun d => boundNames d.id
  | .function f => (f.id.map (·.name)).toList
  | _ => []

/-- The name of a module. -/
def moduleName : Expr → String
  | .string _ s => s
  | _ => ""

/-- The questions about types of nodes. -/
def typesObject : Script Value := newObject { kind := .types }

/-- Carries out an import. -/
def importModule (specifiers : List ImportSpecifier) (source : Expr) (env : Env) : Script Unit := do
  let module ←
    match moduleName source with
    | "@babel/core" => do newObject { properties := [("types", ← typesObject)] }
    | "@babel/types" => typesObject
    | name => raise (.unknownModule name)
  specifiers.forM fun s => do
    match s with
    | .default _ i | .star _ i => declare env i.name module false
    | .named _ imported i => declare env i.name (← getProperty module (.string imported.name)) false

/-- Exports the variables of the given names. -/
def exportNames (exports : Value) (env : Env) (names : List String) : Script Unit :=
  names.forM fun name => do setProperty exports (.string name) (← lookup name env)

/-- Exports a variable under a name, which may be that of the default. -/
def exportSpecifier (exports : Value) (env : Env) (done : Exports) (s : ExportSpecifier) :
    Script Exports := do
  let v ← lookup s.binding.name env
  if s.exported.name == "default" then return { done with default := some v }
  else
    setProperty exports (.string s.exported.name) v
    return done

/-- Carries out a statement at the top of a module. -/
def execItem (self : Evaluator) (exports : Value) (env : Env) (done : Exports) (s : Stmt) :
    Script Exports := do
  match s with
  | .importDecl _ specifiers source =>
    importModule specifiers source env
    return done
  | .exportDefault _ (.function f) =>
    let v ← makeFunction f env
    if let some id := f.id then declare env id.name v true
    return { done with default := some v }
  | .exportDefault _ (.classDecl _) => raise (.unsupported "Classes")
  | .exportDefault _ (.expr e) => return { done with default := some (← self.eval e env) }
  | .exportNamed _ declaration specifiers source =>
    if let some source := source then raise (.unknownModule (moduleName source))
    if let some declaration := declaration then
      let _ ← self.exec declaration env
      exportNames exports env (declaredNames declaration)
    specifiers.foldlM (exportSpecifier exports env) done
  | .exportAll _ _ source => raise (.unknownModule (moduleName source))
  | .expr _ e =>
    tick
    return { done with lastExpression := some (← self.eval e env) }
  | s =>
    let _ ← self.exec s env
    return done

/-- What a module exports in the end: `module.exports` counts if it is another value than at first
or if something was put into it, and what was put into it as the default counts as that. -/
def finishExports (done : Exports) (module exports : Value) : Script Exports := do
  let current ← getProperty module (.string "exports")
  match current, exports with
  | .object o, .object first =>
    if o != first then return { done with replaced := some current }
    else
      let object := (← get).object o
      match object.get? "default" with
      | some v => return { done with default := done.default <|> some v }
      | none =>
        return if object.properties.isEmpty then done else { done with replaced := some current }
  | _, _ => return { done with replaced := some current }

/-- Carries out a module. -/
def load (self : Evaluator) (body : List Stmt) : Script Exports := do
  let env ← newScope { this := some .undefined, isFunction := true } Env.outermost
  let exports ← newObject {}
  let module ← newObject { properties := [("exports", exports)] }
  declare env "module" module true
  declare env "exports" exports true
  hoist body env
  let done ← body.foldlM (execItem self exports env) {}
  finishExports done module exports

end Espalier.Plugin
