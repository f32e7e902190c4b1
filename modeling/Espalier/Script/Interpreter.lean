import Espalier.Script.Statement

/-!
# The interpreter

`Evaluator.step` makes an evaluator out of one for the parts inside; `Evaluator.ofFuel` repeats it,
as often as `Evaluator.fuelFor` says. Within a function every level is inside the text of the one
before, and functions of the script are called inside each other no deeper than the budget allows.
Built-in functions that call each other are not counted by the budget: where a chain of them is
longer than the fuel, the evaluation is given up (`Failure.aborted`).
-/

namespace Espalier.Script

/-- The evaluator for parts whose own parts are left to another one. -/
def Evaluator.step (inner : Thunk Evaluator) : Evaluator where
  eval e env := inner.get.evalExpr e env
  chain e env := inner.get.chainValue e env
  bind p v env binder := inner.get.bindPattern p v env binder
  exec s env := inner.get.execStmt s env
  call f this args := inner.get.callValue f this args

/-- The evaluator for parts that are not nested deeper than the fuel. -/
def Evaluator.ofFuel : (fuel : Nat) → Evaluator
  | 0 => .none
  | fuel + 1 => step (Thunk.mk fun _ => ofFuel fuel)

/-- How deep the evaluation of a script of the given length may be nested before it is given up: as
deep as functions of the script are called in each other, and in each of them as deep as its text is
nested. Chains of built-in functions that call each other may need more. -/
def Evaluator.fuelFor (budget : Budget) (bytes : Nat) : Nat :=
  (budget.maxCallDepth + 2) * (4 * bytes + 16)

/-- The constants that every script sees. -/
def constants : List (String × Value) :=
  [("undefined", .undefined), ("NaN", .number (0 / 0)), ("Infinity", .number (1 / 0))] ++
    Global.alone.map fun f => (f.text, .native (.global f))

/-- The members of a namespace that are not functions. -/
def namespaceConstants (name : String) : List (String × Value) :=
  if name == "Math" then [("PI", .number 3.141592653589793), ("E", .number 2.718281828459045)]
  else []

/-- The machine before a script is run: the outermost scope has what every script sees, and none of
it can be assigned to. -/
def Machine.start (budget : Budget) (engines : Engines := .standard) : Machine where
  budget
  engines
  objects :=
    (Global.namespaces.map fun (name, members) =>
      ObjectData.ofList
        (members.map (fun f => (f.text, .native (.global f))) ++ namespaceConstants name)).toArray
  scopes :=
    let spaces := Global.namespaces.zipIdx.map fun ((name, _), i) => (name, Value.object ⟨i⟩)
    #[{ bindings := (constants ++ spaces).map fun (name, v) => (name, ⟨v, false⟩)
        this := some .undefined
        isFunction := true }]

/-- The outermost scope. -/
def Env.outermost : Env := [⟨0⟩]

end Espalier.Script
