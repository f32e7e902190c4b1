import Espalier.Script.Interpreter
import Espalier.Proofs.Script.Builtin

/-!
# Relations between evaluators

Two evaluators agree in the sense of a congruence if each of their operations is related to the one
of the other. Each level of evaluation relates what the level inside relates: expressions, bindings,
loops, choices and calls are made of operations that a congruence respects. Statements with a
finalizer are the exception, because what is done at last may overrule a failure: for them the
congruence itself has to say why they are related.
-/

namespace Espalier.Script

variable {C : Congruence}

/-- The operations of two evaluators are related. -/
structure Evaluator.Agrees (C : Congruence) (first second : Evaluator) : Prop where
  eval : ∀ e env, C.Relates (first.eval e env) (second.eval e env)
  chain : ∀ e env, C.Relates (first.chain e env) (second.chain e env)
  bind : ∀ p v env binder, C.Relates (first.bind p v env binder) (second.bind p v env binder)
  exec : ∀ s env, C.Relates (first.exec s env) (second.exec s env)
  call : ∀ f this args, C.Relates (first.call f this args) (second.call f this args)

/-- All operations of an evaluator are related to themselves. -/
abbrev Evaluator.Keeps (C : Congruence) (self : Evaluator) : Prop := Agrees C self self

/-- The evaluator without fuel gives up on everything. -/
theorem Evaluator.keeps_none : Evaluator.none.Keeps C where
  eval _ _ := .abort
  chain _ _ := .abort
  bind _ _ _ _ := .abort
  exec _ _ := .bind .tick fun _ => .abort
  call _ _ _ := .abort

/-! ### Functions -/

@[simp]
theorem keeps_makeFunction (f : Func) (env : Env) : C.Keeps (makeFunction f env) :=
  keeps_newClosure _ _ _ env

@[simp]
theorem keeps_makeArrow (a : Arrow) (env : Env) : C.Keeps (makeArrow a env) :=
  keeps_newClosure _ _ _ env

@[simp]
theorem keeps_hoist (stmts : List Stmt) (env : Env) : C.Keeps (hoist stmts env) := by
  refine .forM (fun f => ?_) _
  split
  · exact .bind (keeps_makeFunction f env) fun _ => keeps_declare _ _ _ _
  · exact .pure _

@[simp]
theorem keeps_bindName (name : String) (v : Value) (env : Env) (binder : Binder) :
    C.Keeps (bindName name v env binder) := by
  unfold bindName
  cases binder with
  | functionVariable =>
    refine .read (fun m l => by rw [m.functionScope_withLedger]) fun m => ?_
    split
    · exact keeps_modifyScope _ _
    · exact .pure _
  | blockVariable => exact keeps_declare _ _ _ _
  | constant => exact keeps_declare _ _ _ _
  | existing => exact keeps_assign _ _ _

namespace Evaluator

variable {self self' : Evaluator}

section

variable (h : self.Agrees C self')

include h

/-! ### Keys, elements and arguments -/

theorem relates_key (env : Env) (k : PropertyKey) :
    C.Relates (self.key env k) (self'.key env k) := by
  unfold key
  split
  · exact .bind (h.eval _ _) fun _ => keeps_toText _
  · exact .pure _
  · exact .pure _

theorem relates_memberKey (env : Env) (name : MemberName) :
    C.Relates (self.memberKey env name) (self'.memberKey env name) := by
  cases name with
  | ident i => exact .pure _
  | computed e => exact h.eval e env

theorem relates_elements (env : Env) (done : Array Value) (es : List (Option Expr)) :
    C.Relates (self.elements env done es) (self'.elements env done es) := by
  induction es generalizing done with
  | nil => exact .pure _
  | cons e? es ih =>
    unfold elements
    split
    · next heq => cases heq
    · next heq =>
      cases heq
      exact ih _
    · next heq =>
      cases heq
      exact .bind (h.eval _ _) fun _ => .bind (keeps_iterate _) fun _ => ih _
    · next heq =>
      cases heq
      exact .bind (h.eval _ _) fun _ => ih _

theorem relates_arguments (env : Env) (es : List Expr) :
    C.Relates (self.arguments env es) (self'.arguments env es) :=
  relates_elements h env _ _

/-! ### Bindings -/

theorem relates_assignTo (target : Expr) (v : Value) (env : Env) :
    C.Relates (self.assignTo target v env) (self'.assignTo target v env) := by
  unfold assignTo
  split
  · exact keeps_bindName _ _ _ _
  · exact .bind (h.eval _ _) fun _ => .bind (relates_memberKey h env _) fun _ =>
      keeps_setProperty _ _ _
  · exact .raise _

theorem relates_targetValue (target : Pattern) (env : Env) :
    C.Relates (self.targetValue target env) (self'.targetValue target env) := by
  unfold targetValue
  split
  · exact keeps_lookup _ _
  · exact h.eval _ _
  · exact .raise _

theorem relates_bindElements (items : Array Value) (env : Env) (binder : Binder) (i : Nat)
    (ps : List (Option Pattern)) :
    C.Relates (self.bindElements items env binder i ps)
      (self'.bindElements items env binder i ps) := by
  induction ps generalizing i with
  | nil => exact .pure _
  | cons p? ps ih =>
    unfold bindElements
    split
    · next heq => cases heq
    · next heq =>
      cases heq
      exact ih _
    · next heq =>
      cases heq
      exact .bind (keeps_newArray _) fun _ => .bind (h.bind _ _ _ _) fun _ => ih _
    · next heq =>
      cases heq
      exact .bind (h.bind _ _ _ _) fun _ => ih _

theorem relates_bindProperties (v : Value) (env : Env) (binder : Binder) (used : List String)
    (ps : List PatternProperty) :
    C.Relates (self.bindProperties v env binder used ps)
      (self'.bindProperties v env binder used ps) := by
  induction ps generalizing used with
  | nil => exact .pure _
  | cons p ps ih =>
    cases p with
    | entry span key p shorthand =>
      exact .bind (relates_key h env key) fun _ => .bind (keeps_getProperty _ _) fun _ =>
        .bind (h.bind _ _ _ _) fun _ => ih _
    | rest span p =>
      exact .bind (keeps_ownKeys _) fun _ =>
        .bind (.foldlM (fun _ _ => .bind (keeps_getProperty _ _) fun _ => .pure _) _ _) fun _ =>
          .bind (keeps_newObject _) fun _ => .bind (h.bind _ _ _ _) fun _ => ih _

theorem relates_bindPattern (p : Pattern) (v : Value) (env : Env) (binder : Binder) :
    C.Relates (self.bindPattern p v env binder) (self'.bindPattern p v env binder) := by
  unfold bindPattern
  cases p with
  | ident i => exact keeps_bindName _ _ _ _
  | array span elements =>
    exact .bind (keeps_iterate _) fun _ => relates_bindElements h _ _ _ _ _
  | object span properties =>
    have binds := relates_bindProperties h v env binder [] properties
    exact .ite (.bind (keeps_toText _) fun _ => .bind (.raise _) fun _ => binds) binds
  | default span left right =>
    dsimp only
    split
    · exact .bind (h.eval _ _) fun _ => h.bind _ _ _ _
    · exact h.bind _ _ _ _
  | rest span p => exact h.bind _ _ _ _
  | target e => exact relates_assignTo h e v env

theorem relates_declareAll (decl : VarDecl) (env : Env) :
    C.Relates (self.declareAll decl env) (self'.declareAll decl env) := by
  refine .forM (fun d => ?_) _
  split
  · exact .bind (h.eval _ _) fun _ => h.bind _ _ _ _
  · exact .read (fun m l => by rw [m.functionScope_withLedger, m.scopes_withLedger]) fun _ =>
      .ite (h.bind _ _ _ _) (.pure _)

/-! ### Expressions -/

theorem relates_callNamed (callee : Expr) (f this : Value) (args : Array Value) :
    C.Relates (self.callNamed callee f this args) (self'.callNamed callee f this args) :=
  .ite (h.call _ _ _) (.raise _)

theorem relates_callee (e : Expr) (env : Env) :
    C.Relates (self.callee e env) (self'.callee e env) := by
  unfold callee
  split
  · refine .bind (h.chain _ _) fun object? => ?_
    split
    · exact .pure _
    · exact .ite (.pure _) (.bind (relates_memberKey h env _) fun _ =>
        .bind (keeps_getProperty _ _) fun _ => .pure _)
  · exact .bind (h.chain _ _) fun _ => .pure _

theorem relates_chainValue (e : Expr) (env : Env) :
    C.Relates (self.chainValue e env) (self'.chainValue e env) := by
  unfold chainValue
  split
  · refine .bind (h.chain _ _) fun object? => ?_
    split
    · exact .pure _
    · exact .ite (.pure _) (.bind (relates_memberKey h env _) fun _ =>
        .bind (keeps_getProperty _ _) fun _ => .pure _)
  · refine .bind (relates_callee h _ env) fun callee? => ?_
    split
    · exact .pure _
    · exact .ite (.pure _) (.bind (relates_arguments h env _) fun _ =>
        .bind (relates_callNamed h _ _ _ _) fun _ => .pure _)
  · exact .bind (h.eval _ _) fun _ => .pure _

theorem relates_templateText (env : Env) (done : String) (qs : List TemplateElement)
    (es : List Expr) :
    C.Relates (self.templateText env done qs es) (self'.templateText env done qs es) := by
  induction qs generalizing done es with
  | nil => exact .pure _
  | cons q qs ih =>
    cases es with
    | nil => exact ih _ _
    | cons e es =>
      exact .bind (h.eval _ _) fun _ => .bind (keeps_toText _) fun _ => ih _ _

theorem relates_addProperty (env : Env) (o : ObjectData) (p : Property) :
    C.Relates (self.addProperty env o p) (self'.addProperty env o p) := by
  unfold addProperty
  cases p with
  | init span key e shorthand =>
    exact .bind (relates_key h env _) fun _ => .bind (h.eval _ _) fun _ => .pure _
  | method span key kind f =>
    exact .when (.raise _) fun _ => .bind (relates_key h env _) fun _ =>
      .bind (keeps_newClosure _ _ _ _) fun _ => .pure _
  | spread span e =>
    exact .bind (h.eval _ _) fun _ => .bind (keeps_ownKeys _) fun _ =>
      .foldlM (fun _ _ => .bind (keeps_getProperty _ _) fun _ => .pure _) _ _

theorem relates_construct (callee : Expr) (f : Value) (args : Array Value) :
    C.Relates (self.construct callee f args) (self'.construct callee f args) := by
  unfold construct
  split
  · exact keeps_makeError _ _
  · refine .when (.raise _) fun _ => .bind (keeps_newObject _) fun this => ?_
    refine .bind (h.call _ _ _) fun result => ?_
    split <;> exact .pure _
  · exact .raise _

theorem relates_update (op : UpdateOp) (isPrefix : Bool) (target : Expr) (env : Env) :
    C.Relates (self.update op isPrefix target env) (self'.update op isPrefix target env) := by
  unfold update
  exact .when (.raise _) fun _ => .bind (h.eval _ _) fun _ => .bind (keeps_toNumber _) fun _ =>
    .bind (relates_assignTo h _ _ _) fun _ => .pure _

theorem relates_applyUnary (op : UnaryOp) (e : Expr) (env : Env) :
    C.Relates (self.applyUnary op e env) (self'.applyUnary op e env) := by
  unfold applyUnary
  split
  · exact .read (fun m l => by rw [m.lookup?_withLedger]) fun _ => .pure _
  · exact .bind (h.eval _ _) fun _ => .bind (relates_memberKey h env _) fun _ =>
      .bind (keeps_deleteProperty _ _) fun _ => .pure _
  · exact .pure _
  · exact .bind (h.eval _ _) fun _ => keeps_unary _ _

theorem relates_assignment (op : AssignOp) (left : Pattern) (right : Expr) (env : Env) :
    C.Relates (self.assignment op left right env) (self'.assignment op left right env) := by
  have assigns : C.Relates
      (do
        let v ← self.eval right env
        self.bind left v env .existing
        return v)
      (do
        let v ← self'.eval right env
        self'.bind left v env .existing
        return v) :=
    .bind (h.eval _ _) fun _ => .bind (h.bind _ _ _ _) fun _ => .pure _
  unfold assignment
  split
  · exact assigns
  · exact .bind (relates_targetValue h _ _) fun _ => .ite (.pure _) assigns
  · exact .bind (relates_targetValue h _ _) fun _ => .bind (h.eval _ _) fun _ =>
      .bind (keeps_binary _ keeps_hasProperty _ _) fun _ => .bind (h.bind _ _ _ _) fun _ => .pure _

/-- Every expression relates when its parts do, one case for each form. -/
theorem relates_evalExpr (e : Expr) (env : Env) :
    C.Relates (self.evalExpr e env) (self'.evalExpr e env) := by
  unfold evalExpr
  cases e with
  | null => exact .pure _
  | bool => exact .pure _
  | number => exact .pure _
  | bigint => exact .pure _
  | string => exact .pure _
  | regex => exact keeps_newRegex _ _
  | template t => exact .bind (relates_templateText h _ _ _ _) fun _ => .pure _
  | tagged span tag quasi =>
    refine .bind (relates_callee h _ env) fun callee? => ?_
    split
    · exact .pure _
    · exact .bind (keeps_newArray _) fun _ => .bind (.mapM (fun _ => h.eval _ _) _) fun _ =>
        relates_callNamed h _ _ _ _
  | ident i => exact keeps_lookup _ _
  | this => exact .read (fun m l => by rw [m.this_withLedger]) fun _ => .pure _
  | super => exact .raise _
  | importWord => exact .raise _
  | metaProperty => exact .pure _
  | array span es => exact .bind (relates_elements h _ _ _) fun _ => keeps_newArray _
  | object span ps =>
    exact .bind (.foldlM (relates_addProperty h env) _ _) fun _ => keeps_newObject _
  | function f => exact keeps_makeFunction f env
  | arrow a => exact keeps_makeArrow a env
  | classExpr => exact .raise _
  | unary span op e => exact relates_applyUnary h op e env
  | update span op isPrefix e => exact relates_update h op isPrefix e env
  | binary span op left right =>
    exact .bind (h.eval _ _) fun _ => .bind (h.eval _ _) fun _ =>
      keeps_binary _ keeps_hasProperty _ _
  | logical span op left right => exact .bind (h.eval _ _) fun _ => .ite (.pure _) (h.eval _ _)
  | assign span op left right => exact relates_assignment h op left right env
  | conditional span test consequent alternate =>
    exact .bind (h.eval _ _) fun _ => .ite (h.eval _ _) (h.eval _ _)
  | sequence span es => exact .foldlM (fun _ _ => h.eval _ _) _ _
  | member => exact .bind (relates_chainValue h _ env) fun _ => .pure _
  | call => exact .bind (relates_chainValue h _ env) fun _ => .pure _
  | new span callee args =>
    exact .bind (h.eval _ _) fun _ => .bind (relates_arguments h _ _) fun _ =>
      relates_construct h _ _ _
  | spread => exact .raise _
  | yield => exact .raise _
  | await => exact .raise _

/-! ### Statements -/

theorem relates_execList (env : Env) (ss : List Stmt) :
    C.Relates (self.execList env ss) (self'.execList env ss) := by
  induction ss with
  | nil => exact .pure _
  | cons s ss ih =>
    refine .bind (h.exec s env) fun c => ?_
    split
    · exact ih
    · exact .pure _

theorem relates_execBody (ss : List Stmt) (env : Env) :
    C.Relates (self.execBody ss env) (self'.execBody ss env) :=
  .bind (keeps_hoist ss env) fun _ => relates_execList h env ss

theorem relates_execBlock (b : Block) (env : Env) :
    C.Relates (self.execBlock b env) (self'.execBlock b env) :=
  .bind (keeps_newBlock env) fun env => relates_execBody h b.body env

theorem relates_forEach (head : ForHead) (body : Stmt) (env : Env) (label : Option String)
    (vs : List Value) :
    C.Relates (self.forEach head body env label vs) (self'.forEach head body env label vs) := by
  induction vs with
  | nil => exact .pure _
  | cons v vs ih =>
    refine .bind .tick fun _ => .bind (keeps_newBlock env) fun inner => ?_
    split
    case' h_1 => refine .bind (.forM (fun _ => h.bind _ _ _ _) _) fun _ => ?_
    case' h_2 => refine .bind (h.bind _ _ _ _) fun _ => ?_
    all_goals
      refine .bind (h.exec _ _) fun c => ?_
      split
      · exact .pure _
      · exact ih

theorem relates_holds (test : Option Expr) (env : Env) :
    C.Relates (self.holds test env) (self'.holds test env) := by
  cases test with
  | some e => exact .bind (h.eval _ _) fun _ => .pure _
  | none => exact .pure _

/-- A loop relates when its clauses and its body do. -/
theorem relates_execLoop (loop : Stmt) (env : Env) (label : Option String) :
    C.Relates (self.execLoop loop env label) (self'.execLoop loop env label) := by
  unfold execLoop
  split
  · next init test update body =>
    refine .bind (keeps_newBlock env) fun env => ?_
    -- the update clause, with the scope of the next round
    have updates (env : Env) : C.Relates
        (do
          update.forM fun e => do let _ ← self.eval e env
          return .inl env : Script (Env ⊕ Completion))
        (do
          update.forM fun e => do let _ ← self'.eval e env
          return .inl env) :=
      .bind (.optionForM (fun e => .bind (h.eval e env) fun _ => .pure _) _) fun _ => .pure _
    dsimp only
    split
    case' h_1 => refine .bind (relates_declareAll h _ _) fun _ => .bind (.pure _) fun own => ?_
    case' h_2 => refine .bind (h.eval _ _) fun _ => .bind (.pure _) fun own => ?_
    case' h_3 => refine .bind (.pure _) fun own => ?_
    all_goals
      refine .repeating (fun env => .bind (relates_holds h _ _) fun _ => .ite (.pure _) ?_) _
      refine .bind (h.exec _ _) fun c => ?_
      split
      · exact .pure _
      · exact .ite (.bind (keeps_forkScope _) updates) (.bind (.pure _) updates)
  · exact .bind (h.eval _ _) fun _ => .bind (keeps_ownKeys _) fun _ => relates_forEach h _ _ _ _ _
  · exact .when (.raise _) fun _ => .bind (h.eval _ _) fun _ => .bind (keeps_iterate _) fun _ =>
      relates_forEach h _ _ _ _ _
  · refine .repeating (fun _ => .bind (relates_holds h _ _) fun _ => .ite (.pure _) ?_) _
    refine .bind (h.exec _ _) fun c => ?_
    split <;> exact .pure _
  · refine .repeating (fun _ => .bind (h.exec _ _) fun c => ?_) _
    split
    · exact .pure _
    · exact .bind (relates_holds h _ _) fun _ => .pure _
  · exact h.exec _ _

theorem relates_casesFrom? (v : Value) (env : Env) (cs : List SwitchCase) :
    C.Relates (self.casesFrom? v env cs) (self'.casesFrom? v env cs) := by
  induction cs with
  | nil => exact .pure _
  | cons c cs ih =>
    unfold casesFrom?
    split
    · exact .bind (h.eval _ _) fun _ => .ite (.pure _) ih
    · exact ih

theorem relates_execSwitch (v : Value) (cases : List SwitchCase) (env : Env) :
    C.Relates (self.execSwitch v cases env) (self'.execSwitch v cases env) := by
  refine .bind (.forM (fun c => keeps_hoist _ _) _) fun _ => ?_
  refine .bind (relates_casesFrom? h v env cases) fun chosen? => ?_
  refine .bind (relates_execList h env _) fun c => ?_
  split <;> exact .pure _

/-- A handler is only asked about failures that it can catch. -/
theorem relates_handle (handler : CatchClause) {e : Failure} (he : e.isCatchable = true)
    (env : Env) : C.Relates (self.handle handler e env) (self'.handle handler e env) := by
  refine .bind (keeps_newBlock env) fun env => ?_
  dsimp only
  split
  · exact .bind (keeps_caughtValue he) fun _ => .bind (h.bind _ _ _ _) fun _ =>
      relates_execBody h _ _
  · exact relates_execBody h _ _

/-- A block with its handler, if it has one. -/
theorem relates_guarded (block : Block) (handler : Option CatchClause) (env : Env) :
    C.Relates (self.execTry block handler .none env) (self'.execTry block handler .none env) := by
  unfold execTry
  dsimp only
  split
  · exact .catching (relates_execBlock h block env) fun _ he => relates_handle h _ he env
  · exact relates_execBlock h block env

/-- Statements are related if those with a finalizer are. -/
theorem relates_execStmt (s : Stmt) (env : Env)
    (htry : ∀ span block handler finalizer, s = .tryCatch span block handler (some finalizer) →
      C.Relates (self.execTry block handler finalizer env)
        (self'.execTry block handler finalizer env)) :
    C.Relates (self.execStmt s env) (self'.execStmt s env) := by
  -- each statement costs one step; a `try` with a finalizer is left to the caller
  refine .bind .tick fun _ => ?_
  cases s with
  | var decl => exact .bind (relates_declareAll h decl env) fun _ => .pure _
  | function => exact .pure _
  | empty => exact .pure _
  | debugger => exact .pure _
  | classDecl => exact .raise _
  | block b => exact relates_execBlock h b env
  | expr span e => exact .bind (h.eval e env) fun _ => .pure _
  | ifThen span test consequent alternate =>
    refine .bind (h.eval test env) fun _ => .ite (h.exec _ _) ?_
    split
    · exact h.exec _ _
    · exact .pure _
  | switch span e cases =>
    exact .bind (h.eval e env) fun _ => .bind (keeps_newBlock env) fun _ =>
      relates_execSwitch h _ _ _
  | forLoop => exact relates_execLoop h _ env _
  | forIn => exact relates_execLoop h _ env _
  | forOf => exact relates_execLoop h _ env _
  | whileLoop => exact relates_execLoop h _ env _
  | doWhile => exact relates_execLoop h _ env _
  | breakTo => exact .pure _
  | continueTo => exact .pure _
  | returns span e =>
    cases e with
    | some e => exact .bind (h.eval e env) fun _ => .pure _
    | none => exact .pure _
  | throws span e => exact .bind (h.eval e env) fun _ => .throw rfl
  | tryCatch span block handler finalizer =>
    cases finalizer with
    | some finalizer => exact htry span block handler finalizer rfl
    | none => exact relates_guarded h block handler env
  | labeled span label body =>
    refine .ite (.bind (relates_execLoop h body env _) fun c => ?_)
      (.bind (h.exec body env) fun c => ?_)
    all_goals
      dsimp only
      split <;> exact .pure _
  | importDecl => exact .noPlugin _
  | exportNamed => exact .noPlugin _
  | exportDefault => exact .noPlugin _
  | exportAll => exact .noPlugin _

/-! ### Calls -/

theorem relates_bindParams (args : Array Value) (env : Env) (i : Nat) (params : List Pattern) :
    C.Relates (self.bindParams args env i params) (self'.bindParams args env i params) :=
  relates_bindElements h args env .blockVariable i _

theorem relates_callClosure (f : Closure) (this : Value) (args : Array Value) :
    C.Relates (self.callClosure f this args) (self'.callClosure f this args) := by
  refine .bind .tick fun _ => .when (.raise _) fun _ => ?_
  refine .ite (.bind (keeps_newScope _ _) fun env => ?_)
    (.bind (keeps_newArray _) fun _ => .bind (keeps_newScope _ _) fun env => ?_)
  all_goals
    refine .bind (relates_bindParams h _ _ _ _) fun _ => ?_
    split
    · refine .bind (relates_execBody h _ _) fun c => ?_
      split <;> exact .pure _
    · exact h.eval _ _

theorem relates_callValue (f this : Value) (args : Array Value) :
    C.Relates (self.callValue f this args) (self'.callValue f this args) := by
  unfold callValue
  split
  · exact .callingDeeper (relates_callClosure h _ this args)
  · exact relates_callNative h.call _ args
  · exact .bind (keeps_toText _) fun _ => .raise _

/-- The next levels of evaluation are related if the statements with a finalizer are. -/
theorem agrees_step
    (htry : ∀ block handler finalizer env,
      C.Relates (self.execTry block handler (some finalizer) env)
        (self'.execTry block handler (some finalizer) env)) :
    Agrees C (step (Thunk.mk fun _ => self)) (step (Thunk.mk fun _ => self')) where
  eval := relates_evalExpr h
  chain := relates_chainValue h
  bind := relates_bindPattern h
  exec s env := relates_execStmt h s env fun _ block handler finalizer _ =>
    htry block handler finalizer env
  call := relates_callValue h

end

end Evaluator

end Espalier.Script
