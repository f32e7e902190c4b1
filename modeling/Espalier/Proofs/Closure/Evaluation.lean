import Espalier.Proofs.Closure.Builtin
import Espalier.Script.Interpreter

/-!
# Evaluation makes functions of the script's own code only

`Evaluator.Stays L` says of an evaluator that it stays with the functions `L` where these are all
that is written in the parts that it gets. One level of evaluation stays with them if the level
inside does, because a part of a part has no other functions, and because the functions that are
called are made of code that was written as one of them.
-/

namespace Espalier.Script

variable {L : List FunctionLiteral}

/-- The operations of an evaluator stay with the functions `L`. -/
structure Evaluator.Stays (L : List FunctionLiteral) (evaluator : Evaluator) : Prop where
  eval : ∀ e env, functions e ⊆ L → Script.Stays L (evaluator.eval e env)
  chain : ∀ e env, functions e ⊆ L → Script.Stays L (evaluator.chain e env)
  bind : ∀ p v env binder, functions p ⊆ L → IsFrom L v →
    Script.Stays L (evaluator.bind p v env binder)
  exec : ∀ s env, functions s ⊆ L → Script.Stays L (evaluator.exec s env)
  call : evaluator.call.Stays L

theorem Evaluator.stays_none : Evaluator.none.Stays L where
  eval _ _ _ := .abort
  chain _ _ _ := .abort
  bind _ _ _ _ _ _ := .abort
  exec _ _ _ := .bind .tick fun _ _ => .abort
  call _ _ _ _ _ _ := .abort

/-! ### Functions -/

/-- A declared function is one of those of its statement. -/
theorem isIn_of_declaredFunction? {s : Stmt} {f : Func} (h : declaredFunction? s = some f)
    (hs : functions s ⊆ L) : (FunctionLiteral.ofFunction f).IsIn L := by
  unfold declaredFunction? at h
  split at h
  · cases h
    exact isIn_ofFunction hs
  · cases h
    exact isIn_ofFunction (List.append_subset.mp hs).1
  · cases h

section

variable (hL : L.Pairwise fun f g => f.span ≠ g.span)

include hL

theorem stays_makeFunction {f : Func} (hf : (FunctionLiteral.ofFunction f).IsIn L) (env : Env) :
    Stays L (makeFunction f env) :=
  stays_newClosure hL hf _ env

theorem stays_makeArrow {a : Arrow} (ha : (FunctionLiteral.ofArrow a).IsIn L) (env : Env) :
    Stays L (makeArrow a env) :=
  stays_newClosure hL ha _ env

/-- Declared functions are made of their own code. -/
theorem stays_hoist {stmts : List Stmt} (hstmts : functions stmts ⊆ L) (env : Env) :
    Stays L (hoist stmts env) := by
  refine .forM fun f hf => ?_
  obtain ⟨s, hs, hdeclared⟩ := List.mem_filterMap.mp hf
  have hfL := isIn_of_declaredFunction? hdeclared (functionsOfAll_subset.mp hstmts s hs)
  split
  · exact .bind (stays_makeFunction hL hfL env) fun v hv => stays_declare _ _ hv _
  · exact .pure trivial

end

theorem stays_bindName (name : String) {v : Value} (hv : IsFrom L v) (env : Env)
    (binder : Binder) : Stays L (bindName name v env binder) := by
  unfold bindName
  cases binder with
  | functionVariable =>
    refine .read (fun m => by rw [m.functionScope_informed]) fun m _ => ?_
    split
    · exact stays_modifyScope _ fun s hs => isFrom_declare hs name hv
    · exact .pure trivial
  | blockVariable => exact stays_declare env name hv _
  | constant => exact stays_declare env name hv _
  | existing => exact stays_assign name hv env

/-- The cases that a choice goes on with. -/
instance : Carries SwitchCase := ⟨fun L c => functions c ⊆ L⟩

theorem functions_test {c : SwitchCase} (hc : functions c ⊆ L) : functions c.test ⊆ L := by
  obtain ⟨test, body, span⟩ := c
  have hparts : functions test ⊆ L ∧ functions body ⊆ L := by simpa using hc
  exact hparts.1

theorem functions_consequent {c : SwitchCase} (hc : functions c ⊆ L) :
    functions c.consequent ⊆ L := by
  obtain ⟨test, body, span⟩ := c
  have hparts : functions test ⊆ L ∧ functions body ⊆ L := by simpa using hc
  exact hparts.2

namespace Evaluator

variable {self : Evaluator}

section

variable (h : self.Stays L)

include h

/-! ### Keys, elements and arguments -/

theorem stays_key (env : Env) {k : PropertyKey} (hk : functions k ⊆ L) :
    Script.Stays L (self.key env k) := by
  unfold key
  split
  · exact .bind (h.eval _ _ hk) fun v _ => stays_toText v
  · exact .pure trivial
  · exact .pure trivial

theorem stays_memberKey (env : Env) {name : MemberName} (hname : functions name ⊆ L) :
    Script.Stays L (self.memberKey env name) := by
  cases name with
  | ident i => exact .pure trivial
  | computed e => exact h.eval e env hname

theorem stays_elements (env : Env) {done : Array Value} (hdone : IsFrom L done)
    {es : List (Option Expr)} (hall : functions es ⊆ L) :
    Script.Stays L (self.elements env done es) := by
  induction es generalizing done with
  | nil => exact .pure hdone
  | cons e? es ih =>
    obtain ⟨he, hes⟩ := List.append_subset.mp hall
    unfold elements
    -- The cases are those of the definition: the end, a gap, a spread and an item.
    split
    · next heq => cases heq
    · next heq =>
      cases heq
      exact ih (isFrom_push hdone trivial) hes
    · next heq =>
      cases heq
      exact .bind (h.eval _ _ he) fun v _ => .bind (stays_iterate v) fun items hitems =>
        ih (isFrom_append hdone hitems) hes
    · next heq =>
      cases heq
      exact .bind (h.eval _ _ he) fun v hv => ih (isFrom_push hdone hv) hes

theorem stays_arguments (env : Env) {es : List Expr} (hes : functions es ⊆ L) :
    Script.Stays L (self.arguments env es) := by
  refine stays_elements h env (isFrom_toArray isFrom_nil) (functionsOfAll_subset.mpr ?_)
  exact List.forall_mem_map.mpr (functionsOfAll_subset.mp hes)

/-! ### Bindings -/

theorem stays_assignTo {target : Expr} (htarget : functions target ⊆ L) {v : Value}
    (hv : IsFrom L v) (env : Env) : Script.Stays L (self.assignTo target v env) := by
  unfold assignTo
  split
  · exact stays_bindName _ hv _ _
  · obtain ⟨hobject, hproperty⟩ := List.append_subset.mp htarget
    exact .bind (h.eval _ _ hobject) fun _ _ => .bind (stays_memberKey h env hproperty) fun _ _ =>
      stays_setProperty _ _ hv
  · exact .raise _

theorem stays_targetValue {target : Pattern} (htarget : functions target ⊆ L) (env : Env) :
    Script.Stays L (self.targetValue target env) := by
  unfold targetValue
  split
  · exact stays_lookup _ _
  · exact h.eval _ _ htarget
  · exact .raise _

theorem stays_bindElements {items : Array Value} (hitems : IsFrom L items) (env : Env)
    (binder : Binder) (i : Nat) {ps : List (Option Pattern)} (hall : functions ps ⊆ L) :
    Script.Stays L (self.bindElements items env binder i ps) := by
  induction ps generalizing i with
  | nil => exact .pure trivial
  | cons p? ps ih =>
    obtain ⟨hp, hps⟩ := List.append_subset.mp hall
    unfold bindElements
    split
    · next heq => cases heq
    · next heq =>
      cases heq
      exact ih _ hps
    · next heq =>
      cases heq
      exact .bind (stays_newArray (isFrom_extract hitems _ _)) fun rest hrest =>
        .bind (h.bind _ _ _ _ hp hrest) fun _ _ => ih _ hps
    · next heq =>
      cases heq
      have hitem := isFrom_getD hitems i (show IsFrom L Value.undefined from trivial)
      exact .bind (h.bind _ _ _ _ hp hitem) fun _ _ => ih _ hps

omit h in
/-- An object with the values of some properties of a value. -/
theorem stays_properties (v : Value) (keys : List String) {o : ObjectData} (ho : IsFrom L o) :
    Script.Stays L
      (keys.foldlM (fun o key => return o.set key (← getProperty v (.string key))) o) :=
  .foldlM (fun _ ho key _ => .bind (stays_getProperty _ _) fun _ hw => .pure (isFrom_set ho key hw))
    ho

theorem stays_bindProperties (v : Value) (env : Env) (binder : Binder) (used : List String)
    {ps : List PatternProperty} (hall : functions ps ⊆ L) :
    Script.Stays L (self.bindProperties v env binder used ps) := by
  induction ps generalizing used with
  | nil => exact .pure trivial
  | cons p ps ih =>
    obtain ⟨hp, hps⟩ := List.append_subset.mp hall
    cases p with
    | entry span key p shorthand =>
      obtain ⟨hkey, hp⟩ := List.append_subset.mp hp
      exact .bind (stays_key h env hkey) fun _ _ => .bind (stays_getProperty _ _) fun _ hw =>
        .bind (h.bind _ _ _ _ hp hw) fun _ _ => ih _ hps
    | rest span p =>
      refine .bind (stays_ownKeys _) fun keys _ => ?_
      refine .bind (stays_properties v _ isFrom_nil) fun rest hrest => ?_
      exact .bind (stays_newObject hrest) fun _ hw => .bind (h.bind _ _ _ _ hp hw) fun _ _ =>
        ih _ hps

theorem stays_bindPattern {pattern : Pattern} (hpattern : functions pattern ⊆ L) {v : Value}
    (hv : IsFrom L v) (env : Env) (binder : Binder) :
    Script.Stays L (self.bindPattern pattern v env binder) := by
  unfold bindPattern
  cases pattern with
  | ident i => exact stays_bindName _ hv _ _
  | array span ps =>
    have hps : functions ps ⊆ L := by simpa using hpattern
    exact .bind (stays_iterate v) fun _ hitems => stays_bindElements h hitems env binder 0 hps
  | object span ps =>
    have hps : functions ps ⊆ L := by simpa using hpattern
    have hbinds := stays_bindProperties h v env binder [] hps
    exact .ite (.bind (stays_toText v) fun _ _ => .bind (.raise _) fun _ _ => hbinds) hbinds
  | default span left right =>
    obtain ⟨hleft, hright⟩ := List.append_subset.mp hpattern
    dsimp only
    split
    · exact .bind (h.eval _ _ hright) fun _ hw => h.bind _ _ _ _ hleft hw
    · exact h.bind _ _ _ _ hleft hv
  | rest span p => exact h.bind _ _ _ _ hpattern hv
  | target e => exact stays_assignTo h hpattern hv env

theorem stays_declareAll {decl : VarDecl} (hdecl : functions decl ⊆ L) (env : Env) :
    Script.Stays L (self.declareAll decl env) := by
  obtain ⟨kind, ds, span⟩ := decl
  have hds : ∀ d ∈ ds, functions d ⊆ L := by simpa using hdecl
  refine .forM fun d hd => ?_
  obtain ⟨hid, hinit⟩ : functions d.id ⊆ L ∧ functions d.init ⊆ L := by
    obtain ⟨id, init, span⟩ := d
    simpa using hds _ hd
  split
  · next init hsome =>
    rw [hsome] at hinit
    exact .bind (h.eval _ _ hinit) fun _ hv => h.bind _ _ _ _ hid hv
  · refine .read (fun m => ?_) fun m _ => .ite (h.bind _ _ _ _ hid trivial) (.pure trivial)
    rw [m.functionScope_informed]
    rfl

/-! ### Expressions -/

theorem stays_callNamed (callee : Expr) {f this : Value} (hf : IsFrom L f) (hthis : IsFrom L this)
    {args : Array Value} (hargs : IsFrom L args) :
    Script.Stays L (self.callNamed callee f this args) :=
  .ite (h.call _ _ _ hf hthis hargs) (.raise _)

theorem stays_callee {e : Expr} (he : functions e ⊆ L) (env : Env) :
    Script.Stays L (self.callee e env) := by
  unfold callee
  split
  · obtain ⟨hobject, hproperty⟩ := List.append_subset.mp he
    refine .bind (h.chain _ _ hobject) fun object? hv => ?_
    split
    · exact .pure isFrom_none
    · refine .ite (.pure isFrom_none) (.bind (stays_memberKey h env hproperty) fun _ _ => ?_)
      exact .bind (stays_getProperty _ _) fun _ hw => .pure (isFrom_some ⟨hw, hv _ rfl⟩)
  · exact .bind (h.chain _ _ he) fun v? hv => .pure (isFrom_optionMap hv fun _ hv => ⟨hv, trivial⟩)

theorem stays_chainValue {e : Expr} (he : functions e ⊆ L) (env : Env) :
    Script.Stays L (self.chainValue e env) := by
  unfold chainValue
  split
  · obtain ⟨hobject, hproperty⟩ := List.append_subset.mp he
    refine .bind (h.chain _ _ hobject) fun object? _ => ?_
    split
    · exact .pure isFrom_none
    · refine .ite (.pure isFrom_none) (.bind (stays_memberKey h env hproperty) fun _ _ => ?_)
      exact .bind (stays_getProperty _ _) fun _ hw => .pure (isFrom_some hw)
  · next span f args optional =>
    obtain ⟨hf, hargs⟩ : functions f ⊆ L ∧ functions args ⊆ L := by simpa using he
    refine .bind (stays_callee h hf env) fun callee? hcallee => ?_
    split
    · exact .pure isFrom_none
    · obtain ⟨hf, hthis⟩ := hcallee _ rfl
      refine .ite (.pure isFrom_none) (.bind (stays_arguments h env hargs) fun _ hargs => ?_)
      exact .bind (stays_callNamed h _ hf hthis hargs) fun _ hv => .pure (isFrom_some hv)
  · exact .bind (h.eval _ _ he) fun _ hv => .pure (isFrom_some hv)

theorem stays_templateText (env : Env) (done : String) (qs : List TemplateElement)
    {es : List Expr} (hall : functions es ⊆ L) :
    Script.Stays L (self.templateText env done qs es) := by
  induction qs generalizing done es with
  | nil => exact .pure trivial
  | cons q qs ih =>
    cases es with
    | nil => exact ih _ hall
    | cons e es =>
      obtain ⟨he, hes⟩ := List.append_subset.mp hall
      exact .bind (h.eval _ _ he) fun _ _ => .bind (stays_toText _) fun _ _ => ih _ hes

theorem stays_addProperty (hL : L.Pairwise fun f g => f.span ≠ g.span) (env : Env)
    {o : ObjectData} (ho : IsFrom L o) {p : Property} (hp : functions p ⊆ L) :
    Script.Stays L (self.addProperty env o p) := by
  unfold addProperty
  cases p with
  | init span key e shorthand =>
    obtain ⟨hkey, he⟩ := List.append_subset.mp hp
    exact .bind (stays_key h env hkey) fun name _ => .bind (h.eval _ _ he) fun _ hv =>
      .pure (isFrom_set ho name hv)
  | method span key kind f =>
    have hf := isIn_ofMethod hp
    have hkey : functions key ⊆ L := (List.append_subset.mp (List.cons_subset.mp hp).2).1
    exact .when (.raise _) fun _ => .bind (stays_key h env hkey) fun name _ =>
      .bind (stays_newClosure hL hf name env) fun _ hv => .pure (isFrom_set ho name hv)
  | spread span e =>
    exact .bind (h.eval _ _ hp) fun v _ => .bind (stays_ownKeys v) fun keys _ =>
      stays_properties v keys ho

theorem stays_construct (callee : Expr) {f : Value} (hf : IsFrom L f) {args : Array Value}
    (hargs : IsFrom L args) : Script.Stays L (self.construct callee f args) := by
  unfold construct
  split
  · exact stays_makeError _ _
  · refine .when (.raise _) fun _ => .bind (stays_newObject isFrom_nil) fun this hthis => ?_
    refine .bind (h.call _ _ _ hf hthis hargs) fun result hresult => ?_
    split
    · exact .pure trivial
    · exact .pure trivial
    · exact .pure hthis
  · exact .raise _

theorem stays_update (op : UpdateOp) (isPrefix : Bool) {target : Expr}
    (htarget : functions target ⊆ L) (env : Env) :
    Script.Stays L (self.update op isPrefix target env) := by
  unfold update
  exact .when (.raise _) fun _ => .bind (h.eval _ _ htarget) fun _ _ =>
    .bind (stays_toNumber _) fun _ _ =>
      .bind (stays_assignTo h htarget (v := .number _) trivial env) fun _ _ => .pure trivial

theorem stays_applyUnary (op : UnaryOp) {e : Expr} (he : functions e ⊆ L) (env : Env) :
    Script.Stays L (self.applyUnary op e env) := by
  unfold applyUnary
  split
  · exact .read (fun m => by rw [m.lookup?_informed]) fun _ _ => .pure trivial
  · obtain ⟨hobject, hproperty⟩ := List.append_subset.mp he
    exact .bind (h.eval _ _ hobject) fun _ _ => .bind (stays_memberKey h env hproperty) fun _ _ =>
      .bind (stays_deleteProperty _ _) fun _ _ => .pure trivial
  · exact .pure trivial
  · exact .bind (h.eval _ _ he) fun _ _ => stays_unary _ _

theorem stays_assignment (op : AssignOp) {left : Pattern} (hleft : functions left ⊆ L)
    {right : Expr} (hright : functions right ⊆ L) (env : Env) :
    Script.Stays L (self.assignment op left right env) := by
  have assigns : Script.Stays L (do
      let v ← self.eval right env
      self.bind left v env .existing
      return v) :=
    .bind (h.eval _ _ hright) fun _ hv => .bind (h.bind _ _ _ _ hleft hv) fun _ _ => .pure hv
  unfold assignment
  split
  · exact assigns
  · exact .bind (stays_targetValue h hleft env) fun _ hv => .ite (.pure hv) assigns
  · refine .bind (stays_targetValue h hleft env) fun _ _ => .bind (h.eval _ _ hright) fun _ _ => ?_
    exact .bind (stays_binary _ (stays_hasProperty _ _)) fun _ hv =>
      .bind (h.bind _ _ _ _ hleft hv) fun _ _ => .pure hv

/-- Of all expressions only functions, arrows and methods make closures, of their own code. -/
theorem stays_evalExpr (hL : L.Pairwise fun f g => f.span ≠ g.span) {e : Expr}
    (he : functions e ⊆ L) (env : Env) : Script.Stays L (self.evalExpr e env) := by
  unfold evalExpr
  -- the parts of an expression hold no functions but those of the expression
  cases e with
  | null | bool | number | bigint | string | metaProperty => exact .pure trivial
  | regex => exact stays_newRegex _ _
  | template t =>
    obtain ⟨qs, es, span⟩ := t
    have hes : functions es ⊆ L := by simpa using he
    exact .bind (stays_templateText h env "" qs hes) fun _ _ => .pure trivial
  | tagged span tag quasi =>
    obtain ⟨qs, es, place⟩ := quasi
    obtain ⟨htag, hes⟩ : functions tag ⊆ L ∧ ∀ e ∈ es, functions e ⊆ L := by simpa using he
    refine .bind (stays_callee h htag env) fun callee? hcallee => ?_
    split
    · exact .pure trivial
    · obtain ⟨hf, hthis⟩ := hcallee _ rfl
      refine .bind (stays_newArray (isFrom_toArray (isFrom_map fun _ => trivial))) fun _ hv => ?_
      refine .bind (.mapM fun e he => h.eval e env (hes e he)) fun _ hvs => ?_
      exact stays_callNamed h _ hf hthis (isFrom_toArray (isFrom_cons hv hvs))
  | ident i => exact stays_lookup _ _
  | this => exact .read (fun m => by rw [m.this_informed]) fun m hm => .pure (hm.this env)
  | super | importWord | classExpr | spread | yield | await => exact .raise _
  | array span es =>
    have hes : functions es ⊆ L := by simpa using he
    exact .bind (stays_elements h env (isFrom_toArray isFrom_nil) hes) fun _ hvs =>
      stays_newArray hvs
  | object span ps =>
    have hps : ∀ p ∈ ps, functions p ⊆ L := by simpa using he
    exact .bind (.foldlM (fun _ ho p hp => stays_addProperty h hL env ho (hps p hp)) isFrom_nil)
      fun _ ho => stays_newObject ho
  | function f => exact stays_makeFunction hL (isIn_ofFunction he) env
  | arrow a => exact stays_makeArrow hL (isIn_ofArrow he) env
  | unary span op e =>
    have he : functions e ⊆ L := he
    exact stays_applyUnary h op he env
  | update span op isPrefix e =>
    have he : functions e ⊆ L := he
    exact stays_update h op isPrefix he env
  | binary span op left right =>
    obtain ⟨hleft, hright⟩ := List.append_subset.mp he
    exact .bind (h.eval _ _ hleft) fun _ _ => .bind (h.eval _ _ hright) fun _ _ =>
      stays_binary _ (stays_hasProperty _ _)
  | logical span op left right =>
    obtain ⟨hleft, hright⟩ := List.append_subset.mp he
    exact .bind (h.eval _ _ hleft) fun _ hv => .ite (.pure hv) (h.eval _ _ hright)
  | assign span op left right =>
    obtain ⟨hleft, hright⟩ := List.append_subset.mp he
    exact stays_assignment h op hleft hright env
  | conditional span test consequent alternate =>
    obtain ⟨htest, hconsequent, halternate⟩ :
        functions test ⊆ L ∧ functions consequent ⊆ L ∧ functions alternate ⊆ L := by
      simpa using he
    exact .bind (h.eval _ _ htest) fun _ _ =>
      .ite (h.eval _ _ hconsequent) (h.eval _ _ halternate)
  | sequence span es =>
    have hes : ∀ e ∈ es, functions e ⊆ L := by simpa using he
    exact .foldlM (fun _ _ e he => h.eval e env (hes e he)) trivial
  | member | call =>
    exact .bind (stays_chainValue h he env) fun _ hv => .pure (isFrom_optionGetD hv trivial)
  | new span callee args =>
    obtain ⟨hcallee, hargs⟩ : functions callee ⊆ L ∧ functions args ⊆ L := by simpa using he
    exact .bind (h.eval _ _ hcallee) fun _ hf => .bind (stays_arguments h env hargs) fun _ hvs =>
      stays_construct h callee hf hvs

/-! ### Statements -/

theorem stays_execList (env : Env) {ss : List Stmt} (hss : functions ss ⊆ L) :
    Script.Stays L (self.execList env ss) := by
  induction ss with
  | nil => exact .pure trivial
  | cons s ss ih =>
    obtain ⟨hs, hss⟩ := List.append_subset.mp hss
    refine .bind (h.exec s env hs) fun c hc => ?_
    split
    · exact ih hss
    · exact .pure hc

omit h in
/-- A loop hands on what is returned from its body. -/
theorem isFrom_leaving? {c : Completion} (hc : IsFrom L c) (label : Option String) :
    IsFrom L (c.leaving? label) := by
  have hnormal : IsFrom L (some Completion.normal) := isFrom_some (a := Completion.normal) trivial
  unfold Completion.leaving?
  split
  · exact isFrom_none
  · exact isFrom_none
  · exact hnormal
  · split
    · exact isFrom_none
    · exact isFrom_some hc
  · split
    · exact hnormal
    · exact isFrom_some hc
  · exact isFrom_some hc

/-- What follows the body of a loop: the end of the loop, or its next round. -/
theorem stays_body {α : Type} [Carries α] {body : Stmt} (hbody : functions body ⊆ L) (env : Env)
    (label : Option String) {ending : Completion → Script α} {next : Script α}
    (hending : ∀ c, IsFrom L c → Script.Stays L (ending c)) (hnext : Script.Stays L next) :
    Script.Stays L (do
      match (← self.exec body env).leaving? label with
      | some c => ending c
      | .none => next) := by
  refine .bind (h.exec _ _ hbody) fun c hc => ?_
  have hleaving := isFrom_leaving? hc label
  split
  · next c heq => exact hending c (hleaving c heq)
  · exact hnext

/-- The values that a loop goes over are at hand before its first round. -/
theorem stays_forEach {head : ForHead} (hhead : functions head ⊆ L) {body : Stmt}
    (hbody : functions body ⊆ L) (env : Env) (label : Option String) {vs : List Value}
    (hvs : IsFrom L vs) : Script.Stays L (self.forEach head body env label vs) := by
  induction vs with
  | nil => exact .pure trivial
  | cons v vs ih =>
    obtain ⟨hv, hvs⟩ := List.forall_mem_cons.mp hvs
    refine .bind .tick fun _ _ => .bind (stays_newBlock env) fun inner _ => ?_
    split
    case' h_1 decl =>
      have hd : ∀ d ∈ decl.declarations.take 1, functions d.id ⊆ L := by
        obtain ⟨kind, ds, span⟩ := decl
        intro d hd
        have hds : ∀ d ∈ ds, functions d ⊆ L := by simpa using hhead
        have hparts := hds d (List.mem_of_mem_take hd)
        obtain ⟨id, init, place⟩ := d
        exact (List.append_subset.mp hparts).1
      refine .bind (.forM fun d hmem => h.bind _ _ _ _ (hd d hmem) hv) fun _ _ => ?_
    case' h_2 => refine .bind (h.bind _ _ _ _ hhead hv) fun _ _ => ?_
    all_goals exact stays_body h hbody inner label (fun _ hc => .pure hc) (ih hvs)

theorem stays_holds {test : Option Expr} (htest : functions test ⊆ L) (env : Env) :
    Script.Stays L (self.holds test env) := by
  cases test with
  | some e => exact .bind (h.eval _ _ htest) fun _ _ => .pure trivial
  | none => exact .pure trivial

/-- What is done behind the body in a round of a loop with an update. -/
theorem stays_updates {update : Option Expr} (hupdate : functions update ⊆ L) (env : Env) :
    Script.Stays L (do
      update.forM fun e => do let _ ← self.eval e env
      return .inl env : Script (Env ⊕ Completion)) := by
  cases update with
  | none => exact .bind (.pure trivial) fun _ _ => .pure trivial
  | some e =>
    exact .bind (.bind (h.eval _ _ hupdate) fun _ _ => .pure trivial) fun _ _ => .pure trivial

/-- A loop carries out its own parts, in whatever order. -/
theorem stays_execLoop {loop : Stmt} (hloop : functions loop ⊆ L) (env : Env)
    (label : Option String) : Script.Stays L (self.execLoop loop env label) := by
  unfold execLoop
  -- The three kinds of heads, one after the other; then the two loops without one.
  split
  · next span init test update body =>
    obtain ⟨hinit, htest, hupdate, hbody⟩ : functions init ⊆ L ∧ functions test ⊆ L ∧
        functions update ⊆ L ∧ functions body ⊆ L := by
      simpa using hloop
    refine .bind (stays_newBlock env) fun env _ => ?_
    dsimp only
    split
    case' h_1 =>
      refine .bind (stays_declareAll h hinit env) fun _ _ => .bind (.pure trivial) fun own _ => ?_
    case' h_2 => refine .bind (h.eval _ _ hinit) fun _ _ => .bind (.pure trivial) fun own _ => ?_
    case' h_3 => refine .bind (.pure trivial) fun own _ => ?_
    all_goals
      refine .repeating (fun env _ => .bind (stays_holds h htest _) fun _ _ => ?_) trivial
      refine .ite (.pure trivial) (stays_body h hbody env label (fun _ hc => .pure hc) ?_)
      exact .ite (.bind (stays_forkScope _) fun env _ => stays_updates h hupdate env)
        (.bind (.pure trivial) fun env _ => stays_updates h hupdate env)
  · next span head right body =>
    obtain ⟨hhead, hright, hbody⟩ :
        functions head ⊆ L ∧ functions right ⊆ L ∧ functions body ⊆ L := by
      simpa using hloop
    exact .bind (h.eval _ _ hright) fun _ _ => .bind (stays_ownKeys _) fun _ _ =>
      stays_forEach h hhead hbody env label (isFrom_map fun _ => trivial)
  · next span head right body isAwait =>
    obtain ⟨hhead, hright, hbody⟩ :
        functions head ⊆ L ∧ functions right ⊆ L ∧ functions body ⊆ L := by
      simpa using hloop
    exact .when (.raise _) fun _ => .bind (h.eval _ _ hright) fun _ _ =>
      .bind (stays_iterate _) fun _ hitems =>
        stays_forEach h hhead hbody env label (isFrom_toList hitems)
  · next span test body =>
    obtain ⟨htest, hbody⟩ : functions (some test) ⊆ L ∧ functions body ⊆ L :=
      List.append_subset.mp hloop
    refine .repeating (fun _ _ => .bind (stays_holds h htest env) fun _ _ => ?_) trivial
    have hleft : Script.Stays L (pure (.inr .normal) : Script (Unit ⊕ Completion)) := .pure trivial
    exact .ite hleft (stays_body h hbody env label (fun _ hc => .pure hc) (.pure trivial))
  · next span body test =>
    obtain ⟨hbody, htest⟩ : functions body ⊆ L ∧ functions (some test) ⊆ L :=
      List.append_subset.mp hloop
    refine .repeating (fun _ _ => ?_) trivial
    refine stays_body h hbody env label (fun _ hc => .pure hc) ?_
    exact .bind (stays_holds h htest env) fun _ _ => .pure (by split <;> exact trivial)
  · exact h.exec _ _ hloop

/-! ### Choices and failures -/

/-- What is found are some of the cases. -/
theorem stays_casesFrom? (v : Value) (env : Env) {cs : List SwitchCase} (hcs : functions cs ⊆ L) :
    Script.Stays L (self.casesFrom? v env cs) := by
  induction cs with
  | nil => exact .pure isFrom_none
  | cons c cs ih =>
    obtain ⟨hc, hrest⟩ := List.append_subset.mp hcs
    have hall : IsFrom L (c :: cs) := functionsOfAll_subset.mp hcs
    unfold casesFrom?
    split
    · next e heq =>
      have he := functions_test hc
      rw [heq] at he
      exact .bind (h.eval _ _ he) fun _ _ => .ite (.pure (isFrom_some hall)) (ih hrest)
    · exact ih hrest

/-! ### Bodies and failures -/

section

variable (hL : L.Pairwise fun f g => f.span ≠ g.span)

include hL

theorem stays_execBody {ss : List Stmt} (hss : functions ss ⊆ L) (env : Env) :
    Script.Stays L (self.execBody ss env) :=
  .bind (stays_hoist hL hss env) fun _ _ => stays_execList h env hss

theorem stays_execBlock {b : Block} (hb : functions b ⊆ L) (env : Env) :
    Script.Stays L (self.execBlock b env) := by
  obtain ⟨body, span⟩ := b
  have hbody : functions body ⊆ L := by simpa using hb
  exact .bind (stays_newBlock env) fun env _ => stays_execBody h hL hbody env

theorem stays_execSwitch (v : Value) {cases : List SwitchCase} (hcases : functions cases ⊆ L)
    (env : Env) : Script.Stays L (self.execSwitch v cases env) := by
  have hall : IsFrom L cases := functionsOfAll_subset.mp hcases
  refine .bind (.forM fun c hc => stays_hoist hL (functions_consequent (hall c hc)) _) fun _ _ => ?_
  refine .bind (stays_casesFrom? h v env hcases) fun chosen? hchosen => ?_
  have hchosen : IsFrom L (chosen?.getD (cases.dropWhile (·.test.isSome))) :=
    isFrom_optionGetD hchosen fun c hc => hall c (List.dropWhile_subset _ hc)
  have hss :
      functions ((chosen?.getD (cases.dropWhile (·.test.isSome))).flatMap (·.consequent)) ⊆ L := by
    refine functionsOfAll_subset.mpr fun s hs => ?_
    obtain ⟨c, hc, hs⟩ := List.mem_flatMap.mp hs
    exact functionsOfAll_subset.mp (functions_consequent (hchosen c hc)) s hs
  refine .bind (stays_execList h env hss) fun c hc => ?_
  split
  · exact .pure trivial
  · exact .pure hc

theorem stays_handle {handler : CatchClause} (hhandler : functions handler ⊆ L) {e : Failure}
    (he : IsFrom L e) (env : Env) : Script.Stays L (self.handle handler e env) := by
  obtain ⟨param, ⟨body, place⟩, span⟩ := handler
  obtain ⟨hparam, hbody⟩ : functions param ⊆ L ∧ functions body ⊆ L := by simpa using hhandler
  refine .bind (stays_newBlock env) fun env _ => ?_
  dsimp only
  split
  · exact .bind (stays_caughtValue he) fun _ hv => .bind (h.bind _ _ _ _ hparam hv) fun _ _ =>
      stays_execBody h hL hbody env
  · exact stays_execBody h hL hbody env

theorem stays_execTry {block : Block} (hblock : functions block ⊆ L)
    {handler : Option CatchClause} (hhandler : functions handler ⊆ L) {finalizer : Option Block}
    (hfinalizer : functions finalizer ⊆ L) (env : Env) :
    Script.Stays L (self.execTry block handler finalizer env) := by
  unfold execTry
  extract_lets guarded
  have hguarded : Script.Stays L guarded := by
    cases handler with
    | none => exact stays_execBlock h hL hblock env
    | some handler =>
      exact .catching (stays_execBlock h hL hblock env) fun e he =>
        stays_handle h hL hhandler he env
  split
  · exact hguarded
  · exact .bind (.outcome hguarded) fun pending hpending =>
      .concluding (stays_execBlock h hL hfinalizer env) hpending

/-! ### Statements -/

/-- A statement carries out its own parts. -/
theorem stays_execStmt {s : Stmt} (hs : functions s ⊆ L) (env : Env) :
    Script.Stays L (self.execStmt s env) := by
  refine .bind .tick fun _ _ => ?_
  cases s with
  | var decl => exact .bind (stays_declareAll h hs env) fun _ _ => .pure trivial
  | function | empty | debugger | breakTo | continueTo => exact .pure trivial
  | classDecl => exact .raise _
  | block b => exact stays_execBlock h hL hs env
  | expr span e => exact .bind (h.eval e env hs) fun _ _ => .pure trivial
  | ifThen span test consequent alternate =>
    obtain ⟨htest, hconsequent, halternate⟩ :
        functions test ⊆ L ∧ functions consequent ⊆ L ∧ functions alternate ⊆ L := by
      simpa using hs
    refine .bind (h.eval _ _ htest) fun _ _ => .ite (h.exec _ _ hconsequent) ?_
    split
    · exact h.exec _ _ halternate
    · exact .pure trivial
  | switch span e cases =>
    obtain ⟨he, hcases⟩ : functions e ⊆ L ∧ functions cases ⊆ L := by simpa using hs
    exact .bind (h.eval _ _ he) fun v _ => .bind (stays_newBlock env) fun env _ =>
      stays_execSwitch h hL v hcases env
  | forLoop | forIn | forOf | whileLoop | doWhile => exact stays_execLoop h hs env _
  | returns span e =>
    cases e with
    | some e => exact .bind (h.eval e env hs) fun _ hv => .pure hv
    | none => exact .pure trivial
  | throws span e => exact .bind (h.eval e env hs) fun _ hv => .throw hv
  | tryCatch span block handler finalizer =>
    obtain ⟨hblock, hhandler, hfinalizer⟩ :
        functions block ⊆ L ∧ functions handler ⊆ L ∧ functions finalizer ⊆ L := by
      simpa using hs
    exact stays_execTry h hL hblock hhandler hfinalizer env
  -- a label takes off breaks only, and a break holds no value
  | labeled span label body =>
    have hbody : functions body ⊆ L := hs
    refine .ite (.bind (stays_execLoop h hbody env _) fun c hc => ?_)
      (.bind (h.exec body env hbody) fun c hc => ?_)
    all_goals
      dsimp only
      split
      · split <;> exact .pure trivial
      · exact .pure hc
  | importDecl | exportNamed | exportDefault | exportAll => exact .giveUp trivial

/-! ### Calls -/

omit hL in
theorem stays_bindParams {args : Array Value} (hargs : IsFrom L args) (env : Env) (i : Nat)
    {params : List Pattern} (hparams : functions params ⊆ L) :
    Script.Stays L (self.bindParams args env i params) := by
  refine stays_bindElements h hargs env .blockVariable i (functionsOfAll_subset.mpr ?_)
  exact List.forall_mem_map.mpr (functionsOfAll_subset.mp hparams)

/-- A call carries out code that was written as one of the functions `L`, in which no others are
written. -/
theorem stays_callClosure {f : Closure} (hf : IsFrom L f) {this : Value} (hthis : IsFrom L this)
    {args : Array Value} (hargs : IsFrom L args) :
    Script.Stays L (self.callClosure f this args) := by
  obtain ⟨literal, hliteral, hcode⟩ := hf
  -- What a function carries out is inside the code that it was made of.
  have hinner := hliteral.inner
  rw [hcode] at hinner
  obtain ⟨hparams, hbody⟩ : functions f.code.params ⊆ L ∧ functions f.code.body ⊆ L :=
    List.append_subset.mp hinner
  refine .bind .tick fun _ _ => .when (.raise _) fun _ => ?_
  have hscope {all : Value} (hall : IsFrom L all) :
      IsFrom L
        ({ bindings := [("arguments", ⟨all, true⟩)], this := some this
           isFunction := true } : Scope) :=
    ⟨List.forall_mem_singleton.mpr ⟨trivial, hall⟩, isFrom_some hthis⟩
  refine .ite (.bind (stays_newScope ⟨isFrom_nil, isFrom_none⟩ _) fun env _ => ?_)
    (.bind (stays_newArray hargs) fun all hall =>
      .bind (stays_newScope (hscope hall) _) fun env _ => ?_)
  all_goals
    refine .bind (stays_bindParams h hargs _ _ hparams) fun _ _ => ?_
    split
    · next b heq =>
      rw [heq] at hbody
      have hstmts : functions b.body ⊆ L := by
        obtain ⟨body, span⟩ := b
        simpa using hbody
      refine .bind (stays_execBody h hL hstmts _) fun c hc => ?_
      split
      · exact .pure hc
      · exact .pure trivial
    · next e heq =>
      rw [heq] at hbody
      exact h.eval _ _ hbody

theorem stays_callValue : Caller.Stays L self.callValue := by
  intro f this args hf hthis hargs
  unfold callValue
  split
  · exact .callingDeeper (stays_callClosure h hL hf hthis hargs)
  · exact stays_callNative h.call _ hargs
  · exact .bind (stays_toText _) fun _ _ => .raise _

/-- One level of evaluation stays with the functions `L` if the level inside does. -/
theorem stays_step : (step (Thunk.mk fun _ => self)).Stays L where
  eval _ env he := stays_evalExpr h hL he env
  chain _ env he := stays_chainValue h he env
  bind _ _ env binder hp hv := stays_bindPattern h hp hv env binder
  exec _ env hs := stays_execStmt h hL hs env
  call := stays_callValue h hL

end

end

/-- **Evaluation stays with the functions of the script.** -/
theorem stays_ofFuel (hL : L.Pairwise fun f g => f.span ≠ g.span) (fuel : Nat) :
    (ofFuel fuel).Stays L := by
  induction fuel with
  | zero => exact stays_none
  | succ fuel ih => exact stays_step ih hL

end Evaluator

end Espalier.Script
