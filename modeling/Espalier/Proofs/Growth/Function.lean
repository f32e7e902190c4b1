import Espalier.Proofs.Grammar.Binding
import Espalier.Proofs.Grammar.Function

/-!
# Properties that grow with the tree

Many properties of an accepted program need the same induction over the grammar: they hold of a node
if they hold of what is below it, but for a few types of nodes that ask for more. A `Growth` is such
a property, with a rule for each way to make a node. It may depend on what the functions around the
node allow (`Context`) and on how deep the source may still nest. The rules tell where patterns come
from, too: those of declarations, parameters and catch clauses bind names, and what is assigned to
is what an expression spells. And they tell that templates are paired and mark their tail.
-/

namespace Espalier

/-- What the functions around a place allow there. -/
structure Context where
  returns : Bool
  awaits : Bool
  yields : Bool

/-- What a function allows in its body. -/
def Context.ofFunction (isAsync isGenerator : Bool) : Context := ⟨true, isAsync, isGenerator⟩

namespace Parse.Env

/-- What is allowed in a statement. -/
def context (env : Env) : Context :=
  ⟨env.inFunction || env.options.allowReturn, env.inAsync, env.inGenerator⟩

/-- What is allowed in an expression: it has no `return` but those of functions in it. -/
def scope (env : Env) : Context := ⟨false, env.inAsync, env.inGenerator⟩

end Parse.Env

namespace NodeType

/-- Whether statements stand in a field of the nodes of a type. -/
def holdsStatements (type : NodeType) (field : String) : Bool :=
  match type with
  | program | blockStatement | whileStatement | doWhileStatement | forStatement | forInStatement
  | forOfStatement | labeledStatement => field == "body"
  | ifStatement => field == "consequent" || field == "alternate"
  | switchCase => field == "consequent"
  | exportNamedDeclaration => field == "declaration"
  | _ => false

/-- Whether a node of a type has no rule of its own. -/
def isPlain : NodeType → Bool
  | unaryExpression | awaitExpression | yieldExpression | functionDeclaration | functionExpression
  | arrowFunctionExpression | objectMethod | classMethod | arrayExpression | objectExpression
  | classBody | returnStatement | forOfStatement | variableDeclarator | catchClause
  | assignmentExpression | templateLiteral => false
  | _ => true

end NodeType

/-- A property of trees in a context and at a level of nesting that the readers of the grammar hand
on. Some constructs take levels; methods may take theirs before the literal or class that they are
in does. -/
structure Growth where
  /-- What holds of a tree that does not stand as a statement. -/
  Holds : Context → Nat → Tree → Prop
  /-- What holds of a tree that stands as a statement. -/
  Stands : Context → Nat → Tree → Prop
  /-- The levels that a construct takes. -/
  slack : Nat
  /-- The levels that a method takes. -/
  methodSlack : Nat
  slack_le : slack ≤ 1
  mono {k : Context} {m n : Nat} {t : Tree} (h : Holds k m t) (hmn : m ≤ n) : Holds k n t
  widen {k : Context} {n : Nat} {t : Tree} (h : Holds ⟨false, k.awaits, k.yields⟩ n t) :
    Holds k n t
  stands {k : Context} {n : Nat} {t : Tree} (h : Holds k (n + slack) t) : Stands k (n + 1) t
  parts {k : Context} {n : Nat} {t : Tree} (h : Holds k n t) (ht : t.type.isFunction = false) :
    ∀ u ∈ t.parts, Holds k n u
  places {k : Context} {n : Nat} {type : NodeType} {span : Span} {fields : List TreeField}
    (htype : type.isPlain = true)
    (h : ∀ f ∈ fields, ∀ u ∈ f.nodes,
      if type.holdsStatements f.name then Stands k n u else Holds k n u) :
    Holds k n ⟨type, span, fields⟩
  construct {k : Context} {n : Nat} {type : NodeType} {span : Span} {fields : List TreeField}
    (htype : type ∈ [.unaryExpression, .arrayExpression, .objectExpression, .classBody])
    (h : ∀ u ∈ fields.flatMap TreeField.nodes, Holds k (n + methodSlack) u) :
    Holds k (n + slack) ⟨type, span, fields⟩
  template {k : Context} {n : Nat} {t : Template} (hpaired : t.IsPaired) (htail : t.MarksTail)
    (h : ∀ u ∈ t.tree.parts, Holds k n u) : Holds k n t.tree
  await {k : Context} {n : Nat} {span : Span} {e : Expr} (hk : k.awaits = true)
    (h : Holds k n e.tree) : Holds k (n + slack) (Expr.await span e).tree
  yield {k : Context} {n : Nat} {span : Span} {e : Option Expr} {delegate : Bool}
    (hk : k.yields = true) (h : ∀ u ∈ nodes e, Holds k n u) :
    Holds k n (Expr.yield span e delegate).tree
  returns {k : Context} {n : Nat} {span : Span} {e : Option Expr} (hk : k.returns = true)
    (h : ∀ u ∈ nodes e, Holds k n u) : Holds k n (Stmt.returns span e).tree
  forOf {k : Context} {n : Nat} {span : Span} {left : ForHead} {right : Expr} {body : Stmt}
    {isAwait : Bool} (hk : isAwait = true → k.awaits = true) (hleft : Holds k n left.tree)
    (hright : Holds k n right.tree) (hbody : Stands k n body.tree) :
    Holds k n (Stmt.forOf span left right body isAwait).tree
  declarator {k : Context} {n : Nat} {d : VarDeclarator} (hbinds : d.id.tree.IsPattern false .whole)
    (h : ∀ u ∈ d.tree.parts, Holds k n u) : Holds k n d.tree
  handler {k : Context} {n : Nat} {c : CatchClause}
    (hbinds : ∀ u ∈ nodes c.param, u.IsPattern false .whole) (h : ∀ u ∈ c.tree.parts, Holds k n u) :
    Holds k n c.tree
  assign {k : Context} {n : Nat} {span : Span} {op : AssignOp} {spelled right : Expr}
    {target : Pattern}
    (hspelled : (if op = .plain then spelled.toPattern else spelled.toSimpleTarget) = .ok target)
    (hleft : Holds k n spelled.tree) (htarget : Holds k n target.tree)
    (hright : Holds k n right.tree) : Holds k n (Expr.assign span op target right).tree
  func {k : Context} {n : Nat} {f : Func} {type : NodeType}
    (htype : type ∈ [.functionExpression, .functionDeclaration])
    (hid : ∀ u ∈ nodes f.id, Holds k n u)
    (hbinds : ∀ u ∈ nodes f.params, u.IsPattern false .element)
    (h : ∀ u ∈ nodes f.params ++ nodes f.body,
      Holds (.ofFunction f.isAsync f.isGenerator) n u) :
    Holds k (n + slack) (f.tree type)
  arrow {k : Context} {n : Nat} {spelled : List Expr} {params rest : List Pattern}
    {body : ArrowBody} {isAsync : Bool} {span : Span}
    (hspelled : Grammar.arrowParams spelled = .ok params)
    (hitems : ∀ u ∈ nodes spelled, Holds k n u)
    (hbinds : ∀ u ∈ nodes rest, u.IsPattern false .element)
    (hparams : ∀ u ∈ nodes (params ++ rest), Holds k n u)
    (hbody : Holds (.ofFunction isAsync false) n body.tree) :
    Holds k (n + slack) (Arrow.tree ⟨params ++ rest, body, isAsync, span⟩)
  objectMethod {k : Context} {n : Nat} {span : Span} {key : PropertyKey} {kind : MethodKind}
    {f : Func} (hkey : Holds k n key.tree)
    (hbinds : ∀ u ∈ nodes f.params, u.IsPattern false .element)
    (h : ∀ u ∈ nodes f.params ++ nodes f.body,
      Holds (.ofFunction f.isAsync f.isGenerator) n u) :
    Holds k (n + methodSlack) (Property.method span key kind f).tree
  classMethod {k : Context} {n : Nat} {span : Span} {key : PropertyKey} {kind : MethodKind}
    {isStatic : Bool} {f : Func} (hkey : Holds k n key.tree)
    (hbinds : ∀ u ∈ nodes f.params, u.IsPattern false .element)
    (h : ∀ u ∈ nodes f.params ++ nodes f.body,
      Holds (.ofFunction f.isAsync f.isGenerator) n u) :
    Holds k (n + methodSlack) (ClassMember.method span key kind isStatic f).tree

namespace Growth

variable (G : Growth) {k : Context} {n : Nat} {type : NodeType} {span : Span}
  {fields : List TreeField}

/-- A node that has no rule of its own and holds no statements. -/
theorem plain (htype : type.isPlain = true)
    (hplain : ∀ field, type.holdsStatements field = false)
    (h : ∀ u ∈ fields.flatMap TreeField.nodes, G.Holds k n u) :
    G.Holds k n ⟨type, span, fields⟩ := by
  refine G.places htype fun f hf u hu => ?_
  rw [hplain, if_neg Bool.false_ne_true]
  exact h u (List.mem_flatMap.mpr ⟨f, hf, hu⟩)

/-- A node that has no rule of its own and nothing below it. -/
theorem leaf (htype : type.isPlain = true) (hparts : fields.flatMap TreeField.nodes = []) :
    G.Holds k n ⟨type, span, fields⟩ := by
  refine G.places htype fun f hf u hu => ?_
  rw [List.flatMap_eq_nil_iff.mp hparts f hf] at hu
  cases hu

/-- What is read as an expression may be a clause of a statement. -/
theorem clause {env : Parse.Env} {t : Tree} (h : G.Holds env.scope n t) :
    G.Holds env.context n t :=
  G.widen h

theorem ident (i : Ident) : G.Holds k n i.tree := G.leaf rfl rfl

theorem optionalIdent (i? : Option Ident) : ∀ t ∈ nodes i?, G.Holds k n t := by
  cases i? with
  | none => nofun
  | some i => simpa using G.ident i

/-- Nodes of a sort of which it holds. -/
theorem each {α : Type} [IsNode α] (h : ∀ x : α, G.Holds k n (IsNode.tree x)) (xs : List α) :
    ∀ t ∈ nodes xs, G.Holds k n t := by
  rw [nodes_eq_map]
  exact List.forall_mem_map.mpr fun x _ => h x

/-- What the growth says of expressions survives when they become patterns. -/
theorem survives (k : Context) (n : Nat) : Tree.Survives fun _ _ => G.Holds k n where
  parts h ht := G.parts h ht
  renew {_ _ _ type' _ _ _} _ _ hnew hparts := by
    refine G.plain ?_ (fun field => ?_) hparts
    · cases type' <;> first | rfl | cases hnew
    · cases type' <;> first | rfl | cases hnew

/-- What holds of an expression holds of the pattern that it spells. -/
theorem toPattern (e : Expr) {p : Pattern} (h : e.toPattern = .ok p) (he : G.Holds k n e.tree) :
    G.Holds k n p.tree :=
  @survives_toPattern _ (G.survives k n) e p 0 0 h he

end Growth

/-- What the readers of a grammar at a level make has a property. -/
structure Grammar.Grows (G : Growth) (n : Nat) (g : Grammar) : Prop where
  statement {env : Parse.Env} :
    Parse.MakesIn env g.statement fun s => G.Stands env.context n s.tree
  pattern {env : Parse.Env} : Parse.MakesIn env g.pattern fun p => G.Holds env.scope n p.tree
  assignment {env : Parse.Env} : Parse.MakesIn env g.assignment fun e => G.Holds env.scope n e.tree
  power {env : Parse.Env} : Parse.MakesIn env g.power fun e => G.Holds env.scope n e.tree
  operand {env : Parse.Env} : Parse.MakesIn env g.operand fun e => G.Holds env.scope n e.tree
  creation {env : Parse.Env} : Parse.MakesIn env g.creation fun e => G.Holds env.scope n e.tree
  binds : g.Binds

/-- Whether `in` is an operator makes no difference. -/
theorem Grammar.Grows.assignmentIn {G : Growth} {n : Nat} {g : Grammar} (hg : g.Grows G n)
    {env : Parse.Env} (allow : Bool) :
    Parse.MakesIn env (Parse.withIn allow g.assignment) fun e => G.Holds env.scope n e.tree :=
  .withIn hg.assignment

end Espalier

/-!
## Growth of patterns, functions and classes

What is read with a grammar that makes what has a property has it too. The parameters and the body
of a function have it in the context that the function makes, the rest in the one around.
-/

namespace Espalier

open Parse

namespace Grammar

variable {G : Growth} {n : Nat} {g : Grammar} {env : Env}

/-! ### Patterns -/

theorem grows_propertyKey (hg : g.Grows G n) :
    MakesIn env (propertyKey g) fun k => G.Holds env.scope n k.tree := by
  refine .skip fun t => ?_
  split
  · exact .skip fun _ => .ret (G.leaf rfl rfl)
  · exact .skip fun _ => .ret (G.leaf rfl rfl)
  · refine .skip fun _ => ?_
    exact .bind (hg.assignmentIn true) fun key hkey => .skip fun _ => .ret hkey
  · exact .skip fun name => .ret (G.ident name)

theorem grows_restPattern (hg : g.Grows G n) (start : Nat) :
    MakesIn env (restPattern g start) fun p => G.Holds env.scope n p.tree := by
  refine .bind hg.pattern fun argument hargument => .skip fun span => .ret ?_
  exact G.plain rfl (fun _ => rfl) (by simpa using hargument)

theorem grows_bindingElement (hg : g.Grows G n) :
    MakesIn env (bindingElement g) fun p => G.Holds env.scope n p.tree := by
  refine .skip fun start => ?_
  refine .bind hg.pattern fun pattern hpattern => .ask ?_ (.ret hpattern)
  refine .bind (hg.assignmentIn true) fun right hright => .skip fun span => .ret ?_
  exact G.plain rfl (fun _ => rfl) (by simp [hpattern, hright])

theorem grows_arrayPattern (hg : g.Grows G n) :
    MakesIn env (arrayPattern g) fun p => G.Holds env.scope n p.tree := by
  refine .skip fun start => .skip fun _ => ?_
  refine .bind (Q := fun elements => ∀ t ∈ nodes elements, G.Holds env.scope n t)
    (.rounds (List.forall_mem_nil _) fun elements h => ?_) fun elements h => ?_
  · -- A round ends at the bracket, leaves a hole, reads the rest or reads an element.
    refine .ask (.ret h) (.ask (.ret h) (.skip fun elementStart => .ask ?_ ?_))
    · exact .bind (grows_restPattern hg elementStart) fun p hp => .ret (by simpa [hp] using h)
    · refine .bind (grows_bindingElement hg) fun p hp => ?_
      have hmore : ∀ t ∈ nodes (some p :: elements), G.Holds env.scope n t := by simpa [hp] using h
      exact .ask (.ret hmore) (.skip fun _ => .ret hmore)
  · refine .skip fun _ => .skip fun span => .ret ?_
    exact G.plain rfl (fun _ => rfl) (by simpa using h)

theorem grows_patternProperty (hg : g.Grows G n) :
    MakesIn env (patternProperty g) fun p => G.Holds env.scope n p.1.tree := by
  refine .skip fun start => .ask ?_ ?_
  · refine .bind hg.pattern fun argument hargument => .skip fun span => .ret ?_
    exact G.plain rfl (fun _ => rfl) (by simpa using hargument)
  refine .bind (grows_propertyKey hg) fun key hkey => .ask ?_ ?_
  · refine .bind (grows_bindingElement hg) fun value hvalue => .skip fun span => .ret ?_
    exact G.plain rfl (fun _ => rfl) (by simp [hkey, hvalue])
  split
  · next name =>
    split
    · exact .fail
    refine .ask ?_ (.skip fun span => .ret ?_)
    · refine .bind (hg.assignmentIn true) fun right hright => .skip fun span => .ret ?_
      have hdefault : G.Holds env.scope n (Pattern.default span (.ident name) right).tree :=
        G.plain rfl (fun _ => rfl) (by simp [Pattern.tree, G.ident name, hright])
      exact G.plain rfl (fun _ => rfl) (by simp [hkey, hdefault])
    · exact G.plain rfl (fun _ => rfl) (by simp [hkey, Pattern.tree, G.ident name])
  · exact .unexpected

theorem grows_objectPattern (hg : g.Grows G n) :
    MakesIn env (objectPattern g) fun p => G.Holds env.scope n p.tree := by
  have hitem : MakesIn env (patternProperty g) fun p => ∀ t ∈ nodes p.1, G.Holds env.scope n t :=
    (grows_patternProperty hg).mono fun p hp => List.forall_mem_singleton.mpr hp
  refine .skip fun start => .skip fun _ => ?_
  refine .bind (.itemsBefore _ hitem) fun properties h => .skip fun _ => .skip fun span => .ret ?_
  exact G.plain rfl (fun _ => rfl) (by simpa using h)

theorem grows_bindingPattern (hg : g.Grows G n) :
    MakesIn env (bindingPattern g) fun p => G.Holds env.scope n p.tree := by
  refine .skip fun k => ?_
  split
  · exact grows_arrayPattern hg
  · exact grows_objectPattern hg
  · exact .skip fun name => .ret (G.ident name)

/-! ### Functions -/

theorem grows_block (hg : g.Grows G n) :
    MakesIn env (block g) fun b => G.Holds env.context n b.tree := by
  refine .skip fun start => .skip fun _ => ?_
  refine .bind (.itemsUntil _ hg.statement.nodes) fun body hbody => ?_
  refine .skip fun _ => .skip fun span => .ret (G.places rfl ?_)
  simpa [NodeType.holdsStatements] using hbody

theorem grows_parameters (hg : g.Grows G n) :
    MakesIn env (parameters g) fun ps => ∀ t ∈ nodes ps, G.Holds env.scope n t := by
  refine .skip fun _ => ?_
  refine .bind (.itemsBefore _ (.skip fun start => .ask ?_ ?_)) fun params hparams =>
    .skip fun _ => .ret hparams
  · exact .bind (grows_restPattern hg start) fun p hp => .ret (by simpa using hp)
  · exact .bind (grows_bindingElement hg) fun p hp => .ret (by simpa using hp)

/-- What the parameters and the body of a function have, in the context that the function makes. The
parameters bind names. -/
structure Inside (G : Growth) (n : Nat) (f : Func) : Prop where
  binds : ∀ t ∈ nodes f.params, t.IsPattern false .element
  holds : ∀ t ∈ nodes f.params ++ nodes f.body, G.Holds (.ofFunction f.isAsync f.isGenerator) n t

/-- Parameters and body hold in the context of the function. -/
theorem grows_functionRest (hg : g.Grows G n) (start : Nat) (id : Option Ident)
    (isAsync isGenerator : Bool) :
    MakesIn env (functionRest g start id isAsync isGenerator) (Inside G n) := by
  let inner : Env :=
    { env with inFunction := true, inAsync := isAsync, inGenerator := isGenerator }
  refine .bind (Q := fun x => (∀ t ∈ nodes x.1, t.IsPattern false .element) ∧
    (∀ t ∈ nodes x.1, G.Holds inner.context n t) ∧ G.Holds inner.context n x.2.tree)
    (.withinFunction ?_) fun x ⟨hbinds, hparams, hbody⟩ => .skip fun span => .ret ⟨hbinds, ?_⟩
  · refine .bind ((binds_parameters hg.binds).and (grows_parameters hg))
      fun params ⟨hbinds, hparams⟩ => ?_
    exact .bind (.withIn (grows_block hg)) fun body hbody =>
      .ret ⟨hbinds, fun t ht => G.clause (hparams t ht), hbody⟩
  · exact List.forall_mem_append.mpr ⟨hparams, List.forall_mem_singleton.mpr hbody⟩

theorem grows_function (hg : g.Grows G n) (start : Nat) (isAsync nameRequired : Bool) :
    MakesIn env (function g start isAsync nameRequired) (Inside G n) :=
  .skip fun _ => .skip fun _ => .skip fun _ => grows_functionRest hg _ _ _ _

theorem grows_func {k : Context} {f : Func} (h : Inside G n f) {type : NodeType}
    (htype : type ∈ [.functionExpression, .functionDeclaration]) :
    G.Holds k (n + G.slack) (f.tree type) :=
  G.func htype (G.optionalIdent f.id) h.binds h.holds

/-! ### Classes -/

theorem grows_methodFunction (hg : g.Grows G n) (m : MethodModifiers) :
    MakesIn env (methodFunction g m) (Inside G n) :=
  .skip fun _ => grows_functionRest hg _ _ _ _

/-- A member holds within the slack of a method. -/
theorem grows_classMember (hg : g.Grows G n) :
    MakesIn env (classMember g) fun m =>
      G.Holds env.scope (n + G.methodSlack) m.tree := by
  refine .skip fun start => .skip fun isStatic => .skip fun modifiers => .ask .failHere ?_
  refine .bind (grows_propertyKey hg) fun key hkey => .skip fun isParen => ?_
  split
  · refine .bind (grows_methodFunction hg modifiers) fun f hf => .skip fun span => .ret ?_
    exact G.classMethod hkey hf.binds hf.holds
  · refine .bind (Q := fun value => ∀ t ∈ nodes value, G.Holds env.scope n t)
      (.ask ?_ (.ret nofun)) fun value hvalue => .skip fun _ => .skip fun span => .ret ?_
    · -- A value is read as in a function, of which no expression takes notice.
      let inner : Env := { env with inFunction := true }
      have hread : MakesIn inner (withIn true g.assignment) fun e =>
          G.Holds env.scope n e.tree := hg.assignmentIn true
      exact .map (.withReader (hread.mono fun e he => by simpa using he))
    · refine G.mono (G.plain rfl (fun _ => rfl) ?_) (Nat.le_add_right n G.methodSlack)
      simpa [hkey] using hvalue

theorem grows_classBody (hg : g.Grows G n) :
    MakesIn env (classBody g) fun b => G.Holds env.scope (n + G.slack) b.tree := by
  refine .skip fun start => .skip fun _ => ?_
  refine .bind (Q := fun members =>
      ∀ t ∈ nodes members, G.Holds env.scope (n + G.methodSlack) t)
    (.rounds nofun fun members h => .skip fun k => ?_) fun members h => ?_
  · split
    · exact .ret h
    refine .ask (.ret h) ?_
    exact .bind (grows_classMember hg) fun m hm => .ret (by simpa [hm] using h)
  · refine .skip fun _ => .skip fun span => .ret ?_
    exact G.construct (by decide) (by simpa using h)

/-- A class is no more than what it extends and its body, of which only the body takes levels. -/
theorem grows_classDef (hg : g.Grows G n) {heritage : Parse Expr}
    (hh : MakesIn env heritage fun e => G.Holds env.scope (n + G.slack) e.tree)
    (start : Nat) (nameRequired : Bool) : MakesIn env (classDef g heritage start nameRequired)
      fun d => G.Holds env.scope (n + G.slack) (d.tree .classExpression) ∧
        G.Holds env.scope (n + G.slack) (d.tree .classDeclaration) := by
  refine .skip fun _ => .skip fun id => ?_
  refine .bind (.optional hh.nodes) fun superClass hsuper => ?_
  refine .bind (grows_classBody hg) fun body hbody => .skip fun span => .ret ?_
  have hparts : ∀ t ∈ (Class.tree .classExpression ⟨id, superClass, body, span⟩).parts,
      G.Holds env.scope (n + G.slack) t := by
    have hbelow := List.forall_mem_append.mpr ⟨hsuper, List.forall_mem_singleton.mpr hbody⟩
    have hall := List.forall_mem_append.mpr ⟨G.optionalIdent id, hbelow⟩
    simpa [Tree.parts, Class.tree] using hall
  exact ⟨G.plain rfl (fun _ => rfl) hparts, G.plain rfl (fun _ => rfl) hparts⟩

end Grammar

end Espalier
