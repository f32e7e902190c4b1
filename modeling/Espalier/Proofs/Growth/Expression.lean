import Espalier.Proofs.Growth.Function

/-!
# Growth of expressions

What is read from an expression with a grammar that makes what has a property has it too, at one
more level. The links of a chain take no level, and neither does a class, which may extend another
class without an end.
-/

namespace Espalier

open Parse

namespace Grammar

variable {G : Growth} {k : Context} {n : Nat} {g : Grammar} {env : Env}

/-! ### Nodes of chains -/

/-- A member holds when its two parts do. -/
theorem grows_member {span : Span} {e : Expr} {property : MemberName} (isOptional : Bool)
    (he : G.Holds k n e.tree) (hproperty : G.Holds k n property.tree) :
    G.Holds k n (Expr.member span e property isOptional).tree := by
  rw [Expr.tree]
  split <;> exact G.plain rfl (fun _ => rfl) (by simp [he, hproperty])

/-- A call holds when the callee and the arguments do. -/
theorem grows_call {span : Span} {f : Expr} {arguments : List Expr} (isOptional : Bool)
    (hf : G.Holds k n f.tree) (harguments : ∀ t ∈ nodes arguments, G.Holds k n t) :
    G.Holds k n (Expr.call span f arguments isOptional).tree := by
  rw [Expr.tree]
  split <;> exact G.plain rfl (fun _ => rfl) (by simpa [hf] using harguments)

/-! ### Literals -/

theorem grows_expression (hg : g.Grows G n) :
    MakesIn env (expression g) fun e => G.Holds env.scope n e.tree := by
  refine .bind hg.assignment fun first hfirst => .ask ?_ (.ret hfirst)
  have hone : ∀ t ∈ nodes [first], G.Holds env.scope n t := by simpa using hfirst
  refine .bind (.itemsAfterCommas hone hg.assignment.nodes) fun es hes => .skip fun span => .ret ?_
  exact G.plain rfl (fun _ => rfl) (by simpa using hes)

/-- Whether `in` is an operator makes no difference. -/
theorem grows_expressionIn (hg : g.Grows G n) (allow : Bool) :
    MakesIn env (withIn allow (expression g)) fun e => G.Holds env.scope n e.tree :=
  .withIn (grows_expression hg)

/-- The substitutions of a template. -/
theorem grows_substitutions (hg : g.Grows G n) :
    MakesIn env (template g) fun t => ∀ u ∈ nodes t.expressions, G.Holds env.scope n u := by
  refine .skip fun start => .skip fun head => ?_
  split
  · exact .skip fun span => .ret (List.forall_mem_nil _)
  · refine .bind
      (Q := fun (x : List TemplateElement × List Expr) => ∀ t ∈ nodes x.2, G.Holds env.scope n t)
      (.rounds (List.forall_mem_nil _) fun x h => ?_) fun x h => .skip fun span => .ret ?_
    · refine .bind (grows_expressionIn hg true) fun e he => ?_
      have hmore : ∀ t ∈ nodes (e :: x.2), G.Holds env.scope n t := by simpa [he] using h
      refine .ask (.skip fun part => ?_) (.skip fun _ => .skip fun part => ?_)
      all_goals
        split
        · exact .ret hmore
        · exact .ret hmore
        · exact .fail
        · exact .fail
    · exact fun t ht => h t (mem_nodes_reverse.mp ht)
  · exact .fail

theorem grows_template (hg : g.Grows G n) :
    MakesIn env (template g) fun t => G.Holds env.scope n t.tree := by
  refine ((makesIn_template g).and (grows_substitutions hg)).mono fun t h => ?_
  obtain ⟨⟨hpaired, htail⟩, hsubstitutions⟩ := h
  refine G.template hpaired htail ?_
  obtain ⟨quasis, expressions, span⟩ := t
  have hpieces : ∀ u ∈ nodes quasis, G.Holds env.scope n u :=
    G.each (fun e => G.leaf rfl rfl) quasis
  simpa [Tree.parts, Template.tree, or_imp, forall_and] using ⟨hpieces, hsubstitutions⟩

theorem grows_regex (G : Growth) (k : Context) (n : Nat) :
    MakesIn env regex fun e => G.Holds k n e.tree := by
  refine .skip fun slash => .skip fun t => ?_
  split
  · exact .skip fun span => .ret (G.leaf rfl rfl)
  · exact .fail
  · exact .fail

theorem grows_spreadOrAssignment (hg : g.Grows G n) :
    MakesIn env (spreadOrAssignment g) fun e => G.Holds env.scope n e.tree := by
  refine .skip fun start => .ask ?_ (hg.assignmentIn true)
  refine .bind (hg.assignmentIn true) fun argument hargument => .skip fun span => .ret ?_
  exact G.plain rfl (fun _ => rfl) (by simpa using hargument)

theorem grows_arrayLiteral (hg : g.Grows G n) :
    MakesIn env (arrayLiteral g) fun e => G.Holds env.scope (n + G.slack) e.tree := by
  refine .skip fun start => .skip fun _ => ?_
  refine .bind (Q := fun elements => ∀ t ∈ nodes elements, G.Holds env.scope n t)
    (.rounds nofun fun elements h => ?_) fun elements h => ?_
  · -- A round ends at the bracket, leaves a hole or reads an element.
    refine .ask (.ret h) (.ask (.ret h) ?_)
    refine .bind (grows_spreadOrAssignment hg) fun e he => ?_
    have hmore : ∀ t ∈ nodes (some e :: elements), G.Holds env.scope n t := by simpa [he] using h
    exact .ask (.ret hmore) (.skip fun _ => .ret hmore)
  · refine .skip fun _ => .skip fun span => .ret (G.construct (by decide) ?_)
    exact fun t ht => G.mono (h t (by simpa using ht)) (Nat.le_add_right _ _)

/-- A property of an object holds within the slack of a method. -/
theorem grows_objectProperty (hg : g.Grows G n) :
    MakesIn env (objectProperty g) fun p => G.Holds env.scope (n + G.methodSlack) p.tree := by
  have hle : n ≤ n + G.methodSlack := Nat.le_add_right _ _
  refine .skip fun start => .ask ?_ ?_
  · refine .bind (hg.assignmentIn true) fun argument hargument => .skip fun span => .ret ?_
    exact G.mono (G.plain rfl (fun _ => rfl) (by simpa using hargument)) hle
  refine .skip fun modifiers => ?_
  refine .bind (grows_propertyKey hg) fun key hkey => .skip fun isParen => ?_
  split
  · refine .bind (grows_methodFunction hg modifiers) fun f hf => .skip fun span => .ret ?_
    exact G.objectMethod hkey hf.binds hf.holds
  refine .ask ?_ ?_
  · refine .bind (hg.assignmentIn true) fun value hvalue => .skip fun span => .ret ?_
    exact G.mono (G.plain rfl (fun _ => rfl) (by simp [hkey, hvalue])) hle
  split
  · next name =>
    split
    · exact .fail
    refine .ask ?_ (.skip fun span => .ret ?_)
    · refine .bind (hg.assignmentIn true) fun right hright => .skip fun span => .ret ?_
      have hspelled : (Expr.ident name).toPattern = .ok (.ident name) := rfl
      -- a shorthand with a default stands for an assignment until it becomes a pattern
      have hassign : G.Holds env.scope n (Expr.assign span .plain (.ident name) right).tree :=
        G.assign ((if_pos rfl).trans hspelled) (G.ident name) (G.ident name) hright
      exact G.mono (G.plain rfl (fun _ => rfl) (by simp [hkey, hassign])) hle
    · exact G.mono (G.plain rfl (fun _ => rfl) (by simp [hkey, Expr.tree, G.ident name])) hle
  · exact .unexpected

theorem grows_objectLiteral (hg : g.Grows G n) :
    MakesIn env (objectLiteral g) fun e => G.Holds env.scope (n + G.slack) e.tree := by
  have hitem : MakesIn env (do return (← objectProperty g, false)) fun p =>
      ∀ t ∈ nodes p.1, G.Holds env.scope (n + G.methodSlack) t :=
    .bind (grows_objectProperty hg) fun p hp => .ret (by simpa using hp)
  refine .skip fun start => .skip fun _ => ?_
  refine .bind (.itemsBefore _ hitem) fun properties h => .skip fun _ => .skip fun span => .ret ?_
  exact G.construct (by decide) (by simpa using h)

/-! ### Arrows and parentheses -/

/-- Parameters made from expressions hold as the expressions did. -/
theorem grows_arrowParams (es : List Expr) {ps : List Pattern} (h : arrowParams es = .ok ps)
    (hes : ∀ t ∈ nodes es, G.Holds k n t) : ∀ t ∈ nodes ps, G.Holds k n t := by
  induction es generalizing ps with
  | nil =>
    cases h
    nofun
  | cons e es ih =>
    obtain ⟨p, hp, h⟩ := exists_of_bind_eq_ok h
    obtain ⟨_, -, h⟩ := exists_of_bind_eq_ok h
    obtain ⟨qs, hqs, h⟩ := exists_of_bind_eq_ok h
    cases h
    rw [nodes_cons, List.forall_mem_append] at hes ⊢
    have he := G.toPattern e hp (hes.1 _ (List.mem_singleton_self _))
    exact ⟨List.forall_mem_singleton.mpr he, ih hqs hes.2⟩

/-- An arrow function of which the parameters are spelled by expressions, or read as patterns. -/
theorem grows_arrowBody (hg : g.Grows G n) (start : Nat) (isAsync : Bool) {spelled : List Expr}
    {params rest : List Pattern} (hspelled : arrowParams spelled = .ok params)
    (hitems : ∀ t ∈ nodes spelled, G.Holds env.scope n t)
    (hbinds : ∀ t ∈ nodes rest, t.IsPattern false .element)
    (hrest : ∀ t ∈ nodes rest, G.Holds env.scope n t) :
    MakesIn env (arrowBody g start isAsync (params ++ rest)) fun e =>
      G.Holds env.scope (n + G.slack) e.tree := by
  let inner : Env := { env with inFunction := true, inAsync := isAsync, inGenerator := false }
  refine .bind (Q := fun (body : ArrowBody) => G.Holds inner.context n body.tree)
    (.withinFunction (.ask ?_ ?_)) fun body hbody => .skip fun span => .ret ?_
  · exact .bind (.withIn (grows_block hg)) fun b hb => .ret hb
  · exact .bind hg.assignment fun e he => .ret (G.clause he)
  · rw [Expr.tree]
    refine G.arrow hspelled hitems hbinds ?_ hbody
    rw [nodes_append, List.forall_mem_append]
    exact ⟨grows_arrowParams spelled hspelled hitems, hrest⟩

/-- An arrow function with one parameter, which is read as a pattern. -/
theorem grows_arrowOfOne (hg : g.Grows G n) (start : Nat) (isAsync : Bool) {param : Pattern}
    (hbinds : param.tree.IsPattern false .whole) (hparam : G.Holds env.scope n param.tree) :
    MakesIn env (arrowBody g start isAsync [param]) fun e =>
      G.Holds env.scope (n + G.slack) e.tree :=
  have hspelled : arrowParams [] = .ok [] := rfl
  grows_arrowBody hg start isAsync hspelled nofun (by simpa using hbinds.element)
    (by simpa using hparam)

/-- What stands between parentheses holds, be it items or parameters. -/
theorem grows_parenthesized (hg : g.Grows G n) (start : Nat) (isAsync : Bool) :
    MakesIn env (parenthesized g start isAsync) fun e =>
      G.Holds env.scope (n + G.slack) e.tree := by
  have hle : n ≤ n + G.slack := Nat.le_add_right _ _
  let inner : Env := { env with allowIn := true }
  have hparam (start : Nat) : MakesIn inner (restPattern g start) fun p =>
      p.tree.IsPattern false .element ∧ G.Holds env.scope n p.tree :=
    (binds_restPattern hg.binds start).and (grows_restPattern hg start)
  have hexpression : MakesIn inner g.assignment fun e => G.Holds env.scope n e.tree :=
    hg.assignment
  refine .skip fun _ => ?_
  -- both the items and the rest parameter are carried through the rounds
  refine .bind (Q := fun (x : List Expr × Option Pattern) =>
    (∀ t ∈ nodes x.1, G.Holds env.scope n t) ∧
      ∀ t ∈ nodes x.2, t.IsPattern false .element ∧ G.Holds env.scope n t)
    (MakesIn.withIn (.rounds ⟨List.forall_mem_nil _, List.forall_mem_nil _⟩
      fun (items, rest) h => ?round)) fun (items, rest) h => ?rest
  case round =>
    obtain ⟨hitems, hrest⟩ := h
    refine .ask (.ret ⟨hitems, hrest⟩) (.skip fun itemStart => .ask ?_ ?_)
    · exact .bind (hparam itemStart) fun p hp => .ret ⟨hitems, by simpa using hp⟩
    · refine .bind hexpression fun item hitem => ?_
      have hmore : ∀ t ∈ nodes (item :: items), G.Holds env.scope n t := by
        simpa [hitem] using hitems
      exact .ask (.ret ⟨hmore, hrest⟩) (.ret ⟨hmore, hrest⟩)
  case rest =>
    have hitems : ∀ t ∈ nodes items.reverse, G.Holds env.scope n t := by simpa using h.1
    refine .skip fun _ => .skip fun isArrow => .skip fun t => ?_
    split
    · -- The expressions turn out to be parameters.
      refine .skip fun _ => ?_
      refine .bind (.ofExcept fun ps hps => hps) fun ps hps => ?_
      exact grows_arrowBody hg _ _ hps hitems (fun t ht => (h.2 t ht).1) fun t ht => (h.2 t ht).2
    split
    · exact .fail
    split
    · refine .skip fun span => .ret (G.mono ?_ hle)
      exact grows_call false (G.ident _) hitems
    split
    · exact .skip fun _ => .fail
    · next item heq =>
      rw [heq] at hitems
      exact .ret (G.mono (by simpa using hitems) hle)
    · refine .ret (G.mono ?_ hle)
      exact G.plain rfl (fun _ => rfl) (by simpa using h.1)

/-! ### Members and calls -/

theorem grows_memberName (G : Growth) (k : Context) (n : Nat) :
    MakesIn env memberName fun m => G.Holds k n m.tree :=
  .ask .failHere (.skip fun name => .ret (G.ident name))

theorem grows_computedMember (hg : g.Grows G n) :
    MakesIn env (computedMember g) fun m => G.Holds env.scope n m.tree :=
  .skip fun _ => .bind (grows_expressionIn hg true) fun _ he => .skip fun _ => .ret he

theorem grows_arguments (hg : g.Grows G n) :
    MakesIn env (arguments g) fun es => ∀ t ∈ nodes es, G.Holds env.scope n t := by
  have hitem : MakesIn env (do return (← spreadOrAssignment g, false)) fun e =>
      ∀ t ∈ nodes e.1, G.Holds env.scope n t :=
    .bind (grows_spreadOrAssignment hg) fun e he => .ret (by simpa using he)
  refine .skip fun _ => ?_
  exact .bind (.itemsBefore _ hitem) fun es hes => .skip fun _ => .ret hes

theorem grows_metaProperty (G : Growth) (k : Context) (n start : Nat) (object : Ident)
    (name : String) (cause : SyntaxCause) :
    MakesIn env (metaProperty start object name cause) fun e => G.Holds k n e.tree := by
  refine .skip fun property => ?_
  split
  · exact .fail
  · exact .skip fun span => .ret
      (G.plain rfl (fun _ => rfl) (by simp [G.ident object, G.ident property]))

/-- An expression that neither an operator nor a member, call or template extends. -/
theorem grows_primary (hg : g.Grows G n) {heritage : Parse Expr}
    (hh : MakesIn env heritage fun e => G.Holds env.scope (n + G.slack) e.tree) :
    MakesIn env (primary g heritage) fun e => G.Holds env.scope (n + G.slack) e.tree := by
  have hle : n ≤ n + G.slack := Nat.le_add_right _ _
  -- a function is where the context changes, so `Inside` and not `Holds` is known of it
  have hfunction {p : Parse Func} (hp : MakesIn env p (Inside G n)) :
      MakesIn env (do return Expr.function (← p)) fun e => G.Holds env.scope (n + G.slack) e.tree :=
    .bind hp fun f hf => .ret (grows_func hf (by decide))
  refine .skip fun start => .skip fun t => ?_
  dsimp only
  split
  · refine .skip fun next => ?_
    split
    · exact .skip fun _ => hfunction (grows_function hg _ _ _)
    split
    · exact .skip fun _ => grows_parenthesized hg _ _
    · exact .skip fun _ => .ret (G.leaf rfl rfl)
  · exact .skip fun _ => .ret (G.leaf rfl rfl)
  · exact .skip fun _ => .ret (G.leaf rfl rfl)
  · exact .skip fun _ => .ret (G.leaf rfl rfl)
  · exact .skip fun _ => .ret (G.leaf rfl rfl)
  · exact .skip fun _ => .ret (G.leaf rfl rfl)
  · exact .skip fun _ => .ret (G.leaf rfl rfl)
  · exact .skip fun _ => .ret (G.leaf rfl rfl)
  · exact .skip fun _ => .ret (G.leaf rfl rfl)
  · exact grows_regex G _ _
  · exact grows_regex G _ _
  · exact .bind (grows_template hg) fun t ht => .ret (G.mono ht hle)
  · exact .bind (grows_template hg) fun t ht => .ret (G.mono ht hle)
  · exact grows_parenthesized hg _ _
  · exact grows_arrayLiteral hg
  · exact grows_objectLiteral hg
  · exact hfunction (grows_function hg _ _ _)
  · exact .bind (grows_classDef hg hh _ _) fun d hd => .ret hd.1
  · exact .skip fun _ => .ask (grows_metaProperty G _ _ _ _ _ _)
      (.ask (.skip fun _ => .ret (G.leaf rfl rfl)) .unexpected)
  · exact .unexpected

/-- A further link of a chain, which is the name of a member after a point. -/
theorem grows_pointLink (start : Nat) {e : Expr} (he : G.Holds k n e.tree) :
    MakesIn env (do
      let _ ← advance
      let property ← memberName
      return Round.again (Expr.member (← finish start) e property false))
      (Round.Keeps fun e => G.Holds k n e.tree) := by
  refine .skip fun _ => ?_
  refine .bind (grows_memberName G k n) fun property hproperty => .skip fun span => .ret ?_
  exact grows_member false he hproperty

/-- A further link of a chain, which is the name of a member between brackets. -/
theorem grows_bracketLink (hg : g.Grows G n) (start : Nat) {e : Expr}
    (he : G.Holds env.scope (n + G.slack) e.tree) :
    MakesIn env (do
      let property ← computedMember g
      return Round.again (Expr.member (← finish start) e property false))
      (Round.Keeps fun e => G.Holds env.scope (n + G.slack) e.tree) := by
  refine .bind (grows_computedMember hg) fun property hproperty => .skip fun span => .ret ?_
  exact grows_member false he (G.mono hproperty (Nat.le_add_right _ _))

/-- A creation adds no level: its callee may have used the slack. -/
theorem grows_construct (hg : g.Grows G n) {heritage : Parse Expr}
    (hh : MakesIn env heritage fun e => G.Holds env.scope (n + G.slack) e.tree) :
    MakesIn env (construct g heritage) fun e => G.Holds env.scope (n + G.slack) e.tree := by
  have hle : n ≤ n + G.slack := Nat.le_add_right _ _
  have hcreation : MakesIn env g.creation fun e => G.Holds env.scope (n + G.slack) e.tree :=
    hg.creation.mono fun e he => G.mono he hle
  refine .skip fun newToken => .skip fun _ => .ask ?_ (.skip fun calleeStart => ?_)
  · exact grows_metaProperty G _ _ _ _ _ _
  refine .bind (.ask hcreation (grows_primary hg hh)) fun callee hcallee => ?_
  -- links before the arguments; a call would end the callee
  refine .bind (Q := fun e => G.Holds env.scope (n + G.slack) e.tree)
    (.rounds hcallee fun callee hcallee => .skip fun k => ?_) fun callee hcallee => ?_
  · split
    · exact grows_pointLink calleeStart hcallee
    · exact grows_bracketLink hg calleeStart hcallee
    · exact .failHere
    · exact .ret hcallee
  · refine .bind (Q := fun es => ∀ t ∈ nodes es, G.Holds env.scope n t)
      (.ask (grows_arguments hg) (.ret (List.forall_mem_nil _)))
      fun es hes => .skip fun span => .ret ?_
    have hmore : ∀ t ∈ nodes es, G.Holds env.scope (n + G.slack) t :=
      fun t ht => G.mono (hes t ht) hle
    exact G.plain rfl (fun _ => rfl) (by simpa [hcallee] using hmore)

theorem grows_optionalLink (hg : g.Grows G n) (start : Nat) {e : Expr}
    (he : G.Holds env.scope (n + G.slack) e.tree) :
    MakesIn env (optionalLink g start e) fun e => G.Holds env.scope (n + G.slack) e.tree := by
  have hle : n ≤ n + G.slack := Nat.le_add_right _ _
  refine .skip fun k => ?_
  split
  · refine .bind (grows_arguments hg) fun es hes => .skip fun span => .ret ?_
    exact grows_call true he fun t ht => G.mono (hes t ht) hle
  · refine .bind (grows_computedMember hg) fun property hproperty => .skip fun span => .ret ?_
    exact grows_member true he (G.mono hproperty hle)
  · refine .bind (grows_memberName G env.scope (n + G.slack)) fun property hproperty =>
      .skip fun span => .ret ?_
    exact grows_member true he hproperty

/-- A chain of links adds no level, however long it is. -/
theorem grows_leftHandSideWith (hg : g.Grows G n) {heritage : Parse Expr}
    (hh : MakesIn env heritage fun e => G.Holds env.scope (n + G.slack) e.tree) :
    MakesIn env (leftHandSideWith g heritage) fun e => G.Holds env.scope (n + G.slack) e.tree := by
  have hle : n ≤ n + G.slack := Nat.le_add_right _ _
  have htagged (start : Nat) {e : Expr} (he : G.Holds env.scope (n + G.slack) e.tree) :
      MakesIn env (do
        let quasi ← template g
        return Round.again (Expr.tagged (← finish start) e quasi))
        (Round.Keeps fun e => G.Holds env.scope (n + G.slack) e.tree) := by
    refine .bind (grows_template hg) fun quasi hquasi => .skip fun span => .ret ?_
    exact G.plain rfl (fun _ => rfl) (by simp [he, G.mono hquasi hle])
  refine .skip fun start => ?_
  refine .bind (.ask (grows_construct hg hh) (grows_primary hg hh)) fun e he => ?_
  -- Every further link has the chain so far as a part, and is no construct itself.
  refine .rounds he fun e he => .skip fun k => ?_
  split
  · exact grows_pointLink start he
  · exact .skip fun _ => .bind (grows_optionalLink hg start he) fun e he => .ret he
  · exact grows_bracketLink hg start he
  · refine .bind (grows_arguments hg) fun es hes => .skip fun span => .ret ?_
    exact grows_call false he fun t ht => G.mono (hes t ht) hle
  · split
    · exact .failHere
    · exact htagged start he
  · split
    · exact .failHere
    · exact htagged start he
  · exact .ret he

theorem grows_leftHandSide (hg : g.Grows G n) :
    MakesIn env (leftHandSide g) fun e => G.Holds env.scope (n + G.slack) e.tree :=
  .furtherOn (Q := fun env (e : Expr) => G.Holds env.scope (n + G.slack) e.tree)
    (fun _ hh _ => grows_leftHandSideWith hg (hh _)) env

/-! ### Operators -/

theorem grows_postfixUpdate (hg : g.Grows G n) :
    MakesIn env (postfixUpdate g) fun e => G.Holds env.scope (n + G.slack) e.tree := by
  refine .skip fun start => .bind (grows_leftHandSide hg) fun e he => .skip fun k => ?_
  split
  · refine .skip fun t => ?_
    split
    · exact .ret he
    · refine .skip fun _ => .skip fun _ => .skip fun span => .ret ?_
      exact G.plain rfl (fun _ => rfl) (by simpa using he)
  · exact .ret he

/-- An operand with the operators in front of it, of which an `await` stands only where the context
allows it. -/
theorem grows_unary (hg : g.Grows G n) :
    MakesIn env (unary g) fun e => G.Holds env.scope (n + G.slack) e.tree := by
  refine .skip fun start => .skip fun k => ?_
  split
  · refine .skip fun _ => .bind hg.operand fun argument hargument => .skip fun span => .ret ?_
    refine G.construct (by decide) fun t ht => ?_
    obtain rfl : t = argument.tree := by simpa using ht
    exact G.mono hargument (Nat.le_add_right _ _)
  split
  · refine .skip fun _ => ?_
    refine .bind hg.operand fun argument hargument => .skip fun _ => .skip fun span => .ret ?_
    exact G.mono (G.plain rfl (fun _ => rfl) (by simpa using hargument)) (Nat.le_add_right _ _)
  · refine .read ?_
    split
    · next hawait =>
      rw [Bool.and_eq_true] at hawait
      refine .skip fun _ => .bind hg.operand fun argument hargument => .skip fun span => .ret ?_
      exact G.await hawait.2 hargument
    · exact grows_postfixUpdate hg

/-- An operation holds when both operands do. -/
theorem grows_operation {span : Span} (op : InfixOp) {left right : Expr}
    (hleft : G.Holds k n left.tree) (hright : G.Holds k n right.tree) :
    G.Holds k n (Expr.operation span op left right).tree := by
  cases op with
  | binary op | logical op =>
    exact G.plain rfl (fun _ => rfl) (by simp [hleft, hright])

/-- A chain of operators adds no level to its operands. -/
theorem grows_binary (hg : g.Grows G n) (least : Nat) :
    MakesIn env (binary g least) fun e => G.Holds env.scope (n + G.slack) e.tree := by
  -- by the number of levels of precedence above `least`
  induction hroom : InfixOp.tightest + 1 - least using Nat.strongRecOn generalizing least with
  | ind room ih =>
    rw [binary]
    refine .skip fun start => .bind (grows_unary hg) fun left hleft => ?_
    refine .rounds hleft fun left hleft => .skip fun k => ?_
    split
    · exact .ret hleft
    · next op hop =>
      split
      · exact .ret hleft
      · next hleast =>
        refine .skip fun env => ?_
        split
        · exact .ret hleft
        · have hle := op.precedence_le
          refine .skip fun _ => ?_
          split
          · refine .bind hg.power fun right hright => .skip fun span => .ret ?_
            exact grows_operation op hleft (G.mono hright (Nat.le_add_right _ _))
          · refine .bind (ih _ (by omega) _ rfl) fun right hright => .skip fun span => .ret ?_
            exact grows_operation op hleft hright

theorem grows_conditional (hg : g.Grows G n) :
    MakesIn env (conditional g) fun e => G.Holds env.scope (n + G.slack) e.tree := by
  have hle : n ≤ n + G.slack := Nat.le_add_right _ _
  refine .skip fun start => .bind (grows_binary hg 0) fun test htest => .ask ?_ (.ret htest)
  refine .bind (hg.assignmentIn true) fun consequent hconsequent => .skip fun _ => ?_
  refine .bind hg.assignment fun alternate halternate => .skip fun span => .ret ?_
  exact G.plain rfl (fun _ => rfl)
    (by simp [htest, G.mono hconsequent hle, G.mono halternate hle])

/-! ### Assignments -/

/-- `yield` is read inside generators only, which its context must allow. -/
theorem grows_yieldExpr (hg : g.Grows G n) (henv : env.inGenerator = true) :
    MakesIn env (yieldExpr g) fun e => G.Holds env.scope n e.tree := by
  refine .skip fun start => .skip fun _ => .skip fun delegate => .skip fun t => ?_
  split
  · exact .skip fun span => .ret (G.yield henv nofun)
  · refine .bind hg.assignment fun argument hargument => .skip fun span => .ret ?_
    exact G.yield henv (by simpa using hargument)

theorem grows_plainAssignment (hg : g.Grows G n) :
    MakesIn env (plainAssignment g) fun e => G.Holds env.scope (n + G.slack) e.tree := by
  have hle : n ≤ n + G.slack := Nat.le_add_right _ _
  refine .skip fun start => .bind (grows_conditional hg) fun left hleft => .skip fun k => ?_
  split
  · exact .ret hleft
  · next op hop =>
    refine .bind (.ofExcept fun target h => h) fun target hspelled => ?_
    have htarget : G.Holds env.scope (n + G.slack) target.tree := by
      split at hspelled
      · exact G.toPattern left hspelled hleft
      · rw [tree_toSimpleTarget hspelled]
        exact hleft
    refine .skip fun _ => .bind hg.assignment fun right hright => .skip fun span => .ret ?_
    exact G.assign hspelled hleft htarget (G.mono hright hle)

/-- An assignment expression holds in the context of its environment. -/
theorem grows_assignmentExpr (hg : g.Grows G n) :
    MakesIn env (assignmentExpr g) fun e => G.Holds env.scope (n + G.slack) e.tree := by
  have hle : n ≤ n + G.slack := Nat.le_add_right _ _
  have hplain := @grows_plainAssignment _ _ _ env hg
  -- a name before an arrow is read as a pattern, with all that patterns keep to
  have hparam : MakesIn env g.pattern fun p =>
      p.tree.IsPattern false .whole ∧ G.Holds env.scope n p.tree := (hg.binds env).and hg.pattern
  refine .skip fun t => .read ?_
  split
  · next hyield =>
    rw [Bool.and_eq_true] at hyield
    exact (grows_yieldExpr hg hyield.2).mono fun e he => G.mono he hle
  refine .ask (.skip fun next => ?_) hplain
  split
  · exact .bind hparam fun param hp => .skip fun _ => grows_arrowOfOne hg _ _ hp.1 hp.2
  split
  · split
    · refine .skip fun _ => ?_
      exact .bind hparam fun param hp => .skip fun _ => grows_arrowOfOne hg _ _ hp.1 hp.2
    · exact hplain
  · exact hplain

end Grammar

end Espalier
