import Espalier.Proofs.Growth.Expression

/-!
# Growth of statements

Each reader of a grammar at one more level of nesting reads with the readers at the level before, so
what it makes has a property at one more level. By induction on the level, all that the grammar
makes has it, and so has an accepted program (`Growth.of_parse`).
-/

namespace Espalier

open Parse

namespace Grammar

variable {G : Growth} {k : Context} {n : Nat} {g : Grammar} {env : Env}

/-! ### Declarations -/

/-- The name of a declarator is a pattern, and its value holds. -/
theorem grows_declarator (hg : g.Grows G n) :
    MakesIn env (declarator g) fun d => G.Holds env.scope n d.tree := by
  refine .skip fun start => .bind ((hg.binds env).and hg.pattern) fun id ⟨hbinds, hid⟩ => ?_
  refine .bind (.optional hg.assignment.nodes) fun init hinit => .skip fun span => .ret ?_
  exact G.declarator hbinds (by simpa [Tree.parts, VarDeclarator.tree, hid] using hinit)

theorem grows_declaration (hg : g.Grows G n) :
    MakesIn env (declaration g) fun d => G.Holds env.scope n d.tree := by
  have hdeclarator := (@grows_declarator _ _ _ env hg).nodes
  refine .skip fun t => .bind hdeclarator fun first hfirst => ?_
  have hone : ∀ t ∈ nodes [first], G.Holds env.scope n t := by simpa using hfirst
  refine .bind (.itemsAfterCommas hone hdeclarator) fun ds hds => .skip fun span => .ret ?_
  exact G.plain rfl (fun _ => rfl) (by simpa using hds)

theorem grows_varStatement (hg : g.Grows G n) :
    MakesIn env (varStatement g) fun s => G.Holds env.context n s.tree := by
  refine .bind (grows_declaration hg) fun d hd => .skip fun _ => .skip fun span => .ret ?_
  obtain ⟨kind, ds, span'⟩ := d
  exact G.clause (G.plain rfl (fun _ => rfl) (G.parts hd rfl))

/-- An expression as a clause of a statement. -/
theorem grows_clause (hg : g.Grows G n) :
    MakesIn env (withIn true (expression g)) fun e => G.Holds env.context n e.tree :=
  (grows_expressionIn hg true).mono fun _ he => G.clause he

/-! ### Control flow -/

theorem grows_condition (hg : g.Grows G n) :
    MakesIn env (condition g) fun e => G.Holds env.context n e.tree :=
  .skip fun _ => .bind (grows_clause hg) fun _ he => .skip fun _ => .ret he

theorem grows_ifStatement (hg : g.Grows G n) :
    MakesIn env (ifStatement g) fun s => G.Holds env.context n s.tree := by
  refine .skip fun start => .skip fun _ => ?_
  refine .bind (grows_condition hg) fun test htest => ?_
  refine .bind hg.statement fun consequent hconsequent => ?_
  refine .bind (.optional hg.statement.nodes) fun alternate halternate => ?_
  refine .skip fun span => .ret ?_
  refine G.places rfl ?_
  simpa [NodeType.holdsStatements, htest, hconsequent] using halternate

theorem grows_switchCase (hg : g.Grows G n) (hasDefault : Bool) :
    MakesIn env (switchCase g hasDefault) fun s => G.Holds env.context n s.tree := by
  refine .skip fun start => ?_
  refine .bind (Q := fun test => ∀ t ∈ nodes test, G.Holds env.context n t) (.ask ?_ ?_)
    fun test htest => ?_
  · exact .bind (grows_clause hg) fun e he => .ret (by simpa using he)
  · refine .ask ?_ .unexpected
    split
    · exact .failHere
    · exact .skip fun _ => .ret nofun
  · refine .skip fun _ => ?_
    refine .bind (.itemsUntil _ hg.statement.nodes) fun body hbody => .skip fun span => .ret ?_
    refine G.places rfl ?_
    simpa [NodeType.holdsStatements] using ⟨htest, hbody⟩

theorem grows_switchStatement (hg : g.Grows G n) :
    MakesIn env (switchStatement g) fun s => G.Holds env.context n s.tree := by
  refine .skip fun start => .skip fun _ => ?_
  refine .bind (grows_condition hg) fun e he => .skip fun _ => ?_
  refine .bind (Q := fun cases => ∀ t ∈ nodes cases, G.Holds env.context n t)
    (.rounds nofun fun cases h => .skip fun k => ?_) fun cases h => ?_
  · split
    · exact .ret h
    · exact .bind (grows_switchCase hg _) fun s hs => .ret (by simpa [hs] using h)
  · refine .skip fun _ => .skip fun span => .ret ?_
    exact G.plain rfl (fun _ => rfl) (by simpa [he] using h)

/-- `for await` is read inside async functions only, which the context must allow. -/
theorem grows_forEach (hg : g.Grows G n) (start : Nat) {left : ForHead} {isAwait : Bool}
    (hawait : isAwait = true → env.inAsync = true) (hleft : G.Holds env.context n left.tree) :
    MakesIn env (forEach g start left isAwait) fun s => G.Holds env.context n s.tree := by
  refine .skip fun isOf => .skip fun _ => ?_
  refine .bind (Q := fun e => G.Holds env.context n e.tree) ?_ fun right hright => ?_
  · split
    · exact (hg.assignmentIn true).mono fun e he => G.clause he
    · exact grows_clause hg
  · refine .skip fun _ => .bind hg.statement fun body hbody => .skip fun span => .ret ?_
    split
    · exact G.forOf hawait hleft hright hbody
    · refine G.places rfl ?_
      simp [NodeType.holdsStatements, hleft, hright, hbody]

/-- A clause of a loop that may be missing. -/
theorem grows_unlessAt (hg : g.Grows G n) (stop : Punct) :
    MakesIn env (unlessAt stop (withIn true (expression g))) fun e? =>
      ∀ t ∈ nodes e?, G.Holds env.context n t := by
  refine .ask (.ret nofun) (.bind (grows_clause hg) fun e he => .ret ?_)
  simpa using he

theorem grows_forRest (hg : g.Grows G n) (start : Nat) {init : Option ForInit}
    (hinit : ∀ t ∈ nodes init, G.Holds env.context n t) :
    MakesIn env (forRest g start init) fun s => G.Holds env.context n s.tree := by
  refine .skip fun _ => .bind (grows_unlessAt hg _) fun test htest => ?_
  refine .skip fun _ => .bind (grows_unlessAt hg _) fun update hupdate => ?_
  refine .skip fun _ => .bind hg.statement fun body hbody => .skip fun span => .ret ?_
  refine G.places rfl ?_
  simpa [NodeType.holdsStatements, hbody] using ⟨hinit, htest, hupdate⟩

/-- Each of the three loops holds, with `await` only where the context allows it. -/
theorem grows_forStatement (hg : g.Grows G n) :
    MakesIn env (forStatement g) fun s => G.Holds env.context n s.tree := by
  refine .skip fun start => .skip fun _ => ?_
  -- what `await` stands for is kept up to the end of the head
  refine .bind (Q := fun isAwait => isAwait = true → env.inAsync = true) (.read ?_)
    fun isAwait hawait => .skip fun _ => ?_
  · split
    · next hasync => exact .mono (Q := fun _ => True) (fun _ _ _ _ => trivial) fun _ _ _ => hasync
    · exact .ret nofun
  refine .ask (grows_forRest hg start nofun) (.skip fun k => .ask ?_ ?_)
  · have hdeclaration : MakesIn env (withIn false (declaration g)) fun d =>
        G.Holds env.scope n d.tree := .withIn (grows_declaration hg)
    refine .bind hdeclaration fun d hd => .ask ?_ ?_
    · split
      · exact .fail
      · exact grows_forEach hg start hawait (G.clause hd)
    · exact grows_forRest hg start (by simpa [ForInit.tree] using G.clause hd)
  · refine .bind (grows_expressionIn hg false) fun e he => .ask ?_ ?_
    · -- an expression at the head is made into a pattern
      refine .bind (.ofExcept fun p hp => G.toPattern e hp he) fun p hp => ?_
      exact grows_forEach hg start hawait (G.clause hp)
    · exact grows_forRest hg start (by simpa [ForInit.tree] using G.clause he)

theorem grows_whileStatement (hg : g.Grows G n) :
    MakesIn env (whileStatement g) fun s => G.Holds env.context n s.tree := by
  refine .skip fun start => .skip fun _ => .bind (grows_condition hg) fun test htest => ?_
  refine .bind hg.statement fun body hbody => .skip fun span => .ret ?_
  refine G.places rfl ?_
  simp [NodeType.holdsStatements, htest, hbody]

theorem grows_doStatement (hg : g.Grows G n) :
    MakesIn env (doStatement g) fun s => G.Holds env.context n s.tree := by
  refine .skip fun start => .skip fun _ => .bind hg.statement fun body hbody => ?_
  refine .skip fun _ => .bind (grows_condition hg) fun test htest => ?_
  refine .skip fun _ => .skip fun span => .ret ?_
  refine G.places rfl ?_
  simp [NodeType.holdsStatements, htest, hbody]

theorem grows_jumpStatement {make : Span → Option Ident → Stmt}
    (hmake : ∀ span label, G.Holds env.context n (make span label).tree) :
    MakesIn env (jumpStatement make) fun s => G.Holds env.context n s.tree :=
  .skip fun _ => .skip fun _ => .skip fun _ => .skip fun _ => .skip fun _ => .ret (hmake _ _)

/-- A `return`, which stands only where the context allows it. -/
theorem grows_returnStatement (hg : g.Grows G n) :
    MakesIn env (returnStatement g) fun s => G.Holds env.context n s.tree := by
  refine .skip fun start => .read ?_
  split
  · exact .failHere
  next hreturn =>
  have hreturns : env.context.returns = true := by
    show (env.inFunction || env.options.allowReturn) = true
    cases hfunction : env.inFunction with
    | true => rfl
    | false => simpa [hfunction] using hreturn
  refine .skip fun _ => ?_
  refine .bind (Q := fun e? => ∀ t ∈ nodes e?, G.Holds env.context n t) ?_
    fun argument hargument => ?_
  · refine .skip fun b => .skip fun b' => ?_
    split
    · exact .ret nofun
    · exact .bind (grows_clause hg) fun e he => .ret (by simpa using he)
  · exact .skip fun _ => .skip fun span => .ret (G.returns hreturns hargument)

theorem grows_throwStatement (hg : g.Grows G n) :
    MakesIn env (throwStatement g) fun s => G.Holds env.context n s.tree := by
  refine .skip fun start => .skip fun _ => .skip fun t => ?_
  split
  · exact .failHere
  refine .bind (grows_clause hg) fun e he => ?_
  refine .skip fun _ => .skip fun span => .ret ?_
  exact G.plain rfl (fun _ => rfl) (by simpa using he)

theorem grows_catchClause (hg : g.Grows G n) :
    MakesIn env (catchClause g) fun s => G.Holds env.context n s.tree := by
  refine .skip fun start => .skip fun _ => ?_
  refine .bind (Q := fun p? => (∀ t ∈ nodes p?, t.IsPattern false .whole) ∧
      ∀ t ∈ nodes p?, G.Holds env.context n t)
    (.ask ?_ (.ret ⟨nofun, nofun⟩)) fun param ⟨hbinds, hparam⟩ => ?_
  · refine .bind ((hg.binds env).and hg.pattern) fun p hp => .skip fun _ => .ret ?_
    simpa using And.intro hp.1 (G.clause hp.2)
  · refine .bind (grows_block hg) fun body hbody => .skip fun span => .ret ?_
    refine G.handler hbinds ?_
    cases param with
    | none => simp [Tree.parts, CatchClause.tree, hbody]
    | some p => simpa [Tree.parts, CatchClause.tree, hbody] using hparam

theorem grows_tryStatement (hg : g.Grows G n) :
    MakesIn env (tryStatement g) fun s => G.Holds env.context n s.tree := by
  refine .skip fun start => .skip fun _ => .bind (grows_block hg) fun body hbody => ?_
  refine .bind (.optional (grows_catchClause hg).nodes) fun handler hhandler => ?_
  refine .bind (.optional (grows_block hg).nodes) fun finalizer hfinalizer => ?_
  split
  · exact .failHere
  · refine .skip fun span => .ret (G.plain rfl (fun _ => rfl) ?_)
    simpa [hbody, or_imp, forall_and] using ⟨hhandler, hfinalizer⟩

theorem grows_expressionStatement (hg : g.Grows G n) :
    MakesIn env (expressionStatement g) fun s => G.Holds env.context n s.tree := by
  refine .skip fun start => .bind (grows_clause hg) fun e he => ?_
  refine .skip fun _ => .skip fun span => .ret ?_
  exact G.plain rfl (fun _ => rfl) (by simpa using he)

theorem grows_labeledStatement (hg : g.Grows G n) :
    MakesIn env (labeledStatement g) fun s => G.Holds env.context n s.tree := by
  refine .skip fun start => .skip fun label => .skip fun _ => ?_
  refine .bind hg.statement fun body hbody => .skip fun span => .ret ?_
  refine G.places rfl ?_
  simp [NodeType.holdsStatements, G.ident label, hbody]

/-! ### Modules -/

theorem grows_stringLiteral (G : Growth) (k : Context) (n : Nat) :
    MakesIn env stringLiteral fun e => G.Holds k n e.tree := by
  refine .skip fun t => ?_
  split
  · exact .skip fun _ => .ret (G.leaf rfl rfl)
  · exact .unexpected

/-- What an import or an export names. -/
theorem grows_importSpecifier (s : ImportSpecifier) : G.Holds k n s.tree := by
  cases s with
  | default s b | star s b =>
    exact G.plain rfl (fun _ => rfl) (by simp [G.ident b])
  | named s i b =>
    exact G.plain rfl (fun _ => rfl) (by simp [G.ident i, G.ident b])

theorem grows_exportSpecifier (s : ExportSpecifier) : G.Holds k n s.tree :=
  G.plain rfl (fun _ => rfl) (by simp [G.ident s.binding, G.ident s.exported])

theorem grows_importDeclaration (G : Growth) (k : Context) (n : Nat) :
    MakesIn env importDeclaration fun s => G.Holds k n s.tree := by
  have hrest (start : Nat) (ss : List ImportSpecifier) : MakesIn env (do
      let source ← stringLiteral
      semicolon
      return Stmt.importDecl (← finish start) ss source) fun s => G.Holds k n s.tree := by
    refine .bind (grows_stringLiteral G k n) fun source hsource => .skip fun _ => ?_
    refine .skip fun span => .ret (G.plain rfl (fun _ => rfl) ?_)
    simpa [or_imp, forall_and, hsource] using G.each grows_importSpecifier ss
  refine .skip fun start => .skip fun _ => .skip fun _ => .skip fun ss => ?_
  split
  · exact hrest start ss
  · exact .skip fun _ => hrest start ss

theorem grows_exportedDefault (hg : g.Grows G n) :
    MakesIn env (exportedDefault g) fun d => G.Holds env.context (n + G.slack) d.tree := by
  have hle : n ≤ n + G.slack := Nat.le_add_right _ _
  refine .skip fun start => .ask ?_ (.skip fun isAsync => .skip fun follows => ?_)
  · exact .bind (grows_function hg _ _ _) fun f hf => .ret (grows_func hf (by decide))
  split
  · exact .skip fun _ => .bind (grows_function hg _ _ _) fun f hf =>
      .ret (grows_func hf (by decide))
  refine .ask ?_ ?_
  · exact .bind (grows_classDef hg (grows_leftHandSide hg) _ _) fun d hd => .ret (G.clause hd.2)
  · exact .bind (hg.assignmentIn true) fun e he => .skip fun _ => .ret (G.mono (G.clause he) hle)

/-- An export adds no level to the declaration it holds. -/
theorem grows_exportDeclaration (hg : g.Grows G n) :
    MakesIn env (exportDeclaration g) fun s => G.Holds env.context (n + G.slack) s.tree := by
  have hle : n ≤ n + G.slack := Nat.le_add_right _ _
  -- six words start a declaration, and all of them are read alike
  have hdeclared (start : Nat) : MakesIn env (do
      let declaration ← g.statement
      return Stmt.exportNamed (← finish start) (some declaration) [] none) fun s =>
        G.Holds env.context (n + G.slack) s.tree := by
    refine .bind hg.statement fun s hs => .skip fun span => .ret (G.mono ?_ hle)
    refine G.places rfl ?_
    simp [NodeType.holdsStatements, hs]
  refine .skip fun start => .skip fun _ => .skip fun _ => .skip fun k => ?_
  split
  · refine .skip fun _ => .bind (grows_exportedDefault hg) fun d hd => .skip fun span => .ret ?_
    exact G.plain rfl (fun _ => rfl) (by simpa using hd)
  · refine .skip fun _ => .skip fun name => .skip fun _ => ?_
    refine .bind (grows_stringLiteral G env.context n) fun source hsource => .skip fun _ => ?_
    refine .skip fun span => .ret (G.mono ?_ hle)
    refine G.plain rfl (fun _ => rfl) ?_
    simpa [or_imp, forall_and, hsource] using G.optionalIdent name
  · refine .skip fun _ => .skip fun ss => .skip fun _ => ?_
    refine .bind (.optional (grows_stringLiteral G env.context n).nodes) fun source hsource => ?_
    refine .skip fun _ => .skip fun span => .ret (G.mono ?_ hle)
    refine G.places rfl ?_
    simpa [NodeType.holdsStatements] using ⟨G.each grows_exportSpecifier ss, hsource⟩
  · exact hdeclared start
  · exact hdeclared start
  · exact hdeclared start
  · exact hdeclared start
  · exact hdeclared start
  · exact hdeclared start
  · exact .unexpected

/-! ### All statements -/

theorem grows_nameStatement (hg : g.Grows G n) :
    MakesIn env (nameStatement g) fun s => G.Holds env.context n s.tree := by
  refine .skip fun next => ?_
  split
  · exact grows_labeledStatement hg
  · exact grows_expressionStatement hg

/-- A statement holds within the slack, one case for each kind of first token. -/
theorem grows_anyStatement (hg : g.Grows G n) :
    MakesIn env (anyStatement g) fun s => G.Holds env.context (n + G.slack) s.tree := by
  have hle : n ≤ n + G.slack := Nat.le_add_right _ _
  -- most statements take no slack
  have more {p : Parse Stmt} (h : MakesIn env p fun s => G.Holds env.context n s.tree) :
      MakesIn env p fun s => G.Holds env.context (n + G.slack) s.tree :=
    h.mono fun s hs => G.mono hs hle
  refine .skip fun t => ?_
  dsimp only
  split
  · exact more (grows_varStatement hg)
  · exact more (grows_varStatement hg)
  · exact .ask (more (grows_varStatement hg)) (more (grows_nameStatement hg))
  · refine .ask (.skip fun _ => .bind (grows_function hg _ _ _) fun f hf => .ret ?_)
      (more (grows_nameStatement hg))
    exact grows_func hf (by decide)
  · exact more (grows_nameStatement hg)
  · exact .bind (grows_function hg _ _ _) fun f hf => .ret (grows_func hf (by decide))
  · exact .bind (grows_classDef hg (grows_leftHandSide hg) _ _) fun d hd => .ret (G.clause hd.2)
  · exact more (grows_ifStatement hg)
  · exact more (grows_switchStatement hg)
  · exact more (grows_forStatement hg)
  · exact more (grows_whileStatement hg)
  · exact more (grows_doStatement hg)
  · exact more (grows_jumpStatement fun span label => G.plain rfl (fun _ => rfl)
      (by simpa using G.optionalIdent label))
  · exact more (grows_jumpStatement fun span label => G.plain rfl (fun _ => rfl)
      (by simpa using G.optionalIdent label))
  · exact more (grows_returnStatement hg)
  · exact more (grows_throwStatement hg)
  · exact more (grows_tryStatement hg)
  · exact .skip fun _ => .skip fun _ => .skip fun span => .ret (G.leaf rfl rfl)
  · exact .failHere
  · exact more (.bind (grows_block hg) fun b hb => .ret hb)
  · exact .skip fun _ => .skip fun span => .ret (G.leaf rfl rfl)
  · refine .skip fun next => ?_
    split
    · exact more (grows_expressionStatement hg)
    · exact grows_importDeclaration G _ _
  · exact grows_exportDeclaration hg
  · exact more (grows_expressionStatement hg)

/-! ### Grammars -/

/-- What the readers of a grammar make has a property at the level of the grammar. -/
theorem grows_ofDepth (G : Growth) (depth : Nat) : (ofDepth depth).Grows G depth := by
  induction depth with
  | zero =>
    have hrefuse {α : Type} {env : Env} {Q : α → Prop} :
        MakesIn env (failHere .tooDeep : Parse α) Q := .failHere
    exact ⟨hrefuse, hrefuse, hrefuse, hrefuse, hrefuse, hrefuse, binds_ofDepth 0⟩
  | succ depth ih =>
    have hle : depth + G.slack ≤ depth + 1 := Nat.add_le_add_left G.slack_le depth
    exact
      { statement := (grows_anyStatement ih).mono fun s hs => G.stands hs
        pattern := (grows_bindingPattern ih).mono fun p hp => G.mono hp (Nat.le_succ depth)
        assignment := (grows_assignmentExpr ih).mono fun e he => G.mono he hle
        power := (grows_binary ih _).mono fun e he => G.mono he hle
        operand := (grows_unary ih).mono fun e he => G.mono he hle
        creation := (grows_construct ih (grows_leftHandSide ih)).mono fun e he => G.mono he hle
        binds := binds_ofDepth (depth + 1) }

end Grammar

/-- What is allowed outside all functions. -/
def ParserOptions.context (options : ParserOptions) : Context :=
  ⟨options.allowReturn, options.isModule, false⟩

/-- **Properties that grow with the tree hold of accepted programs.** The program has the property
in the context that the options make and at the level of the whole grammar. -/
theorem Growth.of_parse (G : Growth) {source : String} {options : ParserOptions} {p : Program}
    (h : Program.parse source options = .ok p) :
    G.Holds options.context Grammar.maxDepth p.tree := by
  unfold Program.parse at h
  obtain ⟨body, hbody, h⟩ := exists_of_bind_eq_ok h
  cases h
  have hgrows : Grammar.full.Grows G Grammar.maxDepth := Grammar.grows_ofDepth G _
  have hstatements : ∀ t ∈ nodes body, G.Stands options.context Grammar.maxDepth t :=
    (MakesIn.itemsUntil _ hgrows.statement.nodes).of_run hbody
  refine G.places rfl ?_
  simpa [NodeType.holdsStatements] using hstatements

/-- And they hold of expressions that are whole sources. -/
theorem Growth.of_parse_expr (G : Growth) {source : String} {e : Expr}
    (h : Expr.parse source = .ok e) :
    G.Holds (ParserOptions.context {}) Grammar.maxDepth e.tree := by
  have hgrows : Grammar.full.Grows G Grammar.maxDepth := Grammar.grows_ofDepth G _
  have hwhole {env : Env} :
      MakesIn env wholeExpression fun e => G.Holds env.scope Grammar.maxDepth e.tree :=
    .bind (Grammar.grows_expression hgrows) fun e he => .ask (.ret he) .unexpected
  exact G.clause (hwhole.of_run h)

end Espalier
