import Espalier.Proofs.Grammar.Statement
import Espalier.Proofs.Spacing.Expression

/-!
# Blanks in statements

Every reader of statements follows itself if the readers of the grammar do, and so do the readers of
the grammar at every depth (`tracked_ofDepth`). Words such as `let` and `async` are told apart by
the token behind them, which is the same for twins.
-/

namespace Espalier.Grammar

open Parse Token

variable {i : Insertion} {g : Grammar} {env : Env} {s s' : State}

/-- Looking behind `let` moves nothing. -/
theorem gives_letStartsDeclaration (env : Env) (s : State) :
    Gives letStartsDeclaration env s fun _ s₁ => s₁ = s := by
  intro b s₁ h
  obtain ⟨b₀, h₀⟩ := letStartsDeclaration_eq_ok env s
  cases h₀.symm.trans h
  rfl

/-! ### Declarations -/

/-- What is seen behind `let` is the same on both sides. -/
theorem follows_letStartsDeclaration (hk : s.current.token.kind.IsWord) :
    Follows i env s s' letStartsDeclaration letStartsDeclaration := by
  refine .peek hk fun _ _ _ _ _ _ => ?_
  dsimp only
  split <;> exact .ret (.refl _)

theorem follows_functionFollows (hk : s.current.token.kind.IsWord) :
    Follows i env s s' functionFollows functionFollows :=
  .peek hk fun _ _ _ _ _ _ => .ret (.refl _)

theorem tracks_declarator (hg : g.Tracked i) : Tracks i (declarator g) (declarator g) := by
  intro env s s'
  refine .start fun _ _ => .bind (hg.pattern env s s') fun id id' hid s₁ s₁' => ?_
  refine .bind (α := Option Expr) ?_ fun init init' hinit _ _ => ?_
  · refine .cond (tracks_eat _ env s₁ s₁') (fun s₂ s₂' => ?_) fun _ _ => .ret (.refl none)
    exact .bind (hg.assignment env s₂ s₂') fun e e' he _ _ => .ret he.some
  · exact .finish fun _ _ => .ret (by simp_all)

/-- A declaration of variables, of which the current token is the word in front. -/
theorem follows_declaration (hg : g.Tracked i) (hk : s.current.token.kind.IsSolid) :
    Follows i env s s' (declaration g) (declaration g) := by
  refine .advance hk fun k span span' newline s₁' _ => ?_
  refine .bind (tracks_declarator hg env _ s₁') fun first first' hfirst s₂ s₂' => ?_
  refine .bind (tracks_itemsAfterCommas (hfirst.cons (.refl [])) (tracks_declarator hg) env s₂ s₂')
    fun ds ds' hds _ _ => .finish fun _ _ => .ret ?_
  have hbare : declaratorsWithoutSpans ds = declaratorsWithoutSpans ds' := by simpa using hds
  exact congrArg (VarDecl.mk _ · .forgotten) hbare

theorem follows_varStatement (hg : g.Tracked i) (hk : s.current.token.kind.IsSolid) :
    Follows i env s s' (varStatement g) (varStatement g) := by
  refine .bind (follows_declaration hg hk) fun decl decl' hdecl s₁ s₁' => ?_
  refine .bind (tracks_semicolon env s₁ s₁') fun _ _ _ _ _ => ?_
  obtain ⟨kind, ds, span⟩ := decl
  obtain ⟨kind', ds', span'⟩ := decl'
  exact .finish fun _ _ => .ret (by simp_all)

/-! ### Control flow -/

theorem tracks_condition (hg : g.Tracked i) : Tracks i (condition g) (condition g) := by
  intro env s s'
  refine .bind (tracks_expect _ env s s') fun _ _ _ s₁ s₁' => ?_
  refine .bind ((tracks_expression hg).withIn true env s₁ s₁') fun e e' he s₂ s₂' => ?_
  exact .bind (tracks_expect _ env s₂ s₂') fun _ _ _ _ _ => .ret he

theorem tracks_unlessAt {α : Type} [Bare α] (stop : Punct) {p p' : Parse α} (h : Tracks i p p') :
    Tracks i (unlessAt stop p) (unlessAt stop p') := by
  intro env s s'
  refine .ask (observes_isPunct _) (fun _ => .ret (.refl none)) fun _ => ?_
  exact .bind (h env s s') fun a a' ha _ _ => .ret ha.some

theorem tracks_ifStatement (hg : g.Tracked i) : Tracks i (ifStatement g) (ifStatement g) := by
  intro env s s'
  refine .start fun _ _ => .bind (tracks_expectKey _ env s s') fun _ _ _ s₁ s₁' => ?_
  refine .bind (tracks_condition hg env s₁ s₁') fun test test' htest s₂ s₂' => ?_
  refine .bind (hg.statement env s₂ s₂') fun c c' hc s₃ s₃' => ?_
  refine .bind (α := Option Stmt) ?_ fun a a' ha _ _ => ?_
  · refine .cond (tracks_eatKey _ env s₃ s₃') (fun s₄ s₄' => ?_) fun _ _ => .ret (.refl none)
    exact .bind (hg.statement env s₄ s₄') fun a a' ha _ _ => .ret ha.some
  · exact .finish fun _ _ => .ret (by simp_all)

theorem tracks_switchCase (hg : g.Tracked i) (hasDefault : Bool) :
    Tracks i (switchCase g hasDefault) (switchCase g hasDefault) := by
  intro env s s'
  refine .start fun _ _ => .bind (α := Option Expr) ?_ fun test test' htest s₁ s₁' => ?_
  · refine .cond (tracks_eatKey _ env s s') (fun s₁ s₁' => ?_) fun s₁ s₁' => ?_
    · exact .bind ((tracks_expression hg).withIn true env s₁ s₁') fun e e' he _ _ => .ret he.some
    refine .ask (observes_isKey _) (fun h => .ite (fun _ => .failHere) fun _ => ?_)
      fun _ => .unexpected
    exact .advance (Kind.isSolid_of_isKey h) fun _ _ _ _ _ _ => .ret (.refl none)
  refine .bind (tracks_expect _ env s₁ s₁') fun _ _ _ s₂ s₂' => ?_
  refine .bind (tracks_itemsUntil _ hg.statement env s₂ s₂') fun body body' hbody _ _ => ?_
  exact .finish fun _ _ => .ret (by simp_all)

/-- Cases that are alike have a default or both have none. -/
theorem any_test_isNone {cases cases' : List SwitchCase} (h : Alike cases cases') :
    (cases'.any (·.test.isNone)) = cases.any (·.test.isNone) := by
  have hbare : ∀ cs : List SwitchCase,
      ((cs.map SwitchCase.withoutSpans).any (·.test.isNone)) = cs.any (·.test.isNone) := by
    intro cs
    rw [List.any_map]
    congr 1
    funext c
    obtain ⟨test, body, span⟩ := c
    cases test <;> rfl
  rw [← hbare cases, ← hbare cases', show cases.map SwitchCase.withoutSpans = _ from h]
  rfl

theorem tracks_switchStatement (hg : g.Tracked i) :
    Tracks i (switchStatement g) (switchStatement g) := by
  intro env s s'
  refine .start fun _ _ => .bind (tracks_expectKey _ env s s') fun _ _ _ s₁ s₁' => ?_
  refine .bind (tracks_condition hg env s₁ s₁') fun e e' he s₂ s₂' => ?_
  refine .bind (tracks_expect _ env s₂ s₂') fun _ _ _ s₃ s₃' => ?_
  refine .bind (tracks_repeatFrom (fun cs cs' hcs env s s' => ?_) (.refl []) env s₃ s₃')
    fun cs cs' hcs s₄ s₄' => ?_
  · refine .observe observes_kind fun k _ => .ite (fun _ => .ret hcs.last) fun _ => ?_
    rw [any_test_isNone hcs]
    exact .bind (tracks_switchCase hg _ env s s') fun c c' hc _ _ => .ret (hc.cons hcs).again
  · refine .bind (tracks_expect _ env s₄ s₄') fun _ _ _ _ _ => ?_
    exact .finish fun _ _ => .ret (by simp_all)

/-- A loop over values or keys, of which the current token stands between its head and what it runs
over. -/
theorem follows_forEach (hg : g.Tracked i) (start start' : Nat) {left left' : ForHead}
    (hleft : Alike left left') (isAwait : Bool) (hk : s.current.token.kind.IsSolid) :
    Follows i env s s' (forEach g start left isAwait) (forEach g start' left' isAwait) := by
  refine .observe (observes_isName _) fun isOf _ => .advance hk fun _ _ _ _ s₁' _ => ?_
  have hright : Tracks i (if isOf = true then g.assignment else expression g)
      (if isOf = true then g.assignment else expression g) :=
    fun env s s' => .ite (fun _ => hg.assignment env s s') fun _ => tracks_expression hg env s s'
  refine .bind (hright.withIn true env _ s₁') fun right right' hr s₂ s₂' => ?_
  refine .bind (tracks_expect _ env s₂ s₂') fun _ _ _ s₃ s₃' => ?_
  refine .bind (hg.statement env s₃ s₃') fun body body' hbody _ _ => .finish fun _ _ => .ret ?_
  cases isOf <;> simp_all

theorem tracks_forRest (hg : g.Tracked i) (start start' : Nat) {init init' : Option ForInit}
    (hinit : Alike init init') : Tracks i (forRest g start init) (forRest g start' init') := by
  intro env s s'
  refine .bind (tracks_expect _ env s s') fun _ _ _ s₁ s₁' => ?_
  refine .bind (tracks_unlessAt _ ((tracks_expression hg).withIn true) env s₁ s₁')
    fun test test' htest s₂ s₂' => ?_
  refine .bind (tracks_expect _ env s₂ s₂') fun _ _ _ s₃ s₃' => ?_
  refine .bind (tracks_unlessAt _ ((tracks_expression hg).withIn true) env s₃ s₃')
    fun update update' hupdate s₄ s₄' => ?_
  refine .bind (tracks_expect _ env s₄ s₄') fun _ _ _ s₅ s₅' => ?_
  refine .bind (hg.statement env s₅ s₅') fun body body' hbody _ _ => ?_
  exact .finish fun _ _ => .ret (by simp_all)

/-- Whether a loop declares its variables, which `let` only does in front of some tokens. -/
theorem follows_declares {k : Kind} (hk : s.current.token.kind = k) : Follows i env s s'
    (do
      if k.isName "let" then letStartsDeclaration
      else return k.isKey .varKw || k.isKey .constKw)
    (do
      if k.isName "let" then letStartsDeclaration
      else return k.isKey .varKw || k.isKey .constKw) :=
  .ite (fun h => follows_letStartsDeclaration (hk ▸ Kind.isWord_of_isName h))
    fun _ => .ret (.refl _)

theorem observes_atForEach : Observes atForEach fun k _ => k.isName "of" || k.isKey .inKw :=
  fun _ _ => rfl

/-- Each of the three loops is read alike. -/
theorem tracks_forStatement (hg : g.Tracked i) : Tracks i (forStatement g) (forStatement g) := by
  intro env s s'
  refine .start fun start start' => .bind (tracks_expectKey _ env s s') fun _ _ _ s₁ s₁' => ?_
  refine .bind (α := Bool) ?_ fun isAwait isAwait' h s₂ s₂' => ?_
  · exact .read (.ite (fun _ => tracks_eatName _ env s₁ s₁') fun _ => .ret (.refl false))
  obtain rfl : isAwait = isAwait' := h
  refine .bind (tracks_expect _ env s₂ s₂') fun _ _ _ s₃ s₃' => ?_
  refine .ask (observes_isPunct _) (fun _ => ?_) fun _ => ?_
  · exact tracks_forRest hg start start' (.refl none) env s₃ s₃'
  refine .observe observes_kind fun k hk => ?_
  refine .bindAt (follows_declares hk) fun declares declares' s₄ s₄' hdeclares h => ?_
  -- both sides see the same word, so both read a declaration or both an expression
  obtain rfl : declares = declares' := h
  refine .ite (fun h => ?_) fun _ => ?_
  · subst hk
    obtain ⟨declares₀, hdeclares₀, hsolid⟩ := asks_declares env s₃
    cases hdeclares₀.symm.trans hdeclares
    refine .bind (.withIn (follows_declaration hg (hsolid h))) fun decl decl' hdecl s₅ s₅' => ?_
    refine .ask observes_atForEach (fun h => ?_) fun _ => ?_
    · -- one declarator is allowed in front of `of` and `in`, and both sides have as many
      have hlength : decl'.declarations.length = decl.declarations.length := by
        obtain ⟨kind, ds, span⟩ := decl
        obtain ⟨kind', ds', span'⟩ := decl'
        simpa using (congrArg (·.declarations.length) hdecl).symm
      rw [hlength]
      refine .ite (fun _ => .fail) fun _ => ?_
      exact follows_forEach hg start start' (by simp_all) isAwait (isSolid_of_atForEach h)
    · exact tracks_forRest hg start start' (by simp_all) env s₅ s₅'
  · refine .bind ((tracks_expression hg).withIn false env s₄ s₄') fun e e' he s₅ s₅' => ?_
    refine .ask observes_atForEach (fun h => ?_) fun _ => ?_
    · refine .bindStill (.ofExcept (Alike.toPattern he)) (.ofExcept fun _ _ => rfl)
        fun p p' hp s₅' => ?_
      exact follows_forEach hg start start' (by simp_all) isAwait (isSolid_of_atForEach h)
    · exact tracks_forRest hg start start' (by simp_all) env s₅ s₅'

theorem tracks_whileStatement (hg : g.Tracked i) :
    Tracks i (whileStatement g) (whileStatement g) := by
  intro env s s'
  refine .start fun _ _ => .bind (tracks_expectKey _ env s s') fun _ _ _ s₁ s₁' => ?_
  refine .bind (tracks_condition hg env s₁ s₁') fun test test' htest s₂ s₂' => ?_
  refine .bind (hg.statement env s₂ s₂') fun body body' hbody _ _ => ?_
  exact .finish fun _ _ => .ret (by simp_all)

theorem tracks_doStatement (hg : g.Tracked i) : Tracks i (doStatement g) (doStatement g) := by
  intro env s s'
  refine .start fun _ _ => .bind (tracks_expectKey _ env s s') fun _ _ _ s₁ s₁' => ?_
  refine .bind (hg.statement env s₁ s₁') fun body body' hbody s₂ s₂' => ?_
  refine .bind (tracks_expectKey _ env s₂ s₂') fun _ _ _ s₃ s₃' => ?_
  refine .bind (tracks_condition hg env s₃ s₃') fun test test' htest s₄ s₄' => ?_
  refine .bind (tracks_eat _ env s₄ s₄') fun _ _ _ _ _ => ?_
  exact .finish fun _ _ => .ret (by simp_all)

/-- A jump, of which the current token is the word in front. -/
theorem follows_jumpStatement {make : Span → Option Ident → Stmt}
    (hmake : ∀ span span' label label', Alike label label' →
      Alike (make span label) (make span' label')) (hk : s.current.token.kind.IsSolid) :
    Follows i env s s' (jumpStatement make) (jumpStatement make) := by
  refine .start fun _ _ => .advance hk fun _ _ _ _ s₁' _ => ?_
  refine .bind (α := Option Ident) ?_ fun label label' hlabel s₂ s₂' => ?_
  · refine .observe observes_isAnyName fun _ _ => .token fun _ _ _ _ _ => ?_
    refine .ite (fun _ => ?_) fun _ => .ret (.refl none)
    exact .bind (tracks_bindingName env _ s₁') fun name name' h _ _ => .ret h.some
  refine .bind (tracks_semicolon env s₂ s₂') fun _ _ _ _ _ => ?_
  exact .finish fun _ _ => .ret (hmake _ _ _ _ hlabel)

theorem follows_returnStatement (hg : g.Tracked i) (hk : s.current.token.kind.IsSolid) :
    Follows i env s s' (returnStatement g) (returnStatement g) := by
  refine .start fun _ _ => .read (.ite (fun _ => .failHere) fun _ => ?_)
  refine .advance hk fun _ _ _ _ s₁' _ => ?_
  refine .bind (α := Option Expr) ?_ fun e e' he s₂ s₂' => ?_
  · refine .observe (observes_isPunct _) fun _ _ => .observe observes_atImplicitEnd fun _ _ => ?_
    refine .ite (fun _ => .ret (.refl none)) fun _ => ?_
    exact .bind ((tracks_expression hg).withIn true env _ s₁') fun e e' he _ _ => .ret he.some
  refine .bind (tracks_semicolon env s₂ s₂') fun _ _ _ _ _ => ?_
  exact .finish fun _ _ => .ret (by simp_all)

theorem follows_throwStatement (hg : g.Tracked i) (hk : s.current.token.kind.IsSolid) :
    Follows i env s s' (throwStatement g) (throwStatement g) := by
  refine .start fun _ _ => .advance hk fun _ _ _ _ s₁' _ => .token fun _ _ _ _ _ => ?_
  refine .ite (fun _ => .failHere) fun _ => ?_
  refine .bind ((tracks_expression hg).withIn true env _ s₁') fun e e' he s₂ s₂' => ?_
  refine .bind (tracks_semicolon env s₂ s₂') fun _ _ _ _ _ => ?_
  exact .finish fun _ _ => .ret (by simp_all)

theorem tracks_catchClause (hg : g.Tracked i) : Tracks i (catchClause g) (catchClause g) := by
  intro env s s'
  refine .start fun _ _ => .bind (tracks_expectKey _ env s s') fun _ _ _ s₁ s₁' => ?_
  refine .bind (α := Option Pattern) ?_ fun param param' hparam s₂ s₂' => ?_
  · refine .cond (tracks_eat _ env s₁ s₁') (fun s₂ s₂' => ?_) fun _ _ => .ret (.refl none)
    refine .bind (hg.pattern env s₂ s₂') fun p p' hp s₃ s₃' => ?_
    exact .bind (tracks_expect _ env s₃ s₃') fun _ _ _ _ _ => .ret hp.some
  refine .bind (tracks_block hg env s₂ s₂') fun body body' hbody _ _ => ?_
  exact .finish fun _ _ => .ret (by simp_all)

theorem tracks_tryStatement (hg : g.Tracked i) : Tracks i (tryStatement g) (tryStatement g) := by
  intro env s s'
  refine .start fun _ _ => .bind (tracks_expectKey _ env s s') fun _ _ _ s₁ s₁' => ?_
  refine .bind (tracks_block hg env s₁ s₁') fun body body' hbody s₂ s₂' => ?_
  refine .bind (α := Option CatchClause) ?_ fun handler handler' hhandler s₃ s₃' => ?_
  · refine .ask (observes_isKey _) (fun _ => ?_) fun _ => .ret (.refl none)
    exact .bind (tracks_catchClause hg env s₂ s₂') fun c c' hc _ _ => .ret hc.some
  refine .bind (α := Option Block) ?_ fun finalizer finalizer' hfinalizer s₄ s₄' => ?_
  · refine .cond (tracks_eatKey _ env s₃ s₃') (fun s₄ s₄' => ?_) fun _ _ => .ret (.refl none)
    exact .bind (tracks_block hg env s₄ s₄') fun b b' hb _ _ => .ret hb.some
  rw [Alike.isNone hhandler, Alike.isNone hfinalizer]
  exact .ite (fun _ => .failHere) fun _ => .finish fun _ _ => .ret (by simp_all)

theorem tracks_expressionStatement (hg : g.Tracked i) :
    Tracks i (expressionStatement g) (expressionStatement g) := by
  intro env s s'
  refine .start fun _ _ => ?_
  refine .bind ((tracks_expression hg).withIn true env s s') fun e e' he s₁ s₁' => ?_
  refine .bind (tracks_semicolon env s₁ s₁') fun _ _ _ _ _ => ?_
  exact .finish fun _ _ => .ret (by simp_all)

/-- A label and its statement, of which the current token is the label and the next one a colon. -/
theorem follows_labeledStatement (hg : g.Tracked i)
    (hcolon : s.next.current.token.kind.isPunct .colon = true) :
    Follows i env s s' (labeledStatement g) (labeledStatement g) := by
  refine .start fun _ _ => ?_
  refine .bindAt (tracks_bindingName env s s') fun label label' s₁ s₁' heq hlabel => ?_
  obtain rfl := gives_bindingName env s label s₁ heq
  refine .advance (Kind.isSolid_of_isPunct hcolon) fun _ _ _ _ s₂' _ => ?_
  refine .bind (hg.statement env _ s₂') fun body body' hbody _ _ => ?_
  exact .finish fun _ _ => .ret (by simp_all)

/-! ### Modules -/

theorem tracks_requireModule : Tracks i requireModule requireModule := fun _ _ _ =>
  .read (.ite (fun _ => .ret (.refl ())) fun _ => .failHere)

theorem tracks_importSpecifier : Tracks i importSpecifier importSpecifier := by
  intro env s s'
  refine .start fun _ _ => ?_
  refine .bind (tracks_identifierName env s s') fun imported imported' himported s₁ s₁' => ?_
  refine .bind (α := Ident) ?_ fun binding binding' hbinding _ _ => ?_
  · exact .cond (tracks_eatName _ env s₁ s₁') (fun s₂ s₂' => tracks_bindingName env s₂ s₂')
      fun _ _ => .ret himported
  · exact .finish fun _ _ => .ret (by simp_all)

theorem tracks_importClause : Tracks i importClause importClause := by
  intro env s s'
  refine .start fun _ _ => ?_
  refine .cond (tracks_eat _ env s s') (fun s₁ s₁' => ?_) fun s₁ s₁' => ?_
  · refine .bind (tracks_expectName _ env s₁ s₁') fun _ _ _ s₂ s₂' => ?_
    refine .bind (tracks_bindingName env s₂ s₂') fun binding binding' h _ _ => ?_
    exact .finish fun _ _ => .ret (by simp_all)
  refine .cond (tracks_eat _ env s₁ s₁') (fun s₂ s₂' => ?_) fun _ _ => .ret (.refl [])
  refine .bind (tracks_itemsBefore _ (fun env s s' => ?_) env s₂ s₂') fun ss ss' hss s₃ s₃' => ?_
  · exact .bind (tracks_importSpecifier env s s') fun x x' hx _ _ => .ret (by simp_all)
  · exact .bind (tracks_expect _ env s₃ s₃') fun _ _ _ _ _ => .ret hss

theorem tracks_importSpecifiers : Tracks i importSpecifiers importSpecifiers := by
  intro env s s'
  refine .observe observes_kind fun k _ => ?_
  split
  · exact .ret (.refl [])
  · refine .bind (tracks_bindingName env s s') fun binding binding' hbinding s₁ s₁' => ?_
    have hdefault : Alike (ImportSpecifier.default binding.span binding)
      (.default binding'.span binding') := by simp_all
    refine .cond (tracks_eat _ env s₁ s₁') (fun s₂ s₂' => ?_)
      fun _ _ => .ret (hdefault.cons (.refl []))
    exact .bind (tracks_importClause env s₂ s₂') fun ss ss' hss _ _ => .ret (hdefault.cons hss)
  · exact tracks_importClause env s s'

/-- The module that an import or export names, and the end of the statement. -/
theorem tracks_moduleName (make make' : Span → Expr → Stmt)
    (hmake : ∀ span span' e e', Alike e e' → Alike (make span e) (make' span' e'))
    (start start' : Nat) : Tracks i
      (do
        let source ← stringLiteral
        semicolon
        return make (← finish start) source)
      (do
        let source ← stringLiteral
        semicolon
        return make' (← finish start') source) := by
  intro env s s'
  refine .bind (tracks_stringLiteral env s s') fun source source' h s₁ s₁' => ?_
  refine .bind (tracks_semicolon env s₁ s₁') fun _ _ _ _ _ => ?_
  exact .finish fun _ _ => .ret (hmake _ _ _ _ h)

theorem tracks_importDeclaration : Tracks i importDeclaration importDeclaration := by
  intro env s s'
  refine .start fun start start' => ?_
  refine .bind (tracks_requireModule env s s') fun _ _ _ s₁ s₁' => ?_
  refine .bind (tracks_expectKey _ env s₁ s₁') fun _ _ _ s₂ s₂' => ?_
  refine .bind (tracks_importSpecifiers env s₂ s₂') fun ss ss' hss s₃ s₃' => ?_
  have hempty : ss'.isEmpty = ss.isEmpty := by
    simpa using (congrArg List.isEmpty hss).symm
  have hrest : Tracks i _ _ := tracks_moduleName (.importDecl · ss ·) (.importDecl · ss' ·)
    (by simp_all) start start'
  rw [hempty]
  refine .ite (fun _ => hrest env s₃ s₃') fun _ => ?_
  exact .bind (tracks_expectName _ env s₃ s₃') fun _ _ _ s₄ s₄' => hrest env s₄ s₄'

theorem tracks_exportSpecifier : Tracks i exportSpecifier exportSpecifier := by
  intro env s s'
  refine .start fun _ _ => ?_
  refine .bind (tracks_identifierName env s s') fun binding binding' hbinding s₁ s₁' => ?_
  refine .bind (α := Ident) ?_ fun exported exported' hexported _ _ => ?_
  · exact .cond (tracks_eatName _ env s₁ s₁') (fun s₂ s₂' => tracks_identifierName env s₂ s₂')
      fun _ _ => .ret hbinding
  · exact .finish fun _ _ => .ret (by simp_all)

theorem tracks_exportedDefault (hg : g.Tracked i) :
    Tracks i (exportedDefault g) (exportedDefault g) := by
  intro env s s'
  refine .start fun start start' => .ask (observes_isKey _) (fun _ => ?_) fun _ => ?_
  · exact .bind (tracks_function hg start start' false false env s s')
      fun f f' hf _ _ => .ret (by simp_all)
  have hrest : ∀ s s', Follows i env s s'
      (do
        if ← isKey .classKw then
          return ExportDefault.classDecl (← classDef g (leftHandSide g) start false)
        else
          let e ← Parse.withIn true g.assignment
          semicolon
          return .expr e)
      (do
        if ← isKey .classKw then
          return ExportDefault.classDecl (← classDef g (leftHandSide g) start' false)
        else
          let e ← Parse.withIn true g.assignment
          semicolon
          return .expr e) := by
    intro s s'
    refine .ask (observes_isKey _) (fun _ => ?_) fun _ => ?_
    · exact .bind (tracks_classDef hg (tracks_leftHandSide hg) start start' false env s s')
        fun c c' hc _ _ => .ret (by simp_all)
    · refine .bind (hg.assignment.withIn true env s s') fun e e' he s₁ s₁' => ?_
      exact .bind (tracks_semicolon env s₁ s₁') fun _ _ _ _ _ => .ret (by simp_all)
  refine .observe (observes_isName _) fun isAsync hasync => ?_
  cases isAsync with
  | false =>
    -- The next token is looked at here too, but it does not matter.
    refine .step rfl (fun _ => rfl) ?_
    exact hrest s s'
  | true =>
    have hword := Kind.isWord_of_isName hasync
    refine .bindStill (follows_functionFollows hword) (.step rfl (.ret rfl))
      fun follows follows' h s' => ?_
    obtain rfl : follows = follows' := h
    refine .ite (fun _ => ?_) fun _ => hrest s s'
    refine .advance (Kind.isSolid_of_isWord hword) fun _ _ _ _ s₁' _ => ?_
    exact .bind (tracks_function hg start start' true false env _ s₁')
      fun f f' hf _ _ => .ret (by simp_all)

/-- An export is read alike in each of its forms. -/
theorem tracks_exportDeclaration (hg : g.Tracked i) :
    Tracks i (exportDeclaration g) (exportDeclaration g) := by
  intro env s s'
  refine .start fun start start' => .bind (tracks_requireModule env s s') fun _ _ _ s₁ s₁' => ?_
  refine .bind (tracks_expectKey _ env s₁ s₁') fun _ _ _ s₂ s₂' => ?_
  -- what any declaration behind `export` gives
  have hdeclared : Follows i env s₂ s₂'
      (do
        let declaration ← g.statement
        return Stmt.exportNamed (← finish start) (some declaration) [] none)
      (do
        let declaration ← g.statement
        return Stmt.exportNamed (← finish start') (some declaration) [] none) :=
    .bind (hg.statement env s₂ s₂') fun d d' hd _ _ => .finish fun _ _ => .ret (by simp_all)
  refine .observe observes_kind fun k hk => ?_
  split
  · refine .advance (hk ▸ trivial) fun _ _ _ _ s₃' _ => ?_
    refine .bind (tracks_exportedDefault hg env _ s₃') fun d d' hd _ _ => ?_
    exact .finish fun _ _ => .ret (by simp_all)
  · refine .advance (hk ▸ trivial) fun _ _ _ _ s₃' _ => ?_
    refine .bind (α := Option Ident) ?_ fun exported exported' hexported s₄ s₄' => ?_
    · refine .cond (tracks_eatName _ env _ s₃') (fun s₄ s₄' => ?_) fun _ _ => .ret (.refl none)
      exact .bind (tracks_identifierName env s₄ s₄') fun x x' hx _ _ => .ret hx.some
    refine .bind (tracks_expectName _ env s₄ s₄') fun _ _ _ s₅ s₅' => ?_
    exact tracks_moduleName (.exportAll · exported ·) (.exportAll · exported' ·) (by simp_all)
      start start' env s₅ s₅'
  · refine .advance (hk ▸ trivial) fun _ _ _ _ s₃' _ => ?_
    refine .bind (tracks_itemsBefore _ (fun env s s' => ?_) env _ s₃') fun ss ss' hss s₄ s₄' => ?_
    · exact .bind (tracks_exportSpecifier env s s') fun x x' hx _ _ => .ret (by simp_all)
    refine .bind (tracks_expect _ env s₄ s₄') fun _ _ _ s₅ s₅' => ?_
    refine .bind (α := Option Expr) ?_ fun source source' hsource s₆ s₆' => ?_
    · refine .cond (tracks_eatName _ env s₅ s₅') (fun s₆ s₆' => ?_) fun _ _ => .ret (.refl none)
      exact .bind (tracks_stringLiteral env s₆ s₆') fun e e' he _ _ => .ret he.some
    refine .bind (tracks_semicolon env s₆ s₆') fun _ _ _ _ _ => ?_
    exact .finish fun _ _ => .ret (by simp_all)
  all_goals first | exact hdeclared | exact .unexpected

/-! ### All statements -/

theorem follows_nameStatement (hg : g.Tracked i) (hk : s.current.token.kind.IsWord) :
    Follows i env s s' (nameStatement g) (nameStatement g) := by
  refine .peek hk fun k span span' newline s' hnext => .ite (fun h => ?_) fun _ => ?_
  · exact follows_labeledStatement hg (hnext ▸ h)
  · exact tracks_expressionStatement hg env s s'

/-- A statement is read alike, one case for each kind of first token. -/
theorem tracks_anyStatement (hg : g.Tracked i) : Tracks i (anyStatement g) (anyStatement g) := by
  intro env s s'
  refine .token fun k span span' newline hk => ?_
  have hkind : s.current.token.kind = k := congrArg Token.kind hk
  dsimp only
  -- one case for each token that a statement may start with
  split
  · exact follows_varStatement hg (hkind ▸ trivial)
  · exact follows_varStatement hg (hkind ▸ trivial)
  · have hword : s.current.token.kind.IsWord := hkind ▸ trivial
    refine .bindStill (follows_letStartsDeclaration hword) (gives_letStartsDeclaration env s)
      fun starts starts' h s' => ?_
    obtain rfl : starts = starts' := h
    exact .ite (fun _ => follows_varStatement hg (hkind ▸ trivial))
      fun _ => follows_nameStatement hg hword
  · have hword : s.current.token.kind.IsWord := hkind ▸ trivial
    refine .bindStill (follows_functionFollows hword) (.step rfl (.ret rfl))
      fun follows follows' h s' => ?_
    obtain rfl : follows = follows' := h
    refine .ite (fun _ => ?_) fun _ => follows_nameStatement hg hword
    refine .advance (hkind ▸ trivial) fun _ _ _ _ s₁' _ => ?_
    exact .bind (tracks_function hg _ _ true true env _ s₁') fun f f' hf _ _ => .ret (by simp_all)
  · exact follows_nameStatement hg (hkind ▸ trivial)
  · exact .bind (tracks_function hg _ _ false true env s s') fun f f' hf _ _ => .ret (by simp_all)
  · exact .bind (tracks_classDef hg (tracks_leftHandSide hg) _ _ true env s s')
      fun c c' hc _ _ => .ret (by simp_all)
  · exact tracks_ifStatement hg env s s'
  · exact tracks_switchStatement hg env s s'
  · exact tracks_forStatement hg env s s'
  · exact tracks_whileStatement hg env s s'
  · exact tracks_doStatement hg env s s'
  · exact follows_jumpStatement (by simp) (hkind ▸ trivial)
  · exact follows_jumpStatement (by simp) (hkind ▸ trivial)
  · exact follows_returnStatement hg (hkind ▸ trivial)
  · exact follows_throwStatement hg (hkind ▸ trivial)
  · exact tracks_tryStatement hg env s s'
  · refine .advance (hkind ▸ trivial) fun _ _ _ _ s₁' _ => ?_
    refine .bind (tracks_semicolon env _ s₁') fun _ _ _ _ _ => ?_
    exact .finish fun _ _ => .ret (by simp)
  · exact .failHere
  · exact .bind (tracks_block hg env s s') fun b b' hb _ _ => .ret (by simp_all)
  · refine .advance (hkind ▸ trivial) fun _ _ _ _ _ _ => ?_
    exact .finish fun _ _ => .ret (by simp)
  · refine .peek (hkind ▸ trivial) fun _ _ _ _ s' _ => ?_
    exact .ite (fun _ => tracks_expressionStatement hg env s s')
      fun _ => tracks_importDeclaration env s s'
  · exact tracks_exportDeclaration hg env s s'
  · exact tracks_expressionStatement hg env s s'

/-! ### The whole grammar -/

/-- Within any depth, all is read alike. -/
theorem tracked_ofDepth (n : Nat) : (ofDepth n).Tracked i := by
  induction n with
  | zero =>
    exact {
      statement := fun _ _ _ => .failHere
      pattern := fun _ _ _ => .failHere
      assignment := fun _ _ _ => .failHere
      power := fun _ _ _ => .failHere
      operand := fun _ _ _ => .failHere
      creation := fun _ _ _ => .failHere
      pattern_name := fun _ => .failHere }
  | succ n ih =>
    exact {
      statement := tracks_anyStatement ih
      pattern := tracks_bindingPattern ih
      assignment := tracks_assignmentExpr ih
      power := tracks_binary ih InfixOp.tightest
      operand := tracks_unary ih
      creation := tracks_construct ih (tracks_leftHandSide ih)
      pattern_name := gives_bindingPattern_name }

end Espalier.Grammar
