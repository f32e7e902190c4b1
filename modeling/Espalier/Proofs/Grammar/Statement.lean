import Espalier.Grammar
import Espalier.Proofs.Grammar.Expression

/-!
# Statements are nested

Every reader of statements reads at least one token and makes nested nodes of what it reads. Some
readers are only called where their first token is known; there it is assumed to have a text.
-/

namespace Espalier.Grammar

open Parse Token

variable {cs : List Char} {lo : Nat} {env : Env} {st : State} {ts : List Tree} {g : Grammar}

/-! ### Declarations -/

/-- A name or pattern, with its initial value where there is one. -/
theorem reads_declarator (hg : g.IsSound cs) : Reads cs (declarator g) := by
  intro env st hst
  refine .step rfl ?_
  refine .first hg.pattern hst.starts fun id st₁ h₁ => ?_
  refine .maybe ((eats_eat _).mayReadThen hg.assignment) h₁ fun init st₂ h₂ => ?_
  exact .node h₂ rfl (by simp; tauto)

/-- The word and the declarators behind it. -/
theorem gives_declaration (hg : g.IsSound cs) (hst : st.IsIn cs)
    (hk : st.current.token.kind.IsSolid) :
    Gives (declaration g) env st fun d st' => Trail cs st.pos st' (nodes d) := by
  refine .advanceFirst hst.starts hk fun h₁ => ?_
  refine .next (reads_declarator hg) h₁ fun first st₂ h₂ => ?_
  refine .itemsAfterCommas (reads_declarator hg) (h₂.sub (by simp)) fun declarations st₃ h₃ => ?_
  exact .node h₃ rfl (by simp)

/-- A declaration may take in the semicolon after it. -/
theorem fits_extended {d : VarDecl} {hi : Nat} (h : d.tree.Fits cs lo hi)
    (hborder : IsBorder cs hi) :
    (VarDecl.tree { d with span := ⟨d.span.start, hi⟩ }).Fits cs lo hi := by
  obtain ⟨kind, declarations, span⟩ := d
  have hl := h.lies
  refine .intro ⟨hl.le_start, Nat.le_of_lt hl.start_lt, Nat.le_refl _, hl.start_lt,
    fun _ => hl.start_lt, hl.isBorder_start, hborder⟩ fun c hc => ?_
  exact (h.parts c hc).widen (Nat.le_refl _) hl.stop_le

theorem gives_varStatement (hg : g.IsSound cs) (hst : st.IsIn cs)
    (hk : st.current.token.kind.IsSolid) :
    Gives (varStatement g) env st fun s st' => Trail cs st.pos st' (nodes s) := by
  refine .bind ((gives_declaration hg hst hk).mono fun d st₁ h₁ => ?_)
  refine .pass mayRead_semicolon h₁ fun _ st₂ h₂ => ?_
  have hstart : Trail cs d.tree.span.start st₂ [d.tree] := h₂.from_start
  have hspan : d.tree.span = d.span := by cases d; rfl
  rw [hspan] at hstart
  refine .finish hstart (.ret (h₂.of_fits (List.forall_mem_singleton.mpr ?_)))
  exact fits_extended (h₂.fits d.tree (List.mem_singleton_self _)) h₂.isIn.isBorder_prevEnd

/-! ### Control flow -/

theorem reads_condition (hg : g.IsSound cs) : Reads cs (condition g) := by
  intro env st hst
  refine .first (reads_expect _) hst.starts fun _ st₁ h₁ => ?_
  refine .next ((reads_expression hg).withIn true) h₁ fun e st₂ h₂ => ?_
  exact .pass (reads_expect _).mayRead h₂ fun _ st₃ h₃ => .ret (h₃.sub (by simp))

theorem mayRead_unlessAt {α : Type} [HasNodes α] (stop : Punct) {p : Parse α} (hp : Reads cs p) :
    MayRead cs (unlessAt stop p) := by
  intro env st hst
  refine .ask rfl (fun _ => .ret (.inl ⟨rfl, rfl⟩)) fun _ => ?_
  exact .first hp hst.starts fun a st₁ h₁ => .ret (.inr (h₁.sub (by simp)))

/-- An `if` with or without `else`. -/
theorem reads_ifStatement (hg : g.IsSound cs) : Reads cs (ifStatement g) := by
  intro env st hst
  refine .step rfl ?_
  refine .first (reads_expectKey _) hst.starts fun _ st₁ h₁ => ?_
  refine .next (reads_condition hg) h₁ fun test st₂ h₂ => ?_
  refine .next hg.statement h₂ fun consequent st₃ h₃ => ?_
  refine .maybe ((eats_eatKey _).mayReadThen hg.statement) h₃ fun alternate st₄ h₄ => ?_
  exact .node h₄ rfl (by simp; tauto)

/-- The test of a case, behind the word that starts the case. -/
theorem gives_switchTest (hg : g.IsSound cs) (hst : st.IsIn cs) (hasDefault : Bool) :
    Gives (do
      if ← eatKey .caseKw then return some (← Parse.withIn true (expression g))
      else if ← isKey .defaultKw then
        if hasDefault then failHere .repeatedDefault
        else
          let _ ← advance
          return none
      else unexpected : Parse (Option Expr)) env st fun e? st' =>
        Trail cs st.pos st' (nodes e?) := by
  refine .eatFirst (eats_eatKey _) hst.starts (fun h₁ => ?_) ?_
  · refine .next ((reads_expression hg).withIn true) h₁ fun e st₂ h₂ => .ret (h₂.sub (by simp))
  · refine .ask rfl (fun hkey => ?_) fun _ => .unexpected
    split
    · exact .failHere
    · exact .advanceFirst hst.starts (Kind.isSolid_of_isKey hkey) fun h₁ => .ret h₁

/-- A case with its statements, up to the next case or the brace. -/
theorem reads_switchCase (hg : g.IsSound cs) (hasDefault : Bool) :
    Reads cs (switchCase g hasDefault) := by
  intro env st hst
  refine .step rfl (.bind ?_)
  refine (gives_switchTest hg hst hasDefault).mono fun test st₁ h₁ => ?_
  refine .pass (reads_expect _).mayRead h₁ fun _ st₂ h₂ => ?_
  refine .maybe (mayRead_itemsUntil _ hg.statement) h₂ fun consequent st₃ h₃ => ?_
  exact .node h₃ rfl (by simp; tauto)

theorem reads_switchStatement (hg : g.IsSound cs) : Reads cs (switchStatement g) := by
  intro env st hst
  refine .step rfl ?_
  refine .first (reads_expectKey _) hst.starts fun _ st₁ h₁ => ?_
  refine .next (reads_condition hg) h₁ fun discriminant st₂ h₂ => ?_
  refine .pass (reads_expect _).mayRead h₂ fun _ st₃ h₃ => ?_
  refine .roundsAlong h₃ (fun cases st h => .step rfl ?_) fun cases st₄ h₄ => ?_
  · split
    · exact .ret h
    · exact .next (reads_switchCase hg _) h fun c st' h' => .ret (h'.sub (by simp))
  · refine .pass (reads_expect _).mayRead h₄ fun _ st₅ h₅ => ?_
    exact .node h₅ rfl (by simp; tauto)

/-! ### Loops -/

/-- The head of a `for` over keys or items, from `in` or `of` on. -/
theorem gives_forEach (hg : g.IsSound cs) {left : ForHead} (isAwait : Bool)
    (h : Trail cs lo st (nodes left)) :
    Gives (forEach g lo left isAwait) env st fun s st' => Trail cs lo st' (nodes s) := by
  refine .step rfl (.advance h fun h₁ => ?_)
  have hright (isOf : Bool) : Reads cs (if isOf = true then g.assignment else expression g) := by
    split
    · exact hg.assignment
    · exact reads_expression hg
  refine .next ((hright _).withIn true) h₁ fun right st₂ h₂ => ?_
  refine .pass (reads_expect _).mayRead h₂ fun _ st₃ h₃ => ?_
  refine .next hg.statement h₃ fun body st₄ h₄ => .finish h₄ (.ret ?_)
  split
  · exact h₄.node (by simp)
  · exact h₄.node (by simp)

/-- The head of a plain `for`, from the first semicolon on. -/
theorem gives_forRest (hg : g.IsSound cs) {init : Option ForInit}
    (h : Trail cs lo st (nodes init)) :
    Gives (forRest g lo init) env st fun s st' => Trail cs lo st' (nodes s) := by
  have hclause := (reads_expression hg).withIn true
  refine .pass (reads_expect _).mayRead h fun _ st₁ h₁ => ?_
  refine .maybe (mayRead_unlessAt _ hclause) h₁ fun test st₂ h₂ => ?_
  refine .pass (reads_expect _).mayRead h₂ fun _ st₃ h₃ => ?_
  refine .maybe (mayRead_unlessAt _ hclause) h₃ fun update st₄ h₄ => ?_
  refine .pass (reads_expect _).mayRead h₄ fun _ st₅ h₅ => ?_
  refine .next hg.statement h₅ fun body st₆ h₆ => ?_
  exact .node h₆ rfl (by simp; tauto)

theorem mayRead_awaitWord : MayRead cs (do
    if (← read).inAsync then eatName "await" else return false : Parse Bool) := by
  intro env st hst
  refine .step rfl ?_
  split
  · exact (eats_eatName _).mayRead env st hst
  · exact .ret (.inl ⟨rfl, rfl⟩)

/-- Looking behind `let` answers and moves nothing. -/
theorem letStartsDeclaration_eq_ok (env : Env) (st : State) :
    ∃ b, letStartsDeclaration env st = .ok (b, st) := by
  have hpeek : peek env st = .ok ((scan st.current.after).token, st) := rfl
  unfold letStartsDeclaration
  rw [bind_eq hpeek]
  cases (scan st.current.after).token.kind with
  | punct p => cases p <;> exact ⟨_, rfl⟩
  | _ => exact ⟨_, rfl⟩

theorem asks_declares : Asks (do
    let k ← kind
    if k.isName "let" then letStartsDeclaration
    else return k.isKey .varKw || k.isKey .constKw) := by
  intro env st
  show ∃ b, (if st.current.token.kind.isName "let" then letStartsDeclaration
    else (pure (st.current.token.kind.isKey .varKw || st.current.token.kind.isKey .constKw) :
      Parse Bool)) env st = .ok (b, st) ∧ _
  split
  · next hlet =>
    obtain ⟨b, heq⟩ := letStartsDeclaration_eq_ok env st
    exact ⟨b, heq, fun _ => Kind.isSolid_of_isName hlet⟩
  · refine ⟨_, rfl, fun h => ?_⟩
    rcases (Bool.or_eq_true _ _).mp h with h | h <;> exact Kind.isSolid_of_isKey h

theorem isSolid_of_atForEach {k : Token.Kind} (h : (k.isName "of" || k.isKey .inKw) = true) :
    k.IsSolid := by
  rw [Bool.or_eq_true] at h
  exact h.elim Kind.isSolid_of_isName Kind.isSolid_of_isKey

/-- Each of the three loops leaves one node over its head and its body. -/
theorem reads_forStatement (hg : g.IsSound cs) : Reads cs (forStatement g) := by
  intro env st hst
  refine .step rfl ?_
  refine .first (reads_expectKey _) hst.starts fun _ st₁ h₁ => ?_
  refine .pass mayRead_awaitWord h₁ fun isAwait st₂ h₂ => ?_
  refine .pass (reads_expect _).mayRead h₂ fun _ st₃ h₃ => ?_
  refine .ask rfl (fun _ => gives_forRest hg (h₃.sub (by simp))) fun _ => .step rfl ?_
  obtain ⟨declares, heq, hsolid⟩ := asks_declares env st₃
  refine .ask heq (fun hdeclares => ?_) fun _ => ?_
  · refine .after h₃ (.withIn (gives_declaration hg h₃.isIn (hsolid hdeclares))) fun d st₄ h₄ => ?_
    refine .ask rfl (fun _ => ?_) fun _ => gives_forRest hg (h₄.sub (by simp [ForInit.tree]))
    split
    · exact .fail
    · exact gives_forEach hg isAwait (h₄.sub (by simp [ForHead.tree]))
  · refine .next ((reads_expression hg).withIn false) h₃ fun e st₄ h₄ => ?_
    refine .ask rfl (fun _ => ?_) fun _ => gives_forRest hg (h₄.sub (by simp [ForInit.tree]))
    refine .bind (.ofExcept fun pattern hpattern => ?_)
    have hfits := fits_toPattern e hpattern (h₄.fits e.tree (by simp))
    exact gives_forEach hg isAwait ((h₄.cons hfits).sub (by simp [ForHead.tree]))

theorem reads_whileStatement (hg : g.IsSound cs) : Reads cs (whileStatement g) := by
  intro env st hst
  refine .step rfl ?_
  refine .first (reads_expectKey _) hst.starts fun _ st₁ h₁ => ?_
  refine .next (reads_condition hg) h₁ fun test st₂ h₂ => ?_
  refine .next hg.statement h₂ fun body st₃ h₃ => ?_
  exact .node h₃ rfl (by simp)

theorem reads_doStatement (hg : g.IsSound cs) : Reads cs (doStatement g) := by
  intro env st hst
  refine .step rfl ?_
  refine .first (reads_expectKey _) hst.starts fun _ st₁ h₁ => ?_
  refine .next hg.statement h₁ fun body st₂ h₂ => ?_
  refine .pass (reads_expectKey _).mayRead h₂ fun _ st₃ h₃ => ?_
  refine .next (reads_condition hg) h₃ fun test st₄ h₄ => ?_
  refine .pass (eats_eat _).mayRead h₄ fun _ st₅ h₅ => ?_
  exact .node h₅ rfl (by simp)

/-! ### Jumps and exceptions -/

theorem mayRead_jumpLabel : MayRead cs (do
    if (← isAnyName) && !(← token).newlineBefore then return some (← bindingName)
    else return none : Parse (Option Ident)) := by
  intro env st hst
  obtain ⟨b, heq, -⟩ := asks_isAnyName env st
  refine .step heq (.step rfl ?_)
  split
  · exact .first reads_bindingName hst.starts fun name st₁ h₁ => .ret (.inr (h₁.sub (by simp)))
  · exact .ret (.inl ⟨rfl, rfl⟩)

/-- `break` and `continue`, with or without a label. -/
theorem gives_jumpStatement {make : Span → Option Ident → Stmt} {type : NodeType}
    (hmake : ∀ s label, (make s label).tree =
      ⟨type, s, [TreeField.orAbsent "label" (label.map Ident.tree)]⟩)
    (hst : st.IsIn cs) (hk : st.current.token.kind.IsSolid) :
    Gives (jumpStatement make) env st fun s st' => Trail cs st.pos st' (nodes s) := by
  refine .step rfl ?_
  refine .advanceFirst hst.starts hk fun h₁ => ?_
  refine .maybe mayRead_jumpLabel h₁ fun label st₂ h₂ => ?_
  refine .pass mayRead_semicolon h₂ fun _ st₃ h₃ => ?_
  exact .node h₃ (congrArg ([·]) (hmake _ label)) (by simp)

/-- What `return` gives, if anything. -/
theorem mayRead_returned (hg : g.IsSound cs) : MayRead cs (do
    if (← isPunct .semicolon) || (← atImplicitEnd) then return none
    else return some (← Parse.withIn true (expression g)) : Parse (Option Expr)) := by
  intro env st hst
  refine .step rfl (.step rfl ?_)
  split
  · exact .ret (.inl ⟨rfl, rfl⟩)
  · refine .first ((reads_expression hg).withIn true) hst.starts fun e st₁ h₁ => ?_
    exact .ret (.inr (h₁.sub (by simp)))

theorem gives_returnStatement (hg : g.IsSound cs) (hst : st.IsIn cs)
    (hk : st.current.token.kind.IsSolid) :
    Gives (returnStatement g) env st fun s st' => Trail cs st.pos st' (nodes s) := by
  refine .step rfl (.step rfl ?_)
  split
  · exact .failHere
  · refine .advanceFirst hst.starts hk fun h₁ => ?_
    refine .maybe (mayRead_returned hg) h₁ fun argument st₂ h₂ => ?_
    refine .pass mayRead_semicolon h₂ fun _ st₃ h₃ => ?_
    exact .node h₃ rfl (by simp)

theorem gives_throwStatement (hg : g.IsSound cs) (hst : st.IsIn cs)
    (hk : st.current.token.kind.IsSolid) :
    Gives (throwStatement g) env st fun s st' => Trail cs st.pos st' (nodes s) := by
  refine .step rfl ?_
  refine .advanceFirst hst.starts hk fun h₁ => .step rfl ?_
  split
  · exact .failHere
  · refine .next ((reads_expression hg).withIn true) h₁ fun argument st₂ h₂ => ?_
    refine .pass mayRead_semicolon h₂ fun _ st₃ h₃ => ?_
    exact .node h₃ rfl (by simp)

theorem mayRead_catchParam (hg : g.IsSound cs) : MayRead cs (do
    if ← eat .leftParen then
      let param ← g.pattern
      expect .rightParen
      return some param
    else return none : Parse (Option Pattern)) := by
  intro env st hst
  refine .eatFirst (eats_eat _) hst.starts (fun h₁ => ?_) (.ret (.inl ⟨rfl, rfl⟩))
  refine .next hg.pattern h₁ fun param st₂ h₂ => ?_
  exact .pass (reads_expect _).mayRead h₂ fun _ st₃ h₃ => .ret (.inr (h₃.sub (by simp)))

/-- A handler, with or without a name for what was thrown. -/
theorem reads_catchClause (hg : g.IsSound cs) : Reads cs (catchClause g) := by
  intro env st hst
  refine .step rfl ?_
  refine .first (reads_expectKey _) hst.starts fun _ st₁ h₁ => ?_
  refine .maybe (mayRead_catchParam hg) h₁ fun param st₂ h₂ => ?_
  refine .next (reads_block hg) h₂ fun body st₃ h₃ => ?_
  cases param with
  | none => exact .node h₃ rfl (by simp)
  | some param => exact .node h₃ rfl (by simp)

theorem asks_isKey (k : Keyword) : Asks (isKey k) :=
  fun _ _ => ⟨_, rfl, Kind.isSolid_of_isKey⟩

/-- A `try` with its handler, its finalizer or both. -/
theorem reads_tryStatement (hg : g.IsSound cs) : Reads cs (tryStatement g) := by
  intro env st hst
  refine .step rfl ?_
  refine .first (reads_expectKey _) hst.starts fun _ st₁ h₁ => ?_
  refine .next (reads_block hg) h₁ fun body st₂ h₂ => ?_
  refine .maybe ((asks_isKey _).mayReadThen (reads_catchClause hg)) h₂ fun handler st₃ h₃ => ?_
  refine .maybe ((eats_eatKey _).mayReadThen (reads_block hg)) h₃ fun finalizer st₄ h₄ => ?_
  split
  · exact .failHere
  · exact .node h₄ rfl (by simp; tauto)

theorem reads_expressionStatement (hg : g.IsSound cs) : Reads cs (expressionStatement g) := by
  intro env st hst
  refine .step rfl ?_
  refine .first ((reads_expression hg).withIn true) hst.starts fun e st₁ h₁ => ?_
  refine .pass mayRead_semicolon h₁ fun _ st₂ h₂ => ?_
  exact .node h₂ rfl (by simp)

theorem reads_labeledStatement (hg : g.IsSound cs) : Reads cs (labeledStatement g) := by
  intro env st hst
  refine .step rfl ?_
  refine .first reads_bindingName hst.starts fun label st₁ h₁ => .advance h₁ fun h₂ => ?_
  refine .next hg.statement h₂ fun body st₃ h₃ => ?_
  exact .node h₃ rfl (by simp)

/-! ### Modules -/

theorem gives_requireModule (env : Env) (st : State) :
    Gives requireModule env st fun _ st' => st' = st := by
  refine .step rfl ?_
  split
  · exact .ret rfl
  · exact .failHere

/-- A name with another one after `as`, or the same one again. -/
theorem gives_alias {name : Ident} {p : Parse Ident} (hp : Reads cs p)
    (h : Trail cs lo st (nodes name)) :
    Gives (do if ← eatName "as" then p else return name) env st fun i st' =>
      Trail cs lo st' (nodes i ++ nodes name) := by
  refine .eat (eats_eatName _) h (fun h₁ => ?_) (.ret (h.sub (by simp)))
  exact (hp env st.next h₁.isIn).mono fun i st' h' => h₁.trans h'

theorem reads_importSpecifier : Reads cs importSpecifier := by
  intro env st hst
  refine .step rfl ?_
  refine .first reads_identifierName hst.starts fun imported st₁ h₁ => .bind ?_
  refine (gives_alias reads_bindingName h₁).mono fun binding st₂ h₂ => ?_
  exact .node h₂ rfl (by simp)

theorem mayRead_importClause : MayRead cs importClause := by
  intro env st hst
  refine .step rfl ?_
  refine .eatFirst (eats_eat _) hst.starts (fun h₁ => ?_) ?_
  · refine .pass (reads_expectName _).mayRead h₁ fun _ st₂ h₂ => ?_
    refine .next reads_bindingName h₂ fun binding st₃ h₃ => .finish h₃ (.ret (.inr ?_))
    exact h₃.node (by simp)
  refine .eatFirst (eats_eat _) hst.starts (fun h₁ => ?_) (.ret (.inl ⟨rfl, rfl⟩))
  refine .maybe (mayRead_itemsBefore _ ?_) h₁ fun specifiers st₂ h₂ => ?_
  · intro env st hst
    exact .first reads_importSpecifier hst.starts fun s st' h' => .ret (h'.sub (by simp))
  · exact .pass (reads_expect _).mayRead h₂ fun _ st₃ h₃ => .ret (.inr (h₃.sub (by simp)))

/-- A default import is a node as long as the name that it binds. -/
theorem fits_importDefault {binding : Ident} {hi : Nat} (h : binding.tree.Fits cs lo hi) :
    (ImportSpecifier.default binding.span binding).tree.Fits cs lo hi := by
  refine h.renew (by decide) (List.forall_mem_singleton.mpr ?_)
  exact h.from_start.upto_stop nofun

theorem mayRead_importSpecifiers : MayRead cs importSpecifiers := by
  intro env st hst
  refine .step rfl ?_
  split
  · exact .ret (.inl ⟨rfl, rfl⟩)
  · refine .first reads_bindingName hst.starts fun binding st₁ h₁ => ?_
    have h₁ := h₁.cons (fits_importDefault (h₁.fits binding.tree (List.mem_singleton_self _)))
    refine .eat (eats_eat _) h₁ (fun h₂ => ?_) (.ret (.inr (h₁.sub (by simp))))
    exact .maybe mayRead_importClause h₂ fun specifiers st₃ h₃ =>
      .ret (.inr (h₃.sub (by simp; tauto)))
  · exact mayRead_importClause env st hst

theorem gives_importSource {specifiers : List ImportSpecifier}
    (h : Trail cs lo st (nodes specifiers ++ ts)) :
    Gives (do
      let source ← stringLiteral
      semicolon
      return Stmt.importDecl (← finish lo) specifiers source) env st fun s st' =>
        Trail cs lo st' (nodes s) := by
  refine .next reads_stringLiteral h fun source st₁ h₁ => ?_
  refine .pass mayRead_semicolon h₁ fun _ st₂ h₂ => ?_
  exact .node h₂ rfl (by simp; tauto)

/-- An import in each of its forms. -/
theorem reads_importDeclaration : Reads cs importDeclaration := by
  intro env st hst
  refine .step rfl (.bind ((gives_requireModule env st).mono fun _ st₁ heq => ?_))
  subst heq
  refine .first (reads_expectKey _) hst.starts fun _ st₁ h₁ => ?_
  refine .maybe mayRead_importSpecifiers h₁ fun specifiers st₂ h₂ => ?_
  split
  · exact gives_importSource h₂
  · exact .pass (reads_expectName _).mayRead h₂ fun _ st₃ h₃ => gives_importSource h₃

theorem reads_exportSpecifier : Reads cs exportSpecifier := by
  intro env st hst
  refine .step rfl ?_
  refine .first reads_identifierName hst.starts fun binding st₁ h₁ => .bind ?_
  refine (gives_alias reads_identifierName h₁).mono fun exported st₂ h₂ => ?_
  exact .node h₂ rfl (by simp)

theorem reads_exportedDefault (hg : g.IsSound cs) : Reads cs (exportedDefault g) := by
  intro env st hst
  refine .step rfl (.ask rfl (fun _ => ?_) fun _ => .step rfl (.step rfl ?_))
  · exact .bind ((gives_function hg false false hst.starts).mono fun f st' h' =>
      .ret (h'.sub (by simp [ExportDefault.tree])))
  split
  · next hasync =>
    have hsolid := Kind.isSolid_of_isName ((Bool.and_eq_true _ _).mp hasync).1
    refine .advanceFirst hst.starts hsolid fun h₁ => ?_
    exact .bind ((gives_function hg true false h₁.starts).mono fun f st' h' =>
      .ret (h'.sub (by simp [ExportDefault.tree])))
  refine .ask rfl (fun _ => ?_) fun _ => ?_
  · exact .bind ((gives_classDef hg (reads_leftHandSide hg) false hst.starts).mono fun c st' h' =>
      .ret (h'.sub (by simp [ExportDefault.tree])))
  · refine .first (hg.assignment.withIn true) hst.starts fun e st₁ h₁ => ?_
    exact .pass mayRead_semicolon h₁ fun _ st₂ h₂ => .ret h₂

/-- An export of the declaration behind it. -/
theorem gives_exportedDeclaration (hg : g.IsSound cs) (h : Trail cs lo st ts) :
    Gives (do
      let declaration ← g.statement
      return Stmt.exportNamed (← finish lo) (some declaration) [] none) env st fun s st' =>
        Trail cs lo st' (nodes s) := by
  refine .next hg.statement h fun declaration st₁ h₁ => ?_
  exact .node h₁ rfl (by simp)

/-- An export in each of its forms. -/
theorem reads_exportDeclaration (hg : g.IsSound cs) : Reads cs (exportDeclaration g) := by
  intro env st hst
  refine .step rfl (.bind ((gives_requireModule env st).mono fun _ st₁ heq => ?_))
  subst heq
  refine .first (reads_expectKey _) hst.starts fun _ st₁ h₁ => .step rfl ?_
  split
  · refine .advance h₁ fun h₂ => ?_
    refine .next (reads_exportedDefault hg) h₂ fun declaration st₃ h₃ => ?_
    exact .node h₃ rfl (by simp)
  · refine .advance h₁ fun h₂ => ?_
    -- `export * as name from` has the name, `export * from` has none
    refine .maybe ((eats_eatName _).mayReadThen reads_identifierName) h₂ fun exported st₃ h₃ => ?_
    refine .pass (reads_expectName _).mayRead h₃ fun _ st₄ h₄ => ?_
    refine .next reads_stringLiteral h₄ fun source st₅ h₅ => ?_
    refine .pass mayRead_semicolon h₅ fun _ st₆ h₆ => ?_
    exact .node h₆ rfl (by simp; tauto)
  · refine .advance h₁ fun h₂ => ?_
    refine .maybe (mayRead_itemsBefore _ ?_) h₂ fun specifiers st₃ h₃ => ?_
    · intro env st hst
      exact .first reads_exportSpecifier hst.starts fun s st' h' => .ret (h'.sub (by simp))
    refine .pass (reads_expect _).mayRead h₃ fun _ st₄ h₄ => ?_
    -- a list may stand without a module
    refine .maybe ((eats_eatName _).mayReadThen reads_stringLiteral) h₄ fun source st₅ h₅ => ?_
    refine .pass mayRead_semicolon h₅ fun _ st₆ h₆ => ?_
    exact .node h₆ rfl (by simp; tauto)
  · exact gives_exportedDeclaration hg h₁
  · exact gives_exportedDeclaration hg h₁
  · exact gives_exportedDeclaration hg h₁
  · exact gives_exportedDeclaration hg h₁
  · exact gives_exportedDeclaration hg h₁
  · exact gives_exportedDeclaration hg h₁
  · exact .unexpected

/-! ### All statements -/

theorem reads_nameStatement (hg : g.IsSound cs) : Reads cs (nameStatement g) := by
  intro env st hst
  refine .step rfl ?_
  split
  · exact reads_labeledStatement hg env st hst
  · exact reads_expressionStatement hg env st hst

/-- Every statement leaves its nodes on the trail, one case for each kind of first token. -/
theorem reads_anyStatement (hg : g.IsSound cs) : Reads cs (anyStatement g) := by
  intro env st hst
  refine .step rfl ?_
  split
  · next hk => exact gives_varStatement hg hst (by rw [hk]; trivial)
  · next hk => exact gives_varStatement hg hst (by rw [hk]; trivial)
  · next hk =>
    -- `let` may be a name, and `async` below as well
    obtain ⟨b, heq⟩ := letStartsDeclaration_eq_ok env st
    refine .ask heq (fun _ => ?_) fun _ => ?_
    · exact gives_varStatement hg hst (by rw [hk]; trivial)
    · exact reads_nameStatement hg env st hst
  · next hk =>
    refine .ask rfl (fun _ => ?_) fun _ => reads_nameStatement hg env st hst
    refine .advanceFirst hst.starts (by rw [hk]; trivial) fun h₁ => ?_
    exact .bind ((gives_function hg true true h₁.starts).mono fun f st' h' =>
      .ret (h'.sub (by simp [Stmt.tree])))
  · exact reads_nameStatement hg env st hst
  · exact .bind ((gives_function hg false true hst.starts).mono fun f st' h' =>
      .ret (h'.sub (by simp [Stmt.tree])))
  · exact .bind ((gives_classDef hg (reads_leftHandSide hg) true hst.starts).mono fun c st' h' =>
      .ret (h'.sub (by simp [Stmt.tree])))
  · exact reads_ifStatement hg env st hst
  · exact reads_switchStatement hg env st hst
  · exact reads_forStatement hg env st hst
  · exact reads_whileStatement hg env st hst
  · exact reads_doStatement hg env st hst
  · next hk => exact gives_jumpStatement (fun _ _ => rfl) hst (by rw [hk]; trivial)
  · next hk => exact gives_jumpStatement (fun _ _ => rfl) hst (by rw [hk]; trivial)
  · next hk => exact gives_returnStatement hg hst (by rw [hk]; trivial)
  · next hk => exact gives_throwStatement hg hst (by rw [hk]; trivial)
  · exact reads_tryStatement hg env st hst
  · next hk =>
    refine .advanceFirst hst.starts (by rw [hk]; trivial) fun h₁ => ?_
    exact .pass mayRead_semicolon h₁ fun _ st₂ h₂ => .node h₂ rfl (by simp)
  · exact .failHere
  · exact .first (reads_block hg) hst.starts fun b st₁ h₁ => .ret h₁
  · next hk =>
    refine .advanceFirst hst.starts (by rw [hk]; trivial) fun h₁ => ?_
    exact .node h₁ rfl (by simp)
  · refine .step rfl ?_
    split
    · exact reads_expressionStatement hg env st hst
    · exact reads_importDeclaration env st hst
  · exact reads_exportDeclaration hg env st hst
  · exact reads_expressionStatement hg env st hst

/-! ### Grammars -/

/-- Every grammar is sound, however deep a source may nest. -/
theorem isSound_ofDepth (depth : Nat) : (ofDepth depth).IsSound cs := by
  induction depth with
  | zero =>
    have hrefuse {α : Type} [HasNodes α] : Reads cs (failHere .tooDeep : Parse α) :=
      fun _ _ _ => .failHere
    exact ⟨hrefuse, hrefuse, hrefuse, hrefuse, hrefuse, hrefuse⟩
  | succ depth ih =>
    exact ⟨reads_anyStatement ih, reads_bindingPattern ih, reads_assignmentExpr ih,
      reads_binary ih _, reads_unary ih, reads_construct ih (reads_leftHandSide ih)⟩

end Espalier.Grammar
