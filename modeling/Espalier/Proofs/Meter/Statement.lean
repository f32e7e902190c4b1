import Espalier.Proofs.Grammar.Span
import Espalier.Proofs.Grammar.Statement
import Espalier.Proofs.Meter.Expression

/-!
# Statements tally

Every reader of statements tallies with the metered one if the readers of the grammar do, and so do
the readers of the grammar at every depth (`tallied_metered`).
-/

namespace Espalier.Grammar

open Parse Token

variable {cs : List Char} {k lo : Nat} {env : Env} {st : State} {ts : List Token} {g g' : Grammar}

/-! ### Declarations -/

/-- Looking behind `let` changes nothing. -/
theorem views_letStartsDeclaration : Views letStartsDeclaration := by
  intro env st ts
  have hpeek : peek env st = .ok ((scan st.current.after).token, st) := rfl
  have hpeek' : peek env (st.along ts) = .ok ((scan st.current.after).token, st.along ts) := rfl
  unfold letStartsDeclaration
  rw [bind_eq hpeek, bind_eq hpeek']
  cases (scan st.current.after).token.kind with
  | punct p => cases p <;> exact ⟨_, rfl, rfl⟩
  | _ => exact ⟨_, rfl, rfl⟩

theorem moves_declarator (hg : g.Tallied cs g') :
    Moves cs 2 (declarator g) (declarator g') := by
  intro env st ts lo h
  refine .step rfl rfl (.first hg.pattern h fun id st₁ ts₁ h₁ => ?_)
  refine .bind (α := Option Expr) (R := Behind cs (lo + 1)) ?_ fun init st₂ ts₂ h₂ => ?_
  · refine .eat (eatsAlong_eat _) h₁ (fun st₂ ts₂ h₂ => ?_) (.ret h₁)
    exact .next hg.assignment h₂.back fun e st₃ ts₃ h₃ => .ret h₃
  · exact .step rfl rfl (.ret h₂)

/-- A declaration of variables, of which the current token is the word in front. -/
theorem tallies_declaration (hg : g.Tallied cs g') (h : Paced cs k lo st ts)
    (hk : st.current.token.kind.IsSolid) :
    Tallies cs env st ts (declaration g) (declaration g') (Behind cs (lo + 1)) := by
  refine .advance h hk fun h₁ => ?_
  refine .next (moves_declarator hg) h₁ fun first st₂ ts₂ h₂ => ?_
  refine .pass (passes_itemsAfterCommas _ (moves_declarator hg)) h₂ fun ds st₃ ts₃ h₃ => ?_
  exact .step rfl rfl (.ret h₃)

theorem tallies_varStatement (hg : g.Tallied cs g') (h : Paced cs k lo st ts)
    (hk : st.current.token.kind.IsSolid) :
    Tallies cs env st ts (varStatement g) (varStatement g') (Behind cs (lo + 1)) := by
  refine .bind (tallies_declaration hg h hk) fun decl st₁ ts₁ h₁ => ?_
  exact .pass passes_semicolon h₁ fun _ st₂ ts₂ h₂ => .step rfl rfl (.ret h₂)

/-! ### Control flow -/

theorem moves_condition (hg : g.Tallied cs g') : Moves cs 3 (condition g) (condition g') := by
  intro env st ts lo h
  refine .first (moves_expect _) h fun _ st₁ ts₁ h₁ => ?_
  refine .next ((moves_expression hg).withIn true) h₁ fun e st₂ ts₂ h₂ => ?_
  exact .next (moves_expect _) h₂ fun _ st₃ ts₃ h₃ => .ret h₃

theorem passes_unlessAt {α : Type} (stop : Punct) {p p' : Parse α} (hp : Moves cs k p p') :
    Passes cs 0 (unlessAt stop p) (unlessAt stop p') := by
  intro env st ts lo h
  refine .ask rfl rfl (fun _ => .ret h) fun _ => ?_
  exact .next hp h fun a st₁ ts₁ h₁ => .ret h₁

theorem moves_ifStatement (hg : g.Tallied cs g') :
    Moves cs 3 (ifStatement g) (ifStatement g') := by
  intro env st ts lo h
  refine .step rfl rfl (.first (moves_expectKey _) h fun _ st₁ ts₁ h₁ => ?_)
  refine .next (moves_condition hg) h₁ fun test st₂ ts₂ h₂ => ?_
  refine .next hg.statement h₂ fun consequent st₃ ts₃ h₃ => ?_
  refine .bind (α := Option Stmt) (R := Behind cs (lo + 1)) ?_ fun alternate st₄ ts₄ h₄ => ?_
  · refine .eat (eatsAlong_eatKey _) h₃ (fun st₄ ts₄ h₄ => ?_) (.ret h₃)
    exact .next hg.statement h₄.back fun s st₅ ts₅ h₅ => .ret h₅
  · exact .step rfl rfl (.ret h₄)

/-- A case leaves its word; its statements are read up to the next case. -/
theorem moves_switchCase (hg : g.Tallied cs g') (hasDefault : Bool) :
    Moves cs 3 (switchCase g hasDefault) (switchCase g' hasDefault) := by
  intro env st ts lo h
  refine .step rfl rfl ?_
  refine .bind (α := Option Expr) (R := Behind cs (lo + 1)) ?_ fun test st₁ ts₁ h₁ => ?_
  · refine .eat (eatsAlong_eatKey _) h (fun st₁ ts₁ h₁ => ?_) ?_
    · refine .next ((moves_expression hg).withIn true) h₁ fun e st₂ ts₂ h₂ => .ret h₂
    refine .ask rfl rfl (fun hdefault => ?_) fun _ => .unexpected
    refine .ite (fun _ => .failHere (by simp)) fun _ => ?_
    exact .advance h (Kind.isSolid_of_isKey hdefault) fun h₁ => .ret h₁
  refine .next (moves_expect _) h₁ fun _ st₂ ts₂ h₂ => ?_
  refine .pass (passes_itemsUntil _ hg.statement) h₂ fun body st₃ ts₃ h₃ => ?_
  exact .step rfl rfl (.ret h₃)

theorem moves_switchStatement (hg : g.Tallied cs g') :
    Moves cs 3 (switchStatement g) (switchStatement g') := by
  intro env st ts lo h
  refine .step rfl rfl (.first (moves_expectKey _) h fun _ st₁ ts₁ h₁ => ?_)
  refine .next (moves_condition hg) h₁ fun e st₂ ts₂ h₂ => ?_
  refine .next (moves_expect _) h₂ fun _ st₃ ts₃ h₃ => ?_
  refine .rounds h₃ (fun cases env st ts lo h => ?_) fun cases st₄ ts₄ h₄ => ?_
  · refine .kind fun kind _ => .ite (fun _ => .ret h) fun _ => ?_
    exact .first (moves_switchCase hg _) h.top fun c st₁ ts₁ h₁ => .ret h₁
  · exact .next (moves_expect _) h₄ fun _ st₅ ts₅ h₅ => .step rfl rfl (.ret h₅)

/-- A loop over values or keys, of which the current token stands between its head and what it runs
over. -/
theorem tallies_forEach (hg : g.Tallied cs g') (start : Nat) (left : ForHead) (isAwait : Bool)
    (h : Paced cs 0 lo st ts) (hk : st.current.token.kind.IsSolid) :
    Tallies cs env st ts (forEach g start left isAwait) (forEach g' start left isAwait)
      (Behind cs lo) := by
  refine .step rfl rfl (.advance h hk fun h₁ => ?_)
  have hright (isOf : Bool) : Moves cs 1 (if isOf then g.assignment else expression g)
      (if isOf then g'.assignment else expression g') := fun env st ts lo h =>
    .ite (fun _ => hg.assignment env st ts lo h) fun _ => moves_expression hg env st ts lo h
  refine .next ((hright _).withIn true) h₁.back fun right st₂ ts₂ h₂ => ?_
  refine .next (moves_expect _) h₂ fun _ st₃ ts₃ h₃ => ?_
  exact .next hg.statement h₃ fun body st₄ ts₄ h₄ => .step rfl rfl (.ret h₄)

theorem moves_forRest (hg : g.Tallied cs g') (start : Nat) (init : Option ForInit) :
    Moves cs 3 (forRest g start init) (forRest g' start init) := by
  intro env st ts lo h
  have hclause := (moves_expression hg).withIn true
  refine .first (moves_expect _) h fun _ st₁ ts₁ h₁ => ?_
  refine .pass (passes_unlessAt _ hclause) h₁ fun test st₂ ts₂ h₂ => ?_
  refine .next (moves_expect _) h₂ fun _ st₃ ts₃ h₃ => ?_
  refine .pass (passes_unlessAt _ hclause) h₃ fun update st₄ ts₄ h₄ => ?_
  refine .next (moves_expect _) h₄ fun _ st₅ ts₅ h₅ => ?_
  exact .next hg.statement h₅ fun body st₆ ts₆ h₆ => .step rfl rfl (.ret h₆)

/-- Whether a loop declares its variables. -/
theorem views_declares : Views (do
    let k ← kind
    if k.isName "let" then letStartsDeclaration
    else return k.isKey .varKw || k.isKey .constKw) := by
  intro env st ts
  have hlet := views_letStartsDeclaration env st ts
  show ∃ b, (if st.current.token.kind.isName "let" then letStartsDeclaration
      else (pure (st.current.token.kind.isKey .varKw || st.current.token.kind.isKey .constKw) :
        Parse Bool)) env st = .ok (b, st) ∧
    (if st.current.token.kind.isName "let" then letStartsDeclaration
      else (pure (st.current.token.kind.isKey .varKw || st.current.token.kind.isKey .constKw) :
        Parse Bool)) env (st.along ts) = .ok (b, st.along ts)
  split
  · exact hlet
  · exact ⟨_, rfl, rfl⟩

/-- A loop leaves its word, and each kind of head what starts it. -/
theorem moves_forStatement (hg : g.Tallied cs g') :
    Moves cs 3 (forStatement g) (forStatement g') := by
  intro env st ts lo h
  refine .step rfl rfl (.first (moves_expectKey _) h fun _ st₁ ts₁ h₁ => ?_)
  refine .bind (α := Bool) (R := Behind cs (lo + 1)) ?_ fun isAwait st₂ ts₂ h₂ => ?_
  · refine .step rfl rfl (.ite (fun _ => ?_) fun _ => .ret h₁)
    exact (eatsAlong_eatName _).passes _ _ _ _ h₁
  refine .next (moves_expect _) h₂ fun _ st₃ ts₃ h₃ => ?_
  refine .ask rfl rfl (fun _ => .last (moves_forRest hg _ none) h₃) fun _ => ?_
  refine .step rfl rfl ?_
  obtain ⟨declares, heq, heq'⟩ := views_declares env st₃ ts₃
  obtain ⟨declares₀, heq₀, hsolid⟩ := asks_declares env st₃
  -- both lemmas speak of the same question, so their answers agree
  cases heq₀.symm.trans heq
  refine .ask heq heq' (fun hdeclares => ?_) fun _ => ?_
  · refine .bind (.withIn (tallies_declaration hg h₃ (hsolid hdeclares))) fun decl st₄ ts₄ h₄ => ?_
    refine .ask rfl rfl (fun hword => .ite (fun _ => .fail (by simp)) fun _ => ?_) fun _ => ?_
    · exact tallies_forEach hg _ _ isAwait h₄.back (isSolid_of_atForEach hword)
    · exact .last (moves_forRest hg _ _) h₄.back
  · refine .next ((moves_expression hg).withIn false) h₃ fun e st₄ ts₄ h₄ => ?_
    refine .ask rfl rfl (fun hword => ?_) fun _ => .last (moves_forRest hg _ _) h₄
    refine .ofExcept (neverStalls_toPattern e) fun pattern => ?_
    exact tallies_forEach hg _ _ isAwait h₄ (isSolid_of_atForEach hword)

theorem moves_whileStatement (hg : g.Tallied cs g') :
    Moves cs 3 (whileStatement g) (whileStatement g') := by
  intro env st ts lo h
  refine .step rfl rfl (.first (moves_expectKey _) h fun _ st₁ ts₁ h₁ => ?_)
  refine .next (moves_condition hg) h₁ fun test st₂ ts₂ h₂ => ?_
  exact .next hg.statement h₂ fun body st₃ ts₃ h₃ => .step rfl rfl (.ret h₃)

theorem moves_doStatement (hg : g.Tallied cs g') :
    Moves cs 3 (doStatement g) (doStatement g') := by
  intro env st ts lo h
  refine .step rfl rfl (.first (moves_expectKey _) h fun _ st₁ ts₁ h₁ => ?_)
  refine .next hg.statement h₁ fun body st₂ ts₂ h₂ => ?_
  refine .next (moves_expectKey _) h₂ fun _ st₃ ts₃ h₃ => ?_
  refine .next (moves_condition hg) h₃ fun test st₄ ts₄ h₄ => ?_
  exact .pass (eatsAlong_eat _).passes h₄ fun _ st₅ ts₅ h₅ => .step rfl rfl (.ret h₅)

/-- A jump, of which the current token is the word in front. -/
theorem tallies_jumpStatement (make : Span → Option Ident → Stmt) (h : Paced cs k lo st ts)
    (hk : st.current.token.kind.IsSolid) :
    Tallies cs env st ts (jumpStatement make) (jumpStatement make) (Behind cs (lo + 1)) := by
  refine .step rfl rfl (.advance h hk fun h₁ => ?_)
  refine .bind (α := Option Ident) (R := Behind cs (lo + 1)) ?_ fun label st₂ ts₂ h₂ => ?_
  · refine .view views_isAnyName fun _ _ => .step rfl rfl (.ite (fun _ => ?_) fun _ => .ret h₁)
    exact .next moves_bindingName h₁ fun name st₂ ts₂ h₂ => .ret h₂
  · exact .pass passes_semicolon h₂ fun _ st₃ ts₃ h₃ => .step rfl rfl (.ret h₃)

theorem tallies_returnStatement (hg : g.Tallied cs g') (h : Paced cs k lo st ts)
    (hk : st.current.token.kind.IsSolid) :
    Tallies cs env st ts (returnStatement g) (returnStatement g') (Behind cs (lo + 1)) := by
  refine .step rfl rfl (.step rfl rfl (.ite (fun _ => .failHere (by simp)) fun _ => ?_))
  refine .advance h hk fun h₁ => ?_
  refine .bind (α := Option Expr) (R := Behind cs (lo + 1)) ?_ fun argument st₂ ts₂ h₂ => ?_
  · refine .step rfl rfl (.step rfl rfl (.ite (fun _ => .ret h₁) fun _ => ?_))
    exact .next ((moves_expression hg).withIn true) h₁ fun e st₂ ts₂ h₂ => .ret h₂
  · exact .pass passes_semicolon h₂ fun _ st₃ ts₃ h₃ => .step rfl rfl (.ret h₃)

theorem tallies_throwStatement (hg : g.Tallied cs g') (h : Paced cs k lo st ts)
    (hk : st.current.token.kind.IsSolid) :
    Tallies cs env st ts (throwStatement g) (throwStatement g') (Behind cs (lo + 1)) := by
  refine .step rfl rfl (.advance h hk fun h₁ => .token fun _ _ _ _ => ?_)
  refine .ite (fun _ => .failHere (by simp)) fun _ => ?_
  refine .next ((moves_expression hg).withIn true) h₁ fun argument st₂ ts₂ h₂ => ?_
  exact .pass passes_semicolon h₂ fun _ st₃ ts₃ h₃ => .step rfl rfl (.ret h₃)

theorem moves_catchClause (hg : g.Tallied cs g') :
    Moves cs 3 (catchClause g) (catchClause g') := by
  intro env st ts lo h
  refine .step rfl rfl (.first (moves_expectKey _) h fun _ st₁ ts₁ h₁ => ?_)
  refine .bind (α := Option Pattern) (R := Behind cs (lo + 1)) ?_ fun param st₂ ts₂ h₂ => ?_
  · refine .eat (eatsAlong_eat _) h₁ (fun st₂ ts₂ h₂ => ?_) (.ret h₁)
    refine .next hg.pattern h₂.back fun p st₃ ts₃ h₃ => ?_
    exact .next (moves_expect _) h₃ fun _ st₄ ts₄ h₄ => .ret h₄
  · exact .next (moves_block hg) h₂ fun body st₃ ts₃ h₃ => .step rfl rfl (.ret h₃)

theorem moves_tryStatement (hg : g.Tallied cs g') :
    Moves cs 3 (tryStatement g) (tryStatement g') := by
  intro env st ts lo h
  refine .step rfl rfl (.first (moves_expectKey _) h fun _ st₁ ts₁ h₁ => ?_)
  refine .next (moves_block hg) h₁ fun body st₂ ts₂ h₂ => ?_
  refine .bind (α := Option CatchClause) (R := Behind cs (lo + 1)) ?_ fun handler st₃ ts₃ h₃ => ?_
  · refine .ask rfl rfl (fun _ => ?_) fun _ => .ret h₂
    exact .next (moves_catchClause hg) h₂ fun c st₃ ts₃ h₃ => .ret h₃
  refine .bind (α := Option Block) (R := Behind cs (lo + 1)) ?_ fun finalizer st₄ ts₄ h₄ => ?_
  · refine .eat (eatsAlong_eatKey _) h₃ (fun st₄ ts₄ h₄ => ?_) (.ret h₃)
    exact .next (moves_block hg) h₄.back fun b st₅ ts₅ h₅ => .ret h₅
  exact .ite (fun _ => .failHere (by simp)) fun _ => .step rfl rfl (.ret h₄)

theorem moves_expressionStatement (hg : g.Tallied cs g') :
    Moves cs 1 (expressionStatement g) (expressionStatement g') := by
  intro env st ts lo h
  refine .step rfl rfl (.first ((moves_expression hg).withIn true) h fun e st₁ ts₁ h₁ => ?_)
  exact .pass passes_semicolon h₁ fun _ st₂ ts₂ h₂ => .step rfl rfl (.ret h₂)

/-- A label is a name in front of a colon. -/
theorem tallies_labeledStatement (hg : g.Tallied cs g') (h : Paced cs k lo st ts)
    (hcolon : st.next.current.token.kind.isPunct .colon = true) :
    Tallies cs env st ts (labeledStatement g) (labeledStatement g') (Behind cs (lo + 1)) := by
  refine .step rfl rfl ?_
  refine .bindAt (moves_bindingName env st ts lo h.top) fun label st₁ ts₁ heq h₁ => ?_
  obtain rfl := gives_bindingName env st label st₁ heq
  refine .advance h₁ (Kind.isSolid_of_isPunct hcolon) fun h₂ => ?_
  exact .next hg.statement h₂.back fun body st₃ ts₃ h₃ => .step rfl rfl (.ret h₃)

/-! ### Modules -/

theorem passes_requireModule : Passes cs k requireModule requireModule := by
  intro env st ts lo h
  exact .step rfl rfl (.ite (fun _ => .ret h) fun _ => .failHere (by simp))

theorem moves_importSpecifier : Moves cs 3 importSpecifier importSpecifier := by
  intro env st ts lo h
  refine .step rfl rfl (.first moves_identifierName h fun imported st₁ ts₁ h₁ => ?_)
  refine .bind (α := Ident) (R := Behind cs (lo + 1)) ?_ fun binding st₂ ts₂ h₂ => ?_
  · refine .eat (eatsAlong_eatName _) h₁ (fun st₂ ts₂ h₂ => ?_) (.ret h₁)
    exact .last moves_bindingName h₂.back
  · exact .step rfl rfl (.ret h₂)

theorem passes_importClause : Passes cs 0 importClause importClause := by
  intro env st ts lo h
  have hitem : Moves cs 3 _ _ := moves_importSpecifier.notLast
  refine .step rfl rfl (.eat (eatsAlong_eat _) h (fun st₁ ts₁ h₁ => ?_) ?_)
  · refine .next (moves_expectName _) h₁.back fun _ st₂ ts₂ h₂ => ?_
    exact .next moves_bindingName h₂ fun binding st₃ ts₃ h₃ => .step rfl rfl (.ret h₃)
  refine .eat (eatsAlong_eat _) h (fun st₁ ts₁ h₁ => ?_) (.ret h)
  refine .pass (passes_itemsBefore _ hitem) h₁.back fun specifiers st₂ ts₂ h₂ => ?_
  exact .next (moves_expect _) h₂ fun _ st₃ ts₃ h₃ => .ret h₃

theorem passes_importSpecifiers : Passes cs 0 importSpecifiers importSpecifiers := by
  intro env st ts lo h
  refine .kind fun kind _ => ?_
  split
  · exact .ret h
  · refine .next moves_bindingName h fun binding st₁ ts₁ h₁ => ?_
    refine .eat (eatsAlong_eat _) h₁ (fun st₂ ts₂ h₂ => ?_) (.ret h₁)
    exact .pass passes_importClause h₂.back fun specifiers st₃ ts₃ h₃ => .ret h₃
  · exact passes_importClause env st ts lo h

/-- What stands behind `from` in an import. -/
theorem tallies_importSource (start : Nat) (specifiers : List ImportSpecifier)
    (h : Paced cs 0 lo st ts) :
    Tallies cs env st ts
      (do
        let source ← stringLiteral
        semicolon
        return Stmt.importDecl (← finish start) specifiers source)
      (do
        let source ← stringLiteral
        semicolon
        return Stmt.importDecl (← finish start) specifiers source)
      (Behind cs lo) := by
  refine .next moves_stringLiteral h fun source st₁ ts₁ h₁ => ?_
  exact .pass passes_semicolon h₁ fun _ st₂ ts₂ h₂ => .step rfl rfl (.ret h₂)

theorem moves_importDeclaration : Moves cs 3 importDeclaration importDeclaration := by
  intro env st ts lo h
  refine .step rfl rfl (.pass passes_requireModule h fun _ st₁ ts₁ h₁ => ?_)
  refine .first (moves_expectKey _) h₁ fun _ st₂ ts₂ h₂ => ?_
  refine .pass passes_importSpecifiers h₂ fun specifiers st₃ ts₃ h₃ => ?_
  refine .ite (fun _ => tallies_importSource _ specifiers h₃) fun _ => ?_
  exact .next (moves_expectName _) h₃ fun _ st₄ ts₄ h₄ => tallies_importSource _ specifiers h₄

theorem moves_exportSpecifier : Moves cs 3 exportSpecifier exportSpecifier := by
  intro env st ts lo h
  refine .step rfl rfl (.first moves_identifierName h fun binding st₁ ts₁ h₁ => ?_)
  refine .bind (α := Ident) (R := Behind cs (lo + 1)) ?_ fun exported st₂ ts₂ h₂ => ?_
  · refine .eat (eatsAlong_eatName _) h₁ (fun st₂ ts₂ h₂ => ?_) (.ret h₁)
    exact .last moves_identifierName h₂.back
  · exact .step rfl rfl (.ret h₂)

theorem moves_exportedDefault (hg : g.Tallied cs g') :
    Moves cs 1 (exportedDefault g) (exportedDefault g') := by
  intro env st ts lo h
  have hheritage : Further cs lo (leftHandSide g) (leftHandSide g') :=
    (moves_leftHandSide hg).further
  refine .step rfl rfl (.ask rfl rfl (fun _ => ?_) fun _ => ?_)
  · exact .first (moves_function hg _ false false) h.top fun f st₁ ts₁ h₁ => .ret h₁
  refine .step rfl rfl (.step rfl rfl (.ite (fun hasync => ?_) fun _ => ?_))
  · rw [Bool.and_eq_true] at hasync
    refine .advance h (Kind.isSolid_of_isName hasync.1) fun h₁ => ?_
    exact .next (moves_function hg _ true false) h₁ fun f st₂ ts₂ h₂ => .ret h₂
  refine .ask rfl rfl (fun _ => ?_) fun _ => ?_
  · exact .bind (tallies_classDef hg hheritage _ false h.top) fun c st₁ ts₁ h₁ => .ret h₁
  · refine .first (hg.assignment.withIn true) h fun e st₁ ts₁ h₁ => ?_
    exact .pass passes_semicolon h₁ fun _ st₂ ts₂ h₂ => .ret h₂

/-- What is exported as it is declared. -/
theorem tallies_exportDeclared (hg : g.Tallied cs g') (start : Nat) (h : Paced cs 0 lo st ts) :
    Tallies cs env st ts
      (do
        let declaration ← g.statement
        return Stmt.exportNamed (← finish start) (some declaration) [] none)
      (do
        let declaration ← g'.statement
        return Stmt.exportNamed (← finish start) (some declaration) [] none)
      (Behind cs lo) :=
  .next hg.statement h fun _ _ _ h₁ => .step rfl rfl (.ret h₁)

/-- An export leaves its word; a list of specifiers may be empty. -/
theorem moves_exportDeclaration (hg : g.Tallied cs g') :
    Moves cs 3 (exportDeclaration g) (exportDeclaration g') := by
  intro env st ts lo h
  have hitem : Moves cs 3 _ _ := moves_exportSpecifier.notLast
  refine .step rfl rfl (.pass passes_requireModule h fun _ st₁ ts₁ h₁ => ?_)
  refine .first (moves_expectKey _) h₁ fun _ st₂ ts₂ h₂ => ?_
  -- one form of export for each token that may follow
  refine .kind fun kind hkind => ?_
  split
  · refine .advance h₂ (hkind ▸ trivial) fun h₃ => ?_
    refine .next (moves_exportedDefault hg) h₃.back fun declaration st₄ ts₄ h₄ => ?_
    exact .step rfl rfl (.ret h₄)
  · refine .advance h₂ (hkind ▸ trivial) fun h₃ => ?_
    refine .bind (α := Option Ident) (R := Behind cs (lo + 1)) ?_ fun exported st₄ ts₄ h₄ => ?_
    · refine .eat (eatsAlong_eatName _) h₃.back (fun st₄ ts₄ h₄ => ?_) (.ret h₃.back)
      exact .next moves_identifierName h₄.back fun name st₅ ts₅ h₅ => .ret h₅
    refine .next (moves_expectName _) h₄ fun _ st₅ ts₅ h₅ => ?_
    refine .next moves_stringLiteral h₅ fun source st₆ ts₆ h₆ => ?_
    exact .pass passes_semicolon h₆ fun _ st₇ ts₇ h₇ => .step rfl rfl (.ret h₇)
  · refine .advance h₂ (hkind ▸ trivial) fun h₃ => ?_
    refine .pass (passes_itemsBefore _ hitem) h₃.back fun specifiers st₄ ts₄ h₄ => ?_
    refine .next (moves_expect _) h₄ fun _ st₅ ts₅ h₅ => ?_
    refine .bind (α := Option Expr) (R := Behind cs (lo + 1)) ?_ fun source st₆ ts₆ h₆ => ?_
    · refine .eat (eatsAlong_eatName _) h₅ (fun st₆ ts₆ h₆ => ?_) (.ret h₅)
      exact .next moves_stringLiteral h₆.back fun source st₇ ts₇ h₇ => .ret h₇
    exact .pass passes_semicolon h₆ fun _ st₇ ts₇ h₇ => .step rfl rfl (.ret h₇)
  · exact tallies_exportDeclared hg _ h₂
  · exact tallies_exportDeclared hg _ h₂
  · exact tallies_exportDeclared hg _ h₂
  · exact tallies_exportDeclared hg _ h₂
  · exact tallies_exportDeclared hg _ h₂
  · exact tallies_exportDeclared hg _ h₂
  · exact .unexpected

/-! ### All statements -/

theorem moves_nameStatement (hg : g.Tallied cs g') :
    Moves cs 1 (nameStatement g) (nameStatement g') := by
  intro env st ts lo h
  refine .step rfl rfl (.ite (fun hcolon => ?_) fun _ => ?_)
  · exact tallies_labeledStatement hg h hcolon
  · exact moves_expressionStatement hg env st ts lo h

/-- A statement leaves at least one token, one case for each kind of first token. -/
theorem moves_anyStatement (hg : g.Tallied cs g') :
    Moves cs 1 (anyStatement g) (anyStatement g') := by
  intro env st ts lo h
  -- the heritage of a class is entered behind the word, so further on
  have hheritage : Further cs lo (leftHandSide g) (leftHandSide g') :=
    (moves_leftHandSide hg).further
  refine .token fun kind span newline htoken => ?_
  have hkind : st.current.token.kind = kind := congrArg Token.kind htoken
  dsimp only
  split
  · exact tallies_varStatement hg h (hkind ▸ trivial)
  · exact tallies_varStatement hg h (hkind ▸ trivial)
  · refine .view views_letStartsDeclaration fun _ _ => .ite (fun _ => ?_) fun _ => ?_
    · exact tallies_varStatement hg h (hkind ▸ trivial)
    · exact moves_nameStatement hg env st ts lo h
  · refine .ask rfl rfl (fun _ => ?_) fun _ => moves_nameStatement hg env st ts lo h
    refine .advance h (hkind ▸ trivial) fun h₁ => ?_
    exact .next (moves_function hg _ true true) h₁ fun f st₂ ts₂ h₂ => .ret h₂
  · exact moves_nameStatement hg env st ts lo h
  · exact .first (moves_function hg _ false true) h.top fun f st₁ ts₁ h₁ => .ret h₁
  · exact .bind (tallies_classDef hg hheritage _ true h.top) fun c st₁ ts₁ h₁ => .ret h₁
  · exact moves_ifStatement hg env st ts lo h.top
  · exact moves_switchStatement hg env st ts lo h.top
  · exact moves_forStatement hg env st ts lo h.top
  · exact moves_whileStatement hg env st ts lo h.top
  · exact moves_doStatement hg env st ts lo h.top
  · exact tallies_jumpStatement _ h (hkind ▸ trivial)
  · exact tallies_jumpStatement _ h (hkind ▸ trivial)
  · exact tallies_returnStatement hg h (hkind ▸ trivial)
  · exact tallies_throwStatement hg h (hkind ▸ trivial)
  · exact moves_tryStatement hg env st ts lo h.top
  · refine .advance h (hkind ▸ trivial) fun h₁ => ?_
    exact .pass passes_semicolon h₁ fun _ st₂ ts₂ h₂ => .step rfl rfl (.ret h₂)
  · exact .failHere (by simp)
  · exact .first (moves_block hg) h.top fun b st₁ ts₁ h₁ => .ret h₁
  · exact .advance h (hkind ▸ trivial) fun h₁ => .step rfl rfl (.ret h₁)
  · refine .step rfl rfl (.ite (fun _ => ?_) fun _ => ?_)
    · exact moves_expressionStatement hg env st ts lo h
    · exact moves_importDeclaration env st ts lo h.top
  · exact moves_exportDeclaration hg env st ts lo h.top
  · exact moves_expressionStatement hg env st ts lo h

/-! ### The whole grammar -/

/-- The grammar tallies with the metered one, for any number of steps that is large enough. -/
theorem tallied_metered (n : Nat) :
    (ofDepth n).Tallied cs (metered (4 * Text.bytes cs + 3) n) := by
  -- without levels every reader fails because it is too deep, never because it is stalled
  induction n with
  | zero =>
    exact {
      statement := fun _ _ _ _ _ => .failHere (by simp)
      pattern := fun _ _ _ _ _ => .failHere (by simp)
      assignment := fun _ _ _ _ _ => .failHere (by simp)
      power := fun _ _ _ _ _ => .failHere (by simp)
      operand := fun _ _ _ _ _ => .failHere (by simp)
      creation := fun _ _ _ _ _ => .failHere (by simp)
      pattern_name := fun _ => .failHere }
  | succ n ih =>
    have htwo : 2 ≤ 3 := by decide
    exact {
      statement := moves_entering (moves_anyStatement ih) (by decide)
      pattern := moves_entering (moves_bindingPattern ih) (by decide)
      assignment := moves_entering (moves_assignmentExpr ih) (by decide)
      power := moves_entering ((moves_binary ih InfixOp.tightest).of_le htwo) (by decide)
      operand := moves_entering ((moves_unary ih).of_le htwo) (by decide)
      creation := moves_entering ((moves_construct ih).of_le htwo) (by decide)
      pattern_name := gives_bindingPattern_name }

end Espalier.Grammar

/-!
## Parsing ends

The parser ends on every source, with a program or an error, and never because it does not move on:
every round of a repetition after which another one follows leaves a token behind, what may be read
again further on is read further on, and between two tokens no reading of the grammar is entered
twice (`Grammar.entered`). So the number of steps, tokens that are left and readings that are
entered, is linear in the size of the source (`parsing_ends_in_linear_steps`), also where a slash or
a closing brace is read again.

Steps are counted here, not the room that the readings take which have begun and not yet ended.
`Grammar.maxDepth` bounds these but for one cycle: what a class extends may be a class, to any
depth, so that this many readings are open at once. A parser that keeps them on a stack of a fixed
size needs more of it for such sources than any such size gives.
-/

namespace Espalier

open Parse

variable {α : Type} {source : String}

/-- A result, or an error that has another reason than that the parser does not move on. -/
def Settles (x : Except ParseError α) : Prop :=
  (∃ a, x = .ok a) ∨ ∃ e, x = .error e ∧ e.cause ≠ .stalled

/-- The number of steps that are enough for a source. -/
def stepLimit (source : String) : Nat := 4 * source.utf8ByteSize + 3

namespace Parse

/-- A reader that tallies from the start of a source on gives the same result as the metered one. -/
theorem run_eq_of_passes {p p' : Parse α} (h : Passes source.toList 0 p p')
    (options : ParserOptions) :
    p'.run source options = p.run source options ∧ Settles (p.run source options) := by
  have hsize : source.utf8ByteSize = Text.bytes source.toList := (Text.bytes_toList source).symm
  have hstart : Paced source.toList 0 0 { current := Token.scan (.ofSource source), prevEnd := 0 }
      [] :=
    ⟨isIn_initial source, Nat.le_refl _, Nat.zero_le _, Nat.zero_le _, Nat.zero_le _⟩
  unfold run
  dsimp only
  rcases h { options, size := source.utf8ByteSize, inAsync := options.isModule } _ _ _ hstart hsize
    with ⟨e, heq, heq', hcause⟩ | ⟨a, st, ts, heq, heq', -⟩
  · rw [heq, show p' _ { current := Token.scan (.ofSource source), prevEnd := 0 } = .error e
      from heq']
    exact ⟨rfl, .inr ⟨_, rfl, hcause⟩⟩
  · rw [heq, show p' _ { current := Token.scan (.ofSource source), prevEnd := 0 } = .ok (a, _)
      from heq']
    exact ⟨rfl, .inl ⟨a, rfl⟩⟩

end Parse

/-- The reader tallies with the metered one, which stops after a number of steps linear in the
source. -/
theorem tallied_full (source : String) : Grammar.full.Tallied source.toList
    (Grammar.metered (stepLimit source) Grammar.maxDepth) := by
  unfold stepLimit
  rw [← Text.bytes_toList]
  exact Grammar.tallied_metered Grammar.maxDepth

theorem Settles.bind {β : Type} {x : Except ParseError α} {f : α → β} (h : Settles x) :
    Settles (x >>= fun a => pure (f a)) := by
  rcases h with ⟨a, rfl⟩ | ⟨e, rfl, hcause⟩
  · exact .inl ⟨f a, rfl⟩
  · exact .inr ⟨e, rfl, hcause⟩

/-- **Parsing ends.** A number of steps that is linear in the size of a source is enough to parse it
as a program or as an expression, whatever it is and however it is to be read, and no error comes
from a parser that does not move on. The source is an addressable one, in which a slash or a brace
that is read again is found by its span. -/
theorem parsing_ends_in_linear_steps {source : String} (hsmall : IsAddressable source)
    (options : ParserOptions) :
    stepLimit source < 4 * UInt32.size ∧
      Program.parseWithin (stepLimit source) source options = Program.parse source options ∧
      (wholeExpressionWithin (stepLimit source)).run source options =
        wholeExpression.run source options ∧
      Settles (Program.parse source options) ∧ Settles (wholeExpression.run source options) := by
  have hg := tallied_full source
  have hstatements : Passes source.toList 0 statements (statementsWithin (stepLimit source)) :=
    passes_itemsUntil _ hg.statement
  have hexpression : Passes source.toList 0 wholeExpression
      (wholeExpressionWithin (stepLimit source)) := by
    intro env st ts lo h
    refine .next (Grammar.moves_expression hg) h fun e st₁ ts₁ h₁ => ?_
    exact .ask rfl rfl (fun _ => .ret h₁) fun _ => .unexpected
  obtain ⟨hprogram, hsettles⟩ := run_eq_of_passes hstatements options
  obtain ⟨hexpr, hsettles'⟩ := run_eq_of_passes hexpression options
  -- four steps for each byte, and a source below 4 GiB
  have hlimit : stepLimit source < 4 * UInt32.size := by
    unfold IsAddressable at hsmall
    unfold stepLimit
    omega
  refine ⟨hlimit, ?_, hexpr, hsettles.bind, hsettles'⟩
  unfold Program.parseWithin Program.parse
  rw [hprogram]

/-- A slash and a brace are read again here, each in what the other one started. -/
theorem parsing_ends_in_linear_steps_of_rescans :
    IsAddressable "`$\x7b/\x7d/\x7d`" ∧
      Program.parseWithin 35 "`$\x7b/\x7d/\x7d`" {} = Program.parse "`$\x7b/\x7d/\x7d`" {} ∧
      Settles (Program.parse "`$\x7b/\x7d/\x7d`" {}) := by
  have hsmall : IsAddressable "`$\x7b/\x7d/\x7d`" := by decide
  obtain ⟨-, hwithin, -, hsettles, -⟩ := parsing_ends_in_linear_steps hsmall {}
  exact ⟨hsmall, hwithin, hsettles⟩

end Espalier
