import Espalier.Proofs.Closure.Expression
import Espalier.Proofs.Grammar.Cover
import Espalier.Proofs.Grammar.Span
import Espalier.Proofs.Node.Walk

/-!
# No two functions at one place

The functions in statements start apart as well. So in an accepted program the nodes of functions
have different spans, and so have the texts by which the machine knows their code
(`Program.functions_apart`). The nodes of functions in the tree are those of the functions that are
listed, one for each (`Program.functionSpans_eq`).
-/

namespace Espalier

namespace Grammar

open Parse Token

variable {cs : List Char} {lo : Nat} {env : Env} {st : State} {ps : Multiset ℕ} {g : Grammar}

/-! ### Declarations and choices -/

/-- A variable and what it starts with. -/
theorem owns_declarator (hg : g.Keeps cs) : Owns cs (declarator g) := by
  intro env st hst
  have h := hst.stretch (Nat.le_refl st.pos)
  refine .step rfl (h.read hg.pattern.owns fun id st₁ h₁ => ?_)
  refine h₁.read ((eats_eat _).ownsThen hg.assignment) fun init st₂ h₂ => .span fun _ _ => .ret ?_
  exact h₂.of_eq (by simp [add_comm])

/-- A declaration without its semicolon. -/
theorem owns_declaration (hg : g.Keeps cs) : Owns cs (declaration g) := by
  intro env st hst
  have h := hst.stretch (Nat.le_refl st.pos)
  refine h.advance fun h₁ => h₁.read (owns_declarator hg) fun first st₂ h₂ => ?_
  have hfirst : Stretch cs _ st₂ (starts [first]) := h₂.of_eq (by simp)
  refine hfirst.itemsAfterCommas (owns_declarator hg) fun declarations st₃ h₃ => ?_
  exact .span fun _ _ => .ret (h₃.of_eq (by simp))

theorem owns_varStatement (hg : g.Keeps cs) : Owns cs (varStatement g) := by
  intro env st hst
  have h := hst.stretch (Nat.le_refl st.pos)
  refine h.read (owns_declaration hg) fun d st₁ h₁ => ?_
  obtain ⟨kind, declarations, span⟩ := d
  refine h₁.pass mayRead_semicolon.owns fun _ st₂ h₂ => .span fun _ _ => .ret ?_
  exact h₂.of_eq (by simp)

theorem owns_condition (hg : g.Keeps cs) : Owns cs (condition g) := by
  intro env st hst
  have h := hst.stretch (Nat.le_refl st.pos)
  refine h.pass (reads_expect _).enters.owns fun _ st₁ h₁ => ?_
  refine h₁.read ((owns_expression hg).withIn true) fun e st₂ h₂ => ?_
  exact h₂.pass (reads_expect _).enters.owns fun _ st₃ h₃ => .ret (h₃.of_eq (by simp))

theorem owns_unlessAt {α : Type} [HasFunctions α] (stop : Punct) {p : Parse α} (hp : Owns cs p) :
    Owns cs (unlessAt stop p) := by
  intro env st hst
  have h := hst.stretch (Nat.le_refl st.pos)
  refine .ask rfl (fun _ => .ret h) fun _ => ?_
  exact h.read hp fun a st₁ h₁ => .ret (h₁.of_eq (by simp))

/-- A statement with `if`, with an `else` or without. -/
theorem owns_ifStatement (hg : g.Keeps cs) : Owns cs (ifStatement g) := by
  intro env st hst
  have h := hst.stretch (Nat.le_refl st.pos)
  refine .step rfl (h.pass (reads_expectKey _).enters.owns fun _ st₁ h₁ => ?_)
  refine h₁.read (owns_condition hg) fun test st₂ h₂ => ?_
  refine h₂.read hg.statement fun consequent st₃ h₃ => ?_
  refine h₃.read ((eats_eatKey _).ownsThen hg.statement) fun alternate st₄ h₄ => ?_
  exact .span fun _ _ => .ret (h₄.of_eq (by simp [add_comm, add_left_comm]))

/-- The test of a case, behind the word that starts the case. -/
theorem owns_switchTest (hg : g.Keeps cs) (hasDefault : Bool) : Owns cs (do
    if ← eatKey .caseKw then return some (← Parse.withIn true (expression g))
    else if ← isKey .defaultKw then
      if hasDefault then failHere .repeatedDefault
      else
        let _ ← advance
        return none
    else unexpected : Parse (Option Expr)) := by
  intro env st hst
  have h := hst.stretch (Nat.le_refl st.pos)
  refine h.eat (eats_eatKey _) (fun h₁ => ?_) (.ask rfl (fun _ => ?_) fun _ => .unexpected)
  · refine h₁.read ((owns_expression hg).withIn true) fun e st₂ h₂ => .ret ?_
    exact h₂.of_eq (by simp)
  · split
    · exact .failHere
    · exact h.advance fun h₁ => .ret h₁

/-- A case, whose statements go on up to the next one. -/
theorem owns_switchCase (hg : g.Keeps cs) (hasDefault : Bool) :
    Owns cs (switchCase g hasDefault) := by
  intro env st hst
  have h := hst.stretch (Nat.le_refl st.pos)
  refine .step rfl (h.read (owns_switchTest hg hasDefault) fun test st₁ h₁ => ?_)
  refine h₁.pass (reads_expect _).enters.owns fun _ st₂ h₂ => ?_
  refine h₂.read (owns_itemsUntil _ hg.statement) fun consequent st₃ h₃ => ?_
  exact .span fun _ _ => .ret (h₃.of_eq (by simp [add_comm]))

theorem owns_switchStatement (hg : g.Keeps cs) : Owns cs (switchStatement g) := by
  intro env st hst
  have h := hst.stretch (Nat.le_refl st.pos)
  refine .step rfl (h.pass (reads_expectKey _).enters.owns fun _ st₁ h₁ => ?_)
  refine h₁.read (owns_condition hg) fun discriminant st₂ h₂ => ?_
  refine h₂.pass (reads_expect _).enters.owns fun _ st₃ h₃ => ?_
  refine h₃.collect rfl (fun cases st h => .step rfl ?_) fun cases st₄ h₄ => ?_
  · split
    · exact .ret h
    · exact h.read (owns_switchCase hg _) fun c st' h' => .ret (h'.of_eq (by simp [add_assoc]))
  · refine h₄.pass (reads_expect _).enters.owns fun _ st₅ h₅ => .span fun _ _ => .ret ?_
    exact h₅.of_eq (by simp [add_comm])

/-! ### Loops -/

/-- What comes after the head of a loop over some values. -/
theorem gives_loopOver (hg : g.Keeps cs) (start : Nat) {left : ForHead} (isAwait : Bool)
    (h : Stretch cs lo st (starts left)) :
    Gives (forEach g start left isAwait) env st fun s st' => Stretch cs lo st' (starts s) := by
  refine .step rfl (h.advance fun h₁ => ?_)
  have hright (isOf : Bool) : Owns cs (if isOf = true then g.assignment else expression g) := by
    split
    · exact hg.assignment
    · exact owns_expression hg
  refine h₁.read ((hright _).withIn true) fun right st₂ h₂ => ?_
  refine h₂.pass (reads_expect _).enters.owns fun _ st₃ h₃ => ?_
  refine h₃.read hg.statement fun body st₄ h₄ => .span fun _ _ => .ret ?_
  split
  · exact h₄.of_eq (by simp [add_comm, add_left_comm, add_assoc])
  · exact h₄.of_eq (by simp [add_comm, add_left_comm, add_assoc])

/-- What comes after the first clause of a loop that counts. -/
theorem gives_loopRest (hg : g.Keeps cs) (start : Nat) {init : Option ForInit}
    (h : Stretch cs lo st (starts init)) :
    Gives (forRest g start init) env st fun s st' => Stretch cs lo st' (starts s) := by
  have hclause := (owns_expression hg).withIn true
  refine h.pass (reads_expect _).enters.owns fun _ st₁ h₁ => ?_
  refine h₁.read (owns_unlessAt _ hclause) fun test st₂ h₂ => ?_
  refine h₂.pass (reads_expect _).enters.owns fun _ st₃ h₃ => ?_
  refine h₃.read (owns_unlessAt _ hclause) fun update st₄ h₄ => ?_
  refine h₄.pass (reads_expect _).enters.owns fun _ st₅ h₅ => ?_
  refine h₅.read hg.statement fun body st₆ h₆ => .span fun _ _ => .ret ?_
  exact h₆.of_eq (by simp [add_comm, add_left_comm, add_assoc])

/-- Loops with `for`, the three kinds of which begin alike. -/
theorem owns_forStatement (hg : g.Keeps cs) : Owns cs (forStatement g) := by
  intro env st hst
  have h := hst.stretch (Nat.le_refl st.pos)
  refine .step rfl (h.pass (reads_expectKey _).enters.owns fun _ st₁ h₁ => ?_)
  refine h₁.pass mayRead_awaitWord.owns fun isAwait st₂ h₂ => ?_
  refine h₂.pass (reads_expect _).enters.owns fun _ st₃ h₃ => ?_
  refine .ask rfl (fun _ => gives_loopRest hg _ h₃) fun _ => .step rfl ?_
  obtain ⟨declares, heq, -⟩ := asks_declares env st₃
  refine .ask heq (fun _ => ?_) fun _ => ?_
  · refine h₃.read ((owns_declaration hg).withIn false) fun d st₄ h₄ => ?_
    refine .ask rfl (fun _ => ?_) fun _ => gives_loopRest hg _ (h₄.of_eq (by simp))
    split
    · exact .fail
    · exact gives_loopOver hg _ isAwait (h₄.of_eq (by simp))
  · refine h₃.read ((owns_expression hg).withIn false) fun e st₄ h₄ => ?_
    refine .ask rfl (fun _ => ?_) fun _ => gives_loopRest hg _ (h₄.of_eq (by simp))
    refine .bind (.ofExcept fun pattern hpattern => ?_)
    exact gives_loopOver hg _ isAwait (h₄.of_eq (by simp [functions_toPattern e hpattern]))

theorem owns_whileStatement (hg : g.Keeps cs) : Owns cs (whileStatement g) := by
  intro env st hst
  have h := hst.stretch (Nat.le_refl st.pos)
  refine .step rfl (h.pass (reads_expectKey _).enters.owns fun _ st₁ h₁ => ?_)
  refine h₁.read (owns_condition hg) fun test st₂ h₂ => ?_
  refine h₂.read hg.statement fun body st₃ h₃ => .span fun _ _ => .ret ?_
  exact h₃.of_eq (by simp [add_comm])

theorem owns_doStatement (hg : g.Keeps cs) : Owns cs (doStatement g) := by
  intro env st hst
  have h := hst.stretch (Nat.le_refl st.pos)
  refine .step rfl (h.pass (reads_expectKey _).enters.owns fun _ st₁ h₁ => ?_)
  refine h₁.read hg.statement fun body st₂ h₂ => ?_
  refine h₂.pass (reads_expectKey _).enters.owns fun _ st₃ h₃ => ?_
  refine h₃.read (owns_condition hg) fun test st₄ h₄ => ?_
  refine h₄.pass (eats_eat _).mayRead.owns fun _ st₅ h₅ => .span fun _ _ => .ret ?_
  exact h₅.of_eq (by simp [add_comm])

/-! ### Leaving -/

/-- A jump has no functions, whatever its label. -/
theorem owns_jumpStatement {make : Span → Option Ident → Stmt}
    (hmake : ∀ s label, starts (make s label) = 0) : Owns cs (jumpStatement make) := by
  intro env st hst
  have h := hst.stretch (Nat.le_refl st.pos)
  refine .step rfl (h.advance fun h₁ => ?_)
  refine h₁.pass mayRead_jumpLabel.owns fun label st₂ h₂ => ?_
  refine h₂.pass mayRead_semicolon.owns fun _ st₃ h₃ => .span fun s _ => .ret ?_
  exact h₃.of_eq (hmake s label)

/-- What is returned may be missing. -/
theorem owns_returned (hg : g.Keeps cs) : Owns cs (do
    if (← isPunct .semicolon) || (← atImplicitEnd) then return none
    else return some (← Parse.withIn true (expression g)) : Parse (Option Expr)) := by
  intro env st hst
  have h := hst.stretch (Nat.le_refl st.pos)
  refine .step rfl (.step rfl ?_)
  split
  · exact .ret h
  · refine h.read ((owns_expression hg).withIn true) fun e st₁ h₁ => .ret ?_
    exact h₁.of_eq (by simp)

theorem owns_returnStatement (hg : g.Keeps cs) : Owns cs (returnStatement g) := by
  intro env st hst
  have h := hst.stretch (Nat.le_refl st.pos)
  refine .step rfl (.step rfl ?_)
  split
  · exact .failHere
  · refine h.advance fun h₁ => h₁.read (owns_returned hg) fun argument st₂ h₂ => ?_
    refine h₂.pass mayRead_semicolon.owns fun _ st₃ h₃ => .span fun _ _ => .ret ?_
    exact h₃.of_eq (by simp)

theorem owns_throwStatement (hg : g.Keeps cs) : Owns cs (throwStatement g) := by
  intro env st hst
  have h := hst.stretch (Nat.le_refl st.pos)
  refine .step rfl (h.advance fun h₁ => .step rfl ?_)
  split
  · exact .failHere
  · refine h₁.read ((owns_expression hg).withIn true) fun argument st₂ h₂ => ?_
    refine h₂.pass mayRead_semicolon.owns fun _ st₃ h₃ => .span fun _ _ => .ret ?_
    exact h₃.of_eq (by simp)

/-- The parameter of a handler may be missing. -/
theorem owns_catchParam (hg : g.Keeps cs) : Owns cs (do
    if ← eat .leftParen then
      let param ← g.pattern
      expect .rightParen
      return some param
    else return none : Parse (Option Pattern)) := by
  intro env st hst
  have h := hst.stretch (Nat.le_refl st.pos)
  refine h.eat (eats_eat _) (fun h₁ => ?_) (.ret h)
  refine h₁.read hg.pattern.owns fun param st₂ h₂ => ?_
  exact h₂.pass (reads_expect _).enters.owns fun _ st₃ h₃ => .ret (h₃.of_eq (by simp))

theorem owns_catchClause (hg : g.Keeps cs) : Owns cs (catchClause g) := by
  intro env st hst
  have h := hst.stretch (Nat.le_refl st.pos)
  refine .step rfl (h.pass (reads_expectKey _).enters.owns fun _ st₁ h₁ => ?_)
  refine h₁.read (owns_catchParam hg) fun param st₂ h₂ => ?_
  refine h₂.read (owns_block hg) fun body st₃ h₃ => .span fun _ _ => .ret ?_
  exact h₃.of_eq (by simp [add_comm])

theorem owns_tryStatement (hg : g.Keeps cs) : Owns cs (tryStatement g) := by
  intro env st hst
  have h := hst.stretch (Nat.le_refl st.pos)
  refine .step rfl (h.pass (reads_expectKey _).enters.owns fun _ st₁ h₁ => ?_)
  refine h₁.read (owns_block hg) fun body st₂ h₂ => ?_
  refine h₂.read ((asks_isKey _).ownsThen (owns_catchClause hg)) fun handler st₃ h₃ => ?_
  refine h₃.read ((eats_eatKey _).ownsThen (owns_block hg)) fun finalizer st₄ h₄ => ?_
  split
  · exact .failHere
  · exact .span fun _ _ => .ret (h₄.of_eq (by simp [add_comm, add_assoc]))

theorem owns_expressionStatement (hg : g.Keeps cs) : Owns cs (expressionStatement g) := by
  intro env st hst
  have h := hst.stretch (Nat.le_refl st.pos)
  refine .step rfl (h.read ((owns_expression hg).withIn true) fun e st₁ h₁ => ?_)
  refine h₁.pass mayRead_semicolon.owns fun _ st₂ h₂ => .span fun _ _ => .ret ?_
  exact h₂.of_eq (by simp)

theorem owns_labeledStatement (hg : g.Keeps cs) : Owns cs (labeledStatement g) := by
  intro env st hst
  have h := hst.stretch (Nat.le_refl st.pos)
  refine .step rfl (h.pass reads_bindingName.enters.owns fun label st₁ h₁ => ?_)
  refine h₁.advance fun h₂ => h₂.read hg.statement fun body st₃ h₃ => .span fun _ _ => .ret ?_
  exact h₃.of_eq (by simp)

/-! ### Modules -/

/-- A text in quotes has no functions. -/
theorem owns_stringLiteral : Owns cs stringLiteral := by
  intro env st hst
  have h := hst.stretch (Nat.le_refl st.pos)
  refine .step rfl ?_
  split
  · exact gives_token h rfl
  · exact .unexpected

/-- An import has no functions. -/
theorem owns_importDeclaration : Owns cs importDeclaration := by
  intro env st hst
  have h := hst.stretch (Nat.le_refl st.pos)
  refine .step rfl (.bind ((gives_requireModule env st).mono fun _ st₁ heq => ?_))
  subst heq
  refine h.pass (reads_expectKey _).enters.owns fun _ st₁ h₁ => ?_
  refine h₁.pass mayRead_importSpecifiers.owns fun specifiers st₂ h₂ => ?_
  split
  · refine h₂.read owns_stringLiteral fun source st₃ h₃ => ?_
    refine h₃.pass mayRead_semicolon.owns fun _ st₄ h₄ => .span fun _ _ => .ret ?_
    exact h₄.of_eq (by simp)
  · refine h₂.pass (reads_expectName _).enters.owns fun _ st₃ h₃ => ?_
    refine h₃.read owns_stringLiteral fun source st₄ h₄ => ?_
    refine h₄.pass mayRead_semicolon.owns fun _ st₅ h₅ => .span fun _ _ => .ret ?_
    exact h₅.of_eq (by simp)

theorem owns_exportedDefault (hg : g.Keeps cs) : Owns cs (exportedDefault g) := by
  intro env st hst
  have h := hst.stretch (Nat.le_refl st.pos)
  refine .step rfl (.ask rfl (fun _ => ?_) fun _ => .step rfl (.step rfl ?_))
  · exact .bind ((gives_function_from hg false false hst (Nat.le_refl _)).mono fun f st' h' =>
      .ret h')
  split
  · refine h.advance fun h₁ => ?_
    exact .bind ((gives_function_from hg true false h₁.isIn h₁.le).mono fun f st' h' => .ret h')
  refine .ask rfl (fun _ => ?_) fun _ => ?_
  · exact .bind ((gives_class hg (owns_leftHandSide hg) _ false h).mono fun c st' h' => .ret h')
  · refine h.read (hg.assignment.withIn true) fun e st₁ h₁ => ?_
    exact h₁.pass mayRead_semicolon.owns fun _ st₂ h₂ => .ret (h₂.of_eq (by simp))

/-- A declaration that is exported starts behind the word `export`. -/
theorem gives_exportedStatement (hg : g.Keeps cs) (start : Nat) (h : Stretch cs lo st 0) :
    Gives (do
      let declaration ← g.statement
      return Stmt.exportNamed (← finish start) (some declaration) [] none) env st fun s st' =>
        Stretch cs lo st' (starts s) := by
  refine h.read hg.statement fun declaration st₁ h₁ => .span fun _ _ => .ret ?_
  exact h₁.of_eq (by simp)

/-- Exports, of which defaults and declarations have functions. -/
theorem owns_exportDeclaration (hg : g.Keeps cs) : Owns cs (exportDeclaration g) := by
  intro env st hst
  have h := hst.stretch (Nat.le_refl st.pos)
  refine .step rfl (.bind ((gives_requireModule env st).mono fun _ st₁ heq => ?_))
  subst heq
  refine h.pass (reads_expectKey _).enters.owns fun _ st₁ h₁ => .step rfl ?_
  -- The word after `export` tells what is exported.
  split
  · refine h₁.advance fun h₂ => h₂.read (owns_exportedDefault hg) fun declaration st₃ h₃ => ?_
    exact .span fun _ _ => .ret (h₃.of_eq (by simp))
  · refine h₁.advance fun h₂ => ?_
    have halias := ((eats_eatName "as").mayReadThen (@reads_identifierName cs)).owns
    refine h₂.pass halias fun exported st₃ h₃ => ?_
    refine h₃.pass (reads_expectName _).enters.owns fun _ st₄ h₄ => ?_
    refine h₄.read owns_stringLiteral fun source st₅ h₅ => ?_
    refine h₅.pass mayRead_semicolon.owns fun _ st₆ h₆ => .span fun _ _ => .ret ?_
    exact h₆.of_eq (by simp)
  · refine h₁.advance fun h₂ => ?_
    refine h₂.pass (owns_itemsBefore _ fun env st hst => ?_) fun specifiers st₃ h₃ => ?_
    · have h := hst.stretch (Nat.le_refl st.pos)
      exact h.pass reads_exportSpecifier.enters.owns fun s st' h' => .ret (h'.of_eq (by simp))
    refine h₃.pass (reads_expect _).enters.owns fun _ st₄ h₄ => ?_
    refine h₄.read ((eats_eatName _).ownsThen owns_stringLiteral) fun source st₅ h₅ => ?_
    refine h₅.pass mayRead_semicolon.owns fun _ st₆ h₆ => .span fun _ _ => .ret ?_
    exact h₆.of_eq (by simp)
  · exact gives_exportedStatement hg _ h₁
  · exact gives_exportedStatement hg _ h₁
  · exact gives_exportedStatement hg _ h₁
  · exact gives_exportedStatement hg _ h₁
  · exact gives_exportedStatement hg _ h₁
  · exact gives_exportedStatement hg _ h₁
  · exact .unexpected

/-! ### All statements -/

theorem owns_nameStatement (hg : g.Keeps cs) : Owns cs (nameStatement g) := by
  intro env st hst
  refine .step rfl ?_
  split
  · exact owns_labeledStatement hg env st hst
  · exact owns_expressionStatement hg env st hst

/-- Statements of every kind, as told by their first token. -/
theorem owns_anyStatement (hg : g.Keeps cs) : Owns cs (anyStatement g) := by
  intro env st hst
  have h := hst.stretch (Nat.le_refl st.pos)
  refine .step rfl ?_
  -- One case for each kind of token that a statement can begin with.
  split
  · exact owns_varStatement hg env st hst
  · exact owns_varStatement hg env st hst
  · obtain ⟨b, heq⟩ := letStartsDeclaration_eq_ok env st
    refine .ask heq (fun _ => ?_) fun _ => ?_
    · exact owns_varStatement hg env st hst
    · exact owns_nameStatement hg env st hst
  · refine .ask rfl (fun _ => ?_) fun _ => owns_nameStatement hg env st hst
    refine h.advance fun h₁ => ?_
    exact .bind ((gives_function_from hg true true h₁.isIn h₁.le).mono fun f st' h' => .ret h')
  · exact owns_nameStatement hg env st hst
  · exact .bind ((gives_function_from hg false true hst (Nat.le_refl _)).mono fun f st' h' =>
      .ret h')
  · exact .bind ((gives_class hg (owns_leftHandSide hg) _ true h).mono fun c st' h' => .ret h')
  · exact owns_ifStatement hg env st hst
  · exact owns_switchStatement hg env st hst
  · exact owns_forStatement hg env st hst
  · exact owns_whileStatement hg env st hst
  · exact owns_doStatement hg env st hst
  · exact owns_jumpStatement (fun _ _ => rfl) env st hst
  · exact owns_jumpStatement (fun _ _ => rfl) env st hst
  · exact owns_returnStatement hg env st hst
  · exact owns_throwStatement hg env st hst
  · exact owns_tryStatement hg env st hst
  · refine h.advance fun h₁ => ?_
    exact h₁.pass mayRead_semicolon.owns fun _ st₂ h₂ => .span fun _ _ => .ret h₂
  · exact .failHere
  · exact h.read (owns_block hg) fun b st₁ h₁ => .ret (h₁.of_eq (by simp))
  · exact h.advance fun h₁ => .span fun _ _ => .ret h₁
  · refine .step rfl ?_
    split
    · exact owns_expressionStatement hg env st hst
    · exact owns_importDeclaration env st hst
  · exact owns_exportDeclaration hg env st hst
  · exact owns_expressionStatement hg env st hst

/-! ### Grammars -/

/-- Every grammar owns what it reads, however deep a source may nest. -/
theorem keeps_ofDepth (depth : Nat) : (ofDepth depth).Keeps cs := by
  induction depth with
  | zero =>
    have hrefuse {α : Type} [HasFunctions α] : Owns cs (failHere .tooDeep : Parse α) :=
      fun _ _ _ => .failHere
    exact ⟨hrefuse, fun _ _ _ => .failHere, hrefuse, hrefuse, hrefuse, hrefuse⟩
  | succ depth ih =>
    exact ⟨owns_anyStatement ih, enters_bindingPattern ih, owns_assignmentExpr ih,
      owns_binary ih _, owns_unary ih, owns_construct ih (owns_leftHandSide ih)⟩

end Grammar

/-! ### Whole sources -/

namespace Parse

variable {source : String} {options : ParserOptions}

/-- All functions that are read from a source start apart, before its end. -/
theorem starts_of_run {α : Type} [HasFunctions α] {p : Parse α} {a : α}
    (hp : Owns source.toList p) (h : p.run source options = .ok a) :
    (starts a).Nodup ∧ ∀ n ∈ starts a, n < source.utf8ByteSize := by
  have hinitial := isIn_initial source
  simp only [run] at h
  split at h
  · next b st heq =>
    cases h
    have hstretch := hp _ _ hinitial _ _ heq
    refine ⟨hstretch.nodup, fun n hn => ?_⟩
    rw [← Text.bytes_toList]
    exact Nat.lt_of_lt_of_le (hstretch.within n hn).2 hstretch.isIn.isBorder_pos.le
  · cases h

end Parse

/-- **No two functions at one place.** In an accepted program, the nodes of functions, methods and
arrow functions start at different places of the source, and so do their texts. -/
theorem Program.functions_apart {source : String} {options : ParserOptions} {p : Program}
    (h : Program.parse source options = .ok p) :
    p.functions.Pairwise (fun f g => f.node.start ≠ g.node.start ∧ f.span.start ≠ g.span.start) ∧
      ∀ f ∈ p.functions, f.span.start < source.utf8ByteSize := by
  unfold Program.parse at h
  cases hbody : Parse.statements.run source options with
  | error e =>
    rw [hbody] at h
    cases h
  | ok body =>
    rw [hbody] at h
    cases h
    have hkeeps : Grammar.full.Keeps source.toList := Grammar.keeps_ofDepth _
    obtain ⟨hnodup, hwithin⟩ :=
      Parse.starts_of_run (Parse.owns_itemsUntil _ hkeeps.statement) hbody
    rw [Program.functions, stmtsFunctions_eq]
    exact ⟨pairwise_ne_of_nodup hnodup, fun f hf =>
      hwithin _ (mem_startsOf hf span_start_mem_starts)⟩

/-- No two functions of a program have the same span. -/
theorem Program.spans_apart {source : String} {options : ParserOptions} (p : Program)
    (h : Program.parse source options = .ok p) :
    p.functions.Pairwise fun f g => f.span ≠ g.span :=
  (Program.functions_apart h).1.imp fun hfg heq => hfg.2 (congrArg Span.start heq)

/-! ### The nodes of functions -/

namespace Tree

/-- The spans of the functions among a node and all that is below it. -/
def functionSpans (t : Tree) : List Span :=
  (t.preorder.filter (·.type.isFunction)).map (·.span)

/-- The spans of the functions among some nodes and all that is below them. -/
def functionSpansOfAll (ts : List Tree) : List Span := ts.flatMap functionSpans

@[simp] theorem functionSpansOfAll_nil : functionSpansOfAll [] = [] := rfl

@[simp] theorem functionSpansOfAll_cons (t : Tree) (ts : List Tree) :
    functionSpansOfAll (t :: ts) = t.functionSpans ++ functionSpansOfAll ts := rfl

@[simp] theorem functionSpansOfAll_append (ts us : List Tree) :
    functionSpansOfAll (ts ++ us) = functionSpansOfAll ts ++ functionSpansOfAll us :=
  List.flatMap_append

/-- A node counts if it is a function, and then come those right below it. -/
@[simp] theorem functionSpans_node (type : NodeType) (s : Span) (fields : List TreeField) :
    functionSpans ⟨type, s, fields⟩ =
      (if type.isFunction then [s] else []) ++
        functionSpansOfAll (fields.flatMap TreeField.nodes) := by
  have hparts : preorderFields fields = (fields.flatMap TreeField.nodes).flatMap preorder := by
    rw [preorderFields_eq]
    simp only [TreeField.nodes, List.flatMap_assoc, List.flatMap_map]
  rw [functionSpans, preorder, List.filter_cons, hparts, List.filter_flatMap]
  split <;> simp only [functionSpansOfAll, List.map_cons, List.map_flatMap] <;> rfl

/-- Among names and the like are no functions. -/
theorem functionSpansOfAll_leaves {α : Type} [IsNode α] {xs : List α}
    (h : ∀ x : α, (IsNode.tree x).functionSpans = []) : functionSpansOfAll (nodes xs) = [] := by
  rw [nodes_eq_map, functionSpansOfAll, List.flatMap_map, List.flatMap_eq_nil_iff]
  exact fun x _ => h x

@[simp] theorem functionSpans_ident (i : Ident) : i.tree.functionSpans = [] := rfl

@[simp] theorem functionSpansOfAll_ident? (i? : Option Ident) :
    functionSpansOfAll (nodes i?) = [] := by
  cases i? <;> rfl

@[simp] theorem functionSpansOfAll_quasis (qs : List TemplateElement) :
    functionSpansOfAll (nodes qs) = [] :=
  functionSpansOfAll_leaves fun _ => rfl

@[simp] theorem functionSpansOfAll_importSpecifiers (ss : List ImportSpecifier) :
    functionSpansOfAll (nodes ss) = [] :=
  functionSpansOfAll_leaves fun s => by cases s <;> rfl

@[simp] theorem functionSpansOfAll_exportSpecifiers (ss : List ExportSpecifier) :
    functionSpansOfAll (nodes ss) = [] :=
  functionSpansOfAll_leaves fun _ => rfl

end Tree

open Tree NodeType

-- Both sides go through the tree in the same order, so the spans agree part by part.
mutual

/-- The tree of an expression has a node for each of its functions, and in the same order. -/
theorem Expr.functionSpans_eq (e : Expr) :
    e.tree.functionSpans = e.functions.map (·.node) := by
  -- Functions and arrows are nodes with functions inside; of all others only the parts count.
  cases e with
  | null | bool | number | bigint | string | regex | ident | this | «super» | importWord
  | metaProperty => rfl
  | template t => exact t.functionSpans_eq
  | tagged s tag quasi => simp [Expr.tree, isFunction, tag.functionSpans_eq, quasi.functionSpans_eq]
  | array s es => simp [Expr.tree, isFunction, functionSpans_optionalExprs es]
  | object s ps => simp [Expr.tree, isFunction, functionSpans_properties ps]
  | function f => exact f.functionSpans_tree rfl
  | arrow a => exact a.functionSpans_eq
  | classExpr c => exact c.functionSpans_eq rfl
  | unary s op e => simp [Expr.tree, isFunction, e.functionSpans_eq]
  | update s op isPrefix e => simp [Expr.tree, isFunction, e.functionSpans_eq]
  | binary s op l r => simp [Expr.tree, isFunction, l.functionSpans_eq, r.functionSpans_eq]
  | logical s op l r => simp [Expr.tree, isFunction, l.functionSpans_eq, r.functionSpans_eq]
  | assign s op l r => simp [Expr.tree, isFunction, l.functionSpans_eq, r.functionSpans_eq]
  | conditional s t c a =>
    simp [Expr.tree, isFunction, t.functionSpans_eq, c.functionSpans_eq, a.functionSpans_eq]
  | sequence s es => simp [Expr.tree, isFunction, functionSpans_exprs es]
  | member s e p isOptional =>
    have he := e.functionSpans_eq
    have hp := p.functionSpans_eq
    rw [Expr.tree]
    split <;> simp [isFunction, he, hp]
  | call s f args isOptional =>
    have hf := f.functionSpans_eq
    have hargs := functionSpans_exprs args
    rw [Expr.tree]
    split <;> simp [isFunction, hf, hargs]
  | «new» s f args => simp [Expr.tree, isFunction, f.functionSpans_eq, functionSpans_exprs args]
  | spread s e => simp [Expr.tree, isFunction, e.functionSpans_eq]
  | yield s e? delegate => simp [Expr.tree, isFunction, functionSpans_optionalExpr e?]
  | await s e => simp [Expr.tree, isFunction, e.functionSpans_eq]

theorem MemberName.functionSpans_eq (n : MemberName) :
    n.tree.functionSpans = n.functions.map (·.node) := by
  cases n with
  | ident i => rfl
  | computed e => exact e.functionSpans_eq

theorem functionSpans_exprs (es : List Expr) :
    functionSpansOfAll (nodes es) = (functionsOfAll es).map (·.node) := by
  cases es with
  | nil => rfl
  | cons e es => simp [e.functionSpans_eq, functionSpans_exprs es]

theorem functionSpans_optionalExpr (e? : Option Expr) :
    functionSpansOfAll (nodes e?) = (functionsOfAny e?).map (·.node) := by
  cases e? with
  | none => rfl
  | some e => simp [e.functionSpans_eq]

theorem functionSpans_optionalExprs (es : List (Option Expr)) :
    functionSpansOfAll (nodes es) = (functionsOfAll es).map (·.node) := by
  cases es with
  | nil => rfl
  | cons e? es => simp [functionSpans_optionalExpr e?, functionSpans_optionalExprs es]

theorem Template.functionSpans_eq (t : Template) :
    t.tree.functionSpans = t.functions.map (·.node) := by
  cases t with
  | mk qs es s => simp [Template.tree, isFunction, functionSpans_exprs es]

theorem PropertyKey.functionSpans_eq (k : PropertyKey) :
    k.tree.functionSpans = k.functions.map (·.node) := by
  cases k with
  | ident i => rfl
  | literal e => exact e.functionSpans_eq
  | computed e => exact e.functionSpans_eq

/-- The spans of the function nodes of a tree are those of its functions. -/
theorem Property.functionSpans_eq (p : Property) :
    p.tree.functionSpans = p.functions.map (·.node) := by
  cases p with
  | init s k value shorthand =>
    simp [Property.tree, isFunction, k.functionSpans_eq, value.functionSpans_eq]
  | method s k kind f =>
    simp [Property.tree, isFunction, FunctionLiteral.ofMethod, k.functionSpans_eq,
      f.functionSpans_fields]
  | spread s e => simp [Property.tree, isFunction, e.functionSpans_eq]

theorem functionSpans_properties (ps : List Property) :
    functionSpansOfAll (nodes ps) = (functionsOfAll ps).map (·.node) := by
  cases ps with
  | nil => rfl
  | cons p ps => simp [p.functionSpans_eq, functionSpans_properties ps]

theorem Func.functionSpans_fields (f : Func) :
    functionSpansOfAll (f.fields.flatMap TreeField.nodes) = f.functions.map (·.node) := by
  cases f with
  | mk id params body isAsync isGenerator s =>
    simp [Func.fields, functionSpans_patterns params, body.functionSpans_eq]

/-- A function is a node itself, in front of those inside. -/
theorem Func.functionSpans_tree (f : Func) {type : NodeType} (htype : type.isFunction = true) :
    (f.tree type).functionSpans = f.span :: f.functions.map (·.node) := by
  cases f with
  | mk id params body isAsync isGenerator s =>
    rw [Func.tree, functionSpans_node, if_pos htype]
    simp [functionSpans_patterns params, body.functionSpans_eq]

theorem Arrow.functionSpans_eq (a : Arrow) :
    a.tree.functionSpans = a.span :: a.functions.map (·.node) := by
  cases a with
  | mk params body isAsync s =>
    simp [Arrow.tree, isFunction, functionSpans_patterns params, body.functionSpans_eq]

theorem ArrowBody.functionSpans_eq (b : ArrowBody) :
    b.tree.functionSpans = b.functions.map (·.node) := by
  cases b with
  | expr e => exact e.functionSpans_eq
  | block b => exact b.functionSpans_eq

/-- A class is none, though its methods are. -/
theorem Class.functionSpans_eq (c : Class) {type : NodeType} (htype : type.isFunction = false) :
    (c.tree type).functionSpans = c.functions.map (·.node) := by
  cases c with
  | mk id superClass body s =>
    rw [Class.tree, functionSpans_node, if_neg (Bool.eq_false_iff.mp htype)]
    simp [functionSpans_optionalExpr superClass, body.functionSpans_eq]

theorem ClassBody.functionSpans_eq (b : ClassBody) :
    b.tree.functionSpans = b.functions.map (·.node) := by
  cases b with
  | mk members s => simp [ClassBody.tree, isFunction, functionSpans_members members]

theorem ClassMember.functionSpans_eq (m : ClassMember) :
    m.tree.functionSpans = m.functions.map (·.node) := by
  cases m with
  | method s k kind isStatic f =>
    simp [ClassMember.tree, isFunction, FunctionLiteral.ofMethod, k.functionSpans_eq,
      f.functionSpans_fields]
  | property s k value isStatic =>
    simp [ClassMember.tree, isFunction, k.functionSpans_eq, functionSpans_optionalExpr value]

theorem functionSpans_members (ms : List ClassMember) :
    functionSpansOfAll (nodes ms) = (functionsOfAll ms).map (·.node) := by
  cases ms with
  | nil => rfl
  | cons m ms => simp [m.functionSpans_eq, functionSpans_members ms]

theorem Pattern.functionSpans_eq (p : Pattern) :
    p.tree.functionSpans = p.functions.map (·.node) := by
  cases p with
  | ident i => rfl
  | array s ps => simp [Pattern.tree, isFunction, functionSpans_optionalPatterns ps]
  | object s ps => simp [Pattern.tree, isFunction, functionSpans_patternProperties ps]
  | default s l r => simp [Pattern.tree, isFunction, l.functionSpans_eq, r.functionSpans_eq]
  | rest s p => simp [Pattern.tree, isFunction, p.functionSpans_eq]
  | target e => exact e.functionSpans_eq

theorem functionSpans_patterns (ps : List Pattern) :
    functionSpansOfAll (nodes ps) = (functionsOfAll ps).map (·.node) := by
  cases ps with
  | nil => rfl
  | cons p ps => simp [p.functionSpans_eq, functionSpans_patterns ps]

theorem functionSpans_optionalPattern (p? : Option Pattern) :
    functionSpansOfAll (nodes p?) = (functionsOfAny p?).map (·.node) := by
  cases p? with
  | none => rfl
  | some p => simp [p.functionSpans_eq]

theorem functionSpans_optionalPatterns (ps : List (Option Pattern)) :
    functionSpansOfAll (nodes ps) = (functionsOfAll ps).map (·.node) := by
  cases ps with
  | nil => rfl
  | cons p? ps => simp [functionSpans_optionalPattern p?, functionSpans_optionalPatterns ps]

theorem PatternProperty.functionSpans_eq (p : PatternProperty) :
    p.tree.functionSpans = p.functions.map (·.node) := by
  cases p with
  | entry s k value shorthand =>
    simp [PatternProperty.tree, isFunction, k.functionSpans_eq, value.functionSpans_eq]
  | rest s p => simp [PatternProperty.tree, isFunction, p.functionSpans_eq]

theorem functionSpans_patternProperties (ps : List PatternProperty) :
    functionSpansOfAll (nodes ps) = (functionsOfAll ps).map (·.node) := by
  cases ps with
  | nil => rfl
  | cons p ps => simp [p.functionSpans_eq, functionSpans_patternProperties ps]

theorem Block.functionSpans_eq (b : Block) :
    b.tree.functionSpans = b.functions.map (·.node) := by
  cases b with
  | mk body s => simp [Block.tree, isFunction, functionSpans_stmts body]

theorem VarDecl.functionSpans_eq (d : VarDecl) :
    d.tree.functionSpans = d.functions.map (·.node) := by
  cases d with
  | mk kind ds s => simp [VarDecl.tree, isFunction, functionSpans_declarators ds]

theorem VarDeclarator.functionSpans_eq (d : VarDeclarator) :
    d.tree.functionSpans = d.functions.map (·.node) := by
  cases d with
  | mk id init s =>
    simp [VarDeclarator.tree, isFunction, id.functionSpans_eq, functionSpans_optionalExpr init]

theorem functionSpans_declarators (ds : List VarDeclarator) :
    functionSpansOfAll (nodes ds) = (functionsOfAll ds).map (·.node) := by
  cases ds with
  | nil => rfl
  | cons d ds => simp [d.functionSpans_eq, functionSpans_declarators ds]

theorem ForInit.functionSpans_eq (i : ForInit) :
    i.tree.functionSpans = i.functions.map (·.node) := by
  cases i with
  | decl d => exact d.functionSpans_eq
  | expr e => exact e.functionSpans_eq

theorem functionSpans_optionalForInit (i? : Option ForInit) :
    functionSpansOfAll (nodes i?) = (functionsOfAny i?).map (·.node) := by
  cases i? with
  | none => rfl
  | some i => simp [i.functionSpans_eq]

theorem ForHead.functionSpans_eq (h : ForHead) :
    h.tree.functionSpans = h.functions.map (·.node) := by
  cases h with
  | decl d => exact d.functionSpans_eq
  | pattern p => exact p.functionSpans_eq

theorem SwitchCase.functionSpans_eq (c : SwitchCase) :
    c.tree.functionSpans = c.functions.map (·.node) := by
  cases c with
  | mk test body s =>
    simp [SwitchCase.tree, isFunction, functionSpans_optionalExpr test, functionSpans_stmts body]

theorem functionSpans_switchCases (cs : List SwitchCase) :
    functionSpansOfAll (nodes cs) = (functionsOfAll cs).map (·.node) := by
  cases cs with
  | nil => rfl
  | cons c cs => simp [c.functionSpans_eq, functionSpans_switchCases cs]

theorem CatchClause.functionSpans_eq (c : CatchClause) :
    c.tree.functionSpans = c.functions.map (·.node) := by
  match c with
  | ⟨none, body, s⟩ => simp [CatchClause.tree, isFunction, body.functionSpans_eq]
  | ⟨some p, body, s⟩ =>
    simp [CatchClause.tree, isFunction, p.functionSpans_eq, body.functionSpans_eq]

theorem functionSpans_optionalHandler (c? : Option CatchClause) :
    functionSpansOfAll (nodes c?) = (functionsOfAny c?).map (·.node) := by
  cases c? with
  | none => rfl
  | some c => simp [c.functionSpans_eq]

theorem functionSpans_optionalBlock (b? : Option Block) :
    functionSpansOfAll (nodes b?) = (functionsOfAny b?).map (·.node) := by
  cases b? with
  | none => rfl
  | some b => simp [b.functionSpans_eq]

theorem ExportDefault.functionSpans_eq (d : ExportDefault) :
    d.tree.functionSpans = d.functions.map (·.node) := by
  cases d with
  | function f => exact f.functionSpans_tree rfl
  | classDecl c => exact c.functionSpans_eq rfl
  | expr e => exact e.functionSpans_eq

/-- So has that of a statement. -/
theorem Stmt.functionSpans_eq (s : Stmt) :
    s.tree.functionSpans = s.functions.map (·.node) := by
  -- Only declared functions count themselves.
  cases s with
  | var d => exact d.functionSpans_eq
  | function f => exact f.functionSpans_tree rfl
  | classDecl c => exact c.functionSpans_eq rfl
  | block b => exact b.functionSpans_eq
  | empty | debugger => rfl
  | breakTo s label => simp [Stmt.tree, isFunction]
  | continueTo s label => simp [Stmt.tree, isFunction]
  | expr s e => simp [Stmt.tree, isFunction, e.functionSpans_eq]
  | throws s e => simp [Stmt.tree, isFunction, e.functionSpans_eq]
  | importDecl s specifiers e => simp [Stmt.tree, isFunction, e.functionSpans_eq]
  | exportAll s name e => simp [Stmt.tree, isFunction, e.functionSpans_eq]
  | ifThen s t c a =>
    simp [Stmt.tree, isFunction, t.functionSpans_eq, c.functionSpans_eq,
      functionSpans_optionalStmt a]
  | «switch» s e cs =>
    simp [Stmt.tree, isFunction, e.functionSpans_eq, functionSpans_switchCases cs]
  | forLoop s i t u b =>
    simp [Stmt.tree, isFunction, functionSpans_optionalForInit i, functionSpans_optionalExpr,
      b.functionSpans_eq]
  | forIn s l r b =>
    simp [Stmt.tree, isFunction, l.functionSpans_eq, r.functionSpans_eq, b.functionSpans_eq]
  | forOf s l r b isAwait =>
    simp [Stmt.tree, isFunction, l.functionSpans_eq, r.functionSpans_eq, b.functionSpans_eq]
  | whileLoop s t b => simp [Stmt.tree, isFunction, t.functionSpans_eq, b.functionSpans_eq]
  | doWhile s b t => simp [Stmt.tree, isFunction, t.functionSpans_eq, b.functionSpans_eq]
  | returns s e? => simp [Stmt.tree, isFunction, functionSpans_optionalExpr e?]
  | tryCatch s b h f =>
    simp [Stmt.tree, isFunction, b.functionSpans_eq, functionSpans_optionalHandler h,
      functionSpans_optionalBlock f]
  | labeled s label b => simp [Stmt.tree, isFunction, b.functionSpans_eq]
  | exportNamed s d specifiers source =>
    simp [Stmt.tree, isFunction, functionSpans_optionalStmt d, functionSpans_optionalExpr source]
  | exportDefault s d => simp [Stmt.tree, isFunction, d.functionSpans_eq]

theorem functionSpans_optionalStmt (s? : Option Stmt) :
    functionSpansOfAll (nodes s?) = (functionsOfAny s?).map (·.node) := by
  cases s? with
  | none => rfl
  | some s => simp [s.functionSpans_eq]

theorem functionSpans_stmts (ss : List Stmt) :
    functionSpansOfAll (nodes ss) = (functionsOfAll ss).map (·.node) := by
  cases ss with
  | nil => rfl
  | cons s ss => simp [s.functionSpans_eq, functionSpans_stmts ss]

end

/-- The nodes of functions in a program are those of its functions, in the same order. -/
theorem Program.functionSpans_eq (p : Program) :
    p.tree.functionSpans = p.functions.map (·.node) := by
  simp [Program.tree, isFunction, Program.functions, functionSpans_stmts p.body]

/-- In an accepted program, no two nodes of functions, methods or arrow functions have the same
span. -/
theorem Program.functionNodes_apart {source : String} {options : ParserOptions} (p : Program)
    (h : Program.parse source options = .ok p) :
    (p.tree.preorder.filter (·.type.isFunction)).Pairwise fun t u => t.span ≠ u.span := by
  have hnodes : (p.functions.map (·.node)).Pairwise (· ≠ ·) :=
    List.pairwise_map.mpr ((Program.functions_apart h).1.imp fun hfg heq =>
      hfg.1 (congrArg Span.start heq))
  rw [← p.functionSpans_eq] at hnodes
  exact List.pairwise_map.mp hnodes

end Espalier
