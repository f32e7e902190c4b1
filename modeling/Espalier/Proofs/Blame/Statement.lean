import Espalier.Proofs.Blame.Expression
import Espalier.Proofs.Grammar.Span
import Espalier.Proofs.Source.Conversion

/-!
# Refused sources

Whatever the reason, a source is refused at a place of it. So the ends of the span of a `ParseError`
are borders of characters, and its position is the one where the span starts
(`ParseError.points_into_source`).
-/

namespace Espalier

open Parse Text Token

variable {cs : List Char}

namespace Grammar

variable {g : Grammar} [hg : g.IsLocal]

/-! ### Declarations -/

instance isLocal_letStartsDeclaration : letStartsDeclaration.IsLocal := by
  refine .first fun next => ?_
  split <;> infer_instance

instance isLocal_functionFollows : functionFollows.IsLocal := .bind

instance isLocal_declarator : (declarator g).IsLocal := .bind

/-- A declaration takes up a place of the source. -/
theorem stays_declaration {env : Env} {st : State} (hst : st.IsIn cs) :
    Stays cs (declaration g) env st fun d => IsPlace cs d.span := by
  refine .bind (.advance hst) fun t st₁ h₁ ht => ?_
  refine .skip h₁ fun first st₂ h₂ => .skip h₂ fun declarations st₃ h₃ => ?_
  exact .bind (.finish h₃ ht.isBorder_start) fun span st₄ h₄ hspan => .ret h₄ hspan

instance isLocal_declaration : (declaration g).IsLocal := .of_stays fun _ _ _ => stays_declaration

instance isLocal_varStatement : (varStatement g).IsLocal := .bind

/-! ### Control flow -/

instance isLocal_condition : (condition g).IsLocal := .bind

instance isLocal_unlessAt {α : Type} (stop : Punct) (p : Parse α) [p.IsLocal] :
    (unlessAt stop p).IsLocal := .bind

instance isLocal_ifStatement : (ifStatement g).IsLocal := .bind

instance isLocal_switchCase (hasDefault : Bool) : (switchCase g hasDefault).IsLocal :=
  .first fun _ => .bind

instance isLocal_switchStatement : (switchStatement g).IsLocal :=
  .first fun _ => .first fun _ => .first fun _ => .first fun _ => .bind

instance isLocal_forEach (start : Nat) (left : ForHead) (isAwait : Bool) :
    (forEach g start left isAwait).IsLocal := .bind

instance isLocal_forRest (start : Nat) (init : Option ForInit) :
    (forRest g start init).IsLocal :=
  .first fun _ => .first fun _ => .bind

instance isLocal_atForEach : atForEach.IsLocal := .bind

/-- A loop blames its head if that declares more than one variable or cannot be assigned to. -/
instance isLocal_forStatement : (forStatement g).IsLocal := by
  refine .first fun start => .first fun _ => .first fun isAwait => .first fun _ => ?_
  refine .ask inferInstance (.first fun k => .first fun declares => ⟨fun cs env st hst => ?_⟩)
  split
  · refine .bind (.withIn (stays_declaration hst)) fun decl st₁ h₁ hdecl => ?_
    refine .skip h₁ fun isEach st₂ h₂ => ?_
    split
    · split
      · exact .fail hdecl
      · exact .of_local h₂
    · exact .of_local h₂
  · refine .bind (.withIn (stays_expression hst)) fun e st₁ h₁ he => ?_
    refine .skip h₁ fun isEach st₂ h₂ => ?_
    split
    · exact .bind (.ofExcept h₂ (blamesPlace_toPattern e he)) fun pattern st₃ h₃ _ => .of_local h₃
    · exact .of_local h₂

instance isLocal_whileStatement : (whileStatement g).IsLocal := .bind

instance isLocal_doStatement : (doStatement g).IsLocal := .bind

instance isLocal_jumpStatement (make : Span → Option Ident → Stmt) :
    (jumpStatement make).IsLocal := .bind

instance isLocal_returnStatement : (returnStatement g).IsLocal := by
  refine .first fun start => .first fun env => ?_
  split
  · infer_instance
  · exact .first fun _ => .first fun _ => .bind

instance isLocal_throwStatement : (throwStatement g).IsLocal := .bind

instance isLocal_catchClause : (catchClause g).IsLocal := .bind

instance isLocal_tryStatement : (tryStatement g).IsLocal :=
  .first fun _ => .first fun _ => .first fun _ => .bind

instance isLocal_expressionStatement : (expressionStatement g).IsLocal := .bind

instance isLocal_labeledStatement : (labeledStatement g).IsLocal := .bind

/-! ### Modules -/

instance isLocal_requireModule : requireModule.IsLocal := .bind

instance isLocal_importSpecifier : importSpecifier.IsLocal := .bind

instance isLocal_importClause : importClause.IsLocal := .bind

instance isLocal_importSpecifiers : importSpecifiers.IsLocal := by
  refine .first fun k => ?_
  split <;> infer_instance

instance isLocal_importDeclaration : importDeclaration.IsLocal := by
  refine .first fun start => .first fun _ => .first fun _ => .first fun specifiers => ?_
  split <;> infer_instance

instance isLocal_exportSpecifier : exportSpecifier.IsLocal := .bind

instance isLocal_exportedDefault : (exportedDefault g).IsLocal := by
  refine .first fun start => .ask inferInstance (.first fun _ => .first fun _ => ?_)
  split <;> infer_instance

instance isLocal_exportDeclaration : (exportDeclaration g).IsLocal := by
  refine .first fun start => .first fun _ => .first fun _ => .first fun k => ?_
  split
  · infer_instance
  · infer_instance
  · exact .first fun _ => .first fun _ => .first fun _ => .bind
  all_goals infer_instance

/-! ### All statements -/

instance isLocal_nameStatement : (nameStatement g).IsLocal := .bind

instance isLocal_anyStatement : (anyStatement g).IsLocal := by
  refine .first fun t => ?_
  dsimp only
  split <;> infer_instance

/-! ### Grammars -/

/-- Every grammar is local, however deep a source may nest. -/
instance isLocal_ofDepth (depth : Nat) : (ofDepth depth).IsLocal := by
  induction depth with
  | zero =>
    have hrefuse {α : Type} : (failHere .tooDeep : Parse α).IsLocal := inferInstance
    exact ⟨fun _ => isSound_ofDepth 0, hrefuse, hrefuse, hrefuse, hrefuse, hrefuse, hrefuse⟩
  | succ depth ih =>
    exact ⟨fun _ => isSound_ofDepth (depth + 1), isLocal_anyStatement, isLocal_bindingPattern,
      isLocal_assignmentExpr, isLocal_binary _, isLocal_unary, isLocal_construct _⟩

instance isLocal_full : full.IsLocal := isLocal_ofDepth maxDepth

end Grammar

/-! ### Whole sources -/

namespace Parse

instance isLocal_statements : statements.IsLocal := IsLocal.itemsUntil _ _

instance isLocal_wholeExpression : wholeExpression.IsLocal := .bind

/-- A source is refused at a place of it, and the place has a position. -/
theorem isPlace_of_run {α : Type} (p : Parse α) [p.IsLocal] {source : String}
    {options : ParserOptions} {f : ParseError} (h : p.run source options = .error f) :
    IsPlace source.toList f.span ∧
      (LineIndex.ofSource source).position? f.span.start = some f.position := by
  have hstays : Stays source.toList p
      { options, size := source.utf8ByteSize, inAsync := options.isModule }
      { current := Token.scan (.ofSource source), prevEnd := 0 } fun _ => True :=
    .of_local (isIn_initial source)
  unfold Stays at hstays
  simp only [run] at h
  split at h
  · cases h
  · next e heq =>
    rw [heq] at hstays
    cases h
    have hposition := LineIndex.isSome_position?_iff.mpr hstays.isBorder_start
    obtain ⟨position, hposition⟩ := Option.isSome_iff_exists.mp hposition
    refine ⟨hstays, ?_⟩
    simp [ParseError.ofSyntaxError, hposition]

end Parse

namespace ParseError

variable {source : String} {options : ParserOptions} {f : ParseError}

/-- **Errors point into the source.** Whatever a source is refused for, as a program under any
options or as an expression, the span of the error lies in the source, with its ends in the right
order and on borders of characters, and the position of the error is the one where the span starts,
which the source has. -/
theorem points_into_source
    (h : Program.parse source options = .error f ∨ Expr.parse source = .error f) :
    f.span.start ≤ f.span.stop ∧ f.span.stop ≤ source.utf8ByteSize ∧
      String.Pos.Raw.IsValid source ⟨f.span.start⟩ ∧
      String.Pos.Raw.IsValid source ⟨f.span.stop⟩ ∧
      (LineIndex.ofSource source).position? f.span.start = some f.position := by
  obtain ⟨hplace, hposition⟩ : IsPlace source.toList f.span ∧
      (LineIndex.ofSource source).position? f.span.start = some f.position := by
    rcases h with h | h
    · unfold Program.parse at h
      cases hbody : statements.run source options with
      | error e =>
        rw [hbody] at h
        cases h
        exact Parse.isPlace_of_run _ hbody
      | ok body =>
        rw [hbody] at h
        cases h
    · exact Parse.isPlace_of_run _ h
  -- The source ends at a border, and no border comes after it.
  have hlength : f.span.stop ≤ source.utf8ByteSize := by
    rw [← bytes_toList]
    exact hplace.isBorder_stop.le
  exact ⟨hplace.start_le, hlength, isBorder_toList_iff.mp hplace.isBorder_start,
    isBorder_toList_iff.mp hplace.isBorder_stop, hposition⟩

/-- A template that is cut off behind a character of two bytes is refused from its quote on. -/
theorem points_into_source_of_truncated :
    ∃ f, Program.parse "é = `ü" {} = .error f ∧ f.span = ⟨5, 8⟩ ∧
      String.Pos.Raw.IsValid "é = `ü" ⟨5⟩ ∧ String.Pos.Raw.IsValid "é = `ü" ⟨8⟩ ∧
      (LineIndex.ofSource "é = `ü").position? 5 = some f.position := by
  have hspan : (match Program.parse "é = `ü" {} with
    | .error f => some f.span
    | .ok _ => none) = some ⟨5, 8⟩ := by decide +kernel
  cases h : Program.parse "é = `ü" {} with
  | ok p =>
    rw [h] at hspan
    cases hspan
  | error f =>
    rw [h] at hspan
    have hspan : f.span = ⟨5, 8⟩ := Option.some.inj hspan
    obtain ⟨-, -, hstart, hstop, hposition⟩ := points_into_source (.inl h)
    rw [hspan] at hstart hstop hposition
    exact ⟨f, rfl, hspan, hstart, hstop, hposition⟩

end ParseError

end Espalier
