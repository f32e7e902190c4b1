import Espalier.Proofs.Blame.Rules

/-!
# What expressions blame

Besides the current token, patterns, functions and expressions blame nodes that they have made: a
keyword among properties that should be a name, what cannot be assigned to, updated or bound, and
the property of `new.` or `import.`. All of these fit into the source. Templates and regular
expressions blame tokens that they have read again.
-/

namespace Espalier

open Parse Text Token

variable {cs : List Char}

/-- The nodes that a grammar makes are nested, and its readers are local. -/
class Grammar.IsLocal (g : Grammar) : Prop where
  isSound (cs : List Char) : g.IsSound cs
  statement : Parse.IsLocal g.statement
  pattern : Parse.IsLocal g.pattern
  assignment : Parse.IsLocal g.assignment
  power : Parse.IsLocal g.power
  operand : Parse.IsLocal g.operand
  creation : Parse.IsLocal g.creation

attribute [instance] Grammar.IsLocal.statement Grammar.IsLocal.pattern Grammar.IsLocal.assignment
  Grammar.IsLocal.power Grammar.IsLocal.operand Grammar.IsLocal.creation

/-! ### Expressions that spell no pattern -/

mutual

/-- An expression that spells no pattern is blamed for a node of it. -/
theorem blamesPlace_toPattern (e : Expr) {lo hi : Nat} (he : e.tree.Fits cs lo hi) :
    BlamesPlace cs e.toPattern := by
  -- An expression that is no pattern is blamed as a whole; arrays and objects leave that to their
  -- parts.
  cases e with
  | ident i => exact .ok
  | array s es =>
    refine .bind (blamesPlace_elementsToPatterns es fun t ht => he.parts t ?_) fun _ _ => .ok
    simpa [Tree.parts, Expr.tree] using ht
  | object s ps =>
    refine .bind (blamesPlace_propertiesToPatterns ps fun t ht => he.parts t ?_) fun _ _ => .ok
    simpa [Tree.parts, Expr.tree] using ht
  | assign s op l r =>
    cases op with
    | plain => exact .ok
    | compound => exact .error he.isPlace_expr
  | member s o m isOptional =>
    rw [Expr.toPattern]
    split
    · exact .error he.isPlace_expr
    · exact .ok
  | _ => exact .error he.isPlace_expr

/-- The elements of an array are turned into patterns one after the other, and each blames itself.
-/
theorem blamesPlace_elementsToPatterns (es : List (Option Expr)) {lo hi : Nat}
    (hes : ∀ t ∈ nodes es, t.Fits cs lo hi) : BlamesPlace cs (elementsToPatterns es) := by
  match es with
  | [] => exact .ok
  | none :: es => exact .bind (blamesPlace_elementsToPatterns es hes) fun _ _ => .ok
  | some e :: es =>
    rw [nodes_cons, nodes_some, List.forall_mem_append] at hes
    have he : e.tree.Fits cs lo hi := hes.1 _ (List.mem_singleton_self _)
    have hrest := blamesPlace_elementsToPatterns es hes.2
    by_cases hspread : ∃ s a, e = .spread s a
    · obtain ⟨s, a, rfl⟩ := hspread
      have ha := he.parts a.tree (List.mem_singleton_self _)
      exact .bind (blamesPlace_toPattern a ha) fun _ _ => .bind hrest fun _ _ => .ok
    · rw [elementsToPatterns_some fun s a heq => hspread ⟨s, a, heq⟩]
      exact .bind (blamesPlace_toPattern e he) fun _ _ => .bind hrest fun _ _ => .ok

/-- The properties of an object, likewise. -/
theorem blamesPlace_propertiesToPatterns (ps : List Property) {lo hi : Nat}
    (hps : ∀ t ∈ nodes ps, t.Fits cs lo hi) : BlamesPlace cs (propertiesToPatterns ps) := by
  match ps with
  | [] => exact .ok
  | .init s key value shorthand :: ps =>
    rw [nodes_cons, nodes_eq, List.singleton_append, List.forall_mem_cons] at hps
    have hvalue := hps.1.parts value.tree (by simp [Tree.parts, Property.tree])
    have hrest := blamesPlace_propertiesToPatterns ps hps.2
    exact .bind (blamesPlace_toPattern value hvalue) fun _ _ => .bind hrest fun _ _ => .ok
  | .spread s e :: ps =>
    rw [nodes_cons, nodes_eq, List.singleton_append, List.forall_mem_cons] at hps
    have he := hps.1.parts e.tree (List.mem_singleton_self _)
    have hrest := blamesPlace_propertiesToPatterns ps hps.2
    exact .bind (blamesPlace_toPattern e he) fun _ _ => .bind hrest fun _ _ => .ok
  | .method s key word f :: ps =>
    rw [nodes_cons, nodes_eq, List.singleton_append, List.forall_mem_cons] at hps
    exact .error hps.1.isPlace

end

/-- The target of a compound assignment is blamed as a whole. -/
theorem blamesPlace_toSimpleTarget {e : Expr} {lo hi : Nat} (he : e.tree.Fits cs lo hi) :
    BlamesPlace cs e.toSimpleTarget := by
  cases e with
  | ident i => exact .ok
  | member s o m isOptional =>
    rw [Expr.toSimpleTarget]
    split
    · exact .error he.isPlace_expr
    · exact .ok
  | _ => exact .error he.isPlace_expr

mutual

/-- A pattern that does not only bind names is blamed for a node of it. -/
theorem blamesPlace_checkBinding (p : Pattern) {lo hi : Nat} (hp : p.tree.Fits cs lo hi) :
    BlamesPlace cs p.checkBinding := by
  cases p with
  | ident i => exact .ok
  | target e => exact .error (Tree.Fits.isPlace_expr hp)
  | array s ps =>
    exact blamesPlace_checkBindingElements ps fun t ht =>
      hp.parts t (by simpa [Tree.parts, Pattern.tree] using ht)
  | object s ps =>
    exact blamesPlace_checkBindingProperties ps fun t ht =>
      hp.parts t (by simpa [Tree.parts, Pattern.tree] using ht)
  | default s p e =>
    exact blamesPlace_checkBinding p (hp.parts p.tree (by simp [Tree.parts, Pattern.tree]))
  | rest s p =>
    exact blamesPlace_checkBinding p (hp.parts p.tree (by simp [Tree.parts, Pattern.tree]))

/-- The elements of a pattern are checked one after the other. -/
theorem blamesPlace_checkBindingElements (ps : List (Option Pattern)) {lo hi : Nat}
    (hps : ∀ t ∈ nodes ps, t.Fits cs lo hi) : BlamesPlace cs (checkBindingElements ps) := by
  match ps with
  | [] => exact .ok
  | none :: ps => exact blamesPlace_checkBindingElements ps hps
  | some p :: ps =>
    rw [nodes_cons, nodes_some, nodes_eq, List.singleton_append, List.forall_mem_cons] at hps
    exact .bind (blamesPlace_checkBinding p hps.1) fun _ _ =>
      blamesPlace_checkBindingElements ps hps.2

/-- The properties of a pattern, likewise. -/
theorem blamesPlace_checkBindingProperties (ps : List PatternProperty) {lo hi : Nat}
    (hps : ∀ t ∈ nodes ps, t.Fits cs lo hi) : BlamesPlace cs (checkBindingProperties ps) := by
  match ps with
  | [] => exact .ok
  | .entry s key p shorthand :: ps =>
    rw [nodes_cons, nodes_eq, List.singleton_append, List.forall_mem_cons] at hps
    have hp := hps.1.parts p.tree (by simp [Tree.parts, PatternProperty.tree])
    exact .bind (blamesPlace_checkBinding p hp) fun _ _ =>
      blamesPlace_checkBindingProperties ps hps.2
  | .rest s p :: ps =>
    rw [nodes_cons, nodes_eq, List.singleton_append, List.forall_mem_cons] at hps
    have hp := hps.1.parts p.tree (List.mem_singleton_self _)
    exact .bind (blamesPlace_checkBinding p hp) fun _ _ =>
      blamesPlace_checkBindingProperties ps hps.2

end

namespace Grammar

/-- Expressions that are no parameters are blamed for one that is no pattern or binds no names. -/
theorem blamesPlace_arrowParams (es : List Expr) {lo hi : Nat}
    (hes : ∀ t ∈ nodes es, t.Fits cs lo hi) : BlamesPlace cs (arrowParams es) := by
  induction es with
  | nil => exact .ok
  | cons e es ih =>
    rw [nodes_cons, nodes_eq, List.singleton_append, List.forall_mem_cons] at hes
    refine .bind (blamesPlace_toPattern e hes.1) fun p hp => ?_
    have hbinds := blamesPlace_checkBinding p (fits_toPattern e hp hes.1)
    exact .bind hbinds fun _ _ => .bind (ih hes.2) fun _ _ => .ok

variable {g : Grammar} [hg : g.IsLocal]

/-! ### Patterns -/

instance isLocal_propertyKey : (propertyKey g).IsLocal := by
  refine .first fun t => ?_
  split <;> infer_instance

instance isLocal_restPattern (start : Nat) : (restPattern g start).IsLocal := .bind

/-- A rest takes up a place of the source. -/
theorem stays_restPattern {env : Env} {st : State} {start : Nat} (hst : st.IsIn cs)
    (hstart : IsBorder cs start) :
    Stays cs (restPattern g start) env st fun p => IsPlace cs p.span :=
  .skip hst fun _ _ h₁ => .bind (.finish h₁ hstart) fun _ _ h₂ hspan => .ret h₂ hspan

instance isLocal_bindingElement : (bindingElement g).IsLocal := .bind

instance isLocal_arrayPattern : (arrayPattern g).IsLocal := by
  refine .first fun start => .first fun _ => ?_
  refine .seq (.rounds fun elements => ?_) fun elements => inferInstance
  -- A round ends at the bracket, leaves a hole, reads the rest or reads an element.
  refine .ask inferInstance (.ask inferInstance (.first fun elementStart => ?_))
  exact .ask inferInstance (.first fun element => .ask inferInstance inferInstance)

/-- The key of a property is a place of the source, if it is a name. -/
theorem stays_propertyKey {env : Env} {st : State} (hst : st.IsIn cs) :
    Stays cs (propertyKey g) env st fun key =>
      ∀ name, key = .ident name → IsPlace cs name.span := by
  have hreads := reads_propertyKey (hg.isSound cs)
  have hfits : Stays cs (propertyKey g) env st fun key => key.tree.Fits cs 0 (bytes cs) :=
    .of_reads_node hreads hst
  refine hfits.mono fun key hkey name heq => ?_
  rw [heq] at hkey
  exact hkey.isPlace

/-- A key that stands for itself is blamed if it is a keyword. -/
theorem stays_shorthand {α : Type} {env : Env} {st : State} {key : PropertyKey}
    {p : Ident → Parse α} [hp : ∀ name, (p name).IsLocal] (hst : st.IsIn cs)
    (hkey : ∀ name, key = .ident name → IsPlace cs name.span) :
    Stays cs (match key with
      | .ident name =>
        if (Keyword.ofText? name.name).isSome then fail (.keywordAsName name.name) name.span
        else p name
      | _ => unexpected) env st fun _ => True := by
  split
  · next name =>
    split
    · exact .fail (hkey name rfl)
    · exact .of_local hst
  · exact .of_local hst

instance isLocal_patternProperty : (patternProperty g).IsLocal := by
  refine .first fun start => .first fun isRest => ?_
  split
  · infer_instance
  refine ⟨fun cs env st hst => ?_⟩
  refine .bind (stays_propertyKey hst) fun key st₁ h₁ hkey => .skip h₁ fun isColon st₂ h₂ => ?_
  split
  · exact .of_local h₂
  · exact stays_shorthand h₂ hkey

instance isLocal_objectPattern : (objectPattern g).IsLocal := .bind

instance isLocal_bindingPattern : (bindingPattern g).IsLocal := by
  refine .first fun k => ?_
  split <;> infer_instance

/-! ### Functions -/

instance isLocal_block : (block g).IsLocal := .bind

instance isLocal_parameters : (parameters g).IsLocal := .bind

instance isLocal_functionRest (start : Nat) (id : Option Ident) (isAsync isGenerator : Bool) :
    (functionRest g start id isAsync isGenerator).IsLocal := .bind

instance isLocal_definitionName (isRequired : Bool) (cause : SyntaxCause) :
    (definitionName isRequired cause).IsLocal := .bind

instance isLocal_function (start : Nat) (isAsync nameRequired : Bool) :
    (function g start isAsync nameRequired).IsLocal := .bind

instance isLocal_isModifier (word : String) : (isModifier word).IsLocal := .bind

instance isLocal_eatModifier (word : String) : (eatModifier word).IsLocal := .bind

instance isLocal_methodModifiers : methodModifiers.IsLocal := .bind

instance isLocal_methodFunction (m : MethodModifiers) : (methodFunction g m).IsLocal := .bind

/-! ### Classes -/

instance isLocal_classMember : (classMember g).IsLocal := by
  refine .first fun start => .first fun isStatic => .first fun modifiers => ?_
  refine .ask inferInstance (.first fun key => .first fun isParen => ?_)
  split
  · exact .first fun f => .first fun span => .pure _
  · infer_instance

instance isLocal_classBody : (classBody g).IsLocal := .first fun _ => .first fun _ => .bind

instance isLocal_classDef (heritage : Parse Expr) [heritage.IsLocal] (start : Nat)
    (nameRequired : Bool) : (classDef g heritage start nameRequired).IsLocal := .bind

/-! ### Literals -/

instance isLocal_expression : (expression g).IsLocal := .bind

/-- The nodes of an expression fit into the source. -/
theorem stays_expression {env : Env} {st : State} (hst : st.IsIn cs) :
    Stays cs (expression g) env st fun e => e.tree.Fits cs 0 (bytes cs) :=
  .of_reads_node (reads_expression (hg.isSound cs)) hst

/-- The closing brace of a substitution is read again, and what it is read as is left. -/
theorem stays_continueTemplate {α : Type} {f : Token → Parse α} {Q : α → Prop} {env : Env}
    {st : State} (hst : st.IsIn cs) (hp : st.current.token.kind.isPunct .rightBrace = true)
    (hf : ∀ t st', st'.IsIn cs → IsPlace cs t.span → Stays cs (f t) env st' Q) :
    Stays cs (continueTemplate >>= f) env st Q :=
  have hin := hst.reread_template hp
  .step rfl (hf _ _ hin.next hin.isPlace)

instance isLocal_template : (template g).IsLocal := by
  refine ⟨fun cs env st hst => .skip hst fun start st₁ h₁ => ?_⟩
  refine .bind (.advance h₁) fun head st₂ h₂ hhead => ?_
  split
  · exact .of_local h₂
  · refine .bind (Q := fun _ => True) (.rounds h₂ trivial fun parts st h _ => ?_)
      fun parts st₃ h₃ _ => ?_
    · -- A round reads an expression and, from the brace behind it, the next piece.
      refine .skip h fun e st₁ h₁ => .ask rfl (fun hbrace => ?_) fun _ => .failHere h₁
      refine stays_continueTemplate h₁ hbrace fun part st₂ h₂ hpart => ?_
      split
      · exact .ret h₂ trivial
      · exact .ret h₂ trivial
      · exact .fail hpart
      · exact .fail hpart
    · exact .of_local h₃
  · exact .fail hhead

/-- A regular expression that cannot be read is blamed on its slash. -/
theorem stays_regex {env : Env} {st : State} {p : Punct} (hst : st.IsIn cs)
    (hp : st.current.token.kind = .punct p) : Stays cs regex env st fun _ => True := by
  have hin := hst.reread_regex hp
  refine .step rfl (.step rfl ?_)
  split
  · exact .of_local hin.next
  · exact .fail hst.isPlace
  · exact .fail hst.isPlace

instance isLocal_spreadOrAssignment : (spreadOrAssignment g).IsLocal := .bind

instance isLocal_arrayLiteral : (arrayLiteral g).IsLocal := by
  refine .first fun start => .first fun _ => ?_
  refine .seq (.rounds fun elements => ?_) fun elements => inferInstance
  refine .ask inferInstance (.ask inferInstance (.first fun element => ?_))
  exact .ask inferInstance inferInstance

instance isLocal_objectProperty : (objectProperty g).IsLocal := by
  refine .first fun start => .ask inferInstance (.first fun modifiers => ?_)
  refine ⟨fun cs env st hst => ?_⟩
  refine .bind (stays_propertyKey hst) fun key st₁ h₁ hkey => .skip h₁ fun isParen st₂ h₂ => ?_
  split
  · exact .of_local h₂
  refine .skip h₂ fun isColon st₃ h₃ => ?_
  split
  · exact .of_local h₃
  · exact stays_shorthand h₃ hkey

instance isLocal_objectLiteral : (objectLiteral g).IsLocal := .bind

/-! ### Arrows and parentheses -/

instance isLocal_arrowBody (start : Nat) (isAsync : Bool) (params : List Pattern) :
    (arrowBody g start isAsync params).IsLocal := .bind

instance isLocal_parenthesized (start : Nat) (isAsync : Bool) :
    (parenthesized g start isAsync).IsLocal := by
  refine .first fun _ => ⟨fun cs env st hst => ?_⟩
  -- What has been read is kept as what may be blamed: the expressions, and the span of the rest.
  refine .bind (Q := fun (x : List Expr × Option Pattern) =>
    (∀ t ∈ nodes x.1, t.Fits cs 0 (bytes cs)) ∧ ∀ p ∈ x.2, IsPlace cs p.span)
    (.withIn (.rounds hst ⟨List.forall_mem_nil _, by simp⟩ fun (items, rest) st h hx => ?round))
    fun (items, rest) st₁ h₁ hx => ?rest
  case round =>
    refine .ask rfl (fun _ => .ret h hx) fun _ => .bind (.start h) fun itemStart st₁ h₁ hstart => ?_
    refine .skip h₁ fun isRest st₂ h₂ => ?_
    split
    · refine .bind (stays_restPattern h₂ hstart) fun p st₃ h₃ hp => .ret h₃ ⟨hx.1, fun q hq => ?_⟩
      cases hq
      exact hp
    · refine .bind (.of_reads_node (hg.isSound cs).assignment h₂) fun item st₃ h₃ hitem => ?_
      have hmore : ∀ t ∈ nodes (item :: items), t.Fits cs 0 (bytes cs) :=
        List.forall_mem_cons.mpr ⟨hitem, hx.1⟩
      refine .skip h₃ fun isMore st₄ h₄ => ?_
      split
      · exact .ret h₄ ⟨hmore, hx.2⟩
      · exact .ret h₄ ⟨hmore, hx.2⟩
  case rest =>
    have hitems : ∀ t ∈ nodes items.reverse, t.Fits cs 0 (bytes cs) :=
      fun t ht => hx.1 t (mem_nodes_reverse.mp ht)
    refine .skip h₁ fun _ st₂ h₂ => .skip h₂ fun isArrow st₃ h₃ => .skip h₃ fun t st₄ h₄ => ?_
    split
    · -- The expressions turn out to be parameters.
      refine .skip h₄ fun _ st₅ h₅ => ?_
      refine .bind (.ofExcept h₅ (blamesPlace_arrowParams _ hitems)) fun params st₆ h₆ _ => ?_
      exact .of_local h₆
    split
    · next rest => exact .fail (hx.2 rest rfl)
    split
    · exact .of_local h₄
    split
    · -- Nothing stands between the parentheses.
      exact .step rfl (.fail h₄.isBorder_prevEnd.isPlace_empty)
    · exact .of_local h₄
    · exact .of_local h₄

/-! ### Members and calls -/

instance isLocal_memberName : memberName.IsLocal := .bind

instance isLocal_computedMember : (computedMember g).IsLocal := .bind

instance isLocal_arguments : (arguments g).IsLocal := .bind

/-- The property of `new.` or `import.` is blamed if it is not the one that there is. -/
instance isLocal_metaProperty (start : Nat) (object : Ident) (name : String) (cause : SyntaxCause) :
    (metaProperty start object name cause).IsLocal := by
  refine ⟨fun cs env st hst => ?_⟩
  refine .bind (.of_reads_node reads_identifierName hst) fun property st₁ h₁ hproperty => ?_
  split
  · exact .fail hproperty.isPlace
  · exact .of_local h₁

instance isLocal_primary (heritage : Parse Expr) [heritage.IsLocal] :
    (primary g heritage).IsLocal := by
  refine ⟨fun cs env st hst => .step rfl (.step rfl ?_)⟩
  dsimp only
  -- A regular expression is read only from a slash, and everything else from any token.
  split
  all_goals first
    | exact .of_local hst
    | exact stays_regex hst ‹_›

instance isLocal_construct (heritage : Parse Expr) [heritage.IsLocal] :
    (construct g heritage).IsLocal := by
  refine .first fun newToken => .first fun _ => .ask inferInstance (.first fun calleeStart => ?_)
  refine .first fun callee => .seq (.rounds fun callee => .first fun k => ?_) fun callee => ?_
  · split <;> infer_instance
  · infer_instance

instance isLocal_optionalLink (start : Nat) (e : Expr) : (optionalLink g start e).IsLocal := by
  refine .first fun k => ?_
  split <;> infer_instance

instance isLocal_leftHandSideWith (heritage : Parse Expr) [heritage.IsLocal] :
    (leftHandSideWith g heritage).IsLocal := by
  refine .first fun start => .first fun e => .rounds fun e => .first fun k => ?_
  split <;> infer_instance

instance isLocal_leftHandSide : (leftHandSide g).IsLocal :=
  .furtherOn fun heritage _ => isLocal_leftHandSideWith heritage

/-! ### Operators -/

/-- What cannot be changed in place is blamed as a whole. -/
theorem stays_checkUpdateTarget {env : Env} {st : State} {e : Expr} {lo hi : Nat} (hst : st.IsIn cs)
    (he : e.tree.Fits cs lo hi) : Stays cs (checkUpdateTarget e) env st fun _ => True := by
  unfold checkUpdateTarget
  split
  · exact .ret hst trivial
  · split
    · exact .fail he.isPlace_expr
    · exact .ret hst trivial
  · exact .fail he.isPlace_expr

instance isLocal_postfixUpdate : (postfixUpdate g).IsLocal := by
  refine .first fun start => ⟨fun cs env st hst => ?_⟩
  refine .bind (.of_reads_node (reads_leftHandSide (hg.isSound cs)) hst) fun e st₁ h₁ he => ?_
  refine .skip h₁ fun k st₂ h₂ => ?_
  split
  · refine .skip h₂ fun t st₃ h₃ => ?_
    split
    · exact .ret h₃ trivial
    · exact .bind (stays_checkUpdateTarget h₃ he) fun _ st₄ h₄ _ => .of_local h₄
  · exact .ret h₂ trivial

instance isLocal_unary : (unary g).IsLocal := by
  refine .first fun start => .first fun k => ?_
  split
  · infer_instance
  split
  · refine .first fun _ => ⟨fun cs env st hst => ?_⟩
    refine .bind (.of_reads_node (hg.isSound cs).operand hst) fun argument st₁ h₁ hargument => ?_
    exact .bind (stays_checkUpdateTarget h₁ hargument) fun _ st₂ h₂ _ => .of_local h₂
  · infer_instance

instance isLocal_binary (least : Nat) : (binary g least).IsLocal := by
  induction hroom : InfixOp.tightest + 1 - least using Nat.strongRecOn generalizing least with
  | ind room ih =>
    rw [binary]
    refine .first fun start => .first fun left => .rounds fun left => .first fun k => ?_
    split
    · infer_instance
    · next op hop =>
      split
      · infer_instance
      · next hleast =>
        have hle := op.precedence_le
        have hright : (binary g (op.precedence + 1)).IsLocal := ih _ (by omega) _ rfl
        infer_instance

instance isLocal_conditional : (conditional g).IsLocal := .bind

/-! ### Assignments -/

instance isLocal_yieldExpr : (yieldExpr g).IsLocal := .bind

instance isLocal_plainAssignment : (plainAssignment g).IsLocal := by
  refine .first fun start => ⟨fun cs env st hst => ?_⟩
  refine .bind (.of_reads_node (reads_conditional (hg.isSound cs)) hst) fun left st₁ h₁ hleft => ?_
  refine .skip h₁ fun k st₂ h₂ => ?_
  split
  · exact .ret h₂ trivial
  · next op hop =>
    refine .bind (.ofExcept h₂ ?_) fun target st₃ h₃ _ => .of_local h₃
    split
    · exact blamesPlace_toPattern left hleft
    · exact blamesPlace_toSimpleTarget hleft

instance isLocal_assignmentExpr : (assignmentExpr g).IsLocal := by
  refine .first fun t => .first fun env => ?_
  split
  · infer_instance
  refine .ask (.first fun next => ?_) inferInstance
  split
  · infer_instance
  split <;> infer_instance

end Grammar

end Espalier
