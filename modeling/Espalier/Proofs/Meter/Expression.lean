import Espalier.Proofs.Grammar.Expression
import Espalier.Proofs.Meter.Function

/-!
# Expressions tally

Every reader of expressions tallies with the metered one. A slash or a closing brace that is read
again stands where it stood, and what it becomes ends behind its start, so it is left like any other
token.
-/

namespace Espalier

open Parse Token

/-! ### Expressions read as patterns -/

mutual

/-- Making a pattern of an expression may fail, but not for want of moving on. -/
theorem neverStalls_toPattern (e : Expr) : NeverStalls e.toPattern := by
  cases e with
  | ident i => exact .ok
  | array s es => exact .bind (neverStalls_elementsToPatterns es) fun _ => .ok
  | object s ps => exact .bind (neverStalls_propertiesToPatterns ps) fun _ => .ok
  | assign s op l r =>
    cases op with
    | plain => exact .ok
    | _ => exact .error (by simp)
  | member s o m isOptional =>
    rw [Expr.toPattern]
    split
    · exact .error (by simp)
    · exact .ok
  | _ => exact .error (by simp)

theorem neverStalls_elementsToPatterns (es : List (Option Expr)) :
    NeverStalls (elementsToPatterns es) := by
  match es with
  | [] => exact .ok
  | none :: es => exact .bind (neverStalls_elementsToPatterns es) fun _ => .ok
  | some e :: es =>
    have ih := neverStalls_elementsToPatterns es
    cases e with
    | spread s a => exact .bind (neverStalls_toPattern a) fun _ => .bind ih fun _ => .ok
    | _ => exact .bind (neverStalls_toPattern _) fun _ => .bind ih fun _ => .ok

theorem neverStalls_propertiesToPatterns (ps : List Property) :
    NeverStalls (propertiesToPatterns ps) := by
  match ps with
  | [] => exact .ok
  | .init s key value shorthand :: ps =>
    exact .bind (neverStalls_toPattern value) fun _ =>
      .bind (neverStalls_propertiesToPatterns ps) fun _ => .ok
  | .spread s e :: ps =>
    exact .bind (neverStalls_toPattern e) fun _ =>
      .bind (neverStalls_propertiesToPatterns ps) fun _ => .ok
  | .method s _ _ _ :: ps => exact .error (by simp)

end

theorem neverStalls_toSimpleTarget (e : Expr) : NeverStalls e.toSimpleTarget := by
  cases e with
  | ident i => exact .ok
  | member s o m isOptional =>
    rw [Expr.toSimpleTarget]
    split
    · exact .error (by simp)
    · exact .ok
  | _ => exact .error (by simp)

mutual

/-- Nor does checking a pattern that binds. -/
theorem neverStalls_checkBinding (p : Pattern) : NeverStalls p.checkBinding := by
  cases p with
  | ident i => exact .ok
  | target e => exact .error (by simp)
  | array s es => exact neverStalls_checkBindingElements es
  | object s ps => exact neverStalls_checkBindingProperties ps
  | default s p e => exact neverStalls_checkBinding p
  | rest s p => exact neverStalls_checkBinding p

theorem neverStalls_checkBindingElements (ps : List (Option Pattern)) :
    NeverStalls (checkBindingElements ps) := by
  match ps with
  | [] => exact .ok
  | none :: ps => exact neverStalls_checkBindingElements ps
  | some p :: ps =>
    exact .bind (neverStalls_checkBinding p) fun _ => neverStalls_checkBindingElements ps

theorem neverStalls_checkBindingProperties (ps : List PatternProperty) :
    NeverStalls (checkBindingProperties ps) := by
  match ps with
  | [] => exact .ok
  | .entry s key p shorthand :: ps =>
    exact .bind (neverStalls_checkBinding p) fun _ => neverStalls_checkBindingProperties ps
  | .rest s p :: ps =>
    exact .bind (neverStalls_checkBinding p) fun _ => neverStalls_checkBindingProperties ps

end

namespace Grammar

variable {cs : List Char} {k lo : Nat} {env : Env} {st : State} {ts : List Token} {g g' : Grammar}

theorem neverStalls_arrowParams (es : List Expr) : NeverStalls (arrowParams es) := by
  induction es with
  | nil => exact .ok
  | cons e es ih =>
    exact .bind (neverStalls_toPattern e) fun p =>
      .bind (neverStalls_checkBinding p) fun _ => .bind ih fun _ => .ok

theorem moves_expression (hg : g.Tallied cs g') : Moves cs 1 (expression g) (expression g') := by
  intro env st ts lo h
  refine .first hg.assignment h fun first st₁ ts₁ h₁ => ?_
  refine .ask rfl rfl (fun _ => ?_) fun _ => .ret h₁
  refine .pass (passes_itemsAfterCommas _ hg.assignment) h₁ fun es st₂ ts₂ h₂ => ?_
  exact .step rfl rfl (.ret h₂)

/-! ### Templates and regular expressions -/

/-- A template moves on: its pieces are read again from where they start. -/
theorem moves_template (hg : g.Tallied cs g') : Moves cs 3 (template g) (template g') := by
  intro env st ts lo h
  refine .step rfl rfl (.leave ?_)
  split
  · next hk =>
    have hpiece := h.next (hk ▸ trivial)
    exact .step rfl rfl (.ret hpiece)
  · next hk =>
    have hpiece := h.next (hk ▸ trivial)
    refine .rounds hpiece (fun parts env st ts lo h => ?_) fun parts st₂ ts₂ h₂ => ?_
    · obtain ⟨quasis, expressions⟩ := parts
      refine .first ((moves_expression hg).withIn true) (h.up 1) fun e st₁ ts₁ h₁ => ?_
      refine .ask rfl rfl (fun hbrace => ?_) fun _ => .failHere (by simp)
      -- The closing brace becomes the next piece of the template.
      have hpiece := h₁.reread (h₁.isIn.reread_template hbrace) rfl
      refine .leaveAgain scanTemplate (fun _ _ => rfl) ?_
      split
      · next hk => exact .ret (hpiece.next (hk ▸ trivial)).back
      · next hk => exact .ret (hpiece.next (hk ▸ trivial)).back.back
      · exact .fail (by simp)
      · exact .fail (by simp)
    · obtain ⟨quasis, expressions⟩ := parts
      exact .step rfl rfl (.ret h₂)
  · exact .fail (by simp)

/-- A regular expression, of which the current token is the opening slash. -/
theorem tallies_regex {p : Punct} (h : Paced cs k lo st ts)
    (hp : st.current.token.kind = .punct p) :
    Tallies cs env st ts regex regex (Behind cs (lo + 1)) := by
  have hregex := h.reread (h.isIn.reread_regex hp) rfl
  refine .token fun kind span newline _ => .leaveAgain scanRegex (fun _ _ => rfl) ?_
  split
  · next hk =>
    have hnext := hregex.next (hk ▸ trivial)
    exact .step rfl rfl (.ret hnext)
  · exact .fail (by simp)
  · exact .fail (by simp)

/-! ### Arrays and objects -/

theorem moves_spreadOrAssignment (hg : g.Tallied cs g') :
    Moves cs 1 (spreadOrAssignment g) (spreadOrAssignment g') := by
  intro env st ts lo h
  refine .step rfl rfl (.eat (eatsAlong_eat _) h (fun st₁ ts₁ h₁ => ?_) ?_)
  · refine .next (hg.assignment.withIn true) h₁ fun argument st₂ ts₂ h₂ => ?_
    exact .step rfl rfl (.ret h₂)
  · exact hg.assignment.withIn true env st ts lo h

theorem moves_arrayLiteral (hg : g.Tallied cs g') :
    Moves cs 3 (arrayLiteral g) (arrayLiteral g') := by
  intro env st ts lo h
  refine .step rfl rfl (.first (moves_expect _) h fun _ st₁ ts₁ h₁ => ?_)
  refine .rounds h₁ (fun elements env st ts lo h => ?_) fun elements st₂ ts₂ h₂ => ?_
  · refine .ask rfl rfl (fun _ => .ret h) fun _ => ?_
    refine .eat (eatsAlong_eat _) h (fun st₁ ts₁ h₁ => .ret h₁) ?_
    refine .first (moves_spreadOrAssignment hg) (h.up 1) fun element st₁ ts₁ h₁ => ?_
    refine .ask rfl rfl (fun _ => .ret h₁) fun _ => ?_
    exact .next (moves_expect _) h₁ fun _ st₂ ts₂ h₂ => .ret h₂
  · exact .next (moves_expect _) h₂ fun _ st₃ ts₃ h₃ => .step rfl rfl (.ret h₃)

/-- A property of an object leaves its key behind. -/
theorem moves_objectProperty (hg : g.Tallied cs g') :
    Moves cs 3 (objectProperty g) (objectProperty g') := by
  intro env st ts lo h
  refine .step rfl rfl (.eat (eatsAlong_eat _) h (fun st₁ ts₁ h₁ => ?_) ?_)
  · refine .next (hg.assignment.withIn true) h₁ fun argument st₂ ts₂ h₂ => ?_
    exact .step rfl rfl (.ret h₂)
  refine .pass passes_methodModifiers h fun modifiers st₁ ts₁ h₁ => ?_
  refine .first (moves_propertyKey hg) h₁ fun key st₂ ts₂ h₂ => ?_
  -- a method, or a value behind a colon
  refine .step rfl rfl (.ite (fun _ => ?_) fun _ => ?_)
  · refine .next (moves_methodFunction hg modifiers) h₂ fun f st₃ ts₃ h₃ => ?_
    exact .step rfl rfl (.ret h₃)
  refine .eat (eatsAlong_eat _) h₂ (fun st₃ ts₃ h₃ => ?_) ?_
  · refine .next (hg.assignment.withIn true) h₃.back fun value st₄ ts₄ h₄ => ?_
    exact .step rfl rfl (.ret h₄)
  split
  · -- a shorthand, which may have a default
    refine .ite (fun _ => .fail (by simp)) fun _ => ?_
    refine .eat (eatsAlong_eat _) h₂ (fun st₃ ts₃ h₃ => ?_) (.step rfl rfl (.ret h₂))
    refine .next (hg.assignment.withIn true) h₃.back fun right st₄ ts₄ h₄ => ?_
    exact .step rfl rfl (.ret h₄)
  · exact .unexpected

theorem moves_objectLiteral (hg : g.Tallied cs g') :
    Moves cs 3 (objectLiteral g) (objectLiteral g') := by
  intro env st ts lo h
  have hitem := (moves_objectProperty hg).notLast
  refine .step rfl rfl (.first (moves_expect _) h fun _ st₁ ts₁ h₁ => ?_)
  refine .pass (passes_itemsBefore _ hitem) h₁ fun properties st₂ ts₂ h₂ => ?_
  exact .next (moves_expect _) h₂ fun _ st₃ ts₃ h₃ => .step rfl rfl (.ret h₃)

/-! ### Arrows and parentheses -/

theorem moves_arrowBody (hg : g.Tallied cs g') (start : Nat) (isAsync : Bool)
    (params : List Pattern) :
    Moves cs 1 (arrowBody g start isAsync params) (arrowBody g' start isAsync params) := by
  intro env st ts lo h
  refine .bind (R := Behind cs (lo + 1)) (.withinFunction ?_) fun body st₁ ts₁ h₁ => ?_
  · refine .ask rfl rfl (fun _ => ?_) fun _ => ?_
    · exact .first ((moves_block hg).withIn true) h.top fun b st₁ ts₁ h₁ => .ret h₁
    · exact .first hg.assignment h fun e st₁ ts₁ h₁ => .ret h₁
  · exact .step rfl rfl (.ret h₁)

/-- What parentheses hold, unless an arrow follows. -/
theorem tallies_items (items : List Expr) (h : Paced cs 0 lo st ts) :
    Tallies cs env st ts
      (match items with
        | [] => do fail .strayClosingParen (.empty (← get).prevEnd)
        | [item] => return item
        | first :: others =>
          return .sequence ⟨first.span.start, ((others.getLast?).getD first).span.stop⟩ items)
      (match items with
        | [] => do fail .strayClosingParen (.empty (← get).prevEnd)
        | [item] => return item
        | first :: others =>
          return .sequence ⟨first.span.start, ((others.getLast?).getD first).span.stop⟩ items)
      (Behind cs lo) := by
  match items with
  | [] => exact .get (.fail (by simp))
  | [item] => exact .ret h
  | first :: second :: others => exact .ret h

/-- What stands in parentheses moves on, since the first of them is left. -/
theorem moves_parenthesized (hg : g.Tallied cs g') (start : Nat) (isAsync : Bool) :
    Moves cs 3 (parenthesized g start isAsync) (parenthesized g' start isAsync) := by
  intro env st ts lo h
  refine .first (moves_expect _) h fun _ st₁ ts₁ h₁ => ?_
  refine .bind (R := Behind cs (lo + 1)) (.withIn (passes_repeatFrom ?_ _ _ _ _ _ h₁))
    fun parts st₂ ts₂ h₂ => ?_
  · intro parts env st ts lo h
    obtain ⟨items, rest⟩ := parts
    refine .ask rfl rfl (fun _ => .ret h) fun _ => .step rfl rfl ?_
    refine .eat (eatsAlong_eat _) h (fun st₁ ts₁ h₁ => ?_) ?_
    · exact .next (moves_restPattern hg _) h₁.back fun p st₂ ts₂ h₂ => .ret h₂
    · refine .first hg.assignment (h.up 1) fun item st₁ ts₁ h₁ => ?_
      exact .eat (eatsAlong_eat _) h₁ (fun st₂ ts₂ h₂ => .ret h₂.back) (.ret h₁.back)
  obtain ⟨items, rest⟩ := parts
  dsimp only
  -- their order plays no part from here on
  generalize items.reverse = items
  refine .next (moves_expect _) h₂ fun _ st₃ ts₃ h₃ => ?_
  refine .step rfl rfl (.step rfl rfl (.ite (fun harrow => ?_) fun _ => ?_))
  · -- the items become parameters, and no token is read for that
    rw [Bool.and_eq_true] at harrow
    refine .advance h₃ (Kind.isSolid_of_isPunct harrow.1) fun h₄ => ?_
    refine .ofExcept (neverStalls_arrowParams items) fun params => ?_
    exact .last (moves_arrowBody hg start isAsync _) h₄.back
  · cases rest with
    | some p => exact .fail (by simp)
    | none =>
      dsimp only
      refine .ite (fun _ => ?_) fun _ => tallies_items items h₃
      exact .step rfl rfl (.ret h₃)

/-! ### Members and calls -/

theorem moves_memberName : Moves cs 3 memberName memberName := by
  intro env st ts lo h
  refine .ask rfl rfl (fun _ => .failHere (by simp)) fun _ => ?_
  exact .first moves_identifierName h fun name st₁ ts₁ h₁ => .ret h₁

theorem moves_computedMember (hg : g.Tallied cs g') :
    Moves cs 3 (computedMember g) (computedMember g') := by
  intro env st ts lo h
  refine .first (moves_expect _) h fun _ st₁ ts₁ h₁ => ?_
  refine .next ((moves_expression hg).withIn true) h₁ fun key st₂ ts₂ h₂ => ?_
  exact .next (moves_expect _) h₂ fun _ st₃ ts₃ h₃ => .ret h₃

theorem moves_arguments (hg : g.Tallied cs g') : Moves cs 3 (arguments g) (arguments g') := by
  intro env st ts lo h
  have hitem := (moves_spreadOrAssignment hg).notLast
  refine .first (moves_expect _) h fun _ st₁ ts₁ h₁ => ?_
  refine .pass (passes_itemsBefore _ hitem) h₁ fun es st₂ ts₂ h₂ => ?_
  exact .next (moves_expect _) h₂ fun _ st₃ ts₃ h₃ => .ret h₃

theorem moves_metaProperty (start : Nat) (object : Ident) (name : String) {cause : SyntaxCause}
    (hcause : cause ≠ .stalled) :
    Moves cs 3 (metaProperty start object name cause) (metaProperty start object name cause) := by
  intro env st ts lo h
  refine .first moves_identifierName h fun property st₁ ts₁ h₁ => ?_
  exact .ite (fun _ => .fail hcause) fun _ => .step rfl rfl (.ret h₁)

section

variable {heritage heritage' : Parse Expr}

/-- A primary expression leaves at least its first token. -/
theorem tallies_primary (hg : g.Tallied cs g') (hh : Further cs lo heritage heritage')
    (h : Paced cs 3 lo st ts) :
    Tallies cs env st ts (primary g heritage) (primary g' heritage') (Behind cs (lo + 1)) := by
  refine .step rfl rfl (.token fun kind span newline htoken => ?_)
  -- the kind is needed to know that the first token has a text
  have hkind : st.current.token.kind = kind := congrArg Token.kind htoken
  dsimp only
  split
  · refine .step rfl rfl (.ite (fun _ => ?_) fun _ => .ite (fun _ => ?_) fun _ => ?_)
    · refine .advance h (hkind ▸ trivial) fun h₁ => ?_
      exact .next (moves_function hg _ true false) h₁ fun f st₂ ts₂ h₂ => .ret h₂
    · refine .advance h (hkind ▸ trivial) fun h₁ => ?_
      exact .last (moves_parenthesized hg _ true) h₁
    · exact .advance h (hkind ▸ trivial) fun h₁ => .ret h₁
  · exact .advance h (hkind ▸ trivial) fun h₁ => .ret h₁
  · exact .advance h (hkind ▸ trivial) fun h₁ => .ret h₁
  · exact .advance h (hkind ▸ trivial) fun h₁ => .ret h₁
  · exact .advance h (hkind ▸ trivial) fun h₁ => .ret h₁
  · exact .advance h (hkind ▸ trivial) fun h₁ => .ret h₁
  · exact .advance h (hkind ▸ trivial) fun h₁ => .ret h₁
  · exact .advance h (hkind ▸ trivial) fun h₁ => .ret h₁
  · exact .advance h (hkind ▸ trivial) fun h₁ => .ret h₁
  · exact tallies_regex h hkind
  · exact tallies_regex h hkind
  · exact .first (moves_template hg) h fun t st₁ ts₁ h₁ => .ret h₁
  · exact .first (moves_template hg) h fun t st₁ ts₁ h₁ => .ret h₁
  · exact moves_parenthesized hg _ false env st ts lo h
  · exact moves_arrayLiteral hg env st ts lo h
  · exact moves_objectLiteral hg env st ts lo h
  · exact .first (moves_function hg _ false false) h fun f st₁ ts₁ h₁ => .ret h₁
  · exact .bind (tallies_classDef hg hh _ false h) fun c st₁ ts₁ h₁ => .ret h₁
  · refine .advance h (hkind ▸ trivial) fun h₁ => ?_
    refine .eat (eatsAlong_eat _) h₁ (fun st₂ ts₂ h₂ => ?_) ?_
    · exact .last (moves_metaProperty _ _ _ (by simp)) h₂.back
    · exact .ask rfl rfl (fun _ => .step rfl rfl (.ret h₁)) fun _ => .unexpected
  · exact .unexpected

/-- A creation moves on, and its heritage may be entered only behind `new`. -/
theorem tallies_construct (hg : g.Tallied cs g') (hh : Further cs lo heritage heritage')
    (h : Paced cs 3 lo st ts) :
    Tallies cs env st ts (construct g heritage) (construct g' heritage')
      (Behind cs (lo + 1)) := by
  refine .token fun kind span newline _ => ?_
  refine .first (moves_expectKey _) h fun _ st₁ ts₁ h₁ => ?_
  refine .eat (eatsAlong_eat _) h₁ (fun st₂ ts₂ h₂ => ?_) (.step rfl rfl ?_)
  · exact .last (moves_metaProperty _ _ _ (by simp)) h₂.back
  refine .bind (α := Expr) (R := Behind cs (lo + 1)) ?_ fun callee st₂ ts₂ h₂ => ?_
  · refine .ask rfl rfl (fun _ => .last hg.creation h₁) fun _ => ?_
    -- `new` has been left, so what reads a heritage may be used
    have hfurther : Further cs (lo + 1) heritage heritage' := hh.of_le (Nat.le_succ lo)
    exact (tallies_primary hg hfurther h₁.top).mono fun _ _ _ h₂ => h₂.back
  refine .rounds h₂ (fun e env st ts lo h => ?_) fun e st₃ ts₃ h₃ => ?_
  · refine .kind fun kind hkind => ?_
    split
    · refine .advance h (hkind ▸ trivial) fun h₁ => ?_
      exact .next moves_memberName h₁ fun property st₂ ts₂ h₂ => .step rfl rfl (.ret h₂)
    · refine .first (moves_computedMember hg) h.top fun property st₁ ts₁ h₁ => ?_
      exact .step rfl rfl (.ret h₁)
    · exact .failHere (by simp)
    · exact .ret h
  refine .bind (α := List Expr) (R := Behind cs (lo + 1)) ?_ fun args st₄ ts₄ h₄ => ?_
  · exact .ask rfl rfl (fun _ => .last (moves_arguments hg) h₃) fun _ => .ret h₃
  · exact .step rfl rfl (.ret h₄)

theorem moves_optionalLink (hg : g.Tallied cs g') (start : Nat) (e : Expr) :
    Moves cs 3 (optionalLink g start e) (optionalLink g' start e) := by
  intro env st ts lo h
  refine .kind fun kind _ => ?_
  split
  · exact .first (moves_arguments hg) h fun args st₁ ts₁ h₁ => .step rfl rfl (.ret h₁)
  · exact .first (moves_computedMember hg) h fun property st₁ ts₁ h₁ => .step rfl rfl (.ret h₁)
  · exact .first moves_memberName h fun property st₁ ts₁ h₁ => .step rfl rfl (.ret h₁)

/-- A chain of links moves on; a class in it reads its heritage further on. -/
theorem tallies_leftHandSideWith (hg : g.Tallied cs g') (hh : Further cs lo heritage heritage')
    (h : Paced cs 3 lo st ts) :
    Tallies cs env st ts (leftHandSideWith g heritage) (leftHandSideWith g' heritage')
      (Behind cs (lo + 1)) := by
  refine .step rfl rfl ?_
  refine .bind (α := Expr) (R := Behind cs (lo + 1)) ?_ fun e st₁ ts₁ h₁ =>
    passes_repeatFrom (fun e env st ts lo h => ?_) e env st₁ ts₁ (lo + 1) h₁
  · refine .ask rfl rfl (fun _ => ?_) fun _ => ?_
    · exact tallies_construct hg hh h
    · exact tallies_primary hg hh h
  -- one link of the chain, told by the token it starts with
  refine .kind fun kind hkind => ?_
  split
  · refine .advance h (hkind ▸ trivial) fun h₁ => ?_
    exact .next moves_memberName h₁ fun property st₂ ts₂ h₂ => .step rfl rfl (.ret h₂)
  · refine .advance h (hkind ▸ trivial) fun h₁ => ?_
    exact .next (moves_optionalLink hg _ e) h₁ fun link st₂ ts₂ h₂ => .ret h₂
  · refine .first (moves_computedMember hg) h.top fun property st₁ ts₁ h₁ => ?_
    exact .step rfl rfl (.ret h₁)
  · refine .first (moves_arguments hg) h.top fun args st₁ ts₁ h₁ => ?_
    exact .step rfl rfl (.ret h₁)
  · refine .ite (fun _ => .failHere (by simp)) fun _ => ?_
    refine .first (moves_template hg) h.top fun quasi st₁ ts₁ h₁ => ?_
    exact .step rfl rfl (.ret h₁)
  · refine .ite (fun _ => .failHere (by simp)) fun _ => ?_
    refine .first (moves_template hg) h.top fun quasi st₁ ts₁ h₁ => ?_
    exact .step rfl rfl (.ret h₁)
  · exact .ret h

end

theorem moves_leftHandSide (hg : g.Tallied cs g') :
    Moves cs 3 (leftHandSide g) (leftHandSide g') :=
  moves_furtherOn fun _ _ _ _ _ _ hh h => tallies_leftHandSideWith hg hh h

theorem moves_construct (hg : g.Tallied cs g') :
    Moves cs 3 (construct g (leftHandSide g)) (construct g' (leftHandSide g')) :=
  fun _ _ _ _ h => tallies_construct hg (moves_leftHandSide hg).further h

/-! ### Operators -/

/-- The check of what is changed in place leaves no token. -/
theorem tallies_checkUpdateTarget (e : Expr) :
    Tallies cs env st ts (checkUpdateTarget e) (checkUpdateTarget e)
      fun _ st' ts' => st' = st ∧ ts' = ts := by
  unfold checkUpdateTarget
  split
  · exact .ret ⟨rfl, rfl⟩
  · exact .ite (fun _ => .fail (by simp)) fun _ => .ret ⟨rfl, rfl⟩
  · exact .fail (by simp)

theorem moves_postfixUpdate (hg : g.Tallied cs g') :
    Moves cs 3 (postfixUpdate g) (postfixUpdate g') := by
  intro env st ts lo h
  refine .step rfl rfl (.first (moves_leftHandSide hg) h fun e st₁ ts₁ h₁ => ?_)
  refine .kind fun kind hkind => ?_
  split
  · next op hop =>
    refine .token fun _ _ _ _ => .ite (fun _ => .ret h₁) fun _ => ?_
    refine .bind (tallies_checkUpdateTarget e) fun _ st₂ ts₂ hsame => ?_
    obtain ⟨rfl, rfl⟩ := hsame
    refine .advance h₁ (hkind ▸ isSolid_of_updateOp? hop) fun h₂ => ?_
    exact .step rfl rfl (.ret h₂.back)
  · exact .ret h₁

theorem moves_unary (hg : g.Tallied cs g') : Moves cs 3 (unary g) (unary g') := by
  intro env st ts lo h
  refine .step rfl rfl (.kind fun kind hkind => ?_)
  split
  · next op hop =>
    refine .advance h (hkind ▸ isSolid_of_unaryOp? hop) fun h₁ => ?_
    exact .next hg.operand h₁ fun argument st₂ ts₂ h₂ => .step rfl rfl (.ret h₂)
  split
  · next op hop =>
    refine .advance h (hkind ▸ isSolid_of_updateOp? hop) fun h₁ => ?_
    refine .next hg.operand h₁ fun argument st₂ ts₂ h₂ => ?_
    refine .bind (tallies_checkUpdateTarget argument) fun _ st₃ ts₃ hsame => ?_
    obtain ⟨rfl, rfl⟩ := hsame
    exact .step rfl rfl (.ret h₂)
  refine .step rfl rfl (.ite (fun hawait => ?_) fun _ => moves_postfixUpdate hg env st ts lo h)
  rw [Bool.and_eq_true] at hawait
  refine .advance h (hkind ▸ Kind.isSolid_of_isName hawait.1) fun h₁ => ?_
  exact .next hg.operand h₁ fun argument st₂ ts₂ h₂ => .step rfl rfl (.ret h₂)

/-- A chain of operators leaves at least its first operand. -/
theorem moves_binary (hg : g.Tallied cs g') (least : Nat) :
    Moves cs 3 (binary g least) (binary g' least) := by
  -- the right operand is read at a level closer to the tightest one
  induction hn : InfixOp.tightest + 1 - least using Nat.strongRecOn generalizing least with
  | ind n ih =>
    intro env st ts lo h
    rw [binary, binary]
    refine .step rfl rfl (.first (moves_unary hg) h fun left st₁ ts₁ h₁ => ?_)
    refine passes_repeatFrom (fun left env st ts lo h => ?_) left env st₁ ts₁ (lo + 1) h₁
    refine .kind fun kind hkind => ?_
    split
    · exact .ret h
    next op hop =>
    split
    · exact .ret h
    next hleast =>
    refine .step rfl rfl (.ite (fun _ => .ret h) fun _ => ?_)
    refine .advance h (hkind ▸ isSolid_of_operator? hop) fun h₁ => ?_
    have hle := op.precedence_le
    refine .ite (fun _ => ?_) fun _ => ?_
    · exact .next hg.power h₁ fun right st₂ ts₂ h₂ => .step rfl rfl (.ret h₂)
    · refine .next (ih _ (by omega) _ rfl) h₁ fun right st₂ ts₂ h₂ => ?_
      exact .step rfl rfl (.ret h₂)

theorem moves_conditional (hg : g.Tallied cs g') :
    Moves cs 3 (conditional g) (conditional g') := by
  intro env st ts lo h
  refine .step rfl rfl (.first (moves_binary hg 0) h fun test st₁ ts₁ h₁ => ?_)
  refine .eat (eatsAlong_eat _) h₁ (fun st₂ ts₂ h₂ => ?_) (.ret h₁)
  refine .next (hg.assignment.withIn true) h₂.back fun consequent st₃ ts₃ h₃ => ?_
  refine .next (moves_expect _) h₃ fun _ st₄ ts₄ h₄ => ?_
  exact .next hg.assignment h₄ fun alternate st₅ ts₅ h₅ => .step rfl rfl (.ret h₅)

/-! ### Assignments -/

/-- A `yield`, which is the current token. -/
theorem tallies_yieldExpr (hg : g.Tallied cs g') (h : Paced cs k lo st ts)
    (hk : st.current.token.kind.IsSolid) :
    Tallies cs env st ts (yieldExpr g) (yieldExpr g') (Behind cs (lo + 1)) := by
  refine .step rfl rfl (.advance h hk fun h₁ => ?_)
  refine .bind (α := Bool) (R := Behind cs (lo + 1)) ?_ fun delegate st₂ ts₂ h₂ => ?_
  · refine .token fun _ _ _ _ => .ite (fun _ => .ret h₁) fun _ => ?_
    exact (eatsAlong_eat _).passes _ _ _ _ h₁
  refine .token fun kind span newline _ => .ite (fun _ => ?_) fun _ => ?_
  · exact .step rfl rfl (.ret h₂)
  · exact .next hg.assignment h₂ fun argument st₃ ts₃ h₃ => .step rfl rfl (.ret h₃)

theorem moves_plainAssignment (hg : g.Tallied cs g') :
    Moves cs 3 (plainAssignment g) (plainAssignment g') := by
  intro env st ts lo h
  refine .step rfl rfl (.first (moves_conditional hg) h fun left st₁ ts₁ h₁ => ?_)
  refine .kind fun kind hkind => ?_
  split
  · exact .ret h₁
  next op hop =>
  have htarget : NeverStalls (if op = .plain then left.toPattern else left.toSimpleTarget) := by
    split
    · exact neverStalls_toPattern left
    · exact neverStalls_toSimpleTarget left
  refine .ofExcept htarget fun target => ?_
  refine .advance h₁ (hkind ▸ isSolid_of_assignOp? hop) fun h₂ => ?_
  exact .next hg.assignment h₂.back fun right st₃ ts₃ h₃ => .step rfl rfl (.ret h₃)

/-- An arrow function may start with a pattern in the place of the expression. -/
theorem moves_assignmentExpr (hg : g.Tallied cs g') :
    Moves cs 2 (assignmentExpr g) (assignmentExpr g') := by
  intro env st ts lo h
  have hplain := moves_plainAssignment hg env st ts lo h.top
  refine .token fun kind span newline htoken => ?_
  have hkind : st.current.token.kind = kind := congrArg Token.kind htoken
  refine .step rfl rfl (.ite (fun hyield => ?_) fun _ => ?_)
  · rw [Bool.and_eq_true] at hyield
    exact tallies_yieldExpr hg h (hkind ▸ Kind.isSolid_of_isName hyield.1)
  refine .view views_isAnyName fun isAny hany => .ite (fun htrue => ?_) fun _ => hplain
  subst htrue
  obtain ⟨word, hword⟩ := exists_name_of_isAnyName hany
  refine .step rfl rfl (.ite (fun harrow => ?_) fun _ => ?_)
  · rw [Bool.and_eq_true] at harrow
    refine .bindAt (hg.pattern env st ts lo h) fun param st₁ ts₁ heq h₁ => ?_
    -- the name in front of the arrow is the whole pattern, so the arrow is the next token
    obtain rfl := hg.pattern_name hword _ _ heq
    refine .advance h₁ (Kind.isSolid_of_isPunct harrow.1) fun h₂ => ?_
    exact .last (moves_arrowBody hg _ false _) h₂.back
  split
  · refine .ite (fun _ => ?_) fun _ => hplain
    refine .advance h (hword ▸ trivial) fun h₁ => ?_
    refine .next hg.pattern h₁ fun param st₂ ts₂ h₂ => ?_
    refine .next (moves_expect _) h₂ fun _ st₃ ts₃ h₃ => ?_
    exact .last (moves_arrowBody hg _ true _) h₃
  · exact hplain

end Grammar

end Espalier
