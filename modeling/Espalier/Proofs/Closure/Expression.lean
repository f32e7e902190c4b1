import Espalier.Proofs.Closure.Stretch
import Espalier.Proofs.Grammar.Expression

/-!
# Functions in expressions start apart

A function starts apart from what is written inside it and beside it, whether it has a word, an
arrow or the key of a method in front, and also if expressions between parentheses turn out to be
its parameters: the pattern that an expression spells has the functions of the expression.
-/

namespace Espalier

/-! ### Expressions read as patterns -/

mutual

/-- A pattern has the functions of the expression that spells it. -/
theorem functions_toPattern (e : Expr) {p : Pattern} (h : e.toPattern = .ok p) :
    p.functions = e.functions := by
  -- What becomes a pattern keeps its parts, so nothing is to be shown of the expressions that are
  -- refused.
  cases e with
  | ident i =>
    cases h
    rfl
  | array s es =>
    obtain ⟨ps, hps, h⟩ := exists_of_bind_eq_ok h
    cases h
    simp [functions_elementsToPatterns es hps]
  | object s ps =>
    obtain ⟨qs, hqs, h⟩ := exists_of_bind_eq_ok h
    cases h
    simp [functions_propertiesToPatterns ps hqs]
  | assign s op l r =>
    cases op with
    | plain =>
      cases h
      simp
    | compound => cases h
  | member s o m isOptional =>
    rw [Expr.toPattern] at h
    split at h
    · cases h
    · cases h
      simp
  | _ => cases h

/-- The elements of an array keep their functions as they become patterns. -/
theorem functions_elementsToPatterns (es : List (Option Expr)) {ps : List (Option Pattern)}
    (h : elementsToPatterns es = .ok ps) : functionsOfAll ps = functionsOfAll es := by
  match es with
  | [] =>
    cases h
    rfl
  | none :: es =>
    obtain ⟨qs, hqs, h⟩ := exists_of_bind_eq_ok h
    cases h
    simp [functions_elementsToPatterns es hqs]
  | some e :: es =>
    -- A spread becomes a rest, and anything else a pattern in its place.
    by_cases hspread : ∃ s a, e = .spread s a
    · obtain ⟨s, a, rfl⟩ := hspread
      obtain ⟨p, hp, h⟩ := exists_of_bind_eq_ok h
      obtain ⟨qs, hqs, h⟩ := exists_of_bind_eq_ok h
      cases h
      simp [functions_toPattern a hp, functions_elementsToPatterns es hqs]
    · rw [elementsToPatterns_some fun s a heq => hspread ⟨s, a, heq⟩] at h
      obtain ⟨p, hp, h⟩ := exists_of_bind_eq_ok h
      obtain ⟨qs, hqs, h⟩ := exists_of_bind_eq_ok h
      cases h
      simp [functions_toPattern e hp, functions_elementsToPatterns es hqs]

/-- Properties read as patterns keep their functions, in their order. -/
theorem functions_propertiesToPatterns (ps : List Property) {qs : List PatternProperty}
    (h : propertiesToPatterns ps = .ok qs) : functionsOfAll qs = functionsOfAll ps := by
  match ps with
  | [] =>
    cases h
    rfl
  | .init s key value shorthand :: ps =>
    obtain ⟨p, hp, h⟩ := exists_of_bind_eq_ok h
    obtain ⟨qs, hqs, h⟩ := exists_of_bind_eq_ok h
    cases h
    simp [functions_toPattern value hp, functions_propertiesToPatterns ps hqs]
  | .spread s e :: ps =>
    obtain ⟨p, hp, h⟩ := exists_of_bind_eq_ok h
    obtain ⟨qs, hqs, h⟩ := exists_of_bind_eq_ok h
    cases h
    simp [functions_toPattern e hp, functions_propertiesToPatterns ps hqs]
  | .method s key kind f :: ps => cases h

end

/-- So does an expression read as the target of an update. -/
theorem functions_toSimpleTarget {e : Expr} {p : Pattern} (h : e.toSimpleTarget = .ok p) :
    p.functions = e.functions := by
  cases e with
  | ident i =>
    cases h
    rfl
  | member s o m isOptional =>
    rw [Expr.toSimpleTarget] at h
    split at h
    · cases h
    · cases h
      simp
  | _ => cases h

namespace Grammar

open Parse Token

variable {cs : List Char} {lo : Nat} {env : Env} {st : State} {ps : Multiset ℕ} {g : Grammar}

/-- And so do the parameters of an arrow, read first as expressions. -/
theorem functions_arrowParams (es : List Expr) {ps : List Pattern} (h : arrowParams es = .ok ps) :
    functionsOfAll ps = functionsOfAll es := by
  induction es generalizing ps with
  | nil =>
    cases h
    rfl
  | cons e es ih =>
    obtain ⟨p, hp, h⟩ := exists_of_bind_eq_ok h
    obtain ⟨_, -, h⟩ := exists_of_bind_eq_ok h
    obtain ⟨qs, hqs, h⟩ := exists_of_bind_eq_ok h
    cases h
    simp [functions_toPattern e hp, ih hqs]

/-! ### Literals -/

/-- A sequence of assignments, which are read one behind the other. -/
theorem owns_expression (hg : g.Keeps cs) : Owns cs (expression g) := by
  intro env st hst
  have h := hst.stretch (Nat.le_refl st.pos)
  refine h.read hg.assignment fun first st₁ h₁ => .ask rfl (fun _ => ?_) fun _ => ?_
  · have hfirst : Stretch cs _ st₁ (starts [first]) := h₁.of_eq (by simp)
    refine hfirst.itemsAfterCommas hg.assignment fun es st₂ h₂ => .span fun _ _ => .ret ?_
    exact h₂.of_eq (by simp)
  · exact .ret (h₁.of_eq (by simp))

/-- The substitutions of a template. -/
theorem owns_template (hg : g.Keeps cs) : Owns cs (template g) := by
  intro env st hst
  have h := hst.stretch (Nat.le_refl st.pos)
  refine .step rfl (h.advance fun h₁ => ?_)
  split
  · exact .span fun _ _ => .ret h₁
  · refine h₁.collect rfl (fun x st h => ?_) fun x st₂ h₂ => .span fun _ _ => .ret ?_
    · refine h.read ((owns_expression hg).withIn true) fun e st₁ h₁ => ?_
      refine .ask rfl (fun hbrace => ?_) fun _ => .failHere
      have hin := h₁.isIn.reread_template hbrace
      refine .step rfl ?_
      have h₂ := (h₁.again hin rfl).next
      split
      · exact .ret (h₂.of_eq (by simp))
      · exact .ret (h₂.of_eq (by simp))
      · exact .fail
      · exact .fail
    · exact h₂.of_eq (by simp)
  · exact .fail

/-- An argument or element, with or without the three dots. -/
theorem owns_spreadOrAssignment (hg : g.Keeps cs) : Owns cs (spreadOrAssignment g) := by
  intro env st hst
  have h := hst.stretch (Nat.le_refl st.pos)
  refine .step rfl (h.eat (eats_eat _) (fun h => ?_) ?_)
  · refine h.read (hg.assignment.withIn true) fun argument st₁ h₁ => .span fun _ _ => .ret ?_
    exact h₁.of_eq (by simp)
  · exact hg.assignment.withIn true env st hst

/-- Array literals, which may have gaps. -/
theorem owns_arrayLiteral (hg : g.Keeps cs) : Owns cs (arrayLiteral g) := by
  intro env st hst
  have h := hst.stretch (Nat.le_refl st.pos)
  refine .step rfl (h.pass (reads_expect _).enters.owns fun _ st₁ h₁ => ?_)
  refine h₁.collect rfl (fun elements st h => ?_) fun elements st₂ h₂ => ?_
  · refine .ask rfl (fun _ => .ret h) fun _ => ?_
    refine h.eat (eats_eat _) (fun h' => .ret (h'.of_eq (by simp))) ?_
    refine h.read (owns_spreadOrAssignment hg) fun element st' h' => ?_
    have hmore : Stretch cs _ st' (starts (some element :: elements) + 0) := h'.of_eq (by simp)
    refine .ask rfl (fun _ => .ret hmore) fun _ => ?_
    exact hmore.pass (reads_expect _).enters.owns fun _ st'' h'' => .ret h''
  · refine h₂.pass (reads_expect _).enters.owns fun _ st₃ h₃ => .span fun _ _ => .ret ?_
    exact h₃.of_eq (by simp)

/-- Properties, of which methods start where their key does. -/
theorem owns_objectProperty (hg : g.Keeps cs) : Owns cs (objectProperty g) := by
  intro env st hst
  have h := hst.stretch (Nat.le_refl st.pos)
  -- A spread is told by its dots; everything else begins with modifiers and a key.
  refine .step rfl (h.eat (eats_eat _) (fun h => ?_) ?_)
  · refine h.read (hg.assignment.withIn true) fun argument st₁ h₁ => .span fun _ _ => .ret ?_
    exact h₁.of_eq (by simp)
  refine h.pass mayRead_methodModifiers.owns fun modifiers st₁ h₁ => ?_
  refine (enters_propertyKey hg).first h₁.isIn h₁.le fun key st₂ h₂ => .step rfl ?_
  split
  · refine .bind ((gives_method hg modifiers h₂).mono fun f st₃ h₃ => ?_)
    exact .span fun s hs => .ret ((h₃ s hs).of_eq (by simp))
  have h₂ := h₂.back (Nat.le_succ _)
  refine h₂.eat (eats_eat _) (fun h₃ => ?_) ?_
  · refine h₃.read (hg.assignment.withIn true) fun value st₄ h₄ => .span fun _ _ => .ret ?_
    exact h₄.of_eq (by simp [add_comm])
  split
  · next name =>
    split
    · exact .fail
    refine h₂.eat (eats_eat _) (fun h₃ => ?_) (.span fun _ _ => .ret (h₂.of_eq (by simp)))
    refine h₃.read (hg.assignment.withIn true) fun right st₄ h₄ => .span fun _ _ => .ret ?_
    exact h₄.of_eq (by simp)
  · exact .unexpected

/-- Object literals. -/
theorem owns_objectLiteral (hg : g.Keeps cs) : Owns cs (objectLiteral g) := by
  intro env st hst
  have h := hst.stretch (Nat.le_refl st.pos)
  refine .step rfl (h.pass (reads_expect _).enters.owns fun _ st₁ h₁ => ?_)
  refine h₁.read (owns_itemsBefore _ fun env st hst => ?_) fun properties st₂ h₂ => ?_
  · have h := hst.stretch (Nat.le_refl st.pos)
    exact h.read (owns_objectProperty hg) fun p st' h' => .ret (h'.of_eq (by simp))
  · refine h₂.pass (reads_expect _).enters.owns fun _ st₃ h₃ => .span fun _ _ => .ret ?_
    exact h₃.of_eq (by simp)

/-! ### Arrows and parentheses -/

/-- An arrow function starts apart from what is in its parameters and its body. -/
theorem gives_arrow (hg : g.Keeps cs) (isAsync : Bool) {params : List Pattern}
    (h : Stretch cs (lo + 1) st (starts params)) :
    Gives (arrowBody g lo isAsync params) env st fun e st' => Stretch cs lo st' (starts e) := by
  refine h.read (Owns.withinFunction (fun env st hst => ?_) isAsync false) fun body st₁ h₁ => ?_
  · have h := hst.stretch (Nat.le_refl st.pos)
    refine .ask rfl (fun _ => ?_) fun _ => ?_
    · exact h.read ((owns_block hg).withIn true) fun b st' h' => .ret (h'.of_eq (by simp))
    · exact h.read hg.assignment fun e st' h' => .ret (h'.of_eq (by simp))
  · refine .span fun s hs => .ret (h₁.open_at.of_eq ?_)
    simp [FunctionLiteral.starts, FunctionLiteral.ofArrow, hs, add_comm]

/-- What starts with a parenthesis, which may stand behind the word that it starts with. -/
theorem gives_parenthesized_from (hg : g.Keeps cs) (isAsync : Bool) (hst : st.IsIn cs)
    (hlo : lo ≤ st.pos) :
    Gives (parenthesized g lo isAsync) env st fun e st' => Stretch cs lo st' (starts e) := by
  refine (reads_expect _).enters.first hst hlo fun _ st₁ h₁ => ?_
  have hnone : Stretch cs (lo + 1) st₁ (starts (([] : List Expr), (none : Option Pattern)) + 0) :=
    h₁.of_eq (by simp)
  -- The items in the parentheses are collected in reverse, a rest apart, since they may be
  -- parameters.
  refine .bind (.withIn ((hnone.repeated fun x st h => ?_).mono fun x st₂ h₂ => ?_))
  · obtain ⟨items, rest⟩ := x
    refine .ask rfl (fun _ => .ret h) fun _ => .step rfl ?_
    refine h.eat (eats_eat _) (fun h' => ?_) ?_
    · refine .bind ((gives_rest hg _ h').mono fun p st'' h'' => .ret (h''.of_le ?_))
      simp [add_comm, Multiset.zero_le]
    · refine h.read hg.assignment fun item st' h' => ?_
      have hmore : Stretch cs _ st' (starts (item :: items, rest) + 0) :=
        h'.of_eq (by simp)
      exact hmore.eat (eats_eat _) (fun h => .ret h) (.ret hmore)
  · obtain ⟨items, rest⟩ := x
    refine h₂.pass (reads_expect _).enters.owns fun _ st₃ h₃ => .step rfl (.step rfl ?_)
    -- An arrow makes parameters of the items.
    split
    · refine h₃.advance fun h₄ => .bind (.ofExcept fun params hparams => ?_)
      refine gives_arrow hg isAsync (h₄.of_eq ?_)
      simp [functions_arrowParams _ hparams]
    have h₃ := h₃.back (Nat.le_succ _)
    split
    · exact .fail
    split
    · exact .span fun _ _ => .ret (h₃.of_eq (by simp))
    split
    · exact .step rfl .fail
    · next item heq =>
      refine .ret (h₃.of_eq ?_)
      simp [List.reverse_eq_iff.mp heq]
    · next first others hne heq =>
      refine .ret (h₃.of_eq ?_)
      have hstarts := startsOf_reverse items
      rw [heq] at hstarts
      simp [← hstarts]

/-! ### Members and calls -/

/-- A member that is named by an expression. -/
theorem owns_computedMember (hg : g.Keeps cs) : Owns cs (computedMember g) := by
  intro env st hst
  have h := hst.stretch (Nat.le_refl st.pos)
  refine h.pass (reads_expect _).enters.owns fun _ st₁ h₁ => ?_
  refine h₁.read ((owns_expression hg).withIn true) fun key st₂ h₂ => ?_
  exact h₂.pass (reads_expect _).enters.owns fun _ st₃ h₃ => .ret (h₃.of_eq (by simp))

/-- A member that is named by a word has no functions. -/
theorem owns_memberName : Owns cs memberName := by
  intro env st hst
  have h := hst.stretch (Nat.le_refl st.pos)
  refine .ask rfl (fun _ => .failHere) fun _ => ?_
  exact h.pass reads_identifierName.enters.owns fun name st₁ h₁ => .ret h₁

/-- The arguments of a call. -/
theorem owns_arguments (hg : g.Keeps cs) : Owns cs (arguments g) := by
  intro env st hst
  have h := hst.stretch (Nat.le_refl st.pos)
  refine h.pass (reads_expect _).enters.owns fun _ st₁ h₁ => ?_
  refine h₁.read (owns_itemsBefore _ fun env st hst => ?_) fun arguments st₂ h₂ => ?_
  · have h := hst.stretch (Nat.le_refl st.pos)
    exact h.read (owns_spreadOrAssignment hg) fun e st' h' => .ret (h'.of_eq (by simp))
  · exact h₂.pass (reads_expect _).enters.owns fun _ st₃ h₃ => .ret (h₃.of_eq (by simp))

/-- `new.target` and its like have no functions. -/
theorem gives_metaProperty_from {start : Nat} {object : Ident} {name : String} {cause : SyntaxCause}
    (h : Stretch cs lo st 0) :
    Gives (metaProperty start object name cause) env st fun e st' =>
      Stretch cs lo st' (starts e) := by
  refine h.pass reads_identifierName.enters.owns fun property st₁ h₁ => ?_
  split
  · exact .fail
  · exact .span fun _ _ => .ret h₁

/-- A token that is an expression. -/
theorem gives_token {e : Expr} (h : Stretch cs lo st 0) (he : starts e = 0) :
    Gives (do
      let _ ← advance
      return e) env st fun e st' => Stretch cs lo st' (starts e) :=
  h.advance fun h₁ => .ret (h₁.of_eq he)

/-- A regular expression, which is read again from its slash. -/
theorem gives_regex {p : Punct} (hst : st.IsIn cs) (hp : st.current.token.kind = .punct p) :
    Gives regex env st fun e st' => Stretch cs st.pos st' (starts e) := by
  have h := (hst.stretch (Nat.le_refl st.pos)).again (hst.reread_regex hp) rfl
  refine .step rfl (.step rfl ?_)
  split
  · exact .span fun _ _ => .ret h.next
  · exact .fail
  · exact .fail

/-- The expressions that no operator is needed for. -/
theorem owns_primary (hg : g.Keeps cs) {heritage : Parse Expr} (hh : Owns cs heritage) :
    Owns cs (primary g heritage) := by
  intro env st hst
  have h := hst.stretch (Nat.le_refl st.pos)
  refine .step rfl (.step rfl ?_)
  dsimp only
  -- One case for each kind of token that an expression can begin with.
  split
  · next text hk =>
    refine .step rfl ?_
    split
    · refine h.advance fun h₁ => ?_
      exact .bind ((gives_function_from hg true false h₁.isIn h₁.le).mono fun f st' h' => .ret h')
    split
    · exact h.advance fun h₁ => gives_parenthesized_from hg true h₁.isIn h₁.le
    · exact gives_token h rfl
  · exact gives_token h rfl
  · exact gives_token h rfl
  · exact gives_token h rfl
  · exact gives_token h rfl
  · exact gives_token h rfl
  · exact gives_token h rfl
  · exact gives_token h rfl
  · exact gives_token h rfl
  · next hk => exact gives_regex hst hk
  · next hk => exact gives_regex hst hk
  · exact h.read (owns_template hg) fun t st₁ h₁ => .ret (h₁.of_eq (by simp))
  · exact h.read (owns_template hg) fun t st₁ h₁ => .ret (h₁.of_eq (by simp))
  · exact gives_parenthesized_from hg false hst (Nat.le_refl _)
  · exact owns_arrayLiteral hg env st hst
  · exact owns_objectLiteral hg env st hst
  · exact .bind ((gives_function_from hg false false hst (Nat.le_refl _)).mono fun f st' h' =>
      .ret h')
  · exact .bind ((gives_class hg hh _ false h).mono fun c st' h' => .ret h')
  · refine h.advance fun h₁ => h₁.eat (eats_eat _) (fun h₂ => gives_metaProperty_from h₂) ?_
    exact .ask rfl (fun _ => .span fun _ _ => .ret h₁) fun _ => .unexpected
  · exact .unexpected

/-- What comes after `?.` belongs to the chain in front of it. -/
theorem gives_link (hg : g.Keeps cs) (start : Nat) {e : Expr} (h : Stretch cs lo st (starts e)) :
    Gives (optionalLink g start e) env st fun e st' => Stretch cs lo st' (starts e) := by
  refine .step rfl ?_
  split
  · refine h.read (owns_arguments hg) fun arguments st₁ h₁ => .span fun _ _ => .ret ?_
    exact h₁.of_eq (by simp [add_comm])
  · refine h.read (owns_computedMember hg) fun property st₁ h₁ => .span fun _ _ => .ret ?_
    exact h₁.of_eq (by simp [add_comm])
  · refine h.read owns_memberName fun property st₁ h₁ => .span fun _ _ => .ret ?_
    exact h₁.of_eq (by simp [add_comm])

/-- What follows `new`, if that is another `new` or not. -/
theorem owns_newOr {p p' : Parse Expr} (hp : Owns cs p) (hp' : Owns cs p') :
    Owns cs (do if ← isKey .newKw then p else p') := by
  intro env st hst
  exact .ask rfl (fun _ => hp env st hst) fun _ => hp' env st hst

/-- The arguments of `new` may be missing. -/
theorem owns_newArguments (hg : g.Keeps cs) : Owns cs (do
    if ← isPunct .leftParen then arguments g else return [] : Parse (List Expr)) := by
  intro env st hst
  refine .ask rfl (fun _ => owns_arguments hg env st hst) fun _ => .ret ?_
  exact hst.stretch (Nat.le_refl _)

/-- Expressions with `new`. -/
theorem owns_construct (hg : g.Keeps cs) {heritage : Parse Expr} (hh : Owns cs heritage) :
    Owns cs (construct g heritage) := by
  intro env st hst
  have h := hst.stretch (Nat.le_refl st.pos)
  refine .step rfl (h.pass (reads_expectKey _).enters.owns fun _ st₁ h₁ => ?_)
  refine h₁.eat (eats_eat _) (fun h₂ => gives_metaProperty_from h₂) (.step rfl ?_)
  refine h₁.read (owns_newOr hg.creation (owns_primary hg hh)) fun callee st₂ h₂ => ?_
  refine h₂.rounds (fun e st h => .step rfl ?_) fun callee st₃ h₃ => ?_
  · split
    · refine h.advance fun h₁ => h₁.read owns_memberName fun property st₂ h₂ => ?_
      exact .span fun _ _ => .ret (h₂.of_eq (by simp [add_comm]))
    · refine h.read (owns_computedMember hg) fun property st₁ h₁ => .span fun _ _ => .ret ?_
      exact h₁.of_eq (by simp [add_comm])
    · exact .failHere
    · exact .ret h
  · refine h₃.read (owns_newArguments hg) fun arguments st₄ h₄ => .span fun _ _ => .ret ?_
    exact h₄.of_eq (by simp [add_comm])

/-- Chains of members and calls, with a given reader of class heritage. -/
theorem owns_leftHandSideWith (hg : g.Keeps cs) {heritage : Parse Expr} (hh : Owns cs heritage) :
    Owns cs (leftHandSideWith g heritage) := by
  intro env st hst
  have h := hst.stretch (Nat.le_refl st.pos)
  refine .step rfl ?_
  refine h.read (owns_newOr (owns_construct hg hh) (owns_primary hg hh)) fun e st₁ h₁ => ?_
  -- Every link goes around what has been read so far, and starts where that started.
  refine (h₁.repeated fun e st h => .step rfl ?_).mono fun e st₂ h₂ => h₂.of_eq (by simp)
  split
  · refine h.advance fun h₁ => h₁.read owns_memberName fun property st₂ h₂ => ?_
    exact .span fun _ _ => .ret (h₂.of_eq (by simp [add_comm]))
  · refine h.advance fun h₁ => .bind ((gives_link hg _ (h₁.of_eq ?_)).mono fun e st' h' => .ret ?_)
    · simp
    · exact h'.of_eq (by simp)
  · refine h.read (owns_computedMember hg) fun property st₁ h₁ => .span fun _ _ => .ret ?_
    exact h₁.of_eq (by simp [add_comm])
  · refine h.read (owns_arguments hg) fun arguments st₁ h₁ => .span fun _ _ => .ret ?_
    exact h₁.of_eq (by simp [add_comm])
  · split
    · exact .failHere
    · refine h.read (owns_template hg) fun quasi st₁ h₁ => .span fun _ _ => .ret ?_
      exact h₁.of_eq (by simp [add_comm])
  · split
    · exact .failHere
    · refine h.read (owns_template hg) fun quasi st₁ h₁ => .span fun _ _ => .ret ?_
      exact h₁.of_eq (by simp [add_comm])
  · exact .ret h

/-- Chains of members and calls. -/
theorem owns_leftHandSide (hg : g.Keeps cs) : Owns cs (leftHandSide g) :=
  owns_furtherOn fun _ hh => owns_leftHandSideWith hg hh

/-! ### Operators -/

/-- Updates behind their operand. -/
theorem owns_postfixUpdate (hg : g.Keeps cs) : Owns cs (postfixUpdate g) := by
  intro env st hst
  have h := hst.stretch (Nat.le_refl st.pos)
  refine .step rfl (h.read (owns_leftHandSide hg) fun e st₁ h₁ => .step rfl ?_)
  have h₁ := h₁.of_eq (show starts e = starts e + 0 by simp)
  split
  · refine .step rfl ?_
    split
    · exact .ret h₁
    · refine .bind ((gives_checkUpdateTarget e).mono fun _ st₂ heq => ?_)
      subst heq
      exact h₁.advance fun h₂ => .span fun _ _ => .ret (h₂.of_eq (by simp))
  · exact .ret h₁

/-- Operators in front of their operand. -/
theorem owns_unary (hg : g.Keeps cs) : Owns cs (unary g) := by
  intro env st hst
  have h := hst.stretch (Nat.le_refl st.pos)
  refine .step rfl (.step rfl ?_)
  split
  · refine h.advance fun h₁ => h₁.read hg.operand fun argument st₂ h₂ => .span fun _ _ => .ret ?_
    exact h₂.of_eq (by simp)
  split
  · refine h.advance fun h₁ => h₁.read hg.operand fun argument st₂ h₂ => ?_
    refine .bind ((gives_checkUpdateTarget argument).mono fun _ st₃ heq => ?_)
    subst heq
    exact .span fun _ _ => .ret (h₂.of_eq (by simp))
  refine .step rfl ?_
  split
  · refine h.advance fun h₁ => h₁.read hg.operand fun argument st₂ h₂ => .span fun _ _ => .ret ?_
    exact h₂.of_eq (by simp)
  · exact owns_postfixUpdate hg env st hst

/-- An operation has the functions of its operands. -/
theorem starts_operation (s : Span) (op : InfixOp) (left right : Expr) :
    starts (Expr.operation s op left right) = starts left + starts right := by
  cases op <;> simp [Expr.operation]

/-- Operators between operands, of any precedence. -/
theorem owns_binary (hg : g.Keeps cs) (least : Nat) : Owns cs (binary g least) := by
  -- The right operand binds tighter, so the precedence grows up to its bound.
  induction hn : InfixOp.tightest + 1 - least using Nat.strongRecOn generalizing least with
  | ind n ih =>
    intro env st hst
    rw [binary]
    have h := hst.stretch (Nat.le_refl st.pos)
    refine .step rfl (h.read (owns_unary hg) fun left st₁ h₁ => ?_)
    refine (h₁.repeated fun left st' h => .step rfl ?_).mono fun e st₂ h₂ => h₂.of_eq (by simp)
    split
    · exact .ret h
    · next op hop =>
      split
      · exact .ret h
      · next hleast =>
        refine .step rfl ?_
        split
        · exact .ret h
        · refine h.advance fun h₁ => ?_
          have hle := op.precedence_le
          have hmore {right : Expr} {st₂ : State}
              (h₂ : Stretch cs st.pos st₂ (starts right + (starts left + 0))) (s : Span) :
              Stretch cs st.pos st₂ (starts (Expr.operation s op left right) + 0) :=
            h₂.of_eq (by rw [starts_operation, add_zero, add_zero, add_comm])
          split
          · exact h₁.read hg.power fun right st₂ h₂ => .span fun s _ => .ret (hmore h₂ s)
          · exact h₁.read (ih _ (by omega) _ rfl) fun right st₂ h₂ =>
              .span fun s _ => .ret (hmore h₂ s)

/-- Conditional expressions. -/
theorem owns_conditional (hg : g.Keeps cs) : Owns cs (conditional g) := by
  intro env st hst
  have h := hst.stretch (Nat.le_refl st.pos)
  refine .step rfl (h.read (owns_binary hg 0) fun test st₁ h₁ => ?_)
  refine h₁.eat (eats_eat _) (fun h₂ => ?_) (.ret (h₁.of_eq (by simp)))
  refine h₂.read (hg.assignment.withIn true) fun consequent st₃ h₃ => ?_
  refine h₃.pass (reads_expect _).enters.owns fun _ st₄ h₄ => ?_
  refine h₄.read hg.assignment fun alternate st₅ h₅ => .span fun _ _ => .ret ?_
  exact h₅.of_eq (by simp [add_comm, add_assoc])

/-! ### Assignments -/

/-- Expressions with `yield`, the operand of which may be missing. -/
theorem owns_yieldExpr (hg : g.Keeps cs) : Owns cs (yieldExpr g) := by
  intro env st hst
  have h := hst.stretch (Nat.le_refl st.pos)
  refine .step rfl (h.advance fun h₁ => ?_)
  refine h₁.pass mayRead_delegate.owns fun delegate st₂ h₂ => .step rfl ?_
  split
  · exact .span fun _ _ => .ret h₂
  · refine h₂.read hg.assignment fun argument st₃ h₃ => .span fun _ _ => .ret ?_
    exact h₃.of_eq (by simp)

/-- Assignments that do not start like an arrow function. -/
theorem owns_plainAssignment (hg : g.Keeps cs) : Owns cs (plainAssignment g) := by
  intro env st hst
  have h := hst.stretch (Nat.le_refl st.pos)
  refine .step rfl (h.read (owns_conditional hg) fun left st₁ h₁ => .step rfl ?_)
  split
  · exact .ret (h₁.of_eq (by simp))
  · refine .bind (.ofExcept fun target htarget => ?_)
    have hfunctions : target.functions = left.functions := by
      split at htarget
      · exact functions_toPattern left htarget
      · exact functions_toSimpleTarget htarget
    refine h₁.advance fun h₂ => ?_
    refine h₂.read hg.assignment fun right st₃ h₃ => .span fun _ _ => .ret ?_
    exact h₃.of_eq (by simp [hfunctions, add_comm])

/-- Assignments and arrow functions. -/
theorem owns_assignmentExpr (hg : g.Keeps cs) : Owns cs (assignmentExpr g) := by
  intro env st hst
  have h := hst.stretch (Nat.le_refl st.pos)
  refine .step rfl (.step rfl ?_)
  split
  · exact owns_yieldExpr hg env st hst
  · obtain ⟨b, heq, hsolid⟩ := asks_isAnyName env st
    refine .ask heq (fun hb => .step rfl ?_) fun _ => owns_plainAssignment hg env st hst
    split
    · refine hg.pattern.first hst (Nat.le_refl _) fun param st₁ h₁ => ?_
      exact h₁.advance fun h₂ => gives_arrow hg false (h₂.of_eq (by simp))
    · split
      · split
        · refine hst.enter (hsolid hb) fun h₁ => ?_
          refine h₁.read hg.pattern.owns fun param st₂ h₂ => ?_
          refine h₂.pass (reads_expect _).enters.owns fun _ st₃ h₃ => ?_
          exact gives_arrow hg true (h₃.of_eq (by simp))
        · exact owns_plainAssignment hg env st hst
      · exact owns_plainAssignment hg env st hst

end Grammar

end Espalier
