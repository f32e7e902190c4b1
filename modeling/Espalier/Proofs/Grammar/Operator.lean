import Espalier.Proofs.Grammar.Link

/-!
# Reading operators

What the readers of expressions make of operators in front of, behind and between operands, of
choices and of assignments. Operators between operands are read by a repetition that takes in what
binds tightly enough, so an operand is read as told whatever operators follow it.
-/

namespace Espalier

open Token Parse

/-! ### The tokens of operators -/

/-- The token that an operator in front of an operand is. -/
def UnaryOp.kind : UnaryOp → Kind
  | minus => .punct .minus
  | plus => .punct .plus
  | not => .punct .bang
  | bitNot => .punct .tilde
  | typeof => .keyword .typeofKw
  | void => .keyword .voidKw
  | delete => .keyword .deleteKw

theorem UnaryOp.unaryOp?_kind (op : UnaryOp) : Grammar.unaryOp? op.kind = some op := by
  cases op <;> rfl

/-- The sign that a change by one is. -/
def UpdateOp.sign : UpdateOp → Punct
  | increment => .increment
  | decrement => .decrement

theorem UpdateOp.updateOp?_sign (op : UpdateOp) :
    Grammar.updateOp? (.punct op.sign) = some op := by
  cases op <;> rfl

theorem InfixOp.precedence_pos (op : InfixOp) : 0 < op.precedence := by
  rcases op with op | op <;> cases op <;> decide

/-- The token that an operator between two operands is. -/
def InfixOp.kind (op : InfixOp) : Kind :=
  match op with
  | .binary .isIn => .keyword .inKw
  | .binary .instanceOf => .keyword .instanceofKw
  | op => .punct ((Punct.all.find? (·.operator? == some op)).getD .comma)

/-- Each operator is read back from its token. -/
theorem InfixOp.operator?_kind (op : InfixOp) : op.kind.operator? = some op := by
  rcases op with op | op <;> cases op <;> rfl

theorem InfixOp.isSolid_kind (op : InfixOp) : op.kind.IsSolid := by
  rcases op with op | op <;> cases op <;> trivial

/-- The sign that an assignment is. -/
def AssignOp.sign (op : AssignOp) : Punct :=
  (Punct.all.find? (·.assignOp? == some op)).getD .comma

theorem AssignOp.assignOp?_sign {op : AssignOp} (h : op ∈ AssignOp.all) :
    op.sign.assignOp? = some op := by
  have hall : ∀ op ∈ AssignOp.all, op.sign.assignOp? = some op := by decide
  exact hall op h

theorem AssignOp.grip_sign {op : AssignOp} (h : op ∈ AssignOp.all) :
    (Kind.punct op.sign).grip ≤ 2 := by
  have hall : ∀ op ∈ AssignOp.all, (Kind.punct op.sign).grip ≤ 2 := by decide
  exact hall op h

namespace Token.Kind

variable {k : Kind}

/-- A link starts with a name, a parenthesis or `new`. -/
theorem startsLink_cases (h : k.startsLink = true) :
    (∃ word, k = .name word ∧ isContextual word = false) ∨ k = .punct .leftParen ∨
      k = .keyword .newKw := by
  cases k with
  | name word => exact .inl ⟨word, rfl, by simpa [startsLink] using h⟩
  | punct p => cases p <;> first | exact .inr (.inl rfl) | cases h
  | keyword w => cases w <;> first | exact .inr (.inr rfl) | cases h
  | _ => cases h

/-- None of these is an operator. -/
theorem operators_of_startsLink (h : k.startsLink = true) :
    Grammar.unaryOp? k = none ∧ Grammar.updateOp? k = none := by
  rcases startsLink_cases h with ⟨word, rfl, -⟩ | rfl | rfl <;> exact ⟨rfl, rfl⟩

/-- No contextual word starts a formula. -/
theorem isName_of_startsFormula (h : k.startsFormula = true) {word : String}
    (hword : isContextual word = true) : k.isName word = false := by
  cases k with
  | name text =>
    have htext : isContextual text = false := by
      simpa [startsFormula, startsLink, Grammar.unaryOp?, Grammar.updateOp?] using h
    refine beq_false_of_ne ?_
    rintro rfl
    rw [hword] at htext
    cases htext
  | _ => rfl

theorem isName_of_startsLink (h : k.startsLink = true) {word : String}
    (hword : isContextual word = true) : k.isName word = false :=
  isName_of_startsFormula (by rw [startsFormula, h]; rfl) hword

/-- A token with less grip than `++` is no `++`. -/
theorem updateOp?_of_grip (h : k.grip ≤ 16) : Grammar.updateOp? k = none := by
  cases k with
  | punct p => cases p <;> first | rfl | exact absurd h (by decide)
  | _ => rfl

/-- A grip in front of a power is one in front of what binds less tightly. -/
theorem grip_le_of_le_power (h : k.grip ≤ 15) : k.grip ≤ 14 := by
  have hne : k.grip ≠ 15 := by
    cases k with
    | punct p => cases p <;> decide
    | keyword w => cases w <;> decide
    | templateWhole | templateHead =>
      show 18 ≠ 15
      decide
    | _ =>
      show 0 ≠ 15
      decide
  omega

theorem assignOp?_of_grip (h : k.grip ≤ 1) : k.assignOp? = none := by
  cases k with
  | punct p => cases p <;> first | rfl | exact absurd h (by decide)
  | _ => rfl

end Token.Kind

namespace Grammar

variable {deep : Prop} {d n r : Nat} {env : Env} {st : State} {k : Kind} {us vs ws ks : List Kind}
  {a c e f l : Expr} {es : List Expr} {s : Span}

/-! ### Operators on one operand -/

/-- The tokens are read as the expression where an operand may stand. -/
def ReadsUnary (d : Nat) (us : List Kind) (e : Expr) : Prop :=
  ∀ ⦃deep n env st ks⦄, (n < d → deep) → Ahead env st (us ++ ks) → Stops 16 ks →
    Finds deep (unary (ofDepth n)) env st (Comes st us e)

/-- What starts neither with an operator nor with `await` is read with what is behind it. -/
theorem finds_unary_link {Q : Expr → State → Prop}
    (hops : unaryOp? k = none ∧ updateOp? k = none) (hawait : k.isName "await" = false)
    (hahead : Ahead env st (k :: ks)) (h : Finds deep (postfixUpdate (ofDepth n)) env st Q) :
    Finds deep (unary (ofDepth n)) env st Q := by
  refine .step rfl (.step rfl ?_)
  rw [hahead.kind]
  rw [hops.1]
  dsimp only
  rw [hops.2]
  dsimp only
  rw [hawait]
  exact .step rfl h

/-- What members, calls and templates extend, up to a token that extends it no more. -/
theorem ReadsLink.finds {Q : Expr → State → Prop} (h : ReadsLink d us e) (hdeep : n < d → deep)
    (hahead : Ahead env st (us ++ ks)) (hstops : Stops 17 ks)
    (hrest : ∀ a : Expr, a.SameTree e → Q a (st.past us)) :
    Finds deep (leftHandSide (ofDepth n)) env st Q :=
  .furtherOn fun _ => h hdeep hahead (hstops.mono (by decide)) fun a _ ha =>
    finds_links_end hahead.past hstops (hrest a ha)

/-- A link is an operand where nothing makes an operator of its first token. -/
theorem ReadsLink.operand (h : ReadsLink d (k :: us) e)
    (hops : unaryOp? k = none ∧ updateOp? k = none) (hawait : k.isName "await" = false) :
    ReadsUnary d (k :: us) e := by
  intro deep n env st ks hdeep hahead hstops
  refine finds_unary_link hops hawait hahead (.step rfl (.bind ?_))
  refine h.finds hdeep hahead (hstops.mono (by decide)) fun a ha => .step rfl ?_
  obtain ⟨j, ks', rfl, hj⟩ := hstops
  rw [hahead.past.kind, Kind.updateOp?_of_grip hj]
  exact ⟨ha, rfl⟩

theorem ReadsLink.unary (h : ReadsLink d (k :: us) e) (hk : k.startsLink = true) :
    ReadsUnary d (k :: us) e :=
  h.operand (Kind.operators_of_startsLink hk) (Kind.isName_of_startsLink hk rfl)

/-- A change by one behind what can be changed in place. -/
theorem readsUnary_behind (h : ReadsLink d (k :: us) e) (hk : k.startsLink = true)
    (he : e.IsTarget) (op : UpdateOp) :
    ReadsUnary d (k :: us ++ [.punct op.sign]) (.update s op false e) := by
  intro deep n env st ks hdeep hahead hstops
  have hahead' : Ahead env st (k :: us ++ (.punct op.sign :: ks)) := by simpa using hahead
  refine finds_unary_link (Kind.operators_of_startsLink hk) (Kind.isName_of_startsLink hk rfl)
    hahead' (.step rfl (.bind ?_))
  refine h.finds hdeep hahead' (.cons (by cases op <;> decide)) fun a ha => .step rfl ?_
  rw [hahead'.past.kind, op.updateOp?_sign]
  dsimp only
  refine .step rfl ?_
  -- On a new line the sign would belong to what follows it.
  rw [hahead'.past.newlineBefore (by cases op <;> rfl)]
  refine .step ((ha.isTarget he).checkUpdateTarget _ _) ⟨.update ha op false, ?_⟩
  rw [State.past_append]
  rfl

/-- An operand one level down, where the parser counts the nesting. -/
theorem ReadsUnary.nested (h : ReadsUnary d us e) (hdeep : n < d + 1 → deep)
    (hahead : Ahead env st (us ++ ks)) (hstops : Stops 16 ks) :
    Finds deep (ofDepth n).operand env st (Comes st us e) :=
  .nested (f := fun n => (ofDepth n).operand) rfl (fun _ => rfl) hdeep fun _ hm =>
    h hm hahead hstops

/-- A prefix operator in front of an operand. -/
theorem readsUnary_operator (h : ReadsUnary d us e) (op : UnaryOp) :
    ReadsUnary (d + 1) (op.kind :: us) (.unary s op e) := by
  intro deep n env st ks hdeep hahead hstops
  refine .step rfl (.step rfl ?_)
  rw [hahead.kind, op.unaryOp?_kind]
  refine .step rfl (.bind ((h.nested hdeep hahead.next hstops).mono ?_))
  rintro a _ ⟨ha, rfl⟩
  exact ⟨.unary ha op, rfl⟩

/-- A change by one in front of what can be changed in place. -/
theorem readsUnary_inFront (h : ReadsUnary d us e) (he : e.IsTarget) (op : UpdateOp) :
    ReadsUnary (d + 1) (.punct op.sign :: us) (.update s op true e) := by
  intro deep n env st ks hdeep hahead hstops
  have hunary : unaryOp? (.punct op.sign) = none := by cases op <;> rfl
  refine .step rfl (.step rfl ?_)
  rw [hahead.kind, hunary]
  dsimp only
  rw [op.updateOp?_sign]
  refine .step rfl (.bind ((h.nested hdeep hahead.next hstops).mono ?_))
  rintro a _ ⟨ha, rfl⟩
  exact .step ((ha.isTarget he).checkUpdateTarget _ _) ⟨.update ha op true, rfl⟩

/-! ### Operators between operands -/

/-- A round of `binary`. -/
def binaryRound (g : Grammar) (least start : Nat) (left : Expr) : Parse (Round Expr) := do
  let k ← Parse.kind
  match k.operator? with
  | none => return .last left
  | some op =>
    if _h : op.precedence < least then return .last left
    else if k.isKey .inKw && !(← read).allowIn then return .last left
    else
      let _ ← advance
      let right ← if op.isRightAssociative then g.power else binary g (op.precedence + 1)
      return .again (.operation (← finish start) op left right)

/-- The loop over infix operators, with its round named. -/
theorem binary_eq (g : Grammar) (least : Nat) : binary g least = (do
    let start ← Parse.start
    let left ← unary g
    repeatFrom (binaryRound g least start) left) := by
  rw [binary]
  rfl

/-- The tokens are read as the expression where operands and the operators between them may stand
and nothing is in the way of operators of rank `r`, whatever operators follow. -/
def ReadsBinary (d r : Nat) (us : List Kind) (e : Expr) : Prop :=
  ∀ ⦃deep n least env st ks Q⦄, least + 3 ≤ r → (n < d → deep) → Ahead env st (us ++ ks) →
    Stops r ks →
    (∀ a start, a.SameTree e →
      Finds deep (repeatFrom (binaryRound (ofDepth n) least start) a) env (st.past us) Q) →
    Finds deep (binary (ofDepth n) least) env st Q

/-- An operand alone is a chain of no operators, as tight as they come. -/
theorem ReadsUnary.binary (h : ReadsUnary d us e) (hr : r ≤ 16) : ReadsBinary d r us e := by
  intro deep n least env st ks Q hleast hdeep hahead hstops hrest
  rw [binary_eq]
  refine .step rfl (.bind ((h hdeep hahead (hstops.mono hr)).mono ?_))
  rintro a _ ⟨ha, rfl⟩
  exact hrest a _ ha

/-- The repetition ends in front of what does not bind tightly enough. -/
theorem finds_binaryRounds_end {least start : Nat} {Q : Expr → State → Prop}
    (hahead : Ahead env st ks) (hstops : Stops r ks) (hr : r < max (least + 3) 4) (h : Q a st) :
    Finds deep (repeatFrom (binaryRound (ofDepth n) least start) a) env st Q := by
  obtain ⟨k, ks', rfl, hk⟩ := hstops
  refine .repeat (.step rfl ?_)
  rw [hahead.kind]
  cases hop : k.operator? with
  | none => exact h
  | some op =>
    have hle := Kind.le_grip_of_operator? hop
    have hpos := op.precedence_pos
    have hlt : op.precedence < least := by omega
    dsimp only
    rw [dif_pos hlt]
    exact h

/-- What is read up to a token that does not bind tightly enough. -/
theorem ReadsBinary.finds {least m : Nat} (h : ReadsBinary d r us e) (hleast : least + 3 ≤ r)
    (hdeep : n < d → deep) (hahead : Ahead env st (us ++ ks)) (hstops : Stops m ks)
    (hm : m < max (least + 3) 4) :
    Finds deep (Grammar.binary (ofDepth n) least) env st (Comes st us e) :=
  h hleast hdeep hahead (hstops.mono (by omega)) fun _ _ ha =>
    finds_binaryRounds_end hahead.past hstops hm ⟨ha, rfl⟩

/-- The tokens are read as the right operand of an operator. -/
def ReadsRight (d : Nat) (op : InfixOp) (us : List Kind) (e : Expr) : Prop :=
  ∀ ⦃deep n env st ks⦄, (n < d → deep) → Ahead env st (us ++ ks) → Stops (op.precedence + 3) ks →
    Finds deep (if op.isRightAssociative then (ofDepth n).power
      else binary (ofDepth n) (op.precedence + 1)) env st (Comes st us e)

/-- A chain tight enough is the right operand of an operator that groups to the left. -/
theorem ReadsBinary.right {op : InfixOp} (h : ReadsBinary d r us e)
    (hop : op.isRightAssociative = false) (hr : op.precedence + 4 ≤ r) : ReadsRight d op us e := by
  intro deep n env st ks hdeep hahead hstops
  rw [hop]
  exact h.finds hr hdeep hahead hstops (by omega)

/-- The right operand of a power may be another power. -/
theorem ReadsBinary.power (h : ReadsBinary d 15 us e) :
    ReadsRight (d + 1) (.binary .pow) us e := by
  intro deep n env st ks hdeep hahead hstops
  refine .nested (f := fun n => (ofDepth n).power) rfl (fun _ => rfl) hdeep fun m hm => ?_
  obtain ⟨k, ks', rfl, hk⟩ := hstops
  -- No token has a grip of 15, so what follows has less than this operand asks for.
  exact h.finds (Nat.le_refl _) hm hahead (.cons (Kind.grip_le_of_le_power hk)) (by decide)

/-- A chain goes on with an operator it does not swallow and a right operand. -/
theorem readsBinary_operator {op : InfixOp} (hl : ReadsBinary d r us l) (hr : op.kind.grip ≤ r)
    (he : ReadsRight d op vs e) :
    ReadsBinary d (op.precedence + 3) (us ++ op.kind :: vs) (.operation s op l e) := by
  intro deep n least env st ks Q hleast hdeep hahead hstops hrest
  rw [List.append_assoc] at hahead
  have hgoes : GoesOn env (st.past us) ((st.past us).past (op.kind :: vs)) :=
    hahead.past.goesOn op.isSolid_kind
  have hle := Kind.le_grip_of_operator? op.operator?_kind
  refine hl (by omega) hdeep hahead (.cons hr) fun a start ha => .repeat (.step rfl ?_)
  rw [hahead.past.kind, op.operator?_kind]
  dsimp only
  -- The operator binds tightly enough to be taken in, and `in` is an operator here.
  rw [dif_neg (by omega)]
  refine .step rfl ?_
  rw [hahead.past.isOperator]
  have hright := he hdeep hahead.past.next hstops
  refine .step rfl ?_
  cases hassoc : op.isRightAssociative <;>
    · rw [hassoc] at hright
      refine .bind (hright.mono ?_)
      rintro b _ ⟨hb, rfl⟩
      refine ⟨hgoes, ?_⟩
      show Finds deep _ env ((st.past us).past (op.kind :: vs)) Q
      rw [← State.past_append]
      exact hrest _ start (.operation ha hb op)

/-! ### Choices -/

/-- The tokens are read as the expression where a choice may stand, in front of a grip of at most
`r`. -/
def ReadsConditional (d r : Nat) (us : List Kind) (e : Expr) : Prop :=
  ∀ ⦃deep n env st ks⦄, (n < d → deep) → Ahead env st (us ++ ks) → Stops r ks →
    Finds deep (conditional (ofDepth n)) env st (Comes st us e)

/-- A chain without `?` behind it is a conditional. -/
theorem ReadsBinary.conditional (h : ReadsBinary d r us e) (hr : 3 ≤ r) :
    ReadsConditional d 2 us e := by
  intro deep n env st ks hdeep hahead hstops
  refine .step rfl (.bind ((h.finds hr hdeep hahead hstops (by decide)).mono ?_))
  rintro a _ ⟨ha, rfl⟩
  obtain ⟨k, ks', rfl, hk⟩ := hstops
  exact .no (hahead.past.eat_no (Kind.isPunct_eq_false hk (by decide))) ⟨ha, rfl⟩

/-- A chain, two assignments, and the signs between them. -/
theorem readsConditional (ht : ReadsBinary d r us a) (hr : 3 ≤ r) (hc : ReadsAssignment d vs c)
    (he : ReadsAssignment d ws e) : ReadsConditional (d + 1) 1
      (us ++ .punct .question :: vs ++ .punct .colon :: ws) (.conditional s a c e) := by
  intro deep n env st ks hdeep hahead hstops
  have hahead' : Ahead env st
      (us ++ (.punct .question :: (vs ++ (.punct .colon :: (ws ++ ks))))) := by simpa using hahead
  refine .step rfl (.bind ((ht.finds hr (fun hn => hdeep (Nat.lt_succ_of_lt hn)) hahead'
    (m := 3) (.cons (by decide)) (by decide)).mono ?_))
  rintro b _ ⟨hb, rfl⟩
  have hquestion := hahead'.past
  refine .yes (hquestion.eat rfl) (.bind (.withIn ?_))
  refine (hc.nested hdeep hquestion.next.withIn (.cons (by decide))).mono ?_
  rintro c' _ ⟨hc', rfl⟩
  have hcolon := hquestion.next.past
  refine .step hcolon.expect (.bind ((he.nested hdeep hcolon.next hstops).mono ?_))
  rintro e' _ ⟨he', rfl⟩
  refine ⟨.conditional hb hc' he', ?_⟩
  rw [State.past_append, State.past_append]
  rfl

/-! ### Assignments -/

theorem ReadsConditional.mono (h : ReadsConditional d 2 us e) : ReadsConditional d 1 us e := by
  intro deep n env st ks hdeep hahead hstops
  exact h hdeep hahead (hstops.mono (by decide))

/-- What starts with neither `yield` nor `async`, and has no arrow as its second token, is no
`yield` and no arrow function. -/
theorem finds_plainAssignment {Q : Expr → State → Prop} (hahead : Ahead env st (k :: ks))
    (hyield : k.isName "yield" = false) (hasync : k.isName "async" = false)
    (hnext : (scan st.current.after).token.isPunct .arrow = false)
    (h : Finds deep (plainAssignment (ofDepth n)) env st Q) :
    Finds deep (assignmentExpr (ofDepth n)) env st Q := by
  have hname (word : String) : st.current.token.isName word = k.isName word := by
    show st.current.token.kind.isName word = _
    rw [hahead.kind]
  refine .step rfl (.step rfl ?_)
  rw [hname, hyield, Bool.false_and]
  obtain ⟨b, hb, -⟩ := asks_isAnyName env st
  -- a name is looked at once more, for the arrow behind it
  cases b with
  | false => exact .no hb h
  | true =>
    refine .yes hb (.step rfl ?_)
    rw [hnext, Bool.false_and, if_neg Bool.false_ne_true]
    split
    · rw [hname, hasync, Bool.false_and]
      exact h
    · exact h

/-- What starts a formula starts neither a `yield` nor an arrow function. -/
theorem finds_assignmentExpr {Q : Expr → State → Prop} (opens : Opens us)
    (hahead : Ahead env st (us ++ ks)) (hstops : Stops 18 ks)
    (h : Finds deep (plainAssignment (ofDepth n)) env st Q) :
    Finds deep (assignmentExpr (ofDepth n)) env st Q := by
  have hnext : (scan st.current.after).token.isPunct .arrow = false := by
    obtain ⟨j, ks', rfl, hj⟩ := hstops
    exact opens.peek_isPunct (.inr rfl) hahead (Kind.isPunct_eq_false hj (by decide))
  obtain ⟨k, us', rfl, hk, -⟩ := opens
  exact finds_plainAssignment hahead (Kind.isName_of_startsFormula hk rfl)
    (Kind.isName_of_startsFormula hk rfl) hnext h

/-- Where no assignment follows, nothing is assigned. -/
theorem ReadsConditional.finds (h : ReadsConditional d 1 us e) (hdeep : n < d → deep)
    (hahead : Ahead env st (us ++ ks)) (hstops : Stops 1 ks) :
    Finds deep (plainAssignment (ofDepth n)) env st (Comes st us e) := by
  refine .step rfl (.bind ((h hdeep hahead hstops).mono ?_))
  rintro a _ ⟨ha, rfl⟩
  obtain ⟨k, ks', rfl, hk⟩ := hstops
  refine .step rfl ?_
  rw [hahead.past.kind, Kind.assignOp?_of_grip hk]
  exact ⟨ha, rfl⟩

theorem ReadsConditional.assignment (h : ReadsConditional d 1 us e) (opens : Opens us) :
    ReadsAssignment d us e := fun _ _ _ _ _ hdeep hahead hstops =>
  finds_assignmentExpr opens hahead (hstops.mono (by decide)) (h.finds hdeep hahead hstops)

/-- A target, an assignment operator and what is assigned. -/
theorem readsAssignment {op : AssignOp} {p : Pattern} (hop : op ∈ AssignOp.all)
    (hl : ReadsConditional d 2 us l) (opens : Opens us) (htarget : l.IsTarget)
    (hp : p.tree = l.tree) (he : ReadsAssignment d vs e) :
    ReadsAssignment (d + 1) (us ++ .punct op.sign :: vs) (.assign s op p e) := by
  intro deep n env st ks hdeep hahead hstops
  rw [List.append_assoc] at hahead
  have hsign : (Kind.punct op.sign).assignOp? = some op := AssignOp.assignOp?_sign hop
  have hgrip : (Kind.punct op.sign).grip ≤ 2 := AssignOp.grip_sign hop
  refine finds_assignmentExpr opens hahead (.cons (Nat.le_trans hgrip (by decide)))
    (.step rfl (.bind ?_))
  refine (hl (fun hn => hdeep (Nat.lt_succ_of_lt hn)) hahead (.cons hgrip)).mono ?_
  rintro a _ ⟨ha, rfl⟩
  -- What has been read as an expression is what is assigned to.
  obtain ⟨q, hq, hq', htree⟩ := (ha.isTarget htarget).toPattern
  have hpattern : (if op = .plain then a.toPattern else a.toSimpleTarget) = .ok q := by
    rw [hq, hq', ite_self]
  refine .step rfl ?_
  rw [hahead.past.kind, hsign]
  dsimp only
  rw [hpattern]
  refine .step rfl (.step rfl (.bind ((he.nested hdeep hahead.past.next hstops).mono ?_)))
  rintro b _ ⟨hb, rfl⟩
  have hleft : q.tree.withoutSpans = p.tree.withoutSpans := by
    rw [htree, hp]
    exact ha
  refine ⟨.assign hleft hb op, ?_⟩
  rw [State.past_append]
  rfl

end Grammar

end Espalier
