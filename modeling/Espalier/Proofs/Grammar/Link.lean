import Espalier.Proofs.Grammar.Finding
import Espalier.Proofs.Node.SameTree

/-!
# Reading what binds tightest

What the readers of expressions make of names, parentheses, members, calls and creations. How far
an expression goes is settled by the token behind it: every kind of token has a `grip` on the
expression in front of it, and an expression is read as told where the token behind it does not have
a stronger grip than its own parts have on each other. Members and calls are read by repetitions, so
what is known there is known from any place in the repetition on.
-/

namespace Espalier

open Token Parse

namespace Expr

/-- What an expression is assigned to as. -/
theorem IsTarget.toPattern {e : Expr} (h : e.IsTarget) :
    ∃ p, e.toPattern = .ok p ∧ e.toSimpleTarget = .ok p ∧ p.tree = e.tree := by
  rcases h with ⟨i, rfl⟩ | ⟨s, o, p, rfl, ho⟩
  · exact ⟨.ident i, rfl, rfl, rfl⟩
  · have hchain : (Expr.member s o p false).isOptionalChain = false := ho
    refine ⟨.target (.member s o p false), ?_, ?_, rfl⟩ <;>
      simp [Expr.toPattern, Expr.toSimpleTarget, hchain]

theorem IsTarget.checkUpdateTarget {e : Expr} (h : e.IsTarget) (env : Env) (st : State) :
    Grammar.checkUpdateTarget e env st = .ok ((), st) := by
  rcases h with ⟨i, rfl⟩ | ⟨s, o, p, rfl, ho⟩
  · rfl
  · have hchain : (Expr.member s o p false).isOptionalChain = false := ho
    simp only [Grammar.checkUpdateTarget, hchain]
    rfl

end Expr

/-! ### How tokens hold on to what is in front of them -/

namespace Token.Kind

/-- How strong a hold a token has on the expression in front of it. A token without any hold ends
the expression, whatever that is. -/
def grip (k : Kind) : Nat :=
  match k with
  | .punct .arrow => 19
  | .punct .dot | .punct .questionDot | .punct .leftBracket | .punct .leftParen
  | .templateWhole _ | .templateHead _ => 18
  | .punct .increment | .punct .decrement => 17
  | .punct .power => 16
  | .punct .question => 3
  | .punct .comma => 1
  | k =>
    match k.operator? with
    | some op => op.precedence + 3
    | none => if k.assignOp?.isSome then 2 else 0

/-- Names with a meaning of their own in some places. -/
def isContextual (word : String) : Bool := ["async", "let", "await", "yield"].contains word

/-- The tokens that start a name, what is between parentheses, or a creation. -/
def startsLink : Kind → Bool
  | .name word => !isContextual word
  | .punct .leftParen | .keyword .newKw => true
  | _ => false

/-- The tokens that start a formula. -/
def startsFormula (k : Kind) : Bool :=
  k.startsLink || (Grammar.unaryOp? k).isSome || (Grammar.updateOp? k).isSome

variable {k : Kind} {op : InfixOp}

/-- The grip of an operator is what it needs of its left operand. -/
theorem grip_of_operator? (h : k.operator? = some op) :
    k.grip = if op.isRightAssociative then 16 else op.precedence + 3 := by
  cases k with
  | punct p => cases p <;> first | cases h; decide | cases h
  | keyword w => cases w <;> first | cases h; decide | cases h
  | _ => cases h

theorem le_grip_of_operator? (h : k.operator? = some op) : op.precedence + 3 ≤ k.grip := by
  have hle : op.precedence ≤ 12 := op.precedence_le
  rw [grip_of_operator? h]
  split <;> omega

/-- A punctuator with a tighter grip than allowed is not there. -/
theorem isPunct_eq_false {p : Punct} {r : Nat} (h : k.grip ≤ r) (hp : r < (punct p).grip) :
    k.isPunct p = false := by
  cases k with
  | punct q =>
    refine beq_false_of_ne ?_
    rintro rfl
    omega
  | _ => rfl

end Token.Kind

namespace Grammar

variable {deep : Prop} {d n r : Nat} {env : Env} {st : State} {k : Kind} {us vs ks : List Kind}
  {e : Expr} {es : List Expr}

/-- The token ahead has at most the given grip. -/
def Stops (r : Nat) (ks : List Kind) : Prop := ∃ k ks', ks = k :: ks' ∧ k.grip ≤ r

theorem Stops.mono {r' : Nat} (h : Stops r ks) (hle : r ≤ r') : Stops r' ks := by
  obtain ⟨k, ks', rfl, hk⟩ := h
  exact ⟨k, ks', rfl, Nat.le_trans hk hle⟩

theorem Stops.cons {r : Nat} (h : k.grip ≤ r) : Stops r (k :: ks) := ⟨k, ks, rfl, h⟩

/-- An expression has been read up to spans, and the given tokens have been left behind. -/
def Comes (st : State) (us : List Kind) (e : Expr) (a : Expr) (st' : State) : Prop :=
  a.SameTree e ∧ st' = st.past us

/-- The given tokens start a formula, and not what only looks like one at its first token. -/
def Opens (us : List Kind) : Prop :=
  ∃ k us', us = k :: us' ∧ k.startsFormula = true ∧
    ∀ j ∈ us'.head?, j.isPunct .colon = false ∧ j.isPunct .arrow = false

/-! ### Rows of expressions -/

/-- The tokens are read as the expression where an assignment may stand. -/
def ReadsAssignment (d : Nat) (us : List Kind) (e : Expr) : Prop :=
  ∀ ⦃deep n env st ks⦄, (n < d → deep) → Ahead env st (us ++ ks) → Stops 1 ks →
    Finds deep (assignmentExpr (ofDepth n)) env st (Comes st us e)

/-- The tokens are those of some expressions with commas between them. -/
inductive Row (d : Nat) : List Expr → List Kind → Prop
  | one {e : Expr} {us : List Kind} (opens : Opens us) (reads : ReadsAssignment d us e) :
    Row d [e] us
  | more {e : Expr} {es : List Expr} {us vs : List Kind} (opens : Opens us)
    (reads : ReadsAssignment d us e) (rest : Row d es vs) :
    Row d (e :: es) (us ++ .punct .comma :: vs)

/-- A row is the expression: its only item, or the sequence of its items. -/
def Spells (es : List Expr) (e : Expr) : Prop :=
  es = [e] ∨ ∃ s, e = .sequence s es ∧ 2 ≤ es.length

/-- An assignment one level down, where the parser counts the nesting. -/
theorem ReadsAssignment.nested (h : ReadsAssignment d us e) (hdeep : n < d + 1 → deep)
    (hahead : Ahead env st (us ++ ks)) (hstops : Stops 1 ks) :
    Finds deep (ofDepth n).assignment env st (Comes st us e) :=
  .nested (f := fun n => (ofDepth n).assignment) rfl (fun _ => rfl) hdeep fun _ hm =>
    h hm hahead hstops

/-- What a formula opens with is no punctuator that cannot start one. -/
theorem Opens.isPunct (h : Opens us) {p : Punct} (hp : (Kind.punct p).startsFormula = false)
    (hahead : Ahead env st (us ++ ks)) : Parse.isPunct p env st = .ok (false, st) := by
  obtain ⟨k, us', rfl, hk, -⟩ := h
  rw [hahead.isPunct]
  cases hkp : k.isPunct p with
  | false => rfl
  | true =>
    cases k with
    | punct q =>
      rw [eq_of_beq hkp, hp] at hk
      cases hk
    | _ => cases hkp

theorem Opens.eat (h : Opens us) {p : Punct} (hp : (Kind.punct p).startsFormula = false)
    (hahead : Ahead env st (us ++ ks)) : Parse.eat p env st = .ok (false, st) := by
  rw [eat_eq, h.isPunct hp hahead]
  rfl

/-- The token behind the first one is neither a colon nor an arrow. -/
theorem Opens.peek_isPunct (h : Opens us) {p : Punct} (hp : p = .colon ∨ p = .arrow)
    (hahead : Ahead env st (us ++ k :: ks)) (hk : k.isPunct p = false) :
    (scan st.current.after).token.isPunct p = false := by
  obtain ⟨i, us', rfl, -, hsecond⟩ := h
  show (scan st.current.after).token.kind.isPunct p = false
  cases us' with
  | nil =>
    rw [Ahead.peek_kind hahead]
    exact hk
  | cons j us' =>
    rw [Ahead.peek_kind hahead]
    rcases hp with rfl | rfl
    · exact (hsecond j rfl).1
    · exact (hsecond j rfl).2

theorem Opens.isSolid (h : Opens us) : ∃ k us', us = k :: us' ∧ k.IsSolid := by
  obtain ⟨k, us', rfl, hk, -⟩ := h
  refine ⟨k, us', rfl, ?_⟩
  cases k with
  | eof | invalid => cases hk
  | _ => trivial

/-- A repetition that reads a row up to the sign that closes it. -/
theorem finds_row {σ : Type} {round : σ → Parse (Round σ)} {f : Expr → σ → σ} {close : Punct}
    (hclose : (Kind.punct close).grip ≤ 0)
    (hround : ∀ {us e s env st} {k : Kind} {ks}, Opens us → ReadsAssignment d us e →
      Ahead env st (us ++ k :: ks) → k.grip ≤ 1 → Finds deep (round s) env st fun r st' =>
        ∃ a : Expr, a.SameTree e ∧
          if k.isPunct .comma then r = .again (f a s) ∧ st' = st.past (us ++ [k])
          else r = .last (f a s) ∧ st' = st.past us)
    (h : Row d es us) (s : σ) (hahead : Ahead env st (us ++ .punct close :: ks)) :
    Finds deep (repeatFrom round s) env st fun s' st' => ∃ as, List.Forall₂ Expr.SameTree as es ∧
      s' = as.foldl (fun s a => f a s) s ∧ st' = st.past us := by
  -- On the row: a comma behind an item starts the next round, the closing sign ends the last one.
  induction h generalizing s st with
  | @one e us opens reads =>
    refine .repeat ((hround opens reads hahead (Nat.le_trans hclose (Nat.zero_le 1))).mono ?_)
    rintro r st' ⟨a, ha, hr⟩
    have hcomma : (Kind.punct close).isPunct .comma = false :=
      Kind.isPunct_eq_false hclose (by decide)
    rw [hcomma] at hr
    obtain ⟨rfl, rfl⟩ := hr
    exact ⟨[a], .cons ha .nil, rfl, rfl⟩
  | @more e es us vs opens reads rest ih =>
    rw [List.append_assoc, List.cons_append] at hahead
    refine .repeat ((hround opens reads hahead (by decide)).mono ?_)
    rintro r st' ⟨a, ha, rfl, rfl⟩
    have happend : us ++ .punct .comma :: (vs ++ .punct close :: ks) =
        (us ++ [.punct .comma]) ++ (vs ++ .punct close :: ks) := by simp
    rw [happend] at hahead
    refine ⟨?_, (ih (f a s) hahead.past).mono ?_⟩
    · obtain ⟨k, us', rfl, hk⟩ := opens.isSolid
      exact hahead.goesOn hk
    · rintro s' st' ⟨as, has, rfl, rfl⟩
      refine ⟨a :: as, .cons ha has, rfl, ?_⟩
      rw [← State.past_append, List.append_assoc]
      rfl

/-! ### Expressions divided by commas -/

/-- A round of `itemsAfterCommas`. -/
def commaRound (item : Parse Expr) (items : List Expr) : Parse (Round (List Expr)) := do
  if ← Parse.eat .comma then return .again ((← item) :: items) else return .last items

/-- The rounds behind a comma read the expressions of a sequence. -/
theorem finds_commaRounds (h : Row d es us) (items : List Expr) (hdeep : n < d + 1 → deep)
    (hahead : Ahead env st (.punct .comma :: us ++ ks)) (hstops : Stops 0 ks) :
    Finds deep (repeatFrom (commaRound (ofDepth n).assignment) items) env st fun items' st' =>
      ∃ as, List.Forall₂ Expr.SameTree as es ∧ items' = as.reverse ++ items ∧
        st' = st.past (.punct .comma :: us) := by
  -- the items come out in reverse, behind those read before
  induction h generalizing items st with
  | @one e us opens reads =>
    refine .repeat (.yes (hahead.eat rfl) ?_)
    refine .bind ((reads.nested hdeep hahead.next (hstops.mono (Nat.zero_le 1))).mono ?_)
    rintro a _ ⟨ha, rfl⟩
    refine ⟨hahead.goesOn trivial, .repeat ?_⟩
    obtain ⟨k, ks', rfl, hk⟩ := hstops
    refine .no (hahead.past.eat_no (Kind.isPunct_eq_false hk (by decide))) ?_
    exact ⟨[a], .cons ha .nil, rfl, rfl⟩
  | @more e es us vs opens reads rest ih =>
    have happend : .punct .comma :: (us ++ .punct .comma :: vs) ++ ks =
        (.punct .comma :: us) ++ (.punct .comma :: vs ++ ks) := by simp
    rw [happend] at hahead
    refine .repeat (.yes (hahead.eat rfl) ?_)
    refine .bind ((reads.nested hdeep hahead.next (.cons (by decide))).mono ?_)
    rintro a _ ⟨ha, rfl⟩
    refine ⟨hahead.goesOn trivial, (ih (a :: items) hahead.past).mono ?_⟩
    rintro items' _ ⟨as, has, rfl, rfl⟩
    refine ⟨a :: as, .cons ha has, by simp, ?_⟩
    show (st.past (.punct .comma :: us)).past (.punct .comma :: vs) = _
    rw [← State.past_append]
    rfl

/-- Where expressions divided by commas may stand, a row is read as the expression that it
spells. -/
theorem finds_expression (h : Row d es us) (he : Spells es e) (hdeep : n < d + 1 → deep)
    (hahead : Ahead env st (us ++ ks)) (hstops : Stops 0 ks) :
    Finds deep (expression (ofDepth n)) env st (Comes st us e) := by
  cases h with
  | @one e' us opens reads =>
    refine .bind ((reads.nested hdeep hahead (hstops.mono (Nat.zero_le 1))).mono ?_)
    rintro a _ ⟨ha, rfl⟩
    obtain ⟨k, ks', rfl, hk⟩ := hstops
    refine .step (hahead.past.isPunct _) ?_
    rw [Kind.isPunct_eq_false hk (by decide)]
    -- one item is the expression itself
    rcases he with he | ⟨s, rfl, hlength⟩
    · cases he
      exact ⟨ha, rfl⟩
    · exact absurd hlength (by simp)
  | @more e' es us vs opens reads rest =>
    rw [List.append_assoc] at hahead
    refine .bind ((reads.nested hdeep hahead (.cons (by decide))).mono ?_)
    rintro a _ ⟨ha, rfl⟩
    refine .yes (hahead.past.isPunct _) ?_
    -- with more items, a sequence is made of them
    refine .bind (.bind ((finds_commaRounds rest [a] hdeep hahead.past hstops).mono ?_))
    rintro items _ ⟨as, has, rfl, rfl⟩
    rcases he with he | ⟨s, rfl, -⟩
    · cases he
      cases rest
    · refine ⟨?_, (State.past_append ..).symm⟩
      rw [List.reverse_append, List.reverse_reverse]
      exact .sequence (.cons ha has)

/-! ### Parentheses and arguments -/

/-- A round of `parenthesized`. -/
def parenRound (g : Grammar) :
    List Expr × Option Pattern → Parse (Round (List Expr × Option Pattern))
  | (items, rest) => do
    if ← Parse.isPunct .rightParen then return .last (items, rest)
    else
      let itemStart ← Parse.start
      if ← Parse.eat .ellipsis then return .last (items, some (← restPattern g itemStart))
      else
        let item ← g.assignment
        if ← Parse.eat .comma then return .again (item :: items, rest)
        else return .last (item :: items, rest)

/-- A round of `itemsBefore`, for arguments. -/
def argumentRound (g : Grammar) (items : List Expr) : Parse (Round (List Expr)) := do
  if ← Parse.isPunct .rightParen then return .last items
  else
    let (a, isLast) ← (do return (← spreadOrAssignment g, false) : Parse (Expr × Bool))
    if isLast then return .last (a :: items)
    else if ← Parse.eat .comma then return .again (a :: items)
    else return .last (a :: items)

/-- The end of a round, once the item has been read. -/
theorem finds_comma {σ : Type} {s : σ} (hahead : Ahead env (st.past us) (k :: ks)) :
    Finds deep (do if ← Parse.eat .comma then return Round.again s else return .last s) env
      (st.past us) fun r st' =>
        if k.isPunct .comma then r = .again s ∧ st' = st.past (us ++ [k])
        else r = .last s ∧ st' = st.past us := by
  cases hk : k.isPunct .comma with
  | true =>
    refine .yes (hahead.eat hk) ⟨rfl, ?_⟩
    rw [State.past_append]
    rfl
  | false => exact .no (hahead.eat_no hk) ⟨rfl, rfl⟩

/-- The items between parentheses, none of them a rest. -/
theorem finds_parenRounds (h : Row d es us) (hdeep : n < d + 1 → deep)
    (hahead : Ahead env st (us ++ .punct .rightParen :: ks)) :
    Finds deep (repeatFrom (parenRound (ofDepth n)) ([], none)) env st fun x st' =>
      ∃ as, List.Forall₂ Expr.SameTree as es ∧ x = (as.reverse, none) ∧ st' = st.past us := by
  refine (finds_row (f := fun a x => (a :: x.1, x.2)) (by decide) ?_ h ([], none) hahead).mono ?_
  · intro us e s env st k ks opens reads hahead hk
    -- neither `)` nor `...` opens a formula, so an assignment is read
    refine .no (opens.isPunct rfl hahead) (.step rfl (.no (opens.eat rfl hahead) ?_))
    refine .bind ((reads.nested hdeep hahead (.cons hk)).mono ?_)
    rintro a _ ⟨ha, rfl⟩
    exact (finds_comma hahead.past).mono fun r st' hr => ⟨a, ha, hr⟩
  · rintro x _ ⟨as, has, rfl, rfl⟩
    refine ⟨as, has, ?_, rfl⟩
    have hfold : ∀ (items acc : List Expr) (rest : Option Pattern),
        items.foldl (fun x a => (a :: x.1, x.2)) (acc, rest) = (items.reverse ++ acc, rest) := by
      intro items
      induction items with
      | nil => exact fun _ _ => rfl
      | cons a items ih =>
        intro acc rest
        rw [List.foldl_cons, ih, List.reverse_cons, List.append_assoc]
        rfl
    rw [hfold, List.append_nil]

theorem finds_spreadOrAssignment (opens : Opens us) (reads : ReadsAssignment d us e)
    (hdeep : n < d + 1 → deep) (hahead : Ahead env st (us ++ ks)) (hstops : Stops 1 ks) :
    Finds deep (spreadOrAssignment (ofDepth n)) env st (Comes st us e) :=
  .step rfl (.no (opens.eat rfl hahead) (.withIn (reads.nested hdeep hahead.withIn hstops)))

/-- The tokens are those of some arguments with commas between them. -/
def IsArguments (d : Nat) (es : List Expr) (us : List Kind) : Prop :=
  es = [] ∧ us = [] ∨ Row d es us

/-- The rounds of an argument list read up to its parenthesis. -/
theorem finds_argumentRounds (h : Row d es us) (hdeep : n < d + 1 → deep)
    (hahead : Ahead env st (us ++ .punct .rightParen :: ks)) :
    Finds deep (repeatFrom (argumentRound (ofDepth n)) []) env st fun items st' =>
      ∃ as, List.Forall₂ Expr.SameTree as es ∧ items = as.reverse ∧ st' = st.past us := by
  refine (finds_row (f := List.cons) (by decide) ?_ h [] hahead).mono ?_
  · intro us e s env st k ks opens reads hahead hk
    refine .no (opens.isPunct rfl hahead) (.bind (.bind ?_))
    refine (finds_spreadOrAssignment opens reads hdeep hahead (.cons hk)).mono ?_
    rintro a _ ⟨ha, rfl⟩
    exact (finds_comma hahead.past).mono fun r st' hr => ⟨a, ha, hr⟩
  · rintro items _ ⟨as, has, rfl, rfl⟩
    exact ⟨as, has, by simp, rfl⟩

/-- Arguments are read up to the closing parenthesis. -/
theorem finds_arguments (h : IsArguments d es us) (hdeep : n < d + 1 → deep)
    (hahead : Ahead env st (.punct .leftParen :: us ++ .punct .rightParen :: ks)) :
    Finds deep (arguments (ofDepth n)) env st fun as st' =>
      List.Forall₂ Expr.SameTree as es ∧
        st' = st.past (.punct .leftParen :: us ++ [.punct .rightParen]) := by
  have hitems : Finds deep (itemsBefore .rightParen
      (do return (← spreadOrAssignment (ofDepth n), false))) env st.next fun as st' =>
        List.Forall₂ Expr.SameTree as es ∧ st' = st.next.past us := by
    rcases h with ⟨rfl, rfl⟩ | h
    · exact .bind (.repeat (.yes (hahead.next.isPunct _) (.ret ⟨.nil, rfl⟩)))
    · refine .bind ((finds_argumentRounds h hdeep hahead.next).mono ?_)
      rintro items _ ⟨as, has, rfl, rfl⟩
      rw [List.reverse_reverse]
      exact .ret ⟨has, rfl⟩
  refine .step hahead.expect (.bind (hitems.mono ?_))
  rintro as _ ⟨has, rfl⟩
  refine .step hahead.next.past.expect ⟨has, ?_⟩
  rw [State.past_append]
  rfl

/-- Between parentheses a row is read as the expression that it spells. -/
theorem finds_parenthesized (h : Row d es us) (he : Spells es e) (hdeep : n < d + 1 → deep)
    (hahead : Ahead env st (.punct .leftParen :: us ++ .punct .rightParen :: ks))
    (hstops : Stops 18 ks) (start : Nat) :
    Finds deep (parenthesized (ofDepth n) start false) env st
      (Comes st (.punct .leftParen :: us ++ [.punct .rightParen]) e) := by
  refine .step hahead.expect (.bind (.withIn ?_))
  refine (finds_parenRounds h hdeep hahead.next.withIn).mono ?_
  rintro x _ ⟨as, has, rfl, rfl⟩
  refine .step hahead.next.past.expect ?_
  obtain ⟨k, ks', rfl, hk⟩ := hstops
  have harrow : k.isPunct .arrow = false := Kind.isPunct_eq_false hk (by decide)
  have hend :
      (st.next.past us).next = st.past (.punct .leftParen :: us ++ [.punct .rightParen]) := by
    rw [State.past_append]
    rfl
  rw [hend]
  -- No arrow follows, so these are not the parameters of an arrow function.
  refine .step (hend ▸ hahead.next.past.next.isPunct .arrow) (.step rfl ?_)
  rw [harrow, List.reverse_reverse]
  rcases he with rfl | ⟨s, rfl, hlength⟩
  · obtain ⟨a, ha, rfl⟩ : ∃ a, a.SameTree e ∧ as = [a] := by
      cases has with
      | cons ha hnil =>
        cases hnil
        exact ⟨_, ha, rfl⟩
    exact ⟨ha, rfl⟩
  · cases has with
    | nil => exact absurd hlength (by simp)
    | cons ha has =>
      cases has with
      | nil => exact absurd hlength (by simp)
      | cons hb has => exact ⟨.sequence (.cons ha (.cons hb has)), rfl⟩

/-! ### Names and parentheses -/

/-- The tokens are read as the expression where neither an operator nor a member, call or template
extends it. -/
def ReadsPrimary (d : Nat) (us : List Kind) (e : Expr) : Prop :=
  ∀ ⦃deep n heritage env st ks⦄, (n < d → deep) → Ahead env st (us ++ ks) → Stops 18 ks →
    Finds deep (primary (ofDepth n) heritage) env st (Comes st us e)

theorem readsPrimary_name {word : String} (hword : word ≠ "async") (s : Span) :
    ReadsPrimary 0 [.name word] (.ident ⟨word, s⟩) := by
  intro deep n heritage env st ks hdeep hahead hstops
  refine .step rfl (.step rfl ?_)
  dsimp only
  rw [hahead.kind]
  refine .step rfl ?_
  rw [beq_false_of_ne hword]
  exact ⟨.ident word, rfl⟩

/-- Parentheses leave no node: what is read is the expression between them. -/
theorem readsPrimary_parens (h : Row d es us) (he : Spells es e) :
    ReadsPrimary (d + 1) (.punct .leftParen :: us ++ [.punct .rightParen]) e := by
  intro deep n heritage env st ks hdeep hahead hstops
  rw [List.append_assoc] at hahead
  refine .step rfl (.step rfl ?_)
  dsimp only
  rw [hahead.kind]
  exact finds_parenthesized h he hdeep hahead hstops _

/-! ### Members and calls -/

/-- A round of `leftHandSideWith`. -/
def links (g : Grammar) (start : Nat) (e : Expr) : Parse (Round Expr) := do
  match ← Parse.kind with
  | .punct .dot =>
    let _ ← advance
    let property ← memberName
    return .again (.member (← finish start) e property false)
  | .punct .questionDot =>
    let _ ← advance
    return .again (← optionalLink g start e)
  | .punct .leftBracket =>
    let property ← computedMember g
    return .again (.member (← finish start) e property false)
  | .punct .leftParen =>
    let arguments ← arguments g
    return .again (.call (← finish start) e arguments false)
  | .templateWhole _ | .templateHead _ =>
    if e.isOptionalChain then failHere .taggedOptionalChain
    else
      let quasi ← template g
      return .again (.tagged (← finish start) e quasi)
  | _ => return .last e

/-- A round of `construct`. -/
def calleeLinks (g : Grammar) (start : Nat) (callee : Expr) : Parse (Round Expr) := do
  match ← Parse.kind with
  | .punct .dot =>
    let _ ← advance
    let property ← memberName
    return .again (.member (← finish start) callee property false)
  | .punct .leftBracket =>
    let property ← computedMember g
    return .again (.member (← finish start) callee property false)
  | .punct .questionDot => failHere .constructorInOptionalChain
  | _ => return .last callee

/-- What `new` creates, without its arguments. -/
def callee (g : Grammar) (heritage : Parse Expr) (start : Nat) : Parse Expr := do
  let callee ← (do if ← Parse.isKey .newKw then g.creation else primary g heritage : Parse Expr)
  repeatFrom (calleeLinks g start) callee

/-- The tokens are read as the expression, whatever is linked to it. -/
def ReadsLink (d : Nat) (us : List Kind) (e : Expr) : Prop :=
  ∀ ⦃deep n heritage env st ks Q⦄, (n < d → deep) → Ahead env st (us ++ ks) → Stops 18 ks →
    (∀ a start, a.SameTree e →
      Finds deep (repeatFrom (links (ofDepth n) start) a) env (st.past us) Q) →
    Finds deep (leftHandSideWith (ofDepth n) heritage) env st Q

/-- The tokens are read as the expression that `new` creates, whatever is linked to it. -/
def ReadsCallee (d : Nat) (us : List Kind) (e : Expr) : Prop :=
  ∀ ⦃deep n heritage start env st ks Q⦄, (n < d → deep) → Ahead env st (us ++ ks) → Stops 18 ks →
    (∀ a, a.SameTree e →
      Finds deep (repeatFrom (calleeLinks (ofDepth n) start) a) env (st.past us) Q) →
    Finds deep (callee (ofDepth n) heritage start) env st Q

/-- The tokens are read as the expression where `new` starts. -/
def ReadsConstruct (d : Nat) (us : List Kind) (e : Expr) : Prop :=
  ∀ ⦃deep n heritage env st ks⦄, (n < d → deep) → Ahead env st (us ++ ks) →
    Finds deep (construct (ofDepth n) heritage) env st (Comes st us e)

/-- A primary expression without `new` is a link. -/
theorem ReadsPrimary.link (h : ReadsPrimary d (k :: us) e) (hk : k.isKey .newKw = false) :
    ReadsLink d (k :: us) e := by
  intro deep n heritage env st ks Q hdeep hahead hstops hrest
  refine .step rfl (.bind (.step (hahead.isKey _) ?_))
  rw [hk]
  refine (h hdeep hahead hstops).mono ?_
  rintro a _ ⟨ha, rfl⟩
  exact hrest a _ ha

/-- It is a callee, too. -/
theorem ReadsPrimary.callee (h : ReadsPrimary d (k :: us) e) (hk : k.isKey .newKw = false) :
    ReadsCallee d (k :: us) e := by
  intro deep n heritage start env st ks Q hdeep hahead hstops hrest
  refine .bind (.step (hahead.isKey _) ?_)
  rw [hk]
  refine (h hdeep hahead hstops).mono ?_
  rintro a _ ⟨ha, rfl⟩
  exact hrest a ha

theorem ReadsConstruct.link (h : ReadsConstruct d (.keyword .newKw :: us) e) :
    ReadsLink d (.keyword .newKw :: us) e := by
  intro deep n heritage env st ks Q hdeep hahead hstops hrest
  refine .step rfl (.bind (.yes (hahead.isKey _) ?_))
  refine (h hdeep hahead).mono ?_
  rintro a _ ⟨ha, rfl⟩
  exact hrest a _ ha

/-- As the callee of another `new` it stands one level deeper. -/
theorem ReadsConstruct.callee (h : ReadsConstruct d (.keyword .newKw :: us) e) :
    ReadsCallee (d + 1) (.keyword .newKw :: us) e := by
  intro deep n heritage start env st ks Q hdeep hahead hstops hrest
  refine .bind (.yes (hahead.isKey _) ?_)
  refine .nested (f := fun n => (ofDepth n).creation) rfl (fun _ => rfl) hdeep fun m hm => ?_
  refine (h hm hahead).mono ?_
  rintro a _ ⟨ha, rfl⟩
  exact hrest a ha

/-- What `new` creates, with its arguments. -/
theorem readsConstruct {f : Expr} {vs : List Kind} (opens : Opens us) (hf : ReadsCallee d us f)
    (hargs : IsArguments d es vs) (s : Span) :
    ReadsConstruct (d + 1)
      (.keyword .newKw :: us ++ .punct .leftParen :: vs ++ [.punct .rightParen]) (.new s f es) := by
  intro deep n heritage env st ks hdeep hahead
  have hahead' : Ahead env st (.keyword .newKw :: (us ++
      (.punct .leftParen :: vs ++ .punct .rightParen :: ks))) := by simpa using hahead
  have hnext := hahead'.next
  have hend : (st.next.past us).past (.punct .leftParen :: vs ++ [.punct .rightParen]) =
      st.past (.keyword .newKw :: us ++ .punct .leftParen :: vs ++ [.punct .rightParen]) := by
    rw [← State.past_append, ← List.append_assoc]
    rfl
  -- No point follows, so this is not `new.target`.
  refine .step rfl (.step hahead'.expectKey (.no (opens.eat rfl hnext) (.step rfl ?_)))
  refine .assoc (.bind (hf (fun hn => hdeep (Nat.lt_succ_of_lt hn)) hnext (.cons (by decide))
    fun a ha => .repeat (.step rfl ?_)))
  rw [hnext.past.kind]
  refine .bind (.yes (hnext.past.isPunct _) ((finds_arguments hargs hdeep hnext.past).mono ?_))
  rintro as _ ⟨has, rfl⟩
  exact ⟨.new ha has, hend⟩

/-! #### What is linked -/

/-- The repetition ends where nothing is linked. -/
theorem finds_links_end {start : Nat} {a : Expr} {Q : Expr → State → Prop}
    (hahead : Ahead env st ks) (hstops : Stops 17 ks) (h : Q a st) :
    Finds deep (repeatFrom (links (ofDepth n) start) a) env st Q := by
  obtain ⟨k, ks', rfl, hk⟩ := hstops
  refine .repeat (.step rfl ?_)
  rw [hahead.kind]
  cases k with
  | punct p => cases p <;> first | exact h | exact absurd hk (by decide)
  | templateWhole | templateHead => exact absurd hk (Nat.not_succ_le_self 17)
  | _ => exact h

/-- Behind a point every word is a name. -/
theorem finds_memberName {word : String} (hahead : Ahead env st (wordKind word :: ks)) :
    Finds deep memberName env st fun p st' => (∃ t, p = .ident ⟨word, t⟩) ∧ st' = st.next := by
  have hhash : (wordKind word).isPunct .hash = false := by
    unfold wordKind
    cases Keyword.ofText? word <;> rfl
  refine .step (hahead.isPunct _) ?_
  rw [hhash]
  -- Behind a point a keyword is a name like any other.
  exact .step hahead.identifierName (.ret ⟨⟨_, rfl⟩, rfl⟩)

/-- The key between brackets is read as a whole expression. -/
theorem finds_computedMember (h : Row d es us) (he : Spells es e) (hdeep : n < d + 1 → deep)
    (hahead : Ahead env st (.punct .leftBracket :: us ++ .punct .rightBracket :: ks)) :
    Finds deep (computedMember (ofDepth n)) env st fun p st' =>
      (∃ a : Expr, a.SameTree e ∧ p = .computed a) ∧
        st' = st.past (.punct .leftBracket :: us ++ [.punct .rightBracket]) := by
  refine .step hahead.expect (.bind (.withIn ?_))
  refine (finds_expression h he hdeep hahead.next.withIn (.cons (by decide))).mono ?_
  rintro a _ ⟨ha, rfl⟩
  refine .step hahead.next.past.expect ⟨⟨a, ha, rfl⟩, ?_⟩
  rw [State.past_append]
  rfl

section

variable {round : Expr → Parse (Round Expr)} {start : Nat} {a o : Expr} {s : Span}
  {Q : Expr → State → Prop}

/-- Both after any expression and after what `new` creates, a point links a name to it. -/
theorem finds_links_word
    (hround : round = links (ofDepth n) start ∨ round = calleeLinks (ofDepth n) start)
    {word : String} (ha : a.SameTree o) (ho : o.isOptionalChain = false) (t : Span)
    (hahead : Ahead env st (.punct .dot :: wordKind word :: ks))
    (hrest : ∀ b : Expr, b.SameTree (.member s o (.ident ⟨word, t⟩) false) →
      Finds deep (repeatFrom round b) env (st.past [.punct .dot, wordKind word]) Q) :
    Finds deep (repeatFrom round a) env st Q := by
  have hgoes : GoesOn env st (st.past [.punct .dot, wordKind word]) := by
    have hahead' : Ahead env st (.punct .dot :: [wordKind word] ++ ks) := hahead
    exact hahead'.goesOn trivial
  have hkind := hahead.kind
  rcases hround with rfl | rfl <;>
    · refine .repeat (.step rfl ?_)
      rw [hkind]
      refine .step rfl (.bind ((finds_memberName hahead.next).mono ?_))
      rintro _ _ ⟨⟨t', rfl⟩, rfl⟩
      exact ⟨hgoes, hrest _ (.memberWord ha ho word)⟩

/-- Both after any expression and after what `new` creates, brackets link what is between them to
it. -/
theorem finds_links_computed
    (hround : round = links (ofDepth n) start ∨ round = calleeLinks (ofDepth n) start)
    (ha : a.SameTree o) (ho : o.isOptionalChain = false) (h : Row d es us) (he : Spells es e)
    (hdeep : n < d + 1 → deep)
    (hahead : Ahead env st (.punct .leftBracket :: us ++ .punct .rightBracket :: ks))
    (hrest : ∀ b : Expr, b.SameTree (.member s o (.computed e) false) →
      Finds deep (repeatFrom round b) env
        (st.past (.punct .leftBracket :: us ++ [.punct .rightBracket])) Q) :
    Finds deep (repeatFrom round a) env st Q := by
  have hgoes : GoesOn env st (st.past (.punct .leftBracket :: us ++ [.punct .rightBracket])) := by
    have hahead' : Ahead env st
        (.punct .leftBracket :: (us ++ [.punct .rightBracket]) ++ ks) := by
      simpa using hahead
    exact hahead'.goesOn trivial
  have hkind := hahead.kind
  -- both loops treat brackets alike
  rcases hround with rfl | rfl <;>
    · refine .repeat (.step rfl ?_)
      rw [hkind]
      refine .bind ((finds_computedMember h he hdeep hahead).mono ?_)
      rintro _ _ ⟨⟨b, hb, rfl⟩, rfl⟩
      exact ⟨hgoes, hrest _ (.memberComputed ha ho hb)⟩

/-- A word behind a dot extends a link. -/
theorem ReadsLink.word (h : ReadsLink d us o) (ho : o.isOptionalChain = false) (word : String)
    (t : Span) : ReadsLink d (us ++ [.punct .dot, wordKind word])
      (.member s o (.ident ⟨word, t⟩) false) := by
  intro deep n heritage env st ks Q hdeep hahead hstops hrest
  rw [List.append_assoc] at hahead
  refine h hdeep hahead (.cons (by decide)) fun a start ha => ?_
  refine finds_links_word (s := s) (.inl rfl) ha ho t hahead.past fun b hb => ?_
  rw [← State.past_append]
  exact hrest b start hb

/-- It extends a callee, too. -/
theorem ReadsCallee.word (h : ReadsCallee d us o) (ho : o.isOptionalChain = false) (word : String)
    (t : Span) : ReadsCallee d (us ++ [.punct .dot, wordKind word])
      (.member s o (.ident ⟨word, t⟩) false) := by
  intro deep n heritage start env st ks Q hdeep hahead hstops hrest
  rw [List.append_assoc] at hahead
  refine h hdeep hahead (.cons (by decide)) fun a ha => ?_
  refine finds_links_word (s := s) (.inr rfl) ha ho t hahead.past fun b hb => ?_
  rw [← State.past_append]
  exact hrest b hb

/-- A key between brackets extends a link. -/
theorem ReadsLink.computed (h : ReadsLink (d + 1) us o) (ho : o.isOptionalChain = false)
    (hrow : Row d es vs) (he : Spells es e) :
    ReadsLink (d + 1) (us ++ .punct .leftBracket :: vs ++ [.punct .rightBracket])
      (.member s o (.computed e) false) := by
  intro deep n heritage env st ks Q hdeep hahead hstops hrest
  have hahead' : Ahead env st
      (us ++ (.punct .leftBracket :: vs ++ .punct .rightBracket :: ks)) := by simpa using hahead
  refine h hdeep hahead' (.cons (by decide)) fun a start ha => ?_
  refine finds_links_computed (s := s) (.inl rfl) ha ho hrow he hdeep hahead'.past fun b hb => ?_
  rw [← State.past_append, ← List.append_assoc]
  exact hrest b start hb

/-- A computed member of a callee is a callee. -/
theorem ReadsCallee.computed (h : ReadsCallee (d + 1) us o) (ho : o.isOptionalChain = false)
    (hrow : Row d es vs) (he : Spells es e) :
    ReadsCallee (d + 1) (us ++ .punct .leftBracket :: vs ++ [.punct .rightBracket])
      (.member s o (.computed e) false) := by
  intro deep n heritage start env st ks Q hdeep hahead hstops hrest
  have hahead' : Ahead env st
      (us ++ (.punct .leftBracket :: vs ++ .punct .rightBracket :: ks)) := by simpa using hahead
  refine h hdeep hahead' (.cons (by decide)) fun a ha => ?_
  refine finds_links_computed (s := s) (.inr rfl) ha ho hrow he hdeep hahead'.past fun b hb => ?_
  rw [← State.past_append, ← List.append_assoc]
  exact hrest b hb

/-- A call extends a link. -/
theorem ReadsLink.call (h : ReadsLink (d + 1) us o) (ho : o.isOptionalChain = false)
    (hargs : IsArguments d es vs) :
    ReadsLink (d + 1) (us ++ .punct .leftParen :: vs ++ [.punct .rightParen])
      (.call s o es false) := by
  intro deep n heritage env st ks Q hdeep hahead hstops hrest
  have hahead' : Ahead env st (us ++ (.punct .leftParen :: vs ++ .punct .rightParen :: ks)) := by
    simpa using hahead
  have hparen := hahead'.past
  -- the loop accepts the round because it moved on
  have hgoes : GoesOn env (st.past us)
      ((st.past us).past (.punct .leftParen :: vs ++ [.punct .rightParen])) := by
    have hparens : Ahead env (st.past us)
        (.punct .leftParen :: (vs ++ [.punct .rightParen]) ++ ks) := by
      simpa using hparen
    exact hparens.goesOn trivial
  refine h hdeep hahead' (.cons (by decide)) fun a start ha => .repeat (.step rfl ?_)
  rw [hparen.kind]
  refine .bind ((finds_arguments hargs hdeep hparen).mono ?_)
  rintro as _ ⟨has, rfl⟩
  refine ⟨hgoes, ?_⟩
  rw [← State.past_append, ← List.append_assoc]
  exact hrest _ start (.call ha ho has)

end

end Grammar

end Espalier
