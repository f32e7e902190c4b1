import Espalier.Proofs.Grammar.Formula

/-!
# Reading control flow

`Flows` says how the tokens of a statement that is made of names, `if` statements, loops, labels and
blocks stand one behind the other, where no `else` follows a statement that ends in an `if` without
one. Such tokens are read as the statement (`Flows.reads`). An `else` that does follow belongs to
the last such `if`, however many loops, labels and branches end with it (`Flows.withElse`).
-/

namespace Espalier

open Token Parse

namespace Stmt

/-- Whether a statement ends in an `if` that has no `else`, to which one behind it would belong. -/
def endsOpen : Stmt → Bool
  | .ifThen _ _ _ none => true
  | .ifThen _ _ _ (some s) | .whileLoop _ _ s | .forLoop _ _ _ _ s | .forIn _ _ _ s
  | .forOf _ _ _ s _ | .labeled _ _ s => s.endsOpen
  | _ => false

/-- A statement in which the last `if` that has no `else` is given one. -/
def withElse : (s alternate : Stmt) → Stmt
  | .ifThen s t c none, e =>
    if c.endsOpen then .ifThen s t (c.withElse e) none else .ifThen s t c (some e)
  | .ifThen s t c (some a), e => .ifThen s t c (some (a.withElse e))
  | .whileLoop s t b, e => .whileLoop s t (b.withElse e)
  | .forLoop s i t u b, e => .forLoop s i t u (b.withElse e)
  | .forIn s l r b, e => .forIn s l r (b.withElse e)
  | .forOf s l r b isAwait, e => .forOf s l r (b.withElse e) isAwait
  | .labeled s l b, e => .labeled s l (b.withElse e)
  | s, _ => s

end Stmt

namespace Grammar

variable {d d' n : Nat} {deep : Prop} {env : Env} {st : State} {k : Kind} {us vs ks : List Kind}
  {a b c s : Stmt} {t : Span} {i : Ident} {test : Option Ident}

/-! ### The tokens -/

/-- A name that is a variable wherever it stands. -/
def IsVariable (i : Ident) : Prop := Kind.isContextual i.name = false

/-- The test of an `if` statement or of a loop. -/
def testKinds (i : Ident) : List Kind := [.punct .leftParen, .name i.name, .punct .rightParen]

/-- A clause in the head of a loop, which may be missing. -/
def clauseKinds (clause : Option Ident) : List Kind := clause.elim [] fun i => [.name i.name]

/-- The head of a loop behind its first clause. -/
def restKinds (test update : Option Ident) : List Kind :=
  .punct .semicolon :: (clauseKinds test ++ .punct .semicolon ::
    (clauseKinds update ++ [.punct .rightParen]))

/-- The tokens of statements one behind the other. -/
def rowKinds (rows : List (List Kind × Stmt)) : List Kind := rows.flatMap (·.1)

/-- The tokens are those of the statement, and every `else` belongs to the last `if` in front of it
that has none. Below the statement `d` levels nest. -/
inductive Flows : (d : Nat) → List Kind → Stmt → Prop
  | expr {d : Nat} {t : Span} {i : Ident} (hi : IsVariable i) :
    Flows d [.name i.name, .punct .semicolon] (.expr t (.ident i))
  | ifThen {d : Nat} {t : Span} {i : Ident} {us : List Kind} {c : Stmt} (hi : IsVariable i)
    (hc : Flows d us c) :
    Flows (d + 1) (.keyword .ifKw :: (testKinds i ++ us)) (.ifThen t (.ident i) c none)
  | ifElse {d : Nat} {t : Span} {i : Ident} {us vs : List Kind} {c a : Stmt} (hi : IsVariable i)
    (hc : Flows d us c) (hopen : c.endsOpen = false) (ha : Flows d vs a) :
    Flows (d + 1) (.keyword .ifKw :: (testKinds i ++ (us ++ .keyword .elseKw :: vs)))
      (.ifThen t (.ident i) c (some a))
  | whileLoop {d : Nat} {t : Span} {i : Ident} {us : List Kind} {b : Stmt} (hi : IsVariable i)
    (hb : Flows d us b) :
    Flows (d + 1) (.keyword .whileKw :: (testKinds i ++ us)) (.whileLoop t (.ident i) b)
  | forLoop {d : Nat} {t : Span} {init test update : Option Ident} {us : List Kind} {b : Stmt}
    (hinit : ∀ i ∈ init, IsVariable i) (htest : ∀ i ∈ test, IsVariable i)
    (hupdate : ∀ i ∈ update, IsVariable i) (hb : Flows d us b) :
    Flows (d + 1)
      (.keyword .forKw :: .punct .leftParen :: (clauseKinds init ++ (restKinds test update ++ us)))
      (.forLoop t ((init.map Expr.ident).map .expr) (test.map .ident) (update.map .ident) b)
  | labeled {d : Nat} {t : Span} {i : Ident} {us : List Kind} {b : Stmt} (hi : IsVariable i)
    (hb : Flows d us b) :
    Flows (d + 1) (.name i.name :: .punct .colon :: us) (.labeled t i b)
  | block {d : Nat} {t : Span} {rows : List (List Kind × Stmt)}
    (h : ∀ row ∈ rows, Flows d row.1 row.2) :
    Flows (d + 1) (.punct .leftBrace :: (rowKinds rows ++ [.punct .rightBrace]))
      (.block ⟨rows.map (·.2), t⟩)

namespace Flows

/-- A statement that fits one depth fits the next. -/
theorem succ (h : Flows d us s) : Flows (d + 1) us s := by
  induction h with
  | expr hi => exact .expr hi
  | ifThen hi _ ih => exact .ifThen hi ih
  | ifElse hi _ hopen _ ihc iha => exact .ifElse hi ihc hopen iha
  | whileLoop hi _ ih => exact .whileLoop hi ih
  | forLoop hinit htest hupdate _ ih => exact .forLoop hinit htest hupdate ih
  | labeled hi _ ih => exact .labeled hi ih
  | block _ ih => exact .block ih

/-- A statement fits every greater depth. -/
theorem mono (h : Flows d us s) (hd : d ≤ d') : Flows d' us s := by
  induction hd with
  | refl => exact h
  | step _ ih => exact ih.succ

/-- An `else` behind a statement that ends in an `if` without one belongs to that. -/
theorem withElse (h : Flows d us s) (hopen : s.endsOpen = true) (ha : Flows d' vs a) :
    Flows (d + d') (us ++ .keyword .elseKw :: vs) (s.withElse a) := by
  -- the `else` goes to the innermost `if` at the end that has none
  induction h with
  | expr | block => cases hopen
  | @ifThen d t i us c hi hc ih =>
    rw [Nat.add_right_comm, Stmt.withElse, List.cons_append, List.append_assoc]
    split
    · next hopen => exact .ifThen hi (ih hopen)
    · next hclosed =>
      -- closed consequent: the `else` ends up here
      exact .ifElse hi (hc.mono (Nat.le_add_right d d')) (Bool.eq_false_iff.mpr hclosed)
        (ha.mono (Nat.le_add_left d' d))
  | @ifElse d t i us vs c b hi hc hclosed hb ihc ihb =>
    rw [Nat.add_right_comm, Stmt.withElse, List.cons_append, List.append_assoc, List.append_assoc]
    exact .ifElse hi (hc.mono (Nat.le_add_right d d')) hclosed (ihb hopen)
  | whileLoop hi _ ih =>
    rw [Nat.add_right_comm, Stmt.withElse, List.cons_append, List.append_assoc]
    exact .whileLoop hi (ih hopen)
  | forLoop hinit htest hupdate _ ih =>
    rw [Nat.add_right_comm, Stmt.withElse, List.cons_append, List.cons_append, List.append_assoc,
      List.append_assoc]
    exact .forLoop hinit htest hupdate (ih hopen)
  | labeled hi _ ih =>
    rw [Nat.add_right_comm, Stmt.withElse]
    exact .labeled hi (ih hopen)

end Flows

/-- A token that a statement of control flow may start with. -/
def startsFlow : Kind → Bool
  | .name _ | .keyword .ifKw | .keyword .whileKw | .keyword .forKw | .punct .leftBrace => true
  | _ => false

/-- The tokens of a statement begin with one that can start a statement, never with `else`. -/
theorem Flows.starts (h : Flows d us s) : ∃ k us', us = k :: us' ∧ startsFlow k = true := by
  cases h <;> exact ⟨_, _, rfl, rfl⟩

/-- A token may stand behind a statement and not belong to it. -/
def Follows (s : Stmt) (k : Kind) : Prop := s.endsOpen = true → k.isKey .elseKw = false

theorem isKey_of_startsFlow (hk : startsFlow k = true) : k.isKey .elseKw = false := by
  cases k with
  | keyword w => cases w <;> first | rfl | cases hk
  | _ => rfl

theorem isSolid_of_startsFlow (hk : startsFlow k = true) : k.IsSolid := by
  cases k with
  | name | keyword | punct => trivial
  | _ => cases hk

/-! ### Names -/

/-- A variable in front of a token that does not extend it is read as itself. -/
theorem finds_variable (hi : IsVariable i) (hdeep : n < 1 → deep)
    (hahead : Ahead env st (.name i.name :: k :: ks)) (hk : k.grip ≤ 0) :
    Finds deep (expression (ofDepth n)) env st (Comes st [.name i.name] (.ident i)) := by
  obtain ⟨es, hrow, hes⟩ := (ReadsAs.name (s := i.span) hi).row
  exact finds_expression hrow hes hdeep hahead (.cons hk)

/-- A parenthesized variable is read as the test. -/
theorem finds_test (hi : IsVariable i) (hdeep : n < 1 → deep)
    (hahead : Ahead env st (testKinds i ++ ks)) :
    Finds deep (condition (ofDepth n)) env st (Comes st (testKinds i) (.ident i)) := by
  refine .step hahead.expect (.bind (.withIn ?_))
  refine (finds_variable hi hdeep hahead.next.withIn (by decide)).mono ?_
  rintro e _ ⟨he, rfl⟩
  exact .step hahead.next.next.expect ⟨he, rfl⟩

/-- A clause in front of a sign that ends it. -/
theorem finds_clause {stop : Punct} (hstop : (Kind.punct stop).grip ≤ 0)
    (hclause : ∀ i ∈ test, IsVariable i) (hdeep : n < 1 → deep)
    (hahead : Ahead env st (clauseKinds test ++ .punct stop :: ks)) :
    Finds deep (unlessAt stop (Parse.withIn true (expression (ofDepth n)))) env st fun e st' =>
      Option.Rel Expr.SameTree e (test.map .ident) ∧ st' = st.past (clauseKinds test) := by
  cases test with
  | none =>
    have hpunct := hahead.isPunct stop
    rw [show (Kind.punct stop).isPunct stop = true from beq_self_eq_true stop] at hpunct
    exact .yes hpunct (.ret ⟨.none, rfl⟩)
  | some i =>
    refine .no (hahead.isPunct stop) (.bind (.withIn ?_))
    refine (finds_variable (hclause i rfl) hdeep hahead.withIn hstop).mono ?_
    rintro e _ ⟨he, rfl⟩
    exact ⟨.some he, rfl⟩

/-! ### Statements -/

/-- A reader comes with the statement and has left behind its tokens. -/
def ComesAs (st : State) (us : List Kind) (s : Stmt) (a : Stmt) (st' : State) : Prop :=
  a.SameTree s ∧ st' = st.past us

/-- The tokens are read as the statement, unless an `else` follows them that would belong to it. -/
def ReadsStatement (d : Nat) (us : List Kind) (s : Stmt) : Prop :=
  ∀ ⦃deep n env st k ks⦄, (n < d + 1 → deep) → Ahead env st (us ++ k :: ks) → Follows s k →
    Finds deep (anyStatement (ofDepth n)) env st (ComesAs st us s)

/-- The same one level down, where the parser counts the nesting. -/
theorem ReadsStatement.nested (h : ReadsStatement d us s) (hdeep : n < d + 1 + 1 → deep)
    (hahead : Ahead env st (us ++ k :: ks)) (hfollows : Follows s k) :
    Finds deep (ofDepth n).statement env st (ComesAs st us s) :=
  .nested (f := fun n => (ofDepth n).statement) rfl (fun _ => rfl) hdeep fun _ hm =>
    h hm hahead hfollows

theorem readsStatement_expr (hi : IsVariable i) :
    ReadsStatement d [.name i.name, .punct .semicolon] (.expr t (.ident i)) := by
  intro deep n env st k ks hdeep hahead _
  have hreads : ReadsAs d 18 [.name i.name] (.ident i) :=
    (ReadsAs.name (s := i.span) hi).mono (Nat.zero_le d)
  refine (finds_anyStatement hreads hdeep hahead).mono ?_
  rintro a _ ⟨⟨t', e, rfl, he⟩, rfl⟩
  exact ⟨.expr he, rfl⟩

/-- An `if` alone is read back when what follows it is no `else`. -/
theorem readsStatement_ifThen (hi : IsVariable i) (hc : ReadsStatement d us c) :
    ReadsStatement (d + 1) (.keyword .ifKw :: (testKinds i ++ us))
      (.ifThen t (.ident i) c none) := by
  intro deep n env st k ks hdeep hahead hfollows
  have htest : Ahead env st.next (testKinds i ++ (us ++ k :: ks)) := by
    simpa using hahead.next
  refine .step rfl ?_
  rw [hahead.kind]
  refine .step rfl (.step hahead.expectKey (.bind ?_))
  refine (finds_test hi (fun hn => hdeep (by omega)) htest).mono ?_
  rintro e _ ⟨he, rfl⟩
  refine .bind ((hc.nested hdeep htest.past fun _ => hfollows rfl).mono ?_)
  rintro c' _ ⟨hc', rfl⟩
  refine .bind (.no (htest.past.past.eatKey_no (hfollows rfl)) (.ret (.step rfl (.ret ?_))))
  refine ⟨.ifThen he hc', ?_⟩
  rw [← State.past_append]
  rfl

/-- An `if` with `else` is read back when its consequent leaves no `if` open. -/
theorem readsStatement_ifElse (hi : IsVariable i) (hc : ReadsStatement d us c)
    (hclosed : c.endsOpen = false) (ha : ReadsStatement d vs a) :
    ReadsStatement (d + 1)
      (.keyword .ifKw :: (testKinds i ++ (us ++ .keyword .elseKw :: vs)))
      (.ifThen t (.ident i) c (some a)) := by
  intro deep n env st k ks hdeep hahead hfollows
  have htest : Ahead env st.next (testKinds i ++ (us ++ .keyword .elseKw :: (vs ++ k :: ks))) := by
    simpa using hahead.next
  -- a closed consequent may be followed by anything, `else` included
  have hconsequent : Follows c (.keyword .elseKw) := by
    intro hopen
    rw [hclosed] at hopen
    cases hopen
  refine .step rfl ?_
  rw [hahead.kind]
  refine .step rfl (.step hahead.expectKey (.bind ?_))
  refine (finds_test hi (fun hn => hdeep (by omega)) htest).mono ?_
  rintro e _ ⟨he, rfl⟩
  refine .bind ((hc.nested hdeep htest.past hconsequent).mono ?_)
  rintro c' _ ⟨hc', rfl⟩
  have helse := htest.past.past
  refine .bind (.yes (helse.eatKey rfl) (.bind ?_))
  refine (ha.nested hdeep helse.next hfollows).mono ?_
  rintro a' _ ⟨ha', rfl⟩
  refine .ret (.step rfl (.ret ⟨.ifElse he hc' ha', ?_⟩))
  show _ = st.next.past (testKinds i ++ (us ++ .keyword .elseKw :: vs))
  rw [State.past_append, State.past_append]
  rfl

/-- A `while` loop is read back when its body is. -/
theorem readsStatement_whileLoop (hi : IsVariable i) (hb : ReadsStatement d us b) :
    ReadsStatement (d + 1) (.keyword .whileKw :: (testKinds i ++ us))
      (.whileLoop t (.ident i) b) := by
  intro deep n env st k ks hdeep hahead hfollows
  have htest : Ahead env st.next (testKinds i ++ (us ++ k :: ks)) := by
    simpa using hahead.next
  refine .step rfl ?_
  rw [hahead.kind]
  refine .step rfl (.step hahead.expectKey (.bind ?_))
  refine (finds_test hi (fun hn => hdeep (by omega)) htest).mono ?_
  rintro e _ ⟨he, rfl⟩
  refine .bind ((hb.nested hdeep htest.past hfollows).mono ?_)
  rintro b' _ ⟨hb', rfl⟩
  refine .step rfl (.ret ⟨.whileLoop he hb', ?_⟩)
  rw [← State.past_append]
  rfl

/-- A label is read back when its statement is. -/
theorem readsStatement_labeled (hi : IsVariable i) (hb : ReadsStatement d us b) :
    ReadsStatement (d + 1) (.name i.name :: .punct .colon :: us) (.labeled t i b) := by
  intro deep n env st k ks hdeep hahead hfollows
  refine finds_nameStatement hi hahead (.step rfl ?_)
  rw [Token.isPunct, hahead.peek_kind]
  refine .step rfl (.step hahead.bindingName (.step rfl (.bind ?_)))
  refine (hb.nested hdeep hahead.next.next hfollows).mono ?_
  rintro b' _ ⟨hb', rfl⟩
  exact .step rfl (.ret ⟨.labeled hb' i.name, rfl⟩)

/-- A loop of which the first clause has been read. -/
theorem finds_forRest {start : Nat} {init test update : Option Ident} {first : Option Expr}
    (hfirst : Option.Rel Expr.SameTree first (init.map .ident))
    (htest : ∀ i ∈ test, IsVariable i) (hupdate : ∀ i ∈ update, IsVariable i)
    (hb : ReadsStatement d us b) (hdeep : n < d + 1 + 1 → deep)
    (hahead : Ahead env st (restKinds test update ++ us ++ k :: ks)) (hfollows : Follows b k) :
    Finds deep (forRest (ofDepth n) start (first.map .expr)) env st (ComesAs st
      (restKinds test update ++ us)
      (.forLoop t ((init.map Expr.ident).map .expr) (test.map .ident) (update.map .ident) b)) := by
  have hname : n < 1 → deep := fun hn => hdeep (by omega)
  have hahead' : Ahead env st (.punct .semicolon :: (clauseKinds test ++ .punct .semicolon ::
      (clauseKinds update ++ .punct .rightParen :: (us ++ k :: ks)))) := by
    simpa [restKinds] using hahead
  refine .step hahead'.expect (.bind ?_)
  -- test clause, up to the second semicolon
  refine (finds_clause (by decide) htest hname hahead'.next).mono ?_
  rintro test' _ ⟨htest', rfl⟩
  have hsecond := hahead'.next.past
  refine .step hsecond.expect (.bind ?_)
  -- update clause, up to the closing parenthesis
  refine (finds_clause (by decide) hupdate hname hsecond.next).mono ?_
  rintro update' _ ⟨hupdate', rfl⟩
  have hclose := hsecond.next.past
  refine .step hclose.expect (.bind ((hb.nested hdeep hclose.next hfollows).mono ?_))
  rintro b' _ ⟨hb', rfl⟩
  refine .step rfl (.ret ⟨.forLoop hfirst htest' hupdate' hb', ?_⟩)
  rw [State.past_append]
  show _ = (st.next.past (clauseKinds test ++ .punct .semicolon ::
    (clauseKinds update ++ [.punct .rightParen]))).past us
  rw [State.past_append]
  show _ = ((st.next.past (clauseKinds test)).next.past
    (clauseKinds update ++ [.punct .rightParen])).past us
  rw [State.past_append]
  rfl

/-- Behind `for`, a token that is not `await` leaves a plain loop. -/
theorem isAwait_eq (h : Ahead env st (k :: ks)) (hk : k.isName "await" = false) :
    (do if (← read).inAsync then Parse.eatName "await" else return false : Parse Bool) env st =
      .ok (false, st) := by
  show (if env.inAsync = true then Parse.eatName "await" else pure false : Parse Bool) env st = _
  split
  · exact h.eatName_no hk
  · rfl

theorem atForEach_eq (h : Ahead env st (k :: ks)) :
    atForEach env st = .ok (k.isName "of" || k.isKey .inKw, st) := by
  have heq : atForEach env st = .ok (st.current.token.kind.isName "of" ||
    st.current.token.kind.isKey .inKw, st) := rfl
  rw [heq, h.kind]

/-- The first clause of a loop, where `in` is not an operator. -/
theorem finds_firstClause (hi : IsVariable i) (hdeep : n < 1 → deep)
    (hahead : Ahead env st (.name i.name :: .punct .semicolon :: ks)) :
    Finds deep (Parse.withIn false (expression (ofDepth n))) env st
      (Comes st [.name i.name] (.ident i)) := by
  have hfront : Ahead env st ([.name i.name, .punct .semicolon] ++ ks) := hahead
  exact .withIn (finds_variable hi hdeep (hfront.withoutIn (by simp)) (by decide))

/-- A `for` loop is read back, with or without each of its three clauses. -/
theorem readsStatement_forLoop {init test update : Option Ident}
    (hinit : ∀ i ∈ init, IsVariable i) (htest : ∀ i ∈ test, IsVariable i)
    (hupdate : ∀ i ∈ update, IsVariable i) (hb : ReadsStatement d us b) :
    ReadsStatement (d + 1)
      (.keyword .forKw :: .punct .leftParen :: (clauseKinds init ++ (restKinds test update ++ us)))
      (.forLoop t ((init.map Expr.ident).map .expr) (test.map .ident) (update.map .ident) b) := by
  intro deep n env st k ks hdeep hahead hfollows
  have hhead : Ahead env st.next.next
      (clauseKinds init ++ (restKinds test update ++ us ++ k :: ks)) := by
    simpa using hahead.next.next
  refine .step rfl ?_
  rw [hahead.kind]
  refine .step rfl (.step hahead.expectKey ?_)
  refine .step (isAwait_eq hahead.next rfl) (.step hahead.next.expect ?_)
  cases init with
  | none =>
    have hrest : Ahead env st.next.next (restKinds test update ++ us ++ k :: ks) := hhead
    have hfirst : Option.Rel Expr.SameTree none ((none : Option Ident).map .ident) := .none
    refine .yes (hrest.isPunct .semicolon) ?_
    refine (finds_forRest (t := t) hfirst htest hupdate hb hdeep hrest hfollows).mono ?_
    rintro b' _ ⟨hb', rfl⟩
    exact ⟨hb', rfl⟩
  | some i =>
    have hi : IsVariable i := hinit i rfl
    -- a name at the head is no declaration: `let` is no variable
    have hlet : (Kind.name i.name).isName "let" = false := by
      refine beq_false_of_ne fun heq => ?_
      rw [IsVariable, heq] at hi
      cases hi
    refine .no (hhead.isPunct .semicolon) (.step rfl ?_)
    rw [hhead.kind, hlet]
    refine .no rfl (.bind ((finds_firstClause hi (fun hn => hdeep (by omega)) hhead).mono ?_))
    rintro e _ ⟨he, rfl⟩
    have hrest : Ahead env (st.next.next.past [.name i.name])
        (restKinds test update ++ us ++ k :: ks) :=
      hhead.past
    have hfirst : Option.Rel Expr.SameTree (some e) ((some i).map .ident) := .some he
    -- neither `of` nor `in` follows
    refine .no (atForEach_eq hrest) ?_
    refine (finds_forRest (t := t) hfirst htest hupdate hb hdeep hrest hfollows).mono ?_
    rintro b' _ ⟨hb', rfl⟩
    exact ⟨hb', rfl⟩

/-! ### Rows of statements -/

/-- What stands behind an item, the next item or the stop, is no `else`. -/
theorem exists_rowKinds_append {rows : List (List Kind × Stmt)}
    (hstarts : ∀ row ∈ rows, ∃ k us', row.1 = k :: us' ∧ startsFlow k = true)
    (helse : k.isKey .elseKw = false) :
    ∃ j js, rowKinds rows ++ k :: ks = j :: js ∧ j.isKey .elseKw = false := by
  cases rows with
  | nil => exact ⟨k, ks, rfl, helse⟩
  | cons row rows =>
    obtain ⟨j, us', hus, hj⟩ := hstarts row List.mem_cons_self
    refine ⟨j, us' ++ rowKinds rows ++ k :: ks, ?_, isKey_of_startsFlow hj⟩
    rw [rowKinds, List.flatMap_cons, hus]
    simp [rowKinds]

/-- Statements one behind the other are read up to a token that ends the row. -/
theorem finds_rows {item : Parse Stmt} {stop : Kind → Bool} {rows : List (List Kind × Stmt)}
    (hitem : ∀ row ∈ rows, ∀ st k ks, Ahead env st (row.1 ++ k :: ks) → Follows row.2 k →
      Finds deep item env st (ComesAs st row.1 row.2))
    (hstarts : ∀ row ∈ rows, ∃ k us', row.1 = k :: us' ∧ startsFlow k = true)
    (hgoes : ∀ k, startsFlow k = true → stop k = false) (hstop : stop k = true)
    (helse : k.isKey .elseKw = false) (hahead : Ahead env st (rowKinds rows ++ k :: ks)) :
    Finds deep (itemsUntil stop item) env st fun as st' =>
      List.Forall₂ Stmt.SameTree as (rows.map (·.2)) ∧ st' = st.past (rowKinds rows) := by
  -- the loop collects in reverse, so the claim is about what it adds to the items already there
  have hrounds : ∀ done : List Stmt, Finds deep (repeatFrom (fun items => do
      if stop (← kind) then return .last items
      else return .again ((← item) :: items)) done) env st fun items st' =>
        ∃ as, items.reverse = done.reverse ++ as ∧
          List.Forall₂ Stmt.SameTree as (rows.map (·.2)) ∧ st' = st.past (rowKinds rows) := by
    induction rows generalizing st with
    | nil =>
      intro done
      refine .repeat (.step rfl ?_)
      have hkind : st.current.token.kind = k := hahead.kind
      rw [hkind, hstop]
      exact .ret ⟨[], (List.append_nil _).symm, .nil, rfl⟩
    | cons row rows ih =>
      intro done
      obtain ⟨us, s⟩ := row
      obtain ⟨hfirst, hitems⟩ := List.forall_mem_cons.mp hitem
      obtain ⟨⟨j, us', rfl, hj⟩, htail⟩ := List.forall_mem_cons.mp hstarts
      have hahead' : Ahead env st (j :: us' ++ (rowKinds rows ++ k :: ks)) := by
        rw [← List.append_assoc]
        exact hahead
      obtain ⟨i, is, hnext, hi⟩ : ∃ i is, rowKinds rows ++ k :: ks = i :: is ∧
          i.isKey .elseKw = false :=
        exists_rowKinds_append htail helse
      rw [hnext] at hahead'
      refine .repeat (.step rfl ?_)
      rw [hahead'.kind, hgoes j hj]
      refine .bind ((hfirst st i is hahead' fun _ => hi).mono ?_)
      rintro a _ ⟨ha, rfl⟩
      -- every item moves on, or the loop would refuse it
      refine ⟨hahead'.goesOn (isSolid_of_startsFlow hj), ?_⟩
      rw [← hnext] at hahead'
      refine (ih hitems htail hahead'.past (a :: done)).mono ?_
      rintro items _ ⟨as, heq, has, rfl⟩
      refine ⟨a :: as, ?_, .cons ha has, ?_⟩
      · rw [heq, List.reverse_cons, List.append_assoc]
        rfl
      · rw [← State.past_append]
        rfl
  refine .bind ((hrounds []).mono ?_)
  rintro items _ ⟨as, heq, has, rfl⟩
  refine .ret ⟨?_, rfl⟩
  rw [heq]
  exact has

/-- A block is read back when each of its statements is. -/
theorem readsStatement_block {rows : List (List Kind × Stmt)}
    (hrows : ∀ row ∈ rows, ReadsStatement d row.1 row.2)
    (hstarts : ∀ row ∈ rows, ∃ k us', row.1 = k :: us' ∧ startsFlow k = true) :
    ReadsStatement (d + 1) (.punct .leftBrace :: (rowKinds rows ++ [.punct .rightBrace]))
      (.block ⟨rows.map (·.2), t⟩) := by
  intro deep n env st k ks hdeep hahead _
  have hbody : Ahead env st.next (rowKinds rows ++ .punct .rightBrace :: (k :: ks)) := by
    simpa using hahead.next
  -- no row starts with what ends the block
  have hgoes : ∀ k, startsFlow k = true → (k.isPunct .rightBrace || k.isEof) = false := by
    intro k hk
    cases k with
    | punct p => cases p <;> first | rfl | cases hk
    | eof => cases hk
    | _ => rfl
  refine .step rfl ?_
  rw [hahead.kind]
  refine .bind (.step rfl (.step hahead.expect (.bind ?_)))
  refine (finds_rows (fun row hrow st k ks => (hrows row hrow).nested hdeep) hstarts hgoes rfl rfl
    hbody).mono ?_
  rintro as _ ⟨has, rfl⟩
  refine .step hbody.past.expect (.step rfl (.ret (.ret ⟨.block has, ?_⟩)))
  show _ = st.next.past (rowKinds rows ++ [.punct .rightBrace])
  rw [State.past_append]
  rfl

/-- Tokens of control flow are read as the statement. -/
theorem Flows.reads (h : Flows d us s) : ReadsStatement d us s := by
  induction h with
  | expr hi => exact readsStatement_expr hi
  | ifThen hi _ ih => exact readsStatement_ifThen hi ih
  | ifElse hi _ hclosed _ ihc iha => exact readsStatement_ifElse hi ihc hclosed iha
  | whileLoop hi _ ih => exact readsStatement_whileLoop hi ih
  | forLoop hinit htest hupdate _ ih => exact readsStatement_forLoop hinit htest hupdate ih
  | labeled hi _ ih => exact readsStatement_labeled hi ih
  | block h ih => exact readsStatement_block ih fun row hrow => (h row hrow).starts

/-- A source that is a row of statements. -/
theorem finds_statementRows {rows : List (List Kind × Stmt)}
    (hrows : ∀ row ∈ rows, Flows d row.1 row.2) (hdeep : 127 < d + 1 → deep)
    (hahead : Ahead env st (rowKinds rows ++ [.eof])) :
    Finds deep statements env st fun as _ => List.Forall₂ Stmt.SameTree as (rows.map (·.2)) := by
  have hgoes : ∀ k, startsFlow k = true → k.isEof = false := by
    intro k hk
    cases k with
    | eof => cases hk
    | _ => rfl
  refine (finds_rows (fun row hrow st k ks => (hrows row hrow).reads hdeep)
    (fun row hrow => (hrows row hrow).starts) hgoes rfl rfl hahead).mono ?_
  rintro as _ ⟨has, -⟩
  exact has

end Grammar

end Espalier
