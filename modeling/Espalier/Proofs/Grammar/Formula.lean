import Espalier.Print.Level
import Espalier.Proofs.Grammar.Operator
import Espalier.Proofs.Grammar.Span

/-!
# Reading formulas

`ReadsAs` sums up, for the tokens of an expression with a given rank, all the places where they are
read as that expression. It is handed on from the parts of a formula to the whole: between
parentheses everything has the highest rank.
-/

namespace Espalier

open Token Parse

namespace Grammar

variable {d d' r : Nat} {k : Kind} {us vs ws : List Kind} {a c e f l o : Expr} {es : List Expr}
  {s : Span}

/-! ### Deeper grammars -/

/-- What is read within one depth is read within any greater one. -/
theorem ReadsAssignment.mono (h : ReadsAssignment d us e) (hd : d ≤ d') :
    ReadsAssignment d' us e := by
  intro deep n env st ks hdeep
  exact h fun hn => hdeep (Nat.lt_of_lt_of_le hn hd)

theorem ReadsLink.mono (h : ReadsLink d us e) (hd : d ≤ d') : ReadsLink d' us e := by
  intro deep n heritage env st ks Q hdeep
  exact h fun hn => hdeep (Nat.lt_of_lt_of_le hn hd)

theorem ReadsCallee.mono (h : ReadsCallee d us e) (hd : d ≤ d') : ReadsCallee d' us e := by
  intro deep n heritage start env st ks Q hdeep
  exact h fun hn => hdeep (Nat.lt_of_lt_of_le hn hd)

theorem ReadsUnary.mono (h : ReadsUnary d us e) (hd : d ≤ d') : ReadsUnary d' us e := by
  intro deep n env st ks hdeep
  exact h fun hn => hdeep (Nat.lt_of_lt_of_le hn hd)

theorem ReadsBinary.mono (h : ReadsBinary d r us e) (hd : d ≤ d') : ReadsBinary d' r us e := by
  intro deep n least env st ks Q hleast hdeep
  exact h hleast fun hn => hdeep (Nat.lt_of_lt_of_le hn hd)

/-- An operand tight enough for one operator is tight enough for every looser one. -/
theorem ReadsBinary.lower {r' : Nat} (h : ReadsBinary d r us e) (hr : r' ≤ r) :
    ReadsBinary d r' us e := by
  intro deep n least env st ks Q hleast hdeep hahead hstops
  exact h (Nat.le_trans hleast hr) hdeep hahead (hstops.mono hr)

theorem ReadsRight.mono {op : InfixOp} (h : ReadsRight d op us e) (hd : d ≤ d') :
    ReadsRight d' op us e := by
  intro deep n env st ks hdeep
  exact h fun hn => hdeep (Nat.lt_of_lt_of_le hn hd)

theorem Row.mono (h : Row d es us) (hd : d ≤ d') : Row d' es us := by
  induction h with
  | one opens reads => exact .one opens (reads.mono hd)
  | more opens reads _ ih => exact .more opens (reads.mono hd) ih

/-! ### How formulas start -/

/-- What opens a formula opens it with more behind it. -/
theorem Opens.append {j : Kind} (h : Opens us) (hcolon : j.isPunct .colon = false)
    (harrow : j.isPunct .arrow = false) : Opens (us ++ j :: vs) := by
  obtain ⟨k, us', rfl, hk, hsecond⟩ := h
  refine ⟨k, us' ++ j :: vs, rfl, hk, ?_⟩
  cases us' with
  | nil =>
    rintro i ⟨⟩
    exact ⟨hcolon, harrow⟩
  | cons i us' => exact hsecond

/-- A token that starts a formula may stand in front. -/
theorem Opens.cons (h : Opens us) (hk : k.startsFormula = true) : Opens (k :: us) := by
  obtain ⟨j, us', rfl, hj, -⟩ := h
  refine ⟨k, j :: us', rfl, hk, ?_⟩
  rintro i ⟨⟩
  cases j with
  | punct p => cases p <;> first | exact ⟨rfl, rfl⟩ | cases hj
  | _ => exact ⟨rfl, rfl⟩

/-- A row of assignments opens as its first one does. -/
theorem Row.opens (h : Row d es us) : Opens us := by
  cases h with
  | one opens => exact opens
  | more opens => exact opens.append rfl rfl

/-! ### What is read where -/

/-- Where the tokens of an expression of rank `r` are read as that expression, if `d` more levels
may nest. Ranks are on the scale of grips: 18 for what members and calls may extend, 16 for
operands, from 4 to 15 for operators between operands, 3 for choices, 2 for assignments. -/
structure ReadsAs (d r : Nat) (us : List Kind) (e : Expr) : Prop where
  opens : Opens us
  link : 18 ≤ r → ReadsLink d us e ∧ ∃ k us', us = k :: us' ∧ k.startsLink = true
  callee : 18 ≤ r → e.containsCall = false → ReadsCallee d us e
  unary : 16 ≤ r → ReadsUnary d us e
  binary : ∀ m, 4 ≤ m → m ≤ 16 → m ≤ r → ReadsBinary d m us e
  assignment : 2 ≤ r → ReadsAssignment d us e
  row : ∃ es, Row d es us ∧ Spells es e

namespace ReadsAs

/-- What is read within one depth is read within any greater one. -/
theorem mono (h : ReadsAs d r us e) (hd : d ≤ d') : ReadsAs d' r us e where
  opens := h.opens
  link hr := ⟨(h.link hr).1.mono hd, (h.link hr).2⟩
  callee hr hcall := (h.callee hr hcall).mono hd
  unary hr := (h.unary hr).mono hd
  binary m hlo hhi hm := (h.binary m hlo hhi hm).mono hd
  assignment hr := (h.assignment hr).mono hd
  row := by
    obtain ⟨es, hrow, he⟩ := h.row
    exact ⟨es, hrow.mono hd, he⟩

/-- What has a rank has all lower ones. -/
theorem lower {r' : Nat} (h : ReadsAs d r us e) (hr' : r' ≤ r) : ReadsAs d r' us e where
  opens := h.opens
  link hr := h.link (Nat.le_trans hr hr')
  callee hr := h.callee (Nat.le_trans hr hr')
  unary hr := h.unary (Nat.le_trans hr hr')
  binary m hlo hhi hm := h.binary m hlo hhi (Nat.le_trans hm hr')
  assignment hr := h.assignment (Nat.le_trans hr hr')
  row := h.row

/-! From what is read in the fewest places to what is read in the most. -/

theorem of_row (opens : Opens us) (h : Row d es us) (he : Spells es e) : ReadsAs d 1 us e where
  opens := opens
  link hr := absurd hr (by decide)
  callee hr := absurd hr (by decide)
  unary hr := absurd hr (by decide)
  binary m hlo _ hm := absurd (Nat.le_trans hlo hm) (by decide)
  assignment hr := absurd hr (by decide)
  row := ⟨es, h, he⟩

theorem of_assignment (opens : Opens us) (h : ReadsAssignment d us e) : ReadsAs d 2 us e :=
  { of_row opens (.one opens h) (.inl rfl) with
    link := fun hr => absurd hr (by decide)
    callee := fun hr => absurd hr (by decide)
    unary := fun hr => absurd hr (by decide)
    binary := fun m hlo _ hm => absurd (Nat.le_trans hlo hm) (by decide)
    assignment := fun _ => h }

theorem of_conditional (opens : Opens us) (h : ReadsConditional d 1 us e) : ReadsAs d 3 us e :=
  { of_assignment opens (h.assignment opens) with
    link := fun hr => absurd hr (by decide)
    callee := fun hr => absurd hr (by decide)
    unary := fun hr => absurd hr (by decide)
    binary := fun m hlo _ hm => absurd (Nat.le_trans hlo hm) (by decide)
    assignment := fun _ => h.assignment opens }

/-- What is read among the binary operators is read at its rank. -/
theorem of_binary (opens : Opens us) (hlo : 4 ≤ r) (hhi : r ≤ 15) (h : ReadsBinary d r us e) :
    ReadsAs d r us e :=
  have hassignment := (h.conditional (by omega)).mono.assignment opens
  { of_assignment opens hassignment with
    link := fun hr => absurd (Nat.le_trans hr hhi) (by decide)
    callee := fun hr => absurd (Nat.le_trans hr hhi) (by decide)
    unary := fun hr => absurd (Nat.le_trans hr hhi) (by decide)
    binary := fun m _ _ hm => h.lower hm
    assignment := fun _ => hassignment }

theorem of_unary (opens : Opens us) (h : ReadsUnary d us e) : ReadsAs d 16 us e :=
  have hassignment := ((h.binary (Nat.le_refl 16)).conditional (by decide)).mono.assignment opens
  { of_assignment opens hassignment with
    link := fun hr => absurd hr (by decide)
    callee := fun hr => absurd hr (by decide)
    unary := fun _ => h
    binary := fun m _ hm _ => h.binary hm
    assignment := fun _ => hassignment }

/-- A link of a chain is read at the rank of calls. -/
theorem of_link (opens : Opens (k :: us)) (hk : k.startsLink = true)
    (h : ReadsLink d (k :: us) e)
    (hcallee : e.containsCall = false → ReadsCallee d (k :: us) e) : ReadsAs d 18 (k :: us) e :=
  { of_unary opens (h.unary hk) with
    link := fun _ => ⟨h, k, us, rfl, hk⟩
    callee := fun _ => hcallee
    unary := fun _ => h.unary hk
    binary := fun m _ hm _ => (h.unary hk).binary hm
    assignment := fun _ => (of_unary opens (h.unary hk)).assignment (by decide) }

/-! #### Names and parentheses -/

theorem name {word : String} (hword : Kind.isContextual word = false) :
    ReadsAs 0 18 [.name word] (.ident ⟨word, s⟩) := by
  have hk : (Kind.name word).startsLink = true := by
    show (!Kind.isContextual word) = true
    rw [hword]
    rfl
  have hasync : word ≠ "async" := by
    rintro rfl
    cases hword
  have hprimary := readsPrimary_name hasync s
  exact of_link ⟨_, [], rfl, by rw [Kind.startsFormula, hk]; rfl, nofun⟩ hk (hprimary.link rfl)
    fun _ => hprimary.callee rfl

/-- Everything may stand between parentheses, and then everywhere. -/
theorem parens (h : ReadsAs d r us e) :
    ReadsAs (d + 1) 18 (.punct .leftParen :: us ++ [.punct .rightParen]) e := by
  obtain ⟨es, hrow, he⟩ := h.row
  have hprimary := readsPrimary_parens hrow he
  exact of_link ((h.opens.cons rfl).append rfl rfl) rfl (hprimary.link rfl)
    fun _ => hprimary.callee rfl

/-- Anything in parentheses can be called, one level deeper. -/
theorem parens_callee (h : ReadsAs d r us e) :
    ReadsCallee (d + 1) (.punct .leftParen :: us ++ [.punct .rightParen]) e := by
  obtain ⟨es, hrow, he⟩ := h.row
  exact (readsPrimary_parens hrow he).callee rfl

/-! #### Members, calls and creations -/

/-- A member by name extends a link. -/
theorem word (h : ReadsAs d 18 us o) (ho : o.isOptionalChain = false) (word : String) (t : Span) :
    ReadsAs d 18 (us ++ [.punct .dot, wordKind word])
      (.member s o (.ident ⟨word, t⟩) false) := by
  have opens : Opens (us ++ [.punct .dot, wordKind word]) := h.opens.append rfl rfl
  obtain ⟨hlink, k, us', rfl, hk⟩ := h.link (Nat.le_refl 18)
  exact of_link opens hk (hlink.word ho word t) fun hcall =>
    (h.callee (Nat.le_refl 18) hcall).word ho word t

/-- A computed member extends a link, its key one level deeper. -/
theorem computed (h : ReadsAs d 18 us o) (ho : o.isOptionalChain = false)
    (he : ReadsAs d r vs e) :
    ReadsAs (d + 1) 18 (us ++ .punct .leftBracket :: vs ++ [.punct .rightBracket])
      (.member s o (.computed e) false) := by
  obtain ⟨es, hrow, hes⟩ := he.row
  have opens : Opens (us ++ .punct .leftBracket :: vs ++ [.punct .rightBracket]) :=
    (h.opens.append rfl rfl).append rfl rfl
  have h' := h.mono (Nat.le_succ d)
  obtain ⟨hlink, k, us', rfl, hk⟩ := h'.link (Nat.le_refl 18)
  exact of_link opens hk (hlink.computed ho hrow hes) fun hcall =>
    (h'.callee (Nat.le_refl 18) hcall).computed ho hrow hes

/-- A call extends a link, its arguments one level deeper. -/
theorem call (h : ReadsAs d 18 us o) (ho : o.isOptionalChain = false)
    (hargs : IsArguments d es vs) :
    ReadsAs (d + 1) 18 (us ++ .punct .leftParen :: vs ++ [.punct .rightParen])
      (.call s o es false) := by
  have opens : Opens (us ++ .punct .leftParen :: vs ++ [.punct .rightParen]) :=
    (h.opens.append rfl rfl).append rfl rfl
  have h' := h.mono (Nat.le_succ d)
  obtain ⟨hlink, k, us', rfl, hk⟩ := h'.link (Nat.le_refl 18)
  exact of_link opens hk (hlink.call ho hargs) nofun

/-- `new` takes a callee without calls and the arguments behind it. -/
theorem new (opens : Opens us) (hf : ReadsCallee d us f) (hargs : IsArguments d es vs) :
    ReadsAs (d + 2) 18 (.keyword .newKw :: us ++ .punct .leftParen :: vs ++ [.punct .rightParen])
      (.new s f es) := by
  have hconstruct := readsConstruct opens hf hargs s
  have hopens : Opens
      (.keyword .newKw :: us ++ .punct .leftParen :: vs ++ [.punct .rightParen]) :=
    ((opens.cons rfl).append rfl rfl).append rfl rfl
  exact of_link hopens rfl (hconstruct.link.mono (Nat.le_succ _)) fun _ => hconstruct.callee

/-! #### Operators -/

/-- A prefix operator in front of an operand that binds as tightly. -/
theorem operator (h : ReadsAs d r us e) (hr : 16 ≤ r) (op : UnaryOp) :
    ReadsAs (d + 1) 16 (op.kind :: us) (.unary s op e) :=
  of_unary (h.opens.cons (by cases op <;> rfl)) (readsUnary_operator (h.unary hr) op)

/-- `++` or `--` in front of a target. -/
theorem changeInFront (h : ReadsAs d r us e) (hr : 16 ≤ r) (he : e.IsTarget) (op : UpdateOp) :
    ReadsAs (d + 1) 16 (.punct op.sign :: us) (.update s op true e) :=
  of_unary (h.opens.cons (by cases op <;> rfl)) (readsUnary_inFront (h.unary hr) he op)

/-- `++` or `--` behind a target. -/
theorem changeBehind (h : ReadsAs d 18 us e) (he : e.IsTarget) (op : UpdateOp) :
    ReadsAs d 16 (us ++ [.punct op.sign]) (.update s op false e) := by
  have opens : Opens (us ++ [.punct op.sign]) := by
    cases op <;> exact h.opens.append rfl rfl
  obtain ⟨hlink, k, us', rfl, hk⟩ := h.link (Nat.le_refl 18)
  exact of_unary opens (readsUnary_behind hlink hk he op)

/-- An operator between two operands: the left one may have the rank of the operator, the right one
has to have a higher one, except that powers group from the right. -/
theorem operation {op : InfixOp} {r' : Nat} (hl : ReadsAs d r us l) (hr : op.kind.grip ≤ r)
    (he : ReadsAs d r' vs e)
    (hr' : (if op.isRightAssociative then 15 else op.precedence + 4) ≤ r') :
    ReadsAs (d + 1) (op.precedence + 3) (us ++ op.kind :: vs) (.operation s op l e) := by
  have opens : Opens (us ++ op.kind :: vs) := by
    rcases op with op | op <;> cases op <;> exact hl.opens.append rfl rfl
  have hpos := op.precedence_pos
  have hle : op.precedence ≤ 12 := op.precedence_le
  have hgrip := Kind.grip_of_operator? op.operator?_kind
  -- The left operand is read in front of its operator, so it must have at least its grip.
  have hleft : ReadsBinary (d + 1) (min r 16) us l := by
    refine (hl.binary (min r 16) ?_ (by omega) (by omega)).mono (Nat.le_succ d)
    split at hgrip <;> omega
  have hright : ReadsRight (d + 1) op vs e := by
    cases hassoc : op.isRightAssociative with
    | true =>
      rw [hassoc] at hr'
      rw [eq_of_beq hassoc]
      exact (he.binary 15 (by decide) (by decide) hr').power
    | false =>
      rw [hassoc] at hr'
      have hne : op.precedence + 4 ≤ 16 := by omega
      exact ((he.binary (op.precedence + 4) (by omega) hne hr').mono (Nat.le_succ d)).right hassoc
        (Nat.le_refl _)
  refine of_binary opens (by omega) (by omega) (readsBinary_operator hleft ?_ hright)
  split at hgrip <;> omega

/-- A conditional over a test that binds tighter and two assignments. -/
theorem conditional {r₁ r₂ r₃ : Nat} (ha : ReadsAs d r₁ us a) (hr₁ : 4 ≤ r₁)
    (hc : ReadsAs d r₂ vs c) (hr₂ : 2 ≤ r₂) (he : ReadsAs d r₃ ws e) (hr₃ : 2 ≤ r₃) :
    ReadsAs (d + 1) 3 (us ++ .punct .question :: vs ++ .punct .colon :: ws)
      (.conditional s a c e) := by
  have hconditional := readsConditional (s := s) (ha.binary 4 (Nat.le_refl 4) (by decide) hr₁)
    (by decide) (hc.assignment hr₂) (he.assignment hr₃)
  refine of_conditional ?_ hconditional
  rw [List.append_assoc]
  exact ha.opens.append rfl rfl

/-- An assignment takes a target to its left and an assignment to its right. -/
theorem assign {op : AssignOp} {p : Pattern} {r' : Nat} (hop : op ∈ AssignOp.all)
    (hl : ReadsAs d r us l) (hr : 4 ≤ r) (htarget : l.IsTarget) (hp : p.tree = l.tree)
    (he : ReadsAs d r' vs e) (hr' : 2 ≤ r') :
    ReadsAs (d + 1) 2 (us ++ .punct op.sign :: vs) (.assign s op p e) := by
  have hleft := (hl.binary 4 (Nat.le_refl 4) (by decide) hr).conditional (by decide)
  have hsign : op.sign ≠ .colon ∧ op.sign ≠ .arrow := by
    have hall : ∀ op ∈ AssignOp.all, op.sign ≠ .colon ∧ op.sign ≠ .arrow := by decide
    exact hall op hop
  refine of_assignment ?_ (readsAssignment hop hleft hl.opens htarget hp (he.assignment hr'))
  exact hl.opens.append (beq_false_of_ne hsign.1) (beq_false_of_ne hsign.2)

/-- Two or more assignments with commas between them. -/
theorem sequence (h : Row d es us) (hlength : 2 ≤ es.length) :
    ReadsAs d 1 us (.sequence s es) :=
  of_row h.opens h (.inr ⟨s, rfl, hlength⟩)

end ReadsAs

/-! ### Statements -/

/-- A statement is the expression. -/
def States (a : Stmt) (e : Expr) : Prop := ∃ (t : Span) (b : Expr), a = .expr t b ∧ b.SameTree e

variable {deep : Prop} {n : Nat} {env : Env} {st : State} {ks : List Kind}

/-- A formula and a semicolon are read as a statement of that formula. -/
theorem finds_expressionStatement (h : ReadsAs d r us e) (hdeep : n < d + 1 → deep)
    (hahead : Ahead env st (us ++ .punct .semicolon :: ks)) :
    Finds deep (expressionStatement (ofDepth n)) env st fun a st' =>
      States a e ∧ st' = st.past (us ++ [.punct .semicolon]) := by
  obtain ⟨es, hrow, he⟩ := h.row
  refine .step rfl (.bind (.withIn ?_))
  refine (finds_expression hrow he hdeep hahead.withIn (.cons (by decide))).mono ?_
  rintro b _ ⟨hb, rfl⟩
  refine .bind (.yes (hahead.past.eat rfl) (.ret (.step rfl (.ret ⟨⟨_, b, rfl, hb⟩, ?_⟩))))
  rw [State.past_append]
  rfl

/-- A statement that starts with a name that has no meaning of its own there. -/
theorem finds_nameStatement {g : Grammar} {word : String} {Q : Stmt → State → Prop}
    (hword : Kind.isContextual word = false) (hahead : Ahead env st (.name word :: ks))
    (h : Finds deep (nameStatement g) env st Q) : Finds deep (anyStatement g) env st Q := by
  have hlet : word ≠ "let" := by
    rintro rfl
    cases hword
  have hasync : word ≠ "async" := by
    rintro rfl
    cases hword
  refine .step rfl ?_
  rw [hahead.kind]
  simp only
  exact h

/-- A formula is not taken for another statement. -/
theorem finds_anyStatement (h : ReadsAs d r us e) (hdeep : n < d + 1 → deep)
    (hahead : Ahead env st (us ++ .punct .semicolon :: ks)) :
    Finds deep (anyStatement (ofDepth n)) env st fun a st' =>
      States a e ∧ st' = st.past (us ++ [.punct .semicolon]) := by
  have hexpr := finds_expressionStatement h hdeep hahead
  -- a name needs a look ahead: with a colon behind it, it would be a label
  have hname : Finds deep (nameStatement (ofDepth n)) env st fun a st' =>
      States a e ∧ st' = st.past (us ++ [.punct .semicolon]) := by
    refine .step rfl ?_
    rw [h.opens.peek_isPunct (.inl rfl) hahead rfl]
    exact hexpr
  obtain ⟨k, us', rfl, hk, -⟩ := h.opens
  -- the kinds that start a formula are no statement keyword and no brace
  cases k with
  | name word =>
    have hword : Kind.isContextual word = false := by
      simpa [Kind.startsFormula, Kind.startsLink, unaryOp?, updateOp?] using hk
    exact finds_nameStatement hword hahead hname
  | punct p =>
    refine .step rfl ?_
    rw [hahead.kind]
    cases p <;> first | exact hexpr | cases hk
  | keyword w =>
    refine .step rfl ?_
    rw [hahead.kind]
    cases w <;> first | exact hexpr | cases hk
  | _ => cases hk

theorem isEof_of_isSolid (hk : k.IsSolid) : k.isEof = false := by
  cases k with
  | eof => cases hk
  | _ => rfl

/-- A source with the tokens of one statement is that statement. -/
theorem finds_oneStatement {Q : Stmt → Prop} (hk : k.IsSolid)
    (hstatement : Finds deep full.statement env st fun a st' => Q a ∧ st' = st.past (k :: us))
    (hahead : Ahead env st (k :: us ++ [.eof])) :
    Finds deep statements env st fun body _ => ∃ a, body = [a] ∧ Q a := by
  refine .bind (.repeat (.step rfl ?_))
  rw [hahead.kind, isEof_of_isSolid hk]
  refine .bind (hstatement.mono ?_)
  rintro a _ ⟨ha, rfl⟩
  refine ⟨hahead.goesOn hk, .repeat (.step rfl ?_)⟩
  rw [hahead.past.kind]
  exact .ret ⟨a, rfl, ha⟩

/-- A source that is a formula with a semicolon behind it is one statement. -/
theorem finds_statements (h : ReadsAs d r us e) (hdeep : 127 < d + 1 → deep)
    (hahead : Ahead env st (us ++ [.punct .semicolon, .eof])) :
    Finds deep statements env st fun body _ => ∃ a, body = [a] ∧ States a e := by
  have hstatement := finds_anyStatement h hdeep hahead
  obtain ⟨k, us', rfl, hk⟩ := h.opens.isSolid
  have hahead' : Ahead env st (k :: us' ++ [.punct .semicolon] ++ [.eof]) := by
    simpa using hahead
  exact finds_oneStatement hk hstatement hahead'

end Grammar

/-- The tokens of a source are ahead when its reading starts. -/
theorem Parse.ahead_initial {source : String} {ks : List Kind} (hscans : Scans source.toList ks)
    (options : ParserOptions) :
    Ahead { options, size := source.utf8ByteSize, inAsync := options.isModule }
      { current := scan (.ofSource source), prevEnd := 0 } ks :=
  ⟨⟨source.toList, isIn_initial source, (Text.bytes_toList source).symm⟩, fun _ => rfl,
    .ofSource source, rfl, hscans⟩

/-- A reader is run on a source of which all tokens are known, with options that are known. -/
theorem Parse.run_finds_with {α : Type} {deep : Prop} {p : Parse α} {P : α → Prop}
    {source : String} {ks : List Kind} {options : ParserOptions}
    (hscans : Scans source.toList ks)
    (hp : ∀ env st, env.options = options → Ahead env st ks →
      Finds deep p env st fun a _ => P a) :
    match p.run source options with
    | .ok a => P a
    | .error f => f.cause = .tooDeep ∧ deep := by
  have hfinds := hp _ _ rfl (ahead_initial hscans options)
  unfold Finds at hfinds
  unfold Parse.run
  dsimp only
  cases heq : p { options, size := source.utf8ByteSize, inAsync := options.isModule }
      { current := scan (.ofSource source), prevEnd := 0 } with
  | ok x =>
    rw [heq] at hfinds
    exact hfinds
  | error e =>
    rw [heq] at hfinds
    exact hfinds

/-- A reader is run on a source of which all tokens are known. -/
theorem Parse.run_finds {α : Type} {deep : Prop} {p : Parse α} {P : α → Prop} {source : String}
    {ks : List Kind} (hscans : Scans source.toList ks)
    (hp : ∀ env st, Ahead env st ks → Finds deep p env st fun a _ => P a)
    (options : ParserOptions) :
    match p.run source options with
    | .ok a => P a
    | .error f => f.cause = .tooDeep ∧ deep :=
  run_finds_with hscans fun env st _ hahead => hp env st hahead

end Espalier
