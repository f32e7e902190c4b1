import Espalier.Proofs.Grammar.Formula

/-!
# How operators are grouped

Names with operators between them can be grouped in many ways, but in only one that follows the
precedences (`Grouping.eq_ofLinks`): it is found by attaching one operator after the other at the
right edge of what has been grouped so far. That is how they are parsed (`Expr.parse_operators`),
unless more than 127 powers stand in one another's right operands.
-/

namespace Espalier

open Token Parse

/-! ### Groupings -/

namespace InfixOp

/-- Whether an operation with `inner` may be the left operand of `op`. -/
def takesLeft (op inner : InfixOp) : Bool :=
  if op = .binary .pow then op.precedence < inner.precedence
  else op.precedence ≤ inner.precedence

/-- Whether an operation with `inner` may be the right operand of `op`. -/
def takesRight (op inner : InfixOp) : Bool :=
  if op = .binary .pow then op.precedence ≤ inner.precedence
  else op.precedence < inner.precedence

/-- Of two operators side by side, one takes the other. -/
theorem takesLeft_eq (op inner : InfixOp) : op.takesLeft inner = !inner.takesRight op := by
  rcases op with op | op <;> rcases inner with inner | inner <;> cases op <;> cases inner <;> rfl

/-- An operator takes to its left only what binds at least as tightly. -/
theorem le_of_takesLeft {op inner : InfixOp} (h : op.takesLeft inner = true) :
    op.precedence ≤ inner.precedence := by
  unfold takesLeft at h
  split at h
  · exact Nat.le_of_lt (of_decide_eq_true h)
  · exact of_decide_eq_true h

theorem le_of_takesRight {op inner : InfixOp} (h : op.takesRight inner = true) :
    op.precedence ≤ inner.precedence := by
  unfold takesRight at h
  split at h
  · exact of_decide_eq_true h
  · exact Nat.le_of_lt (of_decide_eq_true h)

/-- What is tighter than something taken to the right is taken as well. -/
theorem takesRight_of_le {op inner inner' : InfixOp} (h : op.takesRight inner = true)
    (hle : inner.precedence ≤ inner'.precedence) : op.takesRight inner' = true := by
  unfold takesRight at h ⊢
  split
  · next hpow =>
    rw [if_pos hpow] at h
    exact decide_eq_true (Nat.le_trans (of_decide_eq_true h) hle)
  · next hpow =>
    rw [if_neg hpow] at h
    exact decide_eq_true (Nat.lt_of_lt_of_le (of_decide_eq_true h) hle)

/-- Only powers bind tightest. -/
theorem precedence_lt {op : InfixOp} (h : op.isRightAssociative = false) :
    op.precedence < tightest := by
  rcases op with op | op <;> cases op <;> first | decide | cases h

end InfixOp

/-- Names with operators between them, put together two at a time. -/
inductive Grouping
  | operand (name : String)
  | operation (op : InfixOp) (left right : Grouping)
  deriving DecidableEq, Repr

namespace Grouping

/-- The first operand. -/
def first : Grouping → String
  | operand name => name
  | operation _ l _ => l.first

/-- The operators in the order in which they are written, each with the operand behind it. -/
def links : Grouping → List (InfixOp × String)
  | operand _ => []
  | operation op l r => l.links ++ (op, r.first) :: r.links

/-- The operator that is applied last. -/
def root? : Grouping → Option InfixOp
  | operand _ => none
  | operation op _ _ => some op

/-- The left operand of an operator binds at least as tightly, and tighter if the operator is a
power; the right operand binds tighter, or at least as tightly if the operator is a power. -/
def FollowsPrecedence : Grouping → Prop
  | operand _ => True
  | operation op l r =>
    l.FollowsPrecedence ∧ r.FollowsPrecedence ∧
      (∀ inner ∈ l.root?, op.takesLeft inner = true) ∧
      ∀ inner ∈ r.root?, op.takesRight inner = true

instance decidableFollowsPrecedence : (t : Grouping) → Decidable t.FollowsPrecedence
  | operand _ => isTrue trivial
  | operation _ l r =>
    have := decidableFollowsPrecedence l
    have := decidableFollowsPrecedence r
    inferInstanceAs (Decidable (_ ∧ _ ∧ _ ∧ _))

/-- The expression, with no spans. -/
def expr : Grouping → Expr
  | operand name => .ident ⟨name, default⟩
  | operation op l r => .operation default op l.expr r.expr

/-- How many powers stand in one another's right operands. -/
def powers : Grouping → Nat
  | operand _ => 0
  | operation op l r => max l.powers (if op.isRightAssociative then r.powers + 1 else r.powers)

/-- Puts an operator and an operand at the right edge, below the operators that take it. -/
def attach (op : InfixOp) (name : String) : Grouping → Grouping
  | operand x => operation op (operand x) (operand name)
  | operation outer l r =>
    if outer.takesRight op then operation outer l (r.attach op name)
    else operation op (operation outer l r) (operand name)

/-- What is grouped by attaching one operator after the other. -/
def ofLinks (t : Grouping) (ls : List (InfixOp × String)) : Grouping :=
  ls.foldl (fun t l => t.attach l.1 l.2) t

variable {t l r : Grouping} {op : InfixOp} {name : String} {ls : List (InfixOp × String)}

/-! ### There is one -/

/-- Attaching leaves the first operand alone. -/
theorem first_attach (t : Grouping) : (t.attach op name).first = t.first := by
  fun_induction attach op name t with
  | case1 => rfl
  | case2 => rfl
  | case3 => rfl

/-- Attaching puts one operator and operand at the end. -/
theorem links_attach (t : Grouping) : (t.attach op name).links = t.links ++ [(op, name)] := by
  fun_induction attach op name t with
  | case1 => rfl
  | case2 outer l r htakes ih =>
    rw [links, ih, first_attach, links, List.append_assoc]
    rfl
  | case3 => rfl

/-- What is at the root either was there or is new. -/
theorem root?_attach (t : Grouping) {inner : InfixOp} (h : inner ∈ (t.attach op name).root?) :
    inner = op ∨ inner ∈ t.root? := by
  unfold attach at h
  split at h
  · exact .inl (Option.some.inj h).symm
  · split at h
    · exact .inr h
    · exact .inl (Option.some.inj h).symm

/-- Attaching keeps to precedence: it goes down the right edge as far as the operator takes. -/
theorem FollowsPrecedence.attach (h : t.FollowsPrecedence) :
    (t.attach op name).FollowsPrecedence := by
  fun_induction Grouping.attach op name t with
  | case1 => exact ⟨trivial, trivial, nofun, nofun⟩
  | case2 outer l r htakes ih =>
    obtain ⟨hl, hr, hleft, hright⟩ := h
    refine ⟨hl, ih hr, hleft, fun inner hinner => ?_⟩
    rcases root?_attach r hinner with rfl | hinner
    · exact htakes
    · exact hright inner hinner
  | case3 outer l r htakes =>
    refine ⟨h, trivial, ?_, nofun⟩
    rintro inner ⟨⟩
    rw [InfixOp.takesLeft_eq, Bool.not_eq_true', ← Bool.not_eq_true]
    exact htakes

theorem first_ofLinks (t : Grouping) (ls : List (InfixOp × String)) :
    (ofLinks t ls).first = t.first := by
  induction ls generalizing t with
  | nil => rfl
  | cons l ls ih => exact (ih _).trans (first_attach t)

/-- The operators and operands of a grouping come back in order. -/
theorem links_ofLinks (t : Grouping) (ls : List (InfixOp × String)) :
    (ofLinks t ls).links = t.links ++ ls := by
  induction ls generalizing t with
  | nil => exact (List.append_nil _).symm
  | cons l ls ih =>
    refine (ih _).trans ?_
    rw [links_attach, List.append_assoc]
    rfl

theorem FollowsPrecedence.ofLinks (h : t.FollowsPrecedence) (ls : List (InfixOp × String)) :
    (ofLinks t ls).FollowsPrecedence := by
  induction ls generalizing t with
  | nil => exact h
  | cons l ls ih => exact ih h.attach

/-! ### There is only one -/

/-- No operator binds less than the one that is applied last. -/
theorem FollowsPrecedence.le_of_mem_links (h : t.FollowsPrecedence) {p : Nat}
    (hroot : ∀ op ∈ t.root?, p ≤ op.precedence) : ∀ l ∈ t.links, p ≤ l.1.precedence := by
  induction t with
  | operand => nofun
  | operation op l r ihl ihr =>
    obtain ⟨hl, hr, hleft, hright⟩ := h
    have hop : p ≤ op.precedence := hroot op rfl
    rw [links, List.forall_mem_append, List.forall_mem_cons]
    refine ⟨ihl hl fun inner hinner => ?_, hop, ihr hr fun inner hinner => ?_⟩
    · exact Nat.le_trans hop (InfixOp.le_of_takesLeft (hleft inner hinner))
    · exact Nat.le_trans hop (InfixOp.le_of_takesRight (hright inner hinner))

/-- An operator is attached above what it takes as its left operand. -/
theorem attach_of_takesLeft (h : ∀ inner ∈ l.root?, op.takesLeft inner = true) :
    l.attach op name = operation op l (operand name) := by
  cases l with
  | operand => rfl
  | operation inner l r =>
    have htakes := h inner rfl
    rw [InfixOp.takesLeft_eq, Bool.not_eq_true'] at htakes
    rw [attach, htakes, if_neg Bool.false_ne_true]

/-- Operators are attached to the right operand of one that takes them all. -/
theorem ofLinks_operation (h : ∀ l ∈ ls, op.takesRight l.1 = true) :
    ofLinks (operation op l r) ls = operation op l (ofLinks r ls) := by
  induction ls generalizing r with
  | nil => rfl
  | cons link ls ih =>
    obtain ⟨hlink, hls⟩ := List.forall_mem_cons.mp h
    show ofLinks (attach link.1 link.2 (operation op l r)) ls = _
    rw [attach, if_pos hlink, ih hls]
    rfl

/-- A grouping that follows the precedences is determined by what is written. -/
theorem FollowsPrecedence.eq_ofLinks (h : t.FollowsPrecedence) :
    t = Grouping.ofLinks (operand t.first) t.links := by
  induction t with
  | operand => rfl
  | operation op l r ihl ihr =>
    obtain ⟨hl, hr, hleft, hright⟩ := h
    -- the root of the right operand is the loosest in it, so all of it is taken
    have htakes : ∀ link ∈ r.links, op.takesRight link.1 = true := by
      intro link hlink
      cases r with
      | operand => cases hlink
      | operation inner =>
        refine InfixOp.takesRight_of_le (hright inner rfl) (hr.le_of_mem_links ?_ link hlink)
        rintro op' ⟨⟩
        exact Nat.le_refl _
    -- the left operand first, then the operator, then the links of the right one
    have happend : Grouping.ofLinks (operand l.first) (l.links ++ (op, r.first) :: r.links) =
        Grouping.ofLinks ((Grouping.ofLinks (operand l.first) l.links).attach op r.first)
          r.links := by
      unfold Grouping.ofLinks
      rw [List.foldl_append, List.foldl_cons]
    rw [first, links, happend, ← ihl hl, attach_of_takesLeft hleft, ofLinks_operation htakes,
      ← ihr hr]

end Grouping

/-! ### How groupings are read -/

/-- A name that is an operand wherever one may stand. -/
def isOperandName (word : String) : Bool :=
  isWord word && (Keyword.ofText? word).isNone && !(["async", "await", "yield"].contains word)

theorem isOperandName_iff {word : String} : isOperandName word = true ↔
    isWord word = true ∧ Keyword.ofText? word = none ∧
      word ≠ "async" ∧ word ≠ "await" ∧ word ≠ "yield" := by
  simp [isOperandName, and_assoc]

namespace Grouping

open Grammar

variable {t : Grouping} {deep : Prop} {d n r : Nat} {env : Env} {st : State} {us ks : List Kind}
  {e : Expr}

/-- The tokens that are written. -/
def kinds : Grouping → List Kind
  | operand name => [.name name]
  | operation op l r => l.kinds ++ op.kind :: r.kinds

theorem kinds_eq (t : Grouping) :
    t.kinds = .name t.first :: t.links.flatMap fun l => [l.1.kind, .name l.2] := by
  induction t with
  | operand => rfl
  | operation op l r ihl ihr =>
    rw [kinds, ihl, ihr, first, links, List.flatMap_append, List.flatMap_cons]
    rfl

/-- The rank of what is grouped, on the scale of grips. -/
def rank : Grouping → Nat
  | operand _ => 16
  | operation op _ _ => op.precedence + 3

/-- An operand is a name the grammar reads as a variable. -/
theorem readsUnary_operand {word : String} (h : isOperandName word = true) :
    ReadsUnary 0 [.name word] (.ident ⟨word, default⟩) := by
  obtain ⟨-, -, hasync, hawait, -⟩ := isOperandName_iff.mp h
  exact ((readsPrimary_name hasync default).link rfl).operand ⟨rfl, rfl⟩ (beq_false_of_ne hawait)

/-- The left operand is read in front of its operator. -/
theorem grip_le_rank {op : InfixOp} {l : Grouping}
    (h : ∀ inner ∈ l.root?, op.takesLeft inner = true) : op.kind.grip ≤ l.rank := by
  have hle : op.precedence ≤ 12 := op.precedence_le
  rw [Kind.grip_of_operator? op.operator?_kind]
  cases l with
  | operand =>
    show _ ≤ 16
    split <;> omega
  | operation inner =>
    have htakes := h inner rfl
    have hinner : inner.precedence ≤ 12 := inner.precedence_le
    show _ ≤ inner.precedence + 3
    split
    · next hassoc =>
      -- Nothing binds tighter than a power.
      rw [eq_of_beq hassoc] at htakes
      exact absurd (of_decide_eq_true htakes) (Nat.not_lt.mpr hinner)
    · exact Nat.add_le_add_right (InfixOp.le_of_takesLeft htakes) 3

/-- The right operand is read up to what its operator does not take. -/
theorem le_rank_right {op : InfixOp} {r : Grouping}
    (h : ∀ inner ∈ r.root?, op.takesRight inner = true) :
    (if op.isRightAssociative then 15 else op.precedence + 4) ≤ r.rank := by
  cases r with
  | operand =>
    show _ ≤ 16
    split
    · decide
    · next hassoc =>
      have hlt : op.precedence < 12 := InfixOp.precedence_lt ((Bool.not_eq_true _).mp hassoc)
      omega
  | operation inner =>
    have htakes := h inner rfl
    show _ ≤ inner.precedence + 3
    split
    · -- only a power takes its own kind to the right
      next hassoc =>
      rw [eq_of_beq hassoc] at htakes
      exact Nat.add_le_add_right (InfixOp.le_of_takesRight htakes) 3
    · next hassoc =>
      have hne : op ≠ .binary .pow := fun heq => hassoc (beq_iff_eq.mpr heq)
      rw [InfixOp.takesRight, if_neg hne] at htakes
      exact Nat.add_le_add_right (of_decide_eq_true htakes) 3

/-- What is grouped by precedence is read as it is grouped. -/
theorem FollowsPrecedence.readsBinary (h : t.FollowsPrecedence)
    (hfirst : isOperandName t.first = true) (hlinks : ∀ l ∈ t.links, isOperandName l.2 = true) :
    ReadsBinary t.powers t.rank t.kinds t.expr := by
  induction t with
  | operand => exact (readsUnary_operand hfirst).binary (Nat.le_refl 16)
  | operation op l r ihl ihr =>
    obtain ⟨hl, hr, hleft, hright⟩ := h
    rw [links, List.forall_mem_append, List.forall_mem_cons] at hlinks
    have hreads := ihl hl hfirst hlinks.1
    have hreads' := ihr hr hlinks.2.1 hlinks.2.2
    have hrank := le_rank_right hright
    -- a power nests its right operand, any other operator reads on in the same loop
    have hoperand : ReadsRight (if op.isRightAssociative then r.powers + 1 else r.powers) op r.kinds
        r.expr := by
      cases hassoc : op.isRightAssociative with
      | true =>
        rw [hassoc] at hrank
        rw [eq_of_beq hassoc]
        exact (hreads'.lower hrank).power
      | false =>
        rw [hassoc] at hrank
        exact hreads'.right hassoc hrank
    exact readsBinary_operator (hreads.mono (Nat.le_max_left _ _)) (grip_le_rank hleft)
      (hoperand.mono (Nat.le_max_right _ _))

theorem three_le_rank (t : Grouping) : 3 ≤ t.rank := by
  cases t with
  | operand => exact (by decide : 3 ≤ 16)
  | operation op => exact Nat.le_add_left 3 op.precedence

/-- The first operand is no parameter of an arrow function. -/
theorem peek_isPunct (hahead : Ahead env st (t.kinds ++ ks)) (hstops : Stops 1 ks) :
    (scan st.current.after).token.isPunct .arrow = false := by
  show (scan st.current.after).token.kind.isPunct .arrow = false
  rw [kinds_eq] at hahead
  cases hlinks : t.links with
  | nil =>
    obtain ⟨k, ks', rfl, hk⟩ := hstops
    rw [hlinks] at hahead
    rw [Ahead.peek_kind hahead]
    exact Kind.isPunct_eq_false hk (by decide)
  | cons l ls =>
    have hgrip : l.1.kind.grip ≤ 16 := grip_le_rank (l := operand t.first) nofun
    rw [hlinks] at hahead
    rw [Ahead.peek_kind hahead]
    exact Kind.isPunct_eq_false hgrip (by decide)

/-- A grouping read as an assignment, since every operator binds tighter than one. -/
theorem FollowsPrecedence.readsAssignment (h : t.FollowsPrecedence)
    (hfirst : isOperandName t.first = true) (hlinks : ∀ l ∈ t.links, isOperandName l.2 = true) :
    ReadsAssignment t.powers t.kinds t.expr := by
  intro deep n env st ks hdeep hahead hstops
  have hreads := ((h.readsBinary hfirst hlinks).conditional t.three_le_rank).mono
  have hfinds := hreads.finds hdeep hahead hstops
  have hnext := peek_isPunct hahead hstops
  obtain ⟨-, -, hasync, -, hyield⟩ := isOperandName_iff.mp hfirst
  rw [kinds_eq] at hahead
  exact finds_plainAssignment hahead (beq_false_of_ne hyield) (beq_false_of_ne hasync) hnext hfinds

end Grouping

/-- A source that is one expression. -/
theorem Grammar.finds_wholeExpression {deep : Prop} {d : Nat} {env : Env} {st : State}
    {us : List Kind} {e : Expr} (h : ReadsAssignment d us e) (hdeep : 127 < d → deep)
    (hahead : Ahead env st (us ++ [.eof])) :
    Finds deep wholeExpression env st fun a _ => a.SameTree e := by
  have hstops : Stops 1 [Kind.eof] := .cons (by decide)
  refine .bind (.bind ((h.nested (n := 128) ?_ hahead hstops).mono ?_))
  · exact fun hd => hdeep (Nat.lt_of_succ_lt_succ hd)
  rintro a _ ⟨ha, rfl⟩
  refine .no (hahead.past.isPunct .comma) (.ret (.step rfl ?_))
  rw [hahead.past.kind]
  exact .ret ha

/-! ### How they are written -/

/-- An operator with blanks around it and the operand behind it. -/
structure OperatorText where
  before : List Char
  op : InfixOp
  after : List Char
  name : String

namespace OperatorText

/-- The characters. -/
def text (l : OperatorText) : List Char :=
  l.before ++ (l.op.text.toList ++ (l.after ++ l.name.toList))

/-- There are blanks on both sides of the operator, and the operand is a name. -/
structure IsSpaced (l : OperatorText) : Prop where
  before_ne : l.before ≠ []
  isBlank_before : ∀ c ∈ l.before, isBlank c = true
  after_ne : l.after ≠ []
  isBlank_after : ∀ c ∈ l.after, isBlank c = true
  name : isOperandName l.name = true

/-- An operator before a blank is read as it is spelled. -/
theorem scansTo_operator (op : InfixOp) {k : List Char} (hk : ∀ c ∈ k.head?, isBlank c = true) :
    ScansTo (op.text.toList ++ k) op.kind k := by
  have hop := op.operator?_kind
  cases hkind : op.kind with
  | punct p =>
    rw [hkind] at hop
    rw [← Punct.text_of_operator? hop]
    exact scansTo_sign fun c hc => p.joins_of_isBlank (hk c hc)
  | keyword w =>
    rw [hkind] at hop
    have htext : w.text = op.text := by
      cases w <;> first | cases hop; rfl | cases hop
    rw [← htext, ← wordKind_text]
    refine scansTo_word (by cases w <;> decide) fun c hc => ?_
    exact (continuesName_of_isBlank (hk c hc)).1
  | _ =>
    rw [hkind] at hop
    cases hop

variable {ls : List OperatorText}

/-- The first of the blanks that stand in front of something. -/
theorem isBlank_head? {blanks k : List Char} (hne : blanks ≠ [])
    (h : ∀ c ∈ blanks, isBlank c = true) : ∀ c ∈ (blanks ++ k).head?, isBlank c = true := by
  obtain ⟨c, cs, rfl⟩ := List.exists_cons_of_ne_nil hne
  rintro d ⟨⟩
  exact h c List.mem_cons_self

/-- Where an operator stands or the source ends, no name goes on. -/
theorem endsName_texts (h : ∀ l ∈ ls, l.IsSpaced) : EndsName (ls.flatMap text) := by
  cases ls with
  | nil => nofun
  | cons l ls =>
    have hl := h l List.mem_cons_self
    intro c hc
    rw [List.flatMap_cons, text, List.append_assoc] at hc
    exact (continuesName_of_isBlank (isBlank_head? hl.before_ne hl.isBlank_before c hc)).1

/-- Operators and operands with blanks between them are scanned into their tokens. -/
theorem scans_texts (h : ∀ l ∈ ls, l.IsSpaced) : Scans (ls.flatMap text)
    ((ls.map fun l => (l.op, l.name)).flatMap (fun l => [l.1.kind, .name l.2]) ++ [.eof]) := by
  induction ls with
  | nil => exact scans_eof
  | cons l ls ih =>
    obtain ⟨hl, hls⟩ := List.forall_mem_cons.mp h
    obtain ⟨hword, hkeyword, -⟩ := isOperandName_iff.mp hl.name
    have hname := scansTo_word hword (endsName_texts hls)
    rw [wordKind, hkeyword] at hname
    have hoperand := Scans.whites hl.isBlank_after rfl (.cons hname (ih hls))
    have hoperator := scansTo_operator l.op
      (isBlank_head? (k := l.name.toList ++ ls.flatMap text) hl.after_ne hl.isBlank_after)
    have hminds : l.op.kind.mindsLine = false := by
      rcases l.op with op | op <;> cases op <;> rfl
    have hscans := Scans.whites hl.isBlank_before hminds (.cons hoperator hoperand)
    rw [List.flatMap_cons, text, List.append_assoc, List.append_assoc, List.append_assoc]
    exact hscans

end OperatorText

/-- What is written for a grouping that follows the precedences is parsed as it is grouped. -/
theorem Grouping.FollowsPrecedence.parse {t : Grouping} {ls : List OperatorText}
    (h : t.FollowsPrecedence) (hfirst : isOperandName t.first = true)
    (hls : ∀ l ∈ ls, l.IsSpaced) (hlinks : t.links = ls.map fun l => (l.op, l.name)) :
    match Expr.parse (String.ofList (t.first.toList ++ ls.flatMap OperatorText.text)) with
    | .ok e => e.SameTree t.expr
    | .error f => f.cause = .tooDeep ∧ 127 < t.powers := by
  have hnames : ∀ l ∈ t.links, isOperandName l.2 = true := by
    rw [hlinks]
    exact List.forall_mem_map.mpr fun l hl => (hls l hl).name
  obtain ⟨hword, hkeyword, -⟩ := isOperandName_iff.mp hfirst
  have hscans := Scans.cons (scansTo_word hword (OperatorText.endsName_texts hls))
    (OperatorText.scans_texts hls)
  rw [wordKind, hkeyword, ← hlinks] at hscans
  -- the tokens of the text are those of the grouping
  have hkinds : Scans (String.ofList (t.first.toList ++ ls.flatMap OperatorText.text)).toList
      (t.kinds ++ [.eof]) := by
    rw [String.toList_ofList, t.kinds_eq]
    exact hscans
  have hrun := run_finds hkinds (fun env st hahead =>
    Grammar.finds_wholeExpression (h.readsAssignment hfirst hnames) id hahead) {}
  unfold Expr.parse
  split <;> next heq => rwa [heq] at hrun

/-- **Operators are grouped by precedence.** Names with operators between them, and blanks around
the operators, can be grouped in one way that follows the precedences, and are parsed as the
expression that is grouped so, unless that has more than 127 powers in one another's right
operands and is refused as nested too deep. -/
theorem Expr.parse_operators {x : String} {ls : List OperatorText}
    (hx : isOperandName x = true) (hls : ∀ l ∈ ls, l.IsSpaced) :
    ∃ t : Grouping,
      (t.first = x ∧ t.links = ls.map (fun l => (l.op, l.name)) ∧ t.FollowsPrecedence) ∧
      (∀ t' : Grouping, t'.first = x → t'.links = ls.map (fun l => (l.op, l.name)) →
        t'.FollowsPrecedence → t' = t) ∧
      match Expr.parse (String.ofList (x.toList ++ ls.flatMap OperatorText.text)) with
      | .ok e => e.SameTree t.expr
      | .error f => f.cause = .tooDeep ∧ 127 < t.powers := by
  obtain ⟨t, ht, hfirst, hlinks, hfollows⟩ : ∃ t : Grouping,
      t = Grouping.ofLinks (.operand x) (ls.map fun l => (l.op, l.name)) ∧
        t.first = x ∧ t.links = ls.map (fun l => (l.op, l.name)) ∧ t.FollowsPrecedence :=
    ⟨_, rfl, Grouping.first_ofLinks _ _, Grouping.links_ofLinks _ _,
      Grouping.FollowsPrecedence.ofLinks (t := .operand x) trivial _⟩
  refine ⟨t, ⟨hfirst, hlinks, hfollows⟩, fun t' hfirst' hlinks' hfollows' => ?_, ?_⟩
  · rw [hfollows'.eq_ofLinks, hfirst', hlinks', ht]
  · have hparse := hfollows.parse (hfirst.symm ▸ hx) hls hlinks
    rw [hfirst] at hparse
    exact hparse

/-- Powers group from the right, all other operators from the left, and a line may end anywhere. -/
theorem Expr.parse_operators_of_powers :
    let ls : List OperatorText :=
      [⟨[' '], .binary .sub, [' '], "let"⟩, ⟨['\n'], .binary .pow, ['\t', ' '], "b"⟩,
        ⟨[' '], .binary .pow, [' '], "of"⟩, ⟨[' '], .binary .sub, ['\u2028'], "d"⟩,
        ⟨[' '], .binary .isIn, [' '], "e"⟩]
    let powers : Grouping :=
      .operation (.binary .pow) (.operand "let")
        (.operation (.binary .pow) (.operand "b") (.operand "of"))
    let t : Grouping :=
      .operation (.binary .isIn)
        (.operation (.binary .sub) (.operation (.binary .sub) (.operand "a") powers)
          (.operand "d"))
        (.operand "e")
    isOperandName "a" = true ∧ (∀ l ∈ ls, l.IsSpaced) ∧ t.FollowsPrecedence ∧
      match Expr.parse "a - let\n**\t b ** of -\u2028d in e" with
      | .ok e => e.SameTree t.expr
      | .error f => f.cause = .tooDeep ∧ 127 < t.powers := by
  intro ls powers t
  obtain ⟨hx, hall, htext⟩ : isOperandName "a" = true ∧
      (∀ l ∈ ls, l.before ≠ [] ∧ l.before.all isBlank = true ∧ l.after ≠ [] ∧
        l.after.all isBlank = true ∧ isOperandName l.name = true) ∧
      String.ofList ("a".toList ++ ls.flatMap OperatorText.text) =
        "a - let\n**\t b ** of -\u2028d in e" := by decide +kernel
  have hls : ∀ l ∈ ls, l.IsSpaced := by
    intro l hl
    obtain ⟨hbefore, hblank, hafter, hblank', hname⟩ := hall l hl
    exact ⟨hbefore, List.all_eq_true.mp hblank, hafter, List.all_eq_true.mp hblank', hname⟩
  have ht : t.FollowsPrecedence := by decide
  obtain ⟨t', -, hunique, hparse⟩ := Expr.parse_operators hx hls
  have heq : t = t' := hunique t rfl rfl ht
  subst heq
  rw [htext] at hparse
  refine And.intro hx (And.intro hls (And.intro ht ?_))
  generalize Expr.parse "a - let\n**\t b ** of -\u2028d in e" = result at hparse ⊢
  cases result <;> exact hparse

end Espalier
