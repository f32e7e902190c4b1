import Espalier.Print.Level
import Espalier.Proofs.Grammar.Operator

/-!
# Formulas, their levels and their ranks

A formula is an expression made of names, members, calls and creations, operators, choices,
assignments and sequences. The printer sets parentheses by levels, the parser groups operators by
precedences, and the two are different scales. The rank of a formula is on the scale of grips, by
which it is known how far a reader goes. What links the scales is `sureRank`: a formula that may
stand without parentheses where some level is asked for has at least the rank that is sure there.
The level alone does not tell enough of `??`, which has the level of `||` but binds less tightly;
there the printer looks at the operand (`LogicalOp.operandLevel`).
-/

namespace Espalier

open Token Grammar

/-! ### Formulas -/

/-- A name that is neither reserved nor has a meaning of its own in some places. -/
def isPlainName (word : String) : Bool :=
  isWord word && (Keyword.ofText? word).isNone && !Kind.isContextual word

section

variable {word : String}

/-- A plain name is a word. -/
theorem isWord_of_isPlainName (h : isPlainName word = true) : isWord word = true := by
  rw [isPlainName, Bool.and_eq_true, Bool.and_eq_true] at h
  exact h.1.1

theorem isContextual_of_isPlainName (h : isPlainName word = true) :
    Kind.isContextual word = false := by
  rw [isPlainName, Bool.and_eq_true, Bool.not_eq_true'] at h
  exact h.2

/-- It is scanned into itself. -/
theorem writes_plainName (h : isPlainName word = true) : Writes word.toList [.name word] := by
  have hwrites := writes_word (isWord_of_isPlainName h)
  rw [isPlainName, Bool.and_eq_true, Bool.and_eq_true, Option.isNone_iff_eq_none] at h
  rw [wordKind, h.1.2] at hwrites
  exact hwrites

end

namespace Expr

/-- A name or a member. -/
def isPlace : Expr → Bool
  | .ident _ | .member _ _ _ _ => true
  | _ => false

/-- The formulas of at most the given height, in which a name has height 0. -/
inductive IsFormula : Nat → Expr → Prop
  | name {n : Nat} {i : Ident} (hi : isPlainName i.name = true) : IsFormula n (.ident i)
  | memberWord {n : Nat} {s : Span} {e : Expr} {i : Ident} (he : IsFormula n e)
    (hi : isWord i.name = true) : IsFormula (n + 1) (.member s e (.ident i) false)
  | memberComputed {n : Nat} {s : Span} {e k : Expr} (he : IsFormula n e) (hk : IsFormula n k) :
    IsFormula (n + 1) (.member s e (.computed k) false)
  | call {n : Nat} {s : Span} {f : Expr} {args : List Expr} (hf : IsFormula n f)
    (hargs : ∀ a ∈ args, IsFormula n a) : IsFormula (n + 1) (.call s f args false)
  | new {n : Nat} {s : Span} {f : Expr} {args : List Expr} (hf : IsFormula n f)
    (hargs : ∀ a ∈ args, IsFormula n a) : IsFormula (n + 1) (.new s f args)
  | unary {n : Nat} {s : Span} {op : UnaryOp} {e : Expr} (he : IsFormula n e) :
    IsFormula (n + 1) (.unary s op e)
  | update {n : Nat} {s : Span} {op : UpdateOp} {isPrefix : Bool} {e : Expr} (he : IsFormula n e)
    (hplace : e.isPlace = true) : IsFormula (n + 1) (.update s op isPrefix e)
  | binary {n : Nat} {s : Span} {op : BinaryOp} {l r : Expr} (hl : IsFormula n l)
    (hr : IsFormula n r) : IsFormula (n + 1) (.binary s op l r)
  | logical {n : Nat} {s : Span} {op : LogicalOp} {l r : Expr} (hl : IsFormula n l)
    (hr : IsFormula n r) : IsFormula (n + 1) (.logical s op l r)
  | conditional {n : Nat} {s : Span} {t c a : Expr} (ht : IsFormula n t) (hc : IsFormula n c)
    (ha : IsFormula n a) : IsFormula (n + 1) (.conditional s t c a)
  | assignName {n : Nat} {s : Span} {op : AssignOp} {i : Ident} {r : Expr} (hop : op ∈ AssignOp.all)
    (hi : isPlainName i.name = true) (hr : IsFormula n r) :
    IsFormula (n + 1) (.assign s op (.ident i) r)
  | assignMember {n : Nat} {s t : Span} {op : AssignOp} {e : Expr} {p : MemberName} {r : Expr}
    (hop : op ∈ AssignOp.all) (hl : IsFormula n (.member t e p false)) (hr : IsFormula n r) :
    IsFormula (n + 1) (.assign s op (.target (.member t e p false)) r)
  | sequence {n : Nat} {s : Span} {es : List Expr} (hes : ∀ e ∈ es, IsFormula n e)
    (hlength : 2 ≤ es.length) : IsFormula (n + 1) (.sequence s es)

variable {n : Nat} {e : Expr}

/-- No formula is an optional chain. -/
theorem IsFormula.isOptionalChain (h : IsFormula n e) : e.isOptionalChain = false := by
  induction h with
  | memberWord _ _ ih => exact ih
  | memberComputed _ _ ih => exact ih
  | call _ _ ih => exact ih
  | _ => rfl

/-- A formula that is a place is a target. -/
theorem IsFormula.isTarget (h : IsFormula n e) (hplace : e.isPlace = true) : e.IsTarget := by
  cases h with
  | name => exact .inl ⟨_, rfl⟩
  | memberWord he => exact .inr ⟨_, _, _, rfl, he.isOptionalChain⟩
  | memberComputed he => exact .inr ⟨_, _, _, rfl, he.isOptionalChain⟩
  | _ => cases hplace

/-- No formula needs parentheses to stand as a statement. -/
theorem IsFormula.startsAmbiguously (h : IsFormula n e) : e.startsAmbiguously = false := by
  induction h with
  | memberWord _ _ ih => exact ih
  | memberComputed _ _ ih => exact ih
  | call _ _ ih => exact ih
  | @update _ _ _ isPrefix _ _ _ ih =>
    cases isPrefix with
    | true => rfl
    | false => exact ih
  | binary _ _ ih => exact ih
  | logical _ _ ih => exact ih
  | conditional _ _ _ ih => exact ih
  | assignMember _ _ _ ih => exact ih
  | @sequence _ _ es _ _ ih =>
    cases es with
    | nil => rfl
    | cons e es => exact ih e List.mem_cons_self
  | _ => rfl

/-! ### Levels and ranks -/

/-- The level below which no place needs parentheses around an expression. -/
def level : Expr → Nat
  | .sequence _ _ => Print.Level.sequence
  | .assign _ _ _ _ => Print.Level.assignment
  | .conditional _ _ _ _ => Print.Level.conditional
  | .binary _ op _ _ => (InfixOp.binary op).level
  | .logical _ op _ _ => (InfixOp.logical op).level
  | .unary _ _ _ | .update _ _ _ _ => Print.Level.unary
  | _ => Print.Level.member

/-- How strong a hold the parts of an expression have on each other, on the scale of grips. -/
def rank : Expr → Nat
  | .sequence _ _ => 1
  | .assign _ _ _ _ => 2
  | .conditional _ _ _ _ => 3
  | .binary _ op _ _ => (InfixOp.binary op).precedence + 3
  | .logical _ op _ _ => (InfixOp.logical op).precedence + 3
  | .unary _ _ _ | .update _ _ _ _ => 16
  | _ => 18

/-- The rank of what is printed where an expression of a given level may stand: parentheses have the
highest one. -/
def rankAt (least : Nat) (e : Expr) : Nat := if e.level < least then 18 else e.rank

/-- The rank that is sure where an expression of a given level may stand. -/
def sureRank (least : Nat) : Nat :=
  if 16 ≤ least then 18 else if 5 ≤ least then least + 1 else least

/-- A tighter level assures a tighter rank. -/
theorem sureRank_mono {least least' : Nat} (h : least ≤ least') :
    sureRank least ≤ sureRank least' := by
  unfold sureRank
  split <;> split <;> (try split) <;> (try split) <;> omega

theorem sureRank_le (least : Nat) (h : least ≤ 18) : sureRank least ≤ 18 := by
  unfold sureRank
  split
  · exact Nat.le_refl 18
  · split <;> omega

/-- Each expression is as tight as its level assures. -/
theorem sureRank_level_le (e : Expr) : sureRank e.level ≤ e.rank := by
  cases e with
  | binary s op l r => cases op <;> exact Nat.le_of_ble_eq_true rfl
  | logical s op l r => cases op <;> exact Nat.le_of_ble_eq_true rfl
  | _ => exact Nat.le_of_ble_eq_true rfl

/-- So it is where it is printed, be it in parentheses. -/
theorem sureRank_le_rankAt (e : Expr) {least : Nat} (hleast : least ≤ 18) :
    sureRank least ≤ e.rankAt least := by
  unfold rankAt
  split
  · exact sureRank_le least hleast
  · next h => exact Nat.le_trans (sureRank_mono (Nat.le_of_not_lt h)) (sureRank_level_le e)

/-- The left operand of a logical operator has at least its rank: where the level alone would not
tell, the operators may not stand side by side. -/
theorem le_rankAt_left (op : LogicalOp) (e : Expr) :
    (InfixOp.logical op).precedence + 3 ≤
      e.rankAt (op.operandLevel (InfixOp.logical op).level e) := by
  cases e with
  | logical s inner l r =>
    cases op <;> cases inner <;> exact Nat.le_of_ble_eq_true rfl
  | binary s inner l r => cases op <;> cases inner <;> exact Nat.le_of_ble_eq_true rfl
  | _ => cases op <;> exact Nat.le_of_ble_eq_true rfl

/-- The right operand of a logical operator binds tighter than the operator. -/
theorem le_rankAt_right (op : LogicalOp) (e : Expr) :
    (InfixOp.logical op).precedence + 4 ≤
      e.rankAt (op.operandLevel ((InfixOp.logical op).level + 1) e) := by
  cases e with
  | logical s inner l r =>
    cases op <;> cases inner <;> exact Nat.le_of_ble_eq_true rfl
  | binary s inner l r => cases op <;> cases inner <;> exact Nat.le_of_ble_eq_true rfl
  | _ => cases op <;> exact Nat.le_of_ble_eq_true rfl

/-- No level goes beyond that of a member. -/
theorem operandLevel_le (op : LogicalOp) {least : Nat} (hleast : least ≤ 18) (e : Expr) :
    op.operandLevel least e ≤ 18 := by
  unfold LogicalOp.operandLevel
  split
  · next inner _ _ =>
    split
    · cases inner <;> decide
    · exact hleast
  · exact hleast

end Expr

/-! ### Operands -/

namespace Print

/-- The level at which an operator asks for its left operand. -/
def leftLevel (op : InfixOp) (l : Expr) : Nat :=
  match op with
  | .binary .pow => Level.postfixOperand
  | .binary op => (InfixOp.binary op).level
  | .logical op => op.operandLevel (InfixOp.logical op).level l

/-- The level at which an operator asks for its right operand. -/
def rightLevel (op : InfixOp) (e : Expr) : Nat :=
  match op with
  | .binary .pow => (InfixOp.binary .pow).level
  | .binary op => (InfixOp.binary op).level + 1
  | .logical op => op.operandLevel ((InfixOp.logical op).level + 1) e

theorem leftLevel_le (op : InfixOp) (l : Expr) : leftLevel op l ≤ 18 := by
  rcases op with op | op
  · cases op <;> exact Nat.le_of_ble_eq_true rfl
  · exact Expr.operandLevel_le op (by cases op <;> decide) l

theorem rightLevel_le (op : InfixOp) (e : Expr) : rightLevel op e ≤ 18 := by
  rcases op with op | op
  · cases op <;> exact Nat.le_of_ble_eq_true rfl
  · exact Expr.operandLevel_le op (by cases op <;> decide) e

/-- The left operand holds together against its operator. -/
theorem grip_le_rankAt_leftLevel (op : InfixOp) (l : Expr) :
    op.kind.grip ≤ l.rankAt (leftLevel op l) := by
  rcases op with op | op
  · have hlevel : (InfixOp.binary op).kind.grip ≤ Expr.sureRank (leftLevel (.binary op) l) := by
      cases op <;> exact Nat.le_of_ble_eq_true rfl
    exact Nat.le_trans hlevel (l.sureRank_le_rankAt (leftLevel_le _ l))
  · have hgrip : (InfixOp.logical op).kind.grip = (InfixOp.logical op).precedence + 3 := by
      cases op <;> rfl
    rw [hgrip]
    exact Expr.le_rankAt_left op l

/-- The right operand is read as far as it goes, and no further. -/
theorem le_rankAt_rightLevel (op : InfixOp) (e : Expr) :
    (if op.isRightAssociative then 15 else op.precedence + 4) ≤ e.rankAt (rightLevel op e) := by
  rcases op with op | op
  · have hlevel : (if (InfixOp.binary op).isRightAssociative then 15
        else (InfixOp.binary op).precedence + 4) ≤ Expr.sureRank (rightLevel (.binary op) e) := by
      cases op <;> exact Nat.le_of_ble_eq_true rfl
    exact Nat.le_trans hlevel (e.sureRank_le_rankAt (rightLevel_le _ e))
  · exact Expr.le_rankAt_right op e

/-- The rank of an operation is that of its operator. -/
theorem rank_operation (s : Span) (op : InfixOp) (l e : Expr) :
    (Expr.operation s op l e).rank = op.precedence + 3 := by
  rcases op with op | op <;> rfl

end Print

end Espalier
