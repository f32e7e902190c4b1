import Espalier.Print
import Espalier.Proofs.Grammar.Formula
import Espalier.Proofs.Print.Rank

/-!
# Formulas survive printing

However the parts of a formula are nested, the text that it is printed as is read as the same
formula: where the printer sets no parentheses a part has the rank that its place asks for, and
between parentheses every part has the highest one. Only what nests too deep may be refused.
-/

namespace Espalier

open Token Parse Grammar

/-! ### What formulas are printed as -/

/-- A text is read as an expression of the given rank, and no sign in front of it is joined to an
equals sign. -/
def IsPrinted (d r : Nat) (T : List Char) (e : Expr) : Prop :=
  ∃ us, ReadsAs d r us e ∧ Writes T us ∧ ∃ c cs, T = c :: cs ∧ c ≠ '='

namespace IsPrinted

variable {d d' r r' : Nat} {T T' : List Char} {a c e f l o : Expr} {s : Span}

/-- What is read within one depth is read within any greater one. -/
theorem mono (h : IsPrinted d r T e) (hd : d ≤ d') : IsPrinted d' r T e := by
  obtain ⟨us, hreads, hwrites⟩ := h
  exact ⟨us, hreads.mono hd, hwrites⟩

/-- What stands in a tight place may stand in a looser one. -/
theorem lower (h : IsPrinted d r T e) (hr : r' ≤ r) : IsPrinted d r' T e := by
  obtain ⟨us, hreads, hwrites⟩ := h
  exact ⟨us, hreads.lower hr, hwrites⟩

/-- A name is printed as it is. -/
theorem name {i : Ident} (hi : isPlainName i.name = true) :
    IsPrinted 0 18 i.name.toList (.ident i) := by
  obtain ⟨c, cs, hcs, hc, -⟩ := exists_cons_of_isWord (isWord_of_isPlainName hi)
  refine ⟨[.name i.name], .name (isContextual_of_isPlainName hi), writes_plainName hi, c, cs, hcs,
    ?_⟩
  rintro rfl
  exact absurd hc (by decide)

/-- Parentheses make anything fit anywhere, one level deeper. -/
theorem parens (h : IsPrinted d r T e) : IsPrinted (d + 1) 18 ('(' :: (T ++ [')'])) e := by
  obtain ⟨us, hreads, hwrites, -⟩ := h
  have hclose : Writes (T ++ [')']) _ := hwrites.beforeWhole (p := .rightParen) rfl
  exact ⟨_, hreads.parens, hclose.afterWhole (p := .leftParen) rfl, '(', _, rfl, by decide⟩

/-- A member is its object, a dot and the name. -/
theorem word (h : IsPrinted d 18 T o) (ho : o.isOptionalChain = false) {i : Ident}
    (hi : isWord i.name = true) :
    IsPrinted d 18 (T ++ '.' :: i.name.toList) (.member s o (.ident i) false) := by
  obtain ⟨us, hreads, hwrites, c, cs, rfl, hc⟩ := h
  have hpoint := hwrites.append (writes_point hi) ⟨'.', _, rfl, by decide⟩
  exact ⟨_, hreads.word ho i.name i.span, hpoint, c, _, rfl, hc⟩

/-- A computed member has its key between brackets. -/
theorem computed (h : IsPrinted d 18 T o) (ho : o.isOptionalChain = false)
    (he : IsPrinted d r T' e) :
    IsPrinted (d + 1) 18 (T ++ '[' :: (T' ++ [']'])) (.member s o (.computed e) false) := by
  obtain ⟨us, hreads, hwrites, c, cs, rfl, hc⟩ := h
  obtain ⟨vs, hreads', hwrites', -⟩ := he
  have hclose : Writes (T' ++ [']']) _ := hwrites'.beforeWhole (p := .rightBracket) rfl
  have hbrackets := hwrites.append (hclose.afterWhole (p := .leftBracket) rfl)
    ⟨'[', _, rfl, by decide⟩
  refine ⟨_, hreads.computed ho hreads', ?_, c, _, rfl, hc⟩
  rw [List.append_assoc]
  exact hbrackets

/-! #### Arguments -/

/-- Texts with commas between them are read as a row of expressions. -/
def IsRow (d : Nat) (T : List Char) (es : List Expr) : Prop :=
  ∃ us, Row d es us ∧ Writes T us ∧ ∃ c cs, T = c :: cs ∧ c ≠ '='

/-- Assignments with a comma and a blank between them are a row. -/
theorem isRow {texts : List (List Char)} {es : List Expr} (hne : es ≠ [])
    (h : List.Forall₂ (fun T e => ∃ r, 2 ≤ r ∧ IsPrinted d r T e) texts es) :
    IsRow d ([',', ' '].intercalate texts) es := by
  induction h with
  | nil => exact absurd rfl hne
  | @cons T e texts es hhead htail ih =>
    obtain ⟨r, hr, us, hreads, hwrites, c, cs, rfl, hc⟩ := hhead
    cases htail with
    | nil => exact ⟨us, .one hreads.opens (hreads.assignment hr), by simpa using hwrites, c, cs,
        by simp, hc⟩
    | @cons T' e' texts es hhead htail =>
      obtain ⟨vs, hrow, hwrites', -⟩ := ih (by simp)
      have hcomma := hwrites.append (hwrites'.blank.afterWhole (p := .comma) rfl)
        ⟨',', _, rfl, by decide⟩
      have hjoin : [',', ' '].intercalate ((c :: cs) :: T' :: texts) =
          (c :: cs) ++ ',' :: ' ' :: [',', ' '].intercalate (T' :: texts) := by simp
      rw [hjoin]
      exact ⟨_, .more hreads.opens (hreads.assignment hr) hrow, hcomma, c, _, rfl, hc⟩

/-- A text is read as the arguments between the parentheses of a call. -/
def IsArgumentText (d : Nat) (T : List Char) (es : List Expr) : Prop :=
  ∃ us, IsArguments d es us ∧ Writes (T ++ [')']) (us ++ [.punct .rightParen])

/-- So are arguments, of which there may be none. -/
theorem isArgumentText {texts : List (List Char)} {es : List Expr}
    (h : List.Forall₂ (fun T e => ∃ r, 2 ≤ r ∧ IsPrinted d r T e) texts es) :
    IsArgumentText d ([',', ' '].intercalate texts) es := by
  by_cases hne : es = []
  · subst hne
    cases h
    exact ⟨[], .inl ⟨rfl, rfl⟩, writes_whole (p := .rightParen) rfl⟩
  · obtain ⟨us, hrow, hwrites, -⟩ := isRow hne h
    exact ⟨us, .inr hrow, hwrites.beforeWhole (p := .rightParen) rfl⟩

/-- A call has its arguments between parentheses. -/
theorem call (h : IsPrinted d 18 T o) (ho : o.isOptionalChain = false) {es : List Expr}
    (hargs : IsArgumentText d T' es) :
    IsPrinted (d + 1) 18 (T ++ '(' :: (T' ++ [')'])) (.call s o es false) := by
  obtain ⟨us, hreads, hwrites, c, cs, rfl, hc⟩ := h
  obtain ⟨vs, hargs, hwrites'⟩ := hargs
  have hparens := hwrites.append (hwrites'.afterWhole (p := .leftParen) rfl)
    ⟨'(', _, rfl, by decide⟩
  refine ⟨_, hreads.call ho hargs, ?_, c, _, rfl, hc⟩
  rw [List.append_assoc]
  exact hparens

/-- A text is read as what `new` creates. -/
def IsCalleeText (d : Nat) (T : List Char) (f : Expr) : Prop :=
  ∃ us, Opens us ∧ ReadsCallee d us f ∧ Writes T us

/-- What holds no call may be created as it stands. -/
theorem callee (h : IsPrinted d 18 T e) (hcall : e.containsCall = false) :
    IsCalleeText d T e := by
  obtain ⟨us, hreads, hwrites, -⟩ := h
  exact ⟨us, hreads.opens, hreads.callee (Nat.le_refl 18) hcall, hwrites⟩

/-- Everything else is created between parentheses. -/
theorem parens_callee (h : IsPrinted d r T e) : IsCalleeText (d + 1) ('(' :: (T ++ [')'])) e := by
  obtain ⟨us, hreads, hwrites, -⟩ := h
  have hclose : Writes (T ++ [')']) _ := hwrites.beforeWhole (p := .rightParen) rfl
  exact ⟨_, hreads.parens.opens, hreads.parens_callee, hclose.afterWhole (p := .leftParen) rfl⟩

/-- A creation has a blank behind its word. -/
theorem new (h : IsCalleeText d T f) {es : List Expr} (hargs : IsArgumentText d T' es) :
    IsPrinted (d + 2) 18 ("new".toList ++ ' ' :: (T ++ '(' :: (T' ++ [')']))) (.new s f es) := by
  obtain ⟨us, opens, hcallee, hwrites⟩ := h
  obtain ⟨vs, hargs, hwrites'⟩ := hargs
  have hparens := hwrites.append (hwrites'.afterWhole (p := .leftParen) rfl)
    ⟨'(', _, rfl, by decide⟩
  refine ⟨_, .new opens hcallee hargs, ?_, 'n', _, rfl, by decide⟩
  rw [List.append_assoc]
  exact hparens.afterWord "new" (by decide)

/-! #### Operators on one operand -/

/-- Whether an operator needs a blank behind it. -/
def needsBlank (op : UnaryOp) (T : List Char) : Bool :=
  (op == .typeof || op == .void || op == .delete) ||
    ((op == .minus || op == .plus) && op.text.toList.isPrefixOf T)

/-- A prefix operator has a blank behind it if it is a word, or if it would run into what
follows. -/
theorem toList_unaryText (op : UnaryOp) (text : String) : (Print.unaryText op text).toList =
    op.text.toList ++ if needsBlank op text.toList then ' ' :: text.toList else text.toList := by
  unfold Print.unaryText needsBlank
  dsimp only
  split <;> simp

/-- A sign that fuses with itself has a blank between it and another one of its kind. -/
theorem writes_doubling {p : Punct} {sign c : Char} {cs : List Char} {us : List Kind}
    (h : Writes (c :: cs) us) (hc : c ≠ '=') (hp : p.text.toList = [sign])
    (hcontinuations : p.continuations = ['=', sign])
    (hne : p ≠ .slash ∧ p ≠ .dot ∧ p ≠ .questionDot) :
    Writes (sign :: if (sign == c && true) = true then ' ' :: c :: cs else c :: cs)
      (.punct p :: us) := by
  rw [Bool.and_true]
  -- There is a blank exactly if the signs would fuse.
  split
  · have hspaced := h.afterSpaced p
    rw [hp] at hspaced
    exact hspaced
  · next hsign =>
    have hmem : c ∉ p.continuations := by
      rw [hcontinuations]
      simp only [List.mem_cons, List.not_mem_nil, or_false, not_or]
      exact ⟨hc, fun heq => hsign (heq ▸ beq_self_eq_true _)⟩
    have hjoined := h.afterSign (Punct.joins_eq_false hmem hne)
    rw [hp] at hjoined
    exact hjoined

/-- The text of a prefix operator and its operand is scanned into their tokens. -/
theorem writes_unaryText {us : List Kind} {text : String} {c : Char} {cs : List Char}
    (htext : text.toList = c :: cs) (hc : c ≠ '=') (h : Writes text.toList us) (op : UnaryOp) :
    Writes (Print.unaryText op text).toList (op.kind :: us) := by
  rw [toList_unaryText]
  rw [htext] at h ⊢
  cases op with
  | minus => exact writes_doubling h hc rfl rfl (by decide)
  | plus => exact writes_doubling h hc rfl rfl (by decide)
  | not =>
    have hmem : c ∉ Punct.bang.continuations := by
      rw [show Punct.bang.continuations = ['=', '='] from rfl]
      simpa using hc
    exact h.afterSign (Punct.joins_eq_false hmem (by decide))
  | bitNot => exact h.afterWhole (p := .tilde) rfl
  | typeof => exact h.afterWord "typeof" (by decide)
  | void => exact h.afterWord "void" (by decide)
  | delete => exact h.afterWord "delete" (by decide)

/-- A prefix operator is read with its operand. -/
theorem operator {text : String} (h : IsPrinted d r text.toList e) (hr : 16 ≤ r) (op : UnaryOp) :
    IsPrinted (d + 1) 16 (Print.unaryText op text).toList (.unary s op e) := by
  obtain ⟨us, hreads, hwrites, c, cs, htext, hc⟩ := h
  refine ⟨_, hreads.operator hr op, writes_unaryText htext hc hwrites op, ?_⟩
  rw [toList_unaryText]
  cases op <;> exact ⟨_, _, rfl, by decide⟩

/-- `++` or `--` in front of a target. -/
theorem changeInFront (h : IsPrinted d r T e) (hr : 16 ≤ r) (he : e.IsTarget) (op : UpdateOp) :
    IsPrinted (d + 1) 16 (op.text.toList ++ T) (.update s op true e) := by
  obtain ⟨us, hreads, hwrites, -⟩ := h
  refine ⟨_, hreads.changeInFront hr he op, ?_⟩
  cases op with
  | increment => exact ⟨hwrites.afterWhole (p := .increment) rfl, '+', _, rfl, by decide⟩
  | decrement => exact ⟨hwrites.afterWhole (p := .decrement) rfl, '-', _, rfl, by decide⟩

/-- `++` or `--` behind a target. -/
theorem changeBehind (h : IsPrinted d 18 T e) (he : e.IsTarget) (op : UpdateOp) :
    IsPrinted d 16 (T ++ op.text.toList) (.update s op false e) := by
  obtain ⟨us, hreads, hwrites, c, cs, rfl, hc⟩ := h
  refine ⟨_, hreads.changeBehind he op, ?_, c, _, rfl, hc⟩
  cases op with
  | increment => exact hwrites.beforeWhole (p := .increment) rfl
  | decrement => exact hwrites.beforeWhole (p := .decrement) rfl

/-! #### Operators between operands -/

/-- An operator is scanned by itself, since a blank follows. -/
theorem writes_afterOperator {us : List Kind} (h : Writes T us) (op : InfixOp) :
    Writes (op.text.toList ++ ' ' :: T) (op.kind :: us) := by
  have hop := op.operator?_kind
  cases hk : op.kind with
  | punct p =>
    rw [hk] at hop
    rw [← Punct.text_of_operator? hop]
    exact h.afterSpaced p
  | keyword w =>
    rw [hk] at hop
    have htext : w.text = op.text := by
      cases w <;> first | cases hop; rfl | cases hop
    rw [← htext, ← wordKind_text]
    exact h.afterWord _ (by cases w <;> decide)
  | _ =>
    rw [hk] at hop
    cases hop

/-- An operation is read when both operands are tight enough. -/
theorem operation {op : InfixOp} (hl : IsPrinted d r T l) (hr : op.kind.grip ≤ r)
    (he : IsPrinted d r' T' e)
    (hr' : (if op.isRightAssociative then 15 else op.precedence + 4) ≤ r') :
    IsPrinted (d + 1) (op.precedence + 3) (T ++ ' ' :: (op.text.toList ++ ' ' :: T'))
      (.operation s op l e) := by
  obtain ⟨us, hreads, hwrites, c, cs, rfl, hc⟩ := hl
  obtain ⟨vs, hreads', hwrites', -⟩ := he
  have hright := (writes_afterOperator hwrites' op).blank
  exact ⟨_, hreads.operation hr hreads' hr', hwrites.append hright ⟨' ', _, rfl, by decide⟩, c, _,
    rfl, hc⟩

/-- A conditional has blanks around its two signs. -/
theorem conditional {T₁ T₂ T₃ : List Char} {r₁ r₂ r₃ : Nat} (ha : IsPrinted d r₁ T₁ a)
    (hr₁ : 4 ≤ r₁) (hc : IsPrinted d r₂ T₂ c) (hr₂ : 2 ≤ r₂) (he : IsPrinted d r₃ T₃ e)
    (hr₃ : 2 ≤ r₃) :
    IsPrinted (d + 1) 3 (T₁ ++ ' ' :: '?' :: ' ' :: (T₂ ++ ' ' :: ':' :: ' ' :: T₃))
      (.conditional s a c e) := by
  obtain ⟨us, hreads₁, hwrites₁, first, more, rfl, hfirst⟩ := ha
  obtain ⟨vs, hreads₂, hwrites₂, -⟩ := hc
  obtain ⟨ws, hreads₃, hwrites₃, -⟩ := he
  have hcolon := hwrites₂.append (hwrites₃.afterSpaced .colon).blank ⟨' ', _, rfl, by decide⟩
  have hquestion := hwrites₁.append (hcolon.afterSpaced .question).blank ⟨' ', _, rfl, by decide⟩
  refine ⟨_, hreads₁.conditional hr₁ hreads₂ hr₂ hreads₃ hr₃, ?_, first, _, rfl, hfirst⟩
  rw [List.append_assoc]
  exact hquestion

/-- An assignment has blanks around its sign. -/
theorem assign {op : AssignOp} {p : Pattern} (hop : op ∈ AssignOp.all) (hl : IsPrinted d r T l)
    (hr : 4 ≤ r) (htarget : l.IsTarget) (hp : p.tree = l.tree) (he : IsPrinted d r' T' e)
    (hr' : 2 ≤ r') :
    IsPrinted (d + 1) 2 (T ++ ' ' :: (op.text.toList ++ ' ' :: T')) (.assign s op p e) := by
  obtain ⟨us, hreads, hwrites, c, cs, rfl, hc⟩ := hl
  obtain ⟨vs, hreads', hwrites', -⟩ := he
  have hright := (hwrites'.afterSpaced op.sign).blank
  rw [Punct.text_of_assignOp? (AssignOp.assignOp?_sign hop)] at hright
  exact ⟨_, hreads.assign hop hr htarget hp hreads' hr',
    hwrites.append hright ⟨' ', _, rfl, by decide⟩, c, _, rfl, hc⟩

/-- A sequence is a row of at least two. -/
theorem sequence {texts : List (List Char)} {es : List Expr} (hlength : 2 ≤ es.length)
    (h : List.Forall₂ (fun T e => ∃ r, 2 ≤ r ∧ IsPrinted d r T e) texts es) :
    IsPrinted d 1 ([',', ' '].intercalate texts) (.sequence s es) := by
  have hne : es ≠ [] := by
    rintro rfl
    cases hlength
  obtain ⟨us, hrow, hwrites⟩ := isRow hne h
  exact ⟨us, .sequence hrow hlength, hwrites⟩

end IsPrinted

namespace Print

variable {unit : String} {depth d n least : Nat} {e : Expr}

theorem toList_parens (needed : Bool) (text : String) : (parens needed text).toList =
    if needed then '(' :: (text.toList ++ [')']) else text.toList := by
  unfold parens
  split <;> simp

/-- A formula stands between parentheses where its level is too low. -/
theorem expr_eq_parens (h : e.IsFormula n) (hleast : least ≤ 18) :
    expr unit depth least e = parens (decide (e.level < least)) (expr unit depth 0 e) := by
  have hmember : ¬Level.member < least := Nat.not_lt.mpr hleast
  cases h with
  | name | memberWord | memberComputed | call | new =>
    show _ = parens (decide (Level.member < least)) _
    rw [decide_eq_false hmember]
    rfl
  | @update _ _ _ isPrefix => cases isPrefix <;> rfl
  | @binary _ _ op => cases op <;> rfl
  | _ => rfl

/-- What stands between `new` and the arguments. -/
def calleeText (unit : String) (depth : Nat) (f : Expr) : String :=
  if f.containsCall then "(" ++ expr unit depth 0 f ++ ")" else expr unit depth Level.creation f

/-- The texts of an expression are read as that expression. -/
structure IsRead (unit : String) (depth d : Nat) (e : Expr) : Prop where
  anywhere : ∀ least ≤ 18, IsPrinted d (e.rankAt least) (expr unit depth least e).toList e
  callee : IsPrinted.IsCalleeText d (calleeText unit depth e).toList e

/-- Where an expression of a given level may stand, the text has at least the rank that is sure
there. -/
theorem IsRead.at (h : IsRead unit depth d e) (least r : Nat) (hleast : least ≤ 18)
    (hr : r ≤ Expr.sureRank least) :
    IsPrinted d r (expr unit depth least e).toList e :=
  (h.anywhere least hleast).lower (Nat.le_trans hr (e.sureRank_le_rankAt hleast))

/-- What is read wherever it may stand is read as a callee too, one with a call in parentheses. -/
theorem isRead
    (hanywhere : ∀ least ≤ 18, IsPrinted d (e.rankAt least) (expr unit depth least e).toList e)
    (hcallee : e.containsCall = true →
      IsPrinted.IsCalleeText d ('(' :: ((expr unit depth 0 e).toList ++ [')'])) e) :
    IsRead unit depth d e := by
  refine ⟨hanywhere, ?_⟩
  unfold calleeText
  cases hcall : e.containsCall with
  | true => simpa using hcallee hcall
  | false =>
    have hcreation :=
      (hanywhere Level.creation (by decide)).lower (e.sureRank_le_rankAt (by decide))
    exact hcreation.callee hcall

/-- What is known of the text without parentheses around it is all that has to be known. -/
theorem isRead_of_bare (h : e.IsFormula n)
    (hbare : IsPrinted d e.rank (expr unit depth 0 e).toList e) : IsRead unit depth (d + 1) e := by
  refine isRead (fun least hleast => ?_) fun _ => hbare.parens_callee
  rw [expr_eq_parens h hleast, toList_parens]
  -- Where the level is too low, parentheses give the highest rank.
  unfold Expr.rankAt
  by_cases hlevel : e.level < least
  · rw [if_pos hlevel, if_pos (decide_eq_true hlevel)]
    exact hbare.parens
  · rw [if_neg hlevel, if_neg (by simpa using hlevel)]
    exact hbare.mono (Nat.le_succ d)

/-- Texts of expressions that are read are read one by one. -/
theorem forall₂_exprs {es : List Expr} (h : ∀ e ∈ es, IsRead unit depth d e) :
    List.Forall₂ (fun T e => ∃ r, 2 ≤ r ∧ IsPrinted d r T e)
      ((exprs unit depth es).map String.toList) es := by
  induction es with
  | nil => exact .nil
  | cons e es ih =>
    have he := (h e List.mem_cons_self).at Level.assignment 2 (by decide)
      (by decide)
    exact .cons ⟨2, Nat.le_refl 2, he⟩ (ih fun e' he' => h e' (List.mem_cons_of_mem e he'))

theorem toList_commaList (texts : List String) :
    (commaList texts).toList = [',', ' '].intercalate (texts.map String.toList) :=
  String.toList_intercalate

/-- Arguments that are read form their text. -/
theorem isArgumentText_exprs {es : List Expr} (h : ∀ e ∈ es, IsRead unit depth d e) :
    IsPrinted.IsArgumentText d (commaList (exprs unit depth es)).toList es := by
  rw [toList_commaList]
  exact IsPrinted.isArgumentText (forall₂_exprs h)

/-- A name is read wherever it is printed. -/
theorem isRead_name {i : Ident} (hi : isPlainName i.name = true) :
    IsRead unit depth d (.ident i) := by
  refine isRead (fun least hleast => ?_) nofun
  have hrank : (Expr.ident i).rankAt least = 18 := if_neg (Nat.not_lt.mpr hleast)
  rw [hrank]
  exact (IsPrinted.name hi).mono (Nat.zero_le d)

/-- A creation is read, its callee in parentheses where it needs them. -/
theorem isRead_new {s : Span} {f : Expr} {args : List Expr} (hf : IsRead unit depth d f)
    (hargs : ∀ a ∈ args, IsRead unit depth d a) : IsRead unit depth (d + 2) (.new s f args) := by
  refine isRead (fun least hleast => ?_) nofun
  have hrank : (Expr.new s f args).rankAt least = 18 := if_neg (Nat.not_lt.mpr hleast)
  have htext : expr unit depth least (.new s f args) =
      "new " ++ calleeText unit depth f ++ "(" ++ commaList (exprs unit depth args) ++ ")" := rfl
  have hnew := IsPrinted.new (s := s) hf.callee (isArgumentText_exprs hargs)
  rw [hrank, htext]
  simpa using hnew

/-! ### Operations and assignments -/

/-- An operation is printed with its operands at their levels. -/
theorem expr_operation (s : Span) (op : InfixOp) (l e : Expr) :
    expr unit depth 0 (.operation s op l e) =
      expr unit depth (leftLevel op l) l ++ " " ++ op.text ++ " " ++
        expr unit depth (rightLevel op e) e := by
  rcases op with op | op
  · cases op with
    | pow =>
      show expr unit depth Level.postfixOperand l ++ " ** " ++
        expr unit depth (InfixOp.binary .pow).level e = _
      refine String.toList_inj.mp ?_
      simp [leftLevel, rightLevel, InfixOp.text, BinaryOp.text]
    | _ => rfl
  · rfl

/-- An operation is read as it is printed: each operand is at least as tight as its level. -/
theorem isPrinted_operation {s : Span} {l e : Expr} (op : InfixOp) (hl : IsRead unit depth d l)
    (he : IsRead unit depth d e) :
    IsPrinted (d + 1) (Expr.operation s op l e).rank
      (expr unit depth 0 (.operation s op l e)).toList (.operation s op l e) := by
  have hoperation := (hl.anywhere _ (leftLevel_le op l)).operation (s := s)
    (grip_le_rankAt_leftLevel op l) (he.anywhere _ (rightLevel_le op e)) (le_rankAt_rightLevel op e)
  rw [rank_operation, expr_operation]
  simpa using hoperation

/-- An assignment, of which the left side is printed as the expression that it came from. -/
theorem isPrinted_assign {s : Span} {op : AssignOp} {p : Pattern} {l e : Expr}
    (hop : op ∈ AssignOp.all) (hl : IsRead unit depth d l) (htarget : l.IsTarget)
    (hp : p.tree = l.tree) (htext : pattern unit depth p = expr unit depth Level.member l)
    (he : IsRead unit depth d e) :
    IsPrinted (d + 1) 2 (expr unit depth 0 (.assign s op p e)).toList (.assign s op p e) := by
  have hassign := (hl.at Level.member 4 (by decide) (by decide)).assign (s := s) hop
    (Nat.le_refl 4) htarget hp (he.at Level.assignment 2 (by decide) (by decide)) (Nat.le_refl 2)
  have hexpr : (expr unit depth 0 (.assign s op p e)).toList =
      (expr unit depth Level.member l).toList ++
        ' ' :: (op.text.toList ++ ' ' :: (expr unit depth Level.assignment e).toList) := by
    show String.toList (pattern unit depth p ++ " " ++ op.text ++ " " ++
      expr unit depth Level.assignment e) = _
    rw [htext]
    simp
  rw [hexpr]
  exact hassign

end Print

open Print

/-- However a formula is put together, the text that it is printed as is read as that formula. -/
theorem Expr.IsFormula.isRead {unit : String} {depth : Nat} (h : e.IsFormula n) :
    IsRead unit depth (2 * n) e := by
  -- Each step spends two levels: one on its parts, one on the parentheses that may stand around it.
  induction h with
  | name hi => exact isRead_name hi
  | @new n s f args hf hargs ih ihargs => exact isRead_new ih ihargs
  | @memberWord n s e i he hi ih =>
    refine isRead_of_bare (.memberWord he hi) ?_
    have hword := (ih.at 18 18 (by decide) (by decide)).word (s := s) he.isOptionalChain hi
    have htext : (expr unit depth 0 (.member s e (.ident i) false)).toList =
        (expr unit depth 18 e).toList ++ '.' :: i.name.toList := by
      show String.toList (expr unit depth 18 e ++ "." ++ i.name) = _
      simp
    rw [htext]
    exact hword.mono (Nat.le_succ _)
  | @memberComputed n s e k he hk ih ihk =>
    refine isRead_of_bare (.memberComputed he hk) ?_
    have hcomputed := (ih.at 18 18 (by decide) (by decide)).computed (s := s)
      he.isOptionalChain (ihk.anywhere 0 (by decide))
    have htext : (expr unit depth 0 (.member s e (.computed k) false)).toList =
        (expr unit depth 18 e).toList ++ '[' :: ((expr unit depth 0 k).toList ++ [']']) := by
      show String.toList (expr unit depth 18 e ++ "[" ++ expr unit depth 0 k ++ "]") = _
      simp
    rw [htext]
    exact hcomputed
  | @call n s f args hf hargs ih ihargs =>
    refine isRead_of_bare (.call hf hargs) ?_
    have hcall := (ih.at 18 18 (by decide) (by decide)).call (s := s)
      hf.isOptionalChain (isArgumentText_exprs ihargs)
    have htext : (expr unit depth 0 (.call s f args false)).toList =
        (expr unit depth 18 f).toList ++
          '(' :: ((commaList (exprs unit depth args)).toList ++ [')']) := by
      show String.toList
        (expr unit depth 18 f ++ "(" ++ commaList (exprs unit depth args) ++ ")") = _
      simp
    rw [htext]
    exact hcall
  | @unary n s op e he ih =>
    refine isRead_of_bare (.unary he) ?_
    exact (ih.at Level.unary 16 (by decide) (by decide)).operator
      (Nat.le_refl 16) op
  | @update n s op isPrefix e he hplace ih =>
    refine isRead_of_bare (.update he hplace) ?_
    cases isPrefix with
    | true =>
      have hupdate := (ih.at Level.unary 16 (by decide) (by decide)).changeInFront
        (s := s) (Nat.le_refl 16) (he.isTarget hplace) op
      rw [← String.toList_append] at hupdate
      exact hupdate
    | false =>
      have hupdate := (ih.at Level.postfixOperand 18 (by decide)
        (by decide)).changeBehind (s := s) (he.isTarget hplace) op
      rw [← String.toList_append] at hupdate
      exact hupdate.mono (Nat.le_succ _)
  | binary hl hr ihl ihr =>
    exact isRead_of_bare (.binary hl hr) (isPrinted_operation (.binary _) ihl ihr)
  | logical hl hr ihl ihr =>
    exact isRead_of_bare (.logical hl hr) (isPrinted_operation (.logical _) ihl ihr)
  | @conditional n s t c a ht hc ha iht ihc iha =>
    refine isRead_of_bare (.conditional ht hc ha) ?_
    have hconditional := (iht.at Level.test 4 (by decide) (by decide)).conditional
      (s := s) (Nat.le_refl 4)
      (ihc.at Level.assignment 2 (by decide) (by decide)) (Nat.le_refl 2)
      (iha.at Level.assignment 2 (by decide) (by decide)) (Nat.le_refl 2)
    have htext : (expr unit depth 0 (.conditional s t c a)).toList =
        (expr unit depth Level.test t).toList ++ ' ' :: '?' :: ' ' ::
          ((expr unit depth Level.assignment c).toList ++ ' ' :: ':' :: ' ' ::
            (expr unit depth Level.assignment a).toList) := by
      show String.toList (expr unit depth Level.test t ++ " ? " ++
        expr unit depth Level.assignment c ++ " : " ++ expr unit depth Level.assignment a) = _
      simp
    rw [htext]
    exact hconditional
  | assignName hop hi hr ih =>
    refine isRead_of_bare (.assignName hop hi hr) ?_
    exact isPrinted_assign (p := .ident _) hop (isRead_name hi) (.inl ⟨_, rfl⟩) rfl rfl ih
  | assignMember hop hl hr ihl ihr =>
    refine isRead_of_bare (.assignMember hop hl hr) ?_
    exact isPrinted_assign (p := .target _) hop ihl (hl.isTarget rfl) rfl rfl ihr
  | @sequence n s es hes hlength ih =>
    refine isRead_of_bare (.sequence hes hlength) ?_
    have hsequence := IsPrinted.sequence (s := s) hlength (forall₂_exprs ih)
    rw [← toList_commaList] at hsequence
    exact hsequence.mono (Nat.le_succ _)

/-! ### Printing and parsing -/

/-- A formula that is printed as a statement is parsed as the same formula, whatever its spans were,
unless it is refused as nested too deep. Only formulas that are higher than 63 may be refused. -/
theorem Program.parse_print_formula {n : Nat} {e : Expr} (h : e.IsFormula n) (unit : String)
    (options : ParserOptions) (type : SourceType) (s t : Span) :
    match Program.parse (Program.print unit ⟨[.expr s e], type, t⟩) options with
    | .ok p => ∃ s' e', p.body = [.expr s' e'] ∧ e'.tree.withoutSpans = e.tree.withoutSpans
    | .error f => f.cause = .tooDeep ∧ 63 < n := by
  have hread : IsRead unit 0 (2 * n) e := h.isRead
  obtain ⟨us, hreads, hwrites, -⟩ := hread.anywhere 0 (by decide)
  have htext : (Program.print unit ⟨[.expr s e], type, t⟩).toList =
      (Print.expr unit 0 0 e).toList ++ [';'] := by
    show String.toList (parens e.startsAmbiguously (Print.expr unit 0 0 e) ++ ";") = _
    rw [h.startsAmbiguously]
    simp [parens]
  -- the statement ends with the semicolon, so no word runs on
  have hend : EndsName [';'] := by
    rintro c ⟨⟩
    decide
  have hscans : Scans (Program.print unit ⟨[.expr s e], type, t⟩).toList
      (us ++ [.punct .semicolon, .eof]) := by
    rw [htext]
    exact hwrites [';'] _ hend (writes_whole (p := .semicolon) rfl [] _ nofun scans_eof)
  have hdeep : 127 < 2 * n + 1 → 63 < n := by omega
  have hrun := run_finds hscans (fun env st hahead =>
    finds_statements hreads hdeep hahead) options
  unfold Program.parse
  cases hbody : statements.run (Program.print unit ⟨[.expr s e], type, t⟩) options with
  | ok body =>
    rw [hbody] at hrun
    obtain ⟨a, rfl, s', e', rfl, he'⟩ := hrun
    exact ⟨s', e', rfl, he'⟩
  | error f =>
    rw [hbody] at hrun
    exact hrun

/-- A power whose base is an operand with a sign in front, which may only stand between
parentheses. -/
theorem Program.parse_print_power :
    let name (word : String) : Expr := .ident ⟨word, default⟩
    let call : Expr :=
      .call default (.member default (name "b") (.ident ⟨"c", default⟩) false) [name "d"] false
    let e : Expr := .binary default .pow (.unary default .minus (name "a")) call
    let text := Program.print "" ⟨[.expr default e], .script, default⟩
    e.IsFormula 3 ∧ text = "(-a) ** b.c(d);" ∧
      match Program.parse text {} with
      | .ok p => ∃ s' e', p.body = [.expr s' e'] ∧ e'.tree.withoutSpans = e.tree.withoutSpans
      | .error f => f.cause = .tooDeep ∧ 63 < 3 := by
  intro name call e text
  have hname : ∀ {n word}, isPlainName word = true → (name word).IsFormula n :=
    fun hword => .name hword
  have hcall : call.IsFormula 2 := by
    refine .call (.memberWord (hname (by decide)) (by decide)) fun a ha => ?_
    rw [List.mem_singleton.mp ha]
    exact hname (by decide)
  have he : e.IsFormula 3 := .binary (.unary (hname (by decide))) hcall
  exact ⟨he, by decide +kernel, Program.parse_print_formula he "" {} .script default default⟩

end Espalier
