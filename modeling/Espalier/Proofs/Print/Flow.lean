import Espalier.Proofs.Grammar.Flow
import Espalier.Proofs.Print.Formula
import Espalier.Proofs.Print.Layout

/-!
# Control flow that is printed and read again

The printer sets braces around an `if` without `else` only where that itself stands in front of an
`else`. Where such an `if` ends a loop, a labeled statement or another `if` in front of one, it
gets none, and the `else` is read as its own (`Stmt.reread`). So a program survives printing exactly
if that happens nowhere in it (`Program.parse_print_flow`).
-/

namespace Espalier

open Token Parse Grammar

/-! ### Statements of control flow -/

namespace Stmt

/-- The statements that are made of names, `if` statements, loops with three clauses, labels and
blocks. The number is a bound for how many of these nest, where the two branches of an `if` count as
if one were in the other. -/
inductive IsFlow : Nat → Stmt → Prop
  | expr {n : Nat} {t : Span} {i : Ident} (hi : isPlainName i.name = true) :
    IsFlow n (.expr t (.ident i))
  | ifThen {n : Nat} {t : Span} {i : Ident} {c : Stmt} (hi : isPlainName i.name = true)
    (hc : IsFlow n c) : IsFlow (n + 1) (.ifThen t (.ident i) c none)
  | ifElse {n m : Nat} {t : Span} {i : Ident} {c a : Stmt} (hi : isPlainName i.name = true)
    (hc : IsFlow n c) (ha : IsFlow m a) : IsFlow (n + m + 1) (.ifThen t (.ident i) c (some a))
  | whileLoop {n : Nat} {t : Span} {i : Ident} {b : Stmt} (hi : isPlainName i.name = true)
    (hb : IsFlow n b) : IsFlow (n + 1) (.whileLoop t (.ident i) b)
  | forLoop {n : Nat} {t : Span} {init test update : Option Ident} {b : Stmt}
    (hinit : ∀ i ∈ init, isPlainName i.name = true) (htest : ∀ i ∈ test, isPlainName i.name = true)
    (hupdate : ∀ i ∈ update, isPlainName i.name = true) (hb : IsFlow n b) :
    IsFlow (n + 1)
      (.forLoop t ((init.map Expr.ident).map .expr) (test.map .ident) (update.map .ident) b)
  | labeled {n : Nat} {t : Span} {i : Ident} {b : Stmt} (hi : isPlainName i.name = true)
    (hb : IsFlow n b) : IsFlow (n + 1) (.labeled t i b)
  | block {n : Nat} {t : Span} {body : List Stmt} (h : ∀ s ∈ body, IsFlow n s) :
    IsFlow (n + 1) (.block ⟨body, t⟩)

mutual

/-- What a statement of control flow is read as once it has been printed. -/
def reread : Stmt → Stmt
  | .block ⟨body, t⟩ => .block ⟨rereads body, t⟩
  | .ifThen t e c none => .ifThen t e c.reread none
  | .ifThen t e c (some a) =>
    if c.isOpenIf then .ifThen t e (.block ⟨[c.reread], t⟩) (some a.reread)
    else if c.reread.endsOpen then .ifThen t e (c.reread.withElse a.reread) none
    else .ifThen t e c.reread (some a.reread)
  | .whileLoop t e b => .whileLoop t e b.reread
  | .forLoop t i e u b => .forLoop t i e u b.reread
  | .labeled t l b => .labeled t l b.reread
  | s => s

/-- What each statement of a list is read back as. -/
def rereads : List Stmt → List Stmt
  | [] => []
  | s :: ss => s.reread :: rereads ss

end

/-- The statements of a list are read back one by one. -/
theorem rereads_eq_map (body : List Stmt) : rereads body = body.map reread := by
  induction body with
  | nil => rfl
  | cons s body ih => exact congrArg (s.reread :: ·) ih

mutual

/-- Whether every statement in front of an `else` that ends in an `if` without one is that `if`. -/
def keepsElses : Stmt → Bool
  | .block ⟨body, _⟩ => allKeepElses body
  | .ifThen _ _ c none => c.keepsElses
  | .ifThen _ _ c (some a) => (c.isOpenIf || !c.endsOpen) && c.keepsElses && a.keepsElses
  | .whileLoop _ _ b | .forLoop _ _ _ _ b | .labeled _ _ b => b.keepsElses
  | _ => true

/-- Whether each `else` in a list of statements stays with its `if`. -/
def allKeepElses : List Stmt → Bool
  | [] => true
  | s :: ss => s.keepsElses && allKeepElses ss

end

/-- The `else`s of a list are kept if those of its statements are. -/
theorem allKeepElses_iff {body : List Stmt} :
    allKeepElses body = true ↔ ∀ s ∈ body, s.keepsElses = true := by
  induction body with
  | nil => exact ⟨fun _ => nofun, fun _ => rfl⟩
  | cons s body ih =>
    show (s.keepsElses && allKeepElses body) = true ↔ _
    rw [Bool.and_eq_true, ih, List.forall_mem_cons]

variable {n : Nat} {s : Stmt}

/-- Where every `else` is kept, a statement that is read again is as open as it was. -/
theorem endsOpen_reread (h : IsFlow n s) (hkeeps : s.keepsElses = true) :
    s.reread.endsOpen = s.endsOpen := by
  induction h with
  | expr | ifThen | block => rfl
  | @ifElse n m t i c a hi hc ha ihc iha =>
    rw [keepsElses, Bool.and_eq_true, Bool.and_eq_true, Bool.or_eq_true, Bool.not_eq_true']
      at hkeeps
    obtain ⟨⟨hopen, hc⟩, ha⟩ := hkeeps
    rw [reread]
    split
    · exact iha ha
    · next hnot =>
      have hclosed : c.reread.endsOpen = false := (ihc hc).trans (hopen.resolve_left hnot)
      rw [hclosed]
      exact iha ha
  | whileLoop _ _ ih | forLoop _ _ _ _ ih | labeled _ _ ih => exact ih hkeeps

/-- A statement is read again as the same one exactly if every `else` in it is kept. -/
theorem shape_reread_iff (h : IsFlow n s) : s.reread.shape = s.shape ↔ s.keepsElses = true := by
  induction h with
  | expr => exact iff_of_true rfl rfl
  | ifThen hi hc ih =>
    rw [reread, keepsElses, shape_ifThen, shape_ifThen, ← ih]
    simp only [Tree.mk.injEq, List.cons.injEq, TreeField.child.injEq, true_and, and_true]
  | @ifElse n m t i c a hi hc ha ihc iha =>
    rw [reread, keepsElses, Bool.and_eq_true, Bool.and_eq_true, ← ihc, ← iha, shape_ifElse]
    split
    · next hopen =>
      rw [shape_ifElse, shape_block_singleton, hopen]
      simp only [Tree.mk.injEq, List.cons.injEq, TreeField.child.injEq, true_and, and_true,
        Bool.true_or]
    · next hnot =>
      split
      · next hopen =>
        -- The `else` is captured, and would not be if all were kept.
        rw [shape_ifThen, Bool.eq_false_iff.mpr hnot, Bool.false_or, Bool.not_eq_true']
        refine iff_of_false (fun h => ?_) ?_
        · simp only [Tree.mk.injEq, List.cons.injEq, reduceCtorEq, and_false, false_and] at h
        · rintro ⟨⟨hclosed, hshape⟩, -⟩
          rw [endsOpen_reread hc (ihc.mp hshape), hclosed] at hopen
          cases hopen
      · next hclosed =>
        rw [shape_ifElse, Bool.eq_false_iff.mpr hnot, Bool.false_or, Bool.not_eq_true']
        simp only [Tree.mk.injEq, List.cons.injEq, TreeField.child.injEq, true_and, and_true]
        refine ⟨fun h => ⟨⟨?_, h.1⟩, h.2⟩, fun h => ⟨h.1.2, h.2⟩⟩
        rw [← endsOpen_reread hc (ihc.mp h.1)]
        exact Bool.eq_false_iff.mpr hclosed
  | whileLoop hi hb ih =>
    rw [reread, keepsElses, shape_whileLoop, shape_whileLoop, ← ih]
    simp only [Tree.mk.injEq, List.cons.injEq, TreeField.child.injEq, true_and, and_true]
  | @forLoop n t init test update b hinit htest hupdate hb ih =>
    obtain ⟨head, hshape⟩ := exists_shape_forLoop ((init.map Expr.ident).map .expr)
      (test.map .ident) (update.map .ident)
    rw [reread, keepsElses, hshape, hshape, ← ih]
    simp only [Tree.mk.injEq, List.append_cancel_left_eq, List.cons.injEq, TreeField.child.injEq,
      true_and, and_true]
  | labeled hi hb ih =>
    rw [reread, keepsElses, shape_labeled, shape_labeled, ← ih]
    simp only [Tree.mk.injEq, List.cons.injEq, TreeField.child.injEq, true_and, and_true]
  | @block n t body h ih =>
    have hlength : ((rereads body).map shape).length = (body.map shape).length := by
      rw [rereads_eq_map]
      simp
    rw [reread, keepsElses, shape_block, shape_block, Tree.unwrap_blockTree_inj hlength,
      allKeepElses_iff, rereads_eq_map, List.map_map, List.map_inj_left]
    exact forall₂_congr ih

end Stmt

/-! ### Printed texts as tokens -/

namespace Print

variable {unit : String} {depth d e n : Nat} {T : List Char} {us vs : List Kind} {i : Ident}
  {c a s : Stmt} {t : Span} {texts : List String} {rows : List (List Kind × Stmt)}

/-- A sign that stands by itself may be put in front of any text. -/
theorem closes_sign {p : Punct} (hp : p.isWhole = true) (h : Closes T us) :
    Closes (p.text.toList ++ T) (.punct p :: us) :=
  (closes_whole hp).append h

/-- A keyword and a blank may be put in front of any text. -/
theorem closes_key (word : Keyword) (hword : isWord word.text = true) (h : Closes T us) :
    Closes (word.text.toList ++ ' ' :: T) (.keyword word :: us) := by
  have hfirst := (closes_word hword).append h
  rw [wordKind_text, List.append_assoc] at hfirst
  exact hfirst

/-- A name between parentheses and what follows a blank behind them. -/
theorem closes_test (hi : isPlainName i.name = true) (h : Closes T us) :
    Closes ('(' :: (i.name.toList ++ ')' :: ' ' :: T)) (testKinds i ++ us) := by
  have hclose := (writes_plainName hi).closes (p := .rightParen) rfl
  have htest := closes_sign (p := .leftParen) rfl (hclose.append h.blank)
  rw [List.append_assoc] at htest
  exact htest

/-- A name and the sign that ends what it is. -/
theorem closes_name {p : Punct} (hp : p.isWhole = true) (hi : isPlainName i.name = true)
    (h : Closes T us) :
    Closes (i.name.toList ++ (p.text.toList ++ T)) (.name i.name :: .punct p :: us) := by
  have hname := ((writes_plainName hi).closes hp).append h
  rw [List.append_assoc] at hname
  exact hname

/-- A clause of a loop and the sign that ends it. -/
theorem closes_clause {p : Punct} (hp : p.isWhole = true) {clause : Option Ident}
    (hclause : ∀ i ∈ clause, isPlainName i.name = true) (h : Closes T us) :
    Closes ((optionalExpr unit depth " " (clause.map .ident)).toList ++ (p.text.toList ++ T))
      (clauseKinds clause ++ .punct p :: us) := by
  cases clause with
  | none => exact closes_sign hp h
  | some i =>
    have htext : (optionalExpr unit depth " " ((some i).map .ident)).toList =
        ' ' :: i.name.toList := by
      show (" " ++ i.name).toList = _
      simp
    rw [htext]
    exact (closes_name hp (hclause i rfl) h).blank

/-- The text of the first clause of a loop, in front of which there is no blank. -/
def firstText (init : Option Ident) : List Char := init.elim [] fun i => i.name.toList

/-- The first clause of a loop, which may be missing, ends at its semicolon. -/
theorem closes_firstClause {init : Option Ident} (hinit : ∀ i ∈ init, isPlainName i.name = true)
    (h : Closes T us) :
    Closes (firstText init ++ ';' :: T) (clauseKinds init ++ .punct .semicolon :: us) := by
  cases init with
  | none => exact closes_sign (p := .semicolon) rfl h
  | some i => exact closes_name (p := .semicolon) rfl (hinit i rfl) h

/-- The head of a loop behind the semicolon that ends its first clause. -/
theorem closes_rest (unit : String) (depth : Nat) {test update : Option Ident}
    (htest : ∀ i ∈ test, isPlainName i.name = true)
    (hupdate : ∀ i ∈ update, isPlainName i.name = true) (h : Closes T us) :
    Closes ((optionalExpr unit depth " " (test.map .ident)).toList ++ ';' ::
        ((optionalExpr unit depth " " (update.map .ident)).toList ++ ')' :: ' ' :: T))
      (clauseKinds test ++ .punct .semicolon ::
        (clauseKinds update ++ .punct .rightParen :: us)) :=
  closes_clause (p := .semicolon) rfl htest
    (closes_clause (p := .rightParen) rfl hupdate h.blank)

/-! #### Lines -/

/-- What starts a statement may stand on a line of its own. -/
theorem mindsLine_of_startsFlow {k : Kind} (hk : startsFlow k = true) : k.mindsLine = false := by
  cases k with
  | punct p => cases p <;> first | rfl | cases hk
  | _ => rfl

/-- A line break with its indentation may stand in front of what does not mind it. -/
theorem closes_newline (hunit : ∀ c ∈ unit.toList, c = ' ' ∨ c = '\t') (depth : Nat) {k : Kind}
    (hk : k.mindsLine = false) (h : Closes T (k :: us)) :
    Closes ((newline unit depth).toList ++ T) (k :: us) := by
  have hline := h.line hk (isBlank_of_mem_indentation hunit depth)
  rw [newline, String.toList_append]
  simpa using hline

/-- Texts are read as the tokens of statements. -/
def AreRows (texts : List String) (rows : List (List Kind × Stmt)) : Prop :=
  List.Forall₂ (fun text row => Closes text.toList row.1 ∧
    ∃ k us, row.1 = k :: us ∧ startsFlow k = true) texts rows

/-- Statements in lines of their own. -/
theorem AreRows.closes_lines (hunit : ∀ c ∈ unit.toList, c = ' ' ∨ c = '\t') (depth : Nat)
    (h : AreRows texts rows) :
    Closes (String.join (texts.map (newline unit depth ++ ·))).toList (rowKinds rows) := by
  induction h with
  | nil => exact closes_nil
  | @cons text row texts rows hhead _ ih =>
    obtain ⟨us, s⟩ := row
    obtain ⟨hcloses, k, us', rfl, hk⟩ := hhead
    have hline := (closes_newline hunit depth (mindsLine_of_startsFlow hk) hcloses).append ih
    rw [List.map_cons, String.join_cons, String.toList_append, String.toList_append]
    exact hline

/-- Rows between braces are read as the tokens of the rows between braces. -/
theorem AreRows.closes_bracedLines (hunit : ∀ c ∈ unit.toList, c = ' ' ∨ c = '\t') (depth : Nat)
    (h : AreRows texts rows) :
    Closes (bracedLines unit depth texts).toList
      (.punct .leftBrace :: (rowKinds rows ++ [.punct .rightBrace])) := by
  have hclose : Closes ['\x7d'] [.punct .rightBrace] := closes_whole (p := .rightBrace) rfl
  unfold bracedLines
  split
  · next hempty =>
    rw [List.isEmpty_iff] at hempty
    subst hempty
    cases h
    exact closes_sign (p := .leftBrace) rfl hclose
  · have hlast := closes_newline hunit depth (k := .punct .rightBrace) rfl hclose
    have hbraces := (h.closes_lines hunit (depth + 1)).append hlast
    have hopen : Closes ('\x7b' :: _) _ := closes_sign (p := .leftBrace) rfl hbraces
    simpa using hopen

/-- Statements in the lines of a program. -/
theorem AreRows.closes_intercalate (h : AreRows texts rows) :
    Closes ("\n".intercalate texts).toList (rowKinds rows) := by
  induction h with
  | nil => exact closes_nil
  | @cons text row texts rows hhead htail ih =>
    obtain ⟨us, s⟩ := row
    obtain ⟨hcloses, -⟩ := hhead
    cases htail with
    | nil => simpa [rowKinds] using hcloses
    -- A row is ended by the line break in front of the next one, and the next one does not mind
    -- that.
    | @cons text' row' texts rows hhead' htail =>
      obtain ⟨us', s'⟩ := row'
      obtain ⟨-, k, us', rfl, hk⟩ := hhead'
      have hnext : Closes ('\n' :: ([] ++ _)) _ :=
        ih.line (mindsLine_of_startsFlow hk) (List.forall_mem_nil _)
      have hline := hcloses.append hnext
      rw [String.intercalate_cons_cons, String.toList_append, String.toList_append,
        List.append_assoc]
      exact hline

/-! #### Statements -/

/-- A plain name is that of a variable. -/
theorem isVariable_of_isPlainName (hi : isPlainName i.name = true) : IsVariable i :=
  isContextual_of_isPlainName hi

/-- A statement is printed as tokens that are read as what it becomes. -/
def IsSpelled (unit : String) (depth d : Nat) (s : Stmt) : Prop :=
  ∃ us, Flows d us s.reread ∧ Closes (stmt unit depth s).toList us

/-- What is read within a depth is read within a greater one. -/
theorem IsSpelled.mono (h : IsSpelled unit depth d s) (hd : d ≤ e) : IsSpelled unit depth e s := by
  obtain ⟨us, hflows, hcloses⟩ := h
  exact ⟨us, hflows.mono hd, hcloses⟩

/-- A name that stands as a statement. -/
theorem isSpelled_expr (hi : isPlainName i.name = true) :
    IsSpelled unit depth d (.expr t (.ident i)) := by
  refine ⟨_, .expr (isVariable_of_isPlainName hi), ?_⟩
  have hcloses : Closes (i.name.toList ++ [';']) _ :=
    (writes_plainName hi).closes (p := .semicolon) rfl
  have htext : (stmt unit depth (.expr t (.ident i))).toList = i.name.toList ++ [';'] :=
    String.toList_append
  rw [htext]
  exact hcloses

/-- An `if` without `else`: its consequent follows the test on the same line. -/
theorem isSpelled_ifThen (hi : isPlainName i.name = true) (hc : IsSpelled unit depth d c) :
    IsSpelled unit depth (d + 1) (.ifThen t (.ident i) c none) := by
  obtain ⟨us, hflows, hcloses⟩ := hc
  refine ⟨_, .ifThen (isVariable_of_isPlainName hi) hflows, ?_⟩
  have hif := closes_key .ifKw (by decide) (closes_test hi hcloses)
  have htext : (stmt unit depth (.ifThen t (.ident i) c none)).toList =
      Keyword.ifKw.text.toList ++ ' ' :: '(' :: (i.name.toList ++ ')' :: ' ' ::
        (stmt unit depth c).toList) := by
    show ("if (" ++ i.name ++ ") " ++ stmt unit depth c).toList = _
    simp [Keyword.text]
  rw [htext]
  exact hif

/-- A `while` loop the body of which follows the test on the same line. -/
theorem isSpelled_whileLoop {b : Stmt} (hi : isPlainName i.name = true)
    (hb : IsSpelled unit depth d b)
    (hbody : loopBody b (stmt unit depth b) = " " ++ stmt unit depth b) :
    IsSpelled unit depth (d + 1) (.whileLoop t (.ident i) b) := by
  obtain ⟨us, hflows, hcloses⟩ := hb
  refine ⟨_, .whileLoop (isVariable_of_isPlainName hi) hflows, ?_⟩
  have hwhile := closes_key .whileKw (by decide) (closes_test hi hcloses)
  have htext : (stmt unit depth (.whileLoop t (.ident i) b)).toList =
      Keyword.whileKw.text.toList ++ ' ' :: '(' :: (i.name.toList ++ ')' :: ' ' ::
        (stmt unit depth b).toList) := by
    show ("while (" ++ i.name ++ ")" ++ loopBody b (stmt unit depth b)).toList = _
    rw [hbody]
    simp [Keyword.text]
  rw [htext]
  exact hwhile

/-- A statement with a label. -/
theorem isSpelled_labeled {b : Stmt} (hi : isPlainName i.name = true)
    (hb : IsSpelled unit depth d b) : IsSpelled unit depth (d + 1) (.labeled t i b) := by
  obtain ⟨us, hflows, hcloses⟩ := hb
  refine ⟨_, .labeled (isVariable_of_isPlainName hi) hflows, ?_⟩
  have hlabel := ((writes_plainName hi).closes (p := .colon) rfl).append hcloses.blank
  have htext : (stmt unit depth (.labeled t i b)).toList =
      i.name.toList ++ Punct.colon.text.toList ++ ' ' :: (stmt unit depth b).toList := by
    show (i.name ++ ": " ++ stmt unit depth b).toList = _
    simp [Punct.text]
  rw [htext]
  simpa using hlabel

/-- A `for` loop each clause of which is a name or missing. -/
theorem isSpelled_forLoop {init test update : Option Ident} {b : Stmt}
    (hinit : ∀ i ∈ init, isPlainName i.name = true) (htest : ∀ i ∈ test, isPlainName i.name = true)
    (hupdate : ∀ i ∈ update, isPlainName i.name = true) (hb : IsSpelled unit depth d b)
    (hbody : loopBody b (stmt unit depth b) = " " ++ stmt unit depth b) :
    IsSpelled unit depth (d + 1)
      (.forLoop t ((init.map Expr.ident).map .expr) (test.map .ident) (update.map .ident) b) := by
  obtain ⟨us, hflows, hcloses⟩ := hb
  refine ⟨_, .forLoop (fun i hi => isVariable_of_isPlainName (hinit i hi))
    (fun i hi => isVariable_of_isPlainName (htest i hi))
    (fun i hi => isVariable_of_isPlainName (hupdate i hi)) hflows, ?_⟩
  have hrest := closes_rest unit depth htest hupdate hcloses
  have hhead := closes_sign (p := .leftParen) rfl (closes_firstClause hinit hrest)
  have hkinds : restKinds test update ++ us = .punct .semicolon :: (clauseKinds test ++
      .punct .semicolon :: (clauseKinds update ++ .punct .rightParen :: us)) := by
    simp [restKinds]
  -- The clauses that are missing leave their signs behind; only the first one changes how the text
  -- begins.
  have htext : (stmt unit depth (.forLoop t ((init.map Expr.ident).map .expr)
        (test.map .ident) (update.map .ident) b)).toList =
      Keyword.forKw.text.toList ++ ' ' :: '(' :: (firstText init ++ ';' ::
        ((optionalExpr unit depth " " (test.map .ident)).toList ++ ';' ::
          ((optionalExpr unit depth " " (update.map .ident)).toList ++ ')' :: ' ' ::
            (stmt unit depth b).toList))) := by
    cases init with
    | none =>
      show ("for (;" ++ optionalExpr unit depth " " (test.map .ident) ++ ";" ++
        optionalExpr unit depth " " (update.map .ident) ++ ")" ++
          loopBody b (stmt unit depth b)).toList = _
      rw [hbody]
      simp [Keyword.text, firstText]
    | some i =>
      show ("for (" ++ i.name ++ ";" ++ optionalExpr unit depth " " (test.map .ident) ++ ";" ++
        optionalExpr unit depth " " (update.map .ident) ++ ")" ++
          loopBody b (stmt unit depth b)).toList = _
      rw [hbody]
      simp [Keyword.text, firstText]
  rw [htext, hkinds]
  exact closes_key .forKw (by decide) hhead

/-- Statements that are printed one behind the other. -/
theorem exists_rows {body : List Stmt} (h : ∀ s ∈ body, IsSpelled unit depth d s) :
    ∃ rows : List (List Kind × Stmt), rows.map (·.2) = Stmt.rereads body ∧
      (∀ row ∈ rows, Flows d row.1 row.2) ∧ AreRows (stmts unit depth body) rows := by
  induction body with
  | nil => exact ⟨[], rfl, nofun, .nil⟩
  | cons s body ih =>
    obtain ⟨⟨us, hflows, hcloses⟩, htail⟩ := List.forall_mem_cons.mp h
    obtain ⟨rows, hrows, hall, htexts⟩ := ih htail
    exact ⟨(us, s.reread) :: rows, congrArg (s.reread :: ·) hrows,
      List.forall_mem_cons.mpr ⟨hflows, hall⟩, .cons ⟨hcloses, hflows.starts⟩ htexts⟩

/-- A block, with a line for each statement. -/
theorem isSpelled_block {body : List Stmt} (hunit : ∀ c ∈ unit.toList, c = ' ' ∨ c = '\t')
    (h : ∀ s ∈ body, IsSpelled unit (depth + 1) d s) :
    IsSpelled unit depth (d + 1) (.block ⟨body, t⟩) := by
  obtain ⟨rows, hrows, hflows, htexts⟩ := exists_rows h
  have hblock : Flows (d + 1) _ (.block ⟨rows.map (·.2), t⟩) := .block hflows
  rw [hrows] at hblock
  exact ⟨_, hblock, htexts.closes_bracedLines hunit depth⟩

/-- An `if` with an `else`, from what is printed in front of that `else`. -/
theorem isSpelled_of_consequent {X separator : String}
    (hunit : ∀ c ∈ unit.toList, c = ' ' ∨ c = '\t') (hi : isPlainName i.name = true)
    (htext : stmt unit depth (.ifThen t (.ident i) c (some a)) =
      "if (" ++ i.name ++ ") " ++ (X ++ separator) ++ "else " ++ stmt unit depth a)
    (hseparator : separator = " " ∨ separator = newline unit depth) (hX : Closes X.toList us)
    (ha : Closes (stmt unit depth a).toList vs)
    (hflows : Flows d (.keyword .ifKw :: (testKinds i ++ (us ++ .keyword .elseKw :: vs)))
      (Stmt.ifThen t (.ident i) c (some a)).reread) :
    IsSpelled unit depth d (.ifThen t (.ident i) c (some a)) := by
  have helse := closes_key .elseKw (by decide) ha
  have hseparated : Closes (separator.toList ++
      (Keyword.elseKw.text.toList ++ ' ' :: (stmt unit depth a).toList))
      (.keyword .elseKw :: vs) := by
    -- Behind a blank and on a line of its own an `else` is the same token.
    rcases hseparator with rfl | rfl
    · exact helse.blank
    · exact closes_newline hunit depth rfl helse
  have hif := closes_key .ifKw (by decide) (closes_test hi (hX.append hseparated))
  refine ⟨_, hflows, ?_⟩
  rw [htext]
  simpa [Keyword.text] using hif

/-- An `if` with an `else`, which braces, a line break or a blank keep apart. -/
theorem isSpelled_ifElse (hunit : ∀ c ∈ unit.toList, c = ' ' ∨ c = '\t')
    (hi : isPlainName i.name = true) (hc : ∀ depth, IsSpelled unit depth d c)
    (ha : IsSpelled unit depth e a) :
    IsSpelled unit depth (d + e + 2) (.ifThen t (.ident i) c (some a)) := by
  obtain ⟨vs, haflows, hacloses⟩ := ha
  have hvariable : IsVariable i := isVariable_of_isPlainName hi
  have haflows' : Flows (d + e + 1) vs a.reread := haflows.mono (by omega)
  have htext : stmt unit depth (.ifThen t (.ident i) c (some a)) = "if (" ++ i.name ++ ") " ++
      (if c.isOpenIf then bracedLines unit depth [stmt unit (depth + 1) c] ++ " "
        else stmt unit depth c ++ if c.isBlock then " " else newline unit depth) ++
      "else " ++ stmt unit depth a :=
    rfl
  by_cases hopen : c.isOpenIf = true
  · -- The braces keep the `else` away from the `if` in front of it.
    obtain ⟨us, hflows, hcloses⟩ := hc (depth + 1)
    have hrows : AreRows [stmt unit (depth + 1) c] [(us, c.reread)] :=
      .cons ⟨hcloses, hflows.starts⟩ .nil
    have hblock : Flows (d + 1) _ (.block ⟨[(us, c.reread)].map (·.2), t⟩) :=
      .block (by simpa using hflows)
    rw [if_pos hopen] at htext
    refine isSpelled_of_consequent hunit hi htext (.inl rfl)
      (hrows.closes_bracedLines hunit depth) hacloses ?_
    rw [Stmt.reread, if_pos hopen]
    exact .ifElse hvariable (hblock.mono (by omega)) rfl haflows'
  · obtain ⟨us, hflows, hcloses⟩ := hc depth
    rw [if_neg hopen] at htext
    refine isSpelled_of_consequent hunit hi htext (ite_eq_or_eq _ _ _) hcloses hacloses ?_
    rw [Stmt.reread, if_neg hopen]
    split
    · next hcaptures =>
      exact .ifThen hvariable ((hflows.withElse hcaptures haflows).mono (by omega))
    · next hclosed =>
      exact .ifElse hvariable (hflows.mono (by omega)) (Bool.eq_false_iff.mpr hclosed) haflows'

end Print

open Print

namespace Stmt

/-- No body of a loop is the empty statement, so each follows a blank. -/
theorem IsFlow.loopBody_eq {n : Nat} {s : Stmt} (h : IsFlow n s) (text : String) :
    loopBody s text = " " ++ text := by
  cases h <;> rfl

/-- A statement of control flow is printed as tokens that are read as what it becomes. -/
theorem IsFlow.isSpelled {n : Nat} {s : Stmt} {unit : String} (h : IsFlow n s)
    (hunit : ∀ c ∈ unit.toList, c = ' ' ∨ c = '\t') (depth : Nat) :
    IsSpelled unit depth (2 * n) s := by
  -- Each `if` spends two levels: one on its branches, one on the braces that may stand around one.
  induction h generalizing depth with
  | expr hi => exact isSpelled_expr hi
  | ifThen hi _ ih => exact (isSpelled_ifThen hi (ih depth)).mono (by omega)
  | @ifElse n m t i c a hi _ _ ihc iha =>
    have hspelled := isSpelled_ifElse (t := t) hunit hi ihc (iha depth)
    exact hspelled.mono (by omega)
  | whileLoop hi hb ih =>
    exact (isSpelled_whileLoop hi (ih depth) (hb.loopBody_eq _)).mono (by omega)
  | forLoop hinit htest hupdate hb ih =>
    exact (isSpelled_forLoop hinit htest hupdate (ih depth) (hb.loopBody_eq _)).mono (by omega)
  | labeled hi _ ih => exact (isSpelled_labeled hi (ih depth)).mono (by omega)
  | block _ ih =>
    exact (isSpelled_block hunit fun s hs => ih s hs (depth + 1)).mono (by omega)

end Stmt

namespace Program

variable {n : Nat} {body : List Stmt} {unit : String}

/-- Statements of control flow are parsed as what they become, unless they are refused as nested too
deep. -/
theorem parse_print_reread (h : ∀ s ∈ body, s.IsFlow n)
    (hunit : ∀ c ∈ unit.toList, c = ' ' ∨ c = '\t') (options : ParserOptions) (type : SourceType)
    (t : Span) :
    match Program.parse (Program.print unit ⟨body, type, t⟩) options with
    | .ok p => List.Forall₂ Stmt.SameTree p.body (body.map Stmt.reread)
    | .error f => f.cause = .tooDeep ∧ 63 < n := by
  obtain ⟨rows, hrows, hflows, htexts⟩ := exists_rows fun s hs => (h s hs).isSpelled hunit 0
  have hscans : Scans (Program.print unit ⟨body, type, t⟩).toList (rowKinds rows ++ [.eof]) := by
    rw [← List.append_nil (Program.print unit ⟨body, type, t⟩).toList]
    exact htexts.closes_intercalate [] [.eof] scans_eof
  -- A level of a flow tree takes at most two of those that the parser allows.
  have hdeep : 127 < 2 * n + 1 → 63 < n := by omega
  have hrun := run_finds hscans
    (fun env st hahead => finds_statementRows hflows hdeep hahead) options
  rw [hrows, Stmt.rereads_eq_map] at hrun
  unfold Program.parse
  cases hbody : statements.run (Program.print unit ⟨body, type, t⟩) options with
  | ok body' =>
    rw [hbody] at hrun
    exact hrun
  | error f =>
    rw [hbody] at hrun
    exact hrun

/-- **Control flow.** A program made of names, `if` statements, loops, labels and blocks is printed
as a text that is parsed as the same program, up to spans and to blocks around single statements,
exactly if every statement in front of an `else` that ends in an `if` without one is that `if`. In
all other programs an `else` comes to belong to another `if`. Only programs that nest deeper than 63
may be refused. -/
theorem parse_print_flow (h : ∀ s ∈ body, s.IsFlow n)
    (hunit : ∀ c ∈ unit.toList, c = ' ' ∨ c = '\t') (options : ParserOptions) (type : SourceType)
    (t : Span) :
    match Program.parse (Program.print unit ⟨body, type, t⟩) options with
    | .ok p => p.body.map Stmt.shape = body.map Stmt.shape ↔ ∀ s ∈ body, s.keepsElses = true
    | .error f => f.cause = .tooDeep ∧ 63 < n := by
  have hreread := parse_print_reread h hunit options type t
  cases hparse : Program.parse (Program.print unit ⟨body, type, t⟩) options with
  | error f =>
    rw [hparse] at hreread
    exact hreread
  | ok p =>
    rw [hparse] at hreread
    dsimp only at hreread ⊢
    rw [Stmt.SameTree.map_shape hreread, List.map_map, List.map_inj_left]
    exact forall₂_congr fun s hs => Stmt.shape_reread_iff (h s hs)

/-- An `if` in front of an `else`, which gets braces, and one at the end of a loop in front of an
`else`, which gets none and captures it. -/
theorem parse_print_flow_of_nested :
    let name (word : String) : Ident := ⟨word, default⟩
    let run (word : String) : Stmt := .expr default (.ident (name word))
    let inner : Stmt := .ifThen default (.ident (name "b")) (run "c") none
    let choice (c : Stmt) : Stmt := .ifThen default (.ident (name "a")) c (some (run "d"))
    let program (s : Stmt) : Program := ⟨[s], .script, default⟩
    let direct := choice inner
    let looped := choice (.whileLoop default (.ident (name "w")) inner)
    (direct.IsFlow 2 ∧ (program direct).print "  " = "if (a) \x7b\n  if (b) c;\n\x7d else d;" ∧
      ∃ p, Program.parse ((program direct).print "  ") = .ok p ∧
        p.body.map Stmt.shape = [direct.shape]) ∧
    looped.IsFlow 3 ∧ (program looped).print "  " = "if (a) while (w) if (b) c;\nelse d;" ∧
      ∃ p, Program.parse ((program looped).print "  ") = .ok p ∧
        p.body.map Stmt.shape ≠ [looped.shape] := by
  intro name run inner choice program direct looped
  have hrun : ∀ {n word}, isPlainName word = true → (run word).IsFlow n := fun h => .expr h
  have hunit : ∀ c ∈ "  ".toList, c = ' ' ∨ c = '\t' := by simp
  have hinner : inner.IsFlow 1 := .ifThen (by decide) (hrun (by decide))
  have hdirect : direct.IsFlow 2 := .ifElse (by decide) hinner (hrun (n := 0) (by decide))
  have hlooped : looped.IsFlow 3 :=
    .ifElse (by decide) (.whileLoop (by decide) hinner) (hrun (n := 0) (by decide))
  obtain ⟨hdirectText, hloopedText⟩ :
      (program direct).print "  " = "if (a) \x7b\n  if (b) c;\n\x7d else d;" ∧
      (program looped).print "  " = "if (a) while (w) if (b) c;\nelse d;" := by decide +kernel
  -- Neither tree is too deep, so each is read, and keeps its shape if it keeps its `else`s.
  have hflow : ∀ {n s}, s.IsFlow n → n ≤ 63 → ∃ p,
      Program.parse ((program s).print "  ") = .ok p ∧
      (p.body.map Stmt.shape = [s.shape] ↔ s.keepsElses = true) := by
    intro n s hs hn
    have hprint := parse_print_flow (List.forall_mem_singleton.mpr hs) hunit {} .script default
    cases hparse : Program.parse (Program.print "  " ⟨[s], .script, default⟩) with
    | error f =>
      rw [hparse] at hprint
      exact absurd hprint.2 (Nat.not_lt.mpr hn)
    | ok p =>
      rw [hparse] at hprint
      exact ⟨p, rfl, hprint.trans List.forall_mem_singleton⟩
  obtain ⟨p, hp, hsame⟩ := hflow hdirect (by decide)
  obtain ⟨q, hq, hsame'⟩ := hflow hlooped (by decide)
  have hcaptured : looped.keepsElses = false := rfl
  refine ⟨⟨hdirect, hdirectText, p, hp, hsame.mpr rfl⟩, hlooped, hloopedText, q, hq, ?_⟩
  rw [Ne, hsame', hcaptured]
  exact Bool.false_ne_true

end Program

end Espalier
