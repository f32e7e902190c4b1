import Espalier.Print

/-!
# Layouts

The text that a program is printed as depends on the unit of indentation in its line breaks alone:
it is a `Layout`, rendered with that unit (`Program.isLaidOut_print`). What the printer decides by
looking at a text, it decides by the first character of that, which is the same for every unit.
-/

namespace Espalier.Print

/-! ### Pieces of text -/

/-- A part of a printed text: characters, or a line break with the depth of the new line. -/
inductive Piece
  | text (chars : String)
  | line (depth : Nat)

/-- What a piece reads with a given unit. -/
def Piece.render (unit : String) : Piece → String
  | .text chars => chars
  | .line depth => newline unit depth

/-- A line is indented by blanks if the unit is made of blanks. -/
theorem isBlank_of_mem_indentation {unit : String} (hunit : ∀ c ∈ unit.toList, c = ' ' ∨ c = '\t')
    (depth : Nat) :
    ∀ c ∈ (String.join (List.replicate depth unit)).toList, c = ' ' ∨ c = '\t' := by
  intro c hc
  rw [String.toList_join, List.mem_flatMap] at hc
  obtain ⟨u, hu, hc⟩ := hc
  rw [List.eq_of_mem_replicate hu] at hc
  exact hunit c hc

/-- A text as a list of pieces. -/
abbrev Layout := List Piece

/-- The text of a layout in which `unit` indents by one step. -/
def Layout.render (l : Layout) (unit : String) : String := String.join (l.map (Piece.render unit))

namespace Layout

@[simp]
theorem render_nil (unit : String) : render [] unit = "" := rfl

@[simp]
theorem render_cons (p : Piece) (l : Layout) (unit : String) :
    render (p :: l) unit = p.render unit ++ render l unit :=
  String.join_cons

/-- Two layouts are rendered one after the other. -/
@[simp]
theorem render_append (l l' : Layout) (unit : String) :
    render (l ++ l') unit = render l unit ++ render l' unit := by
  unfold render
  rw [List.map_append, String.join_append]

/-- A text starts with the same character in every unit. -/
theorem head?_render (l : Layout) (unit : String) :
    (l.render unit).toList.head? = (l.render "").toList.head? := by
  induction l with
  | nil => rfl
  | cons p l ih =>
    rw [render_cons, render_cons, String.toList_append, String.toList_append]
    cases p with
    | text chars =>
      show (chars.toList ++ _).head? = (chars.toList ++ _).head?
      rw [List.head?_append, List.head?_append, ih]
    | line depth =>
      have hline (unit : String) (T : List Char) :
          ((newline unit depth).toList ++ T).head? = some '\n' := by
        unfold newline
        rw [String.toList_append]
        rfl
      exact (hline unit _).trans (hline "" _).symm

end Layout

/-- A text that depends on the unit of indentation in its line breaks alone. -/
def IsLaidOut (f : String → String) : Prop := ∃ l : Layout, ∀ unit, f unit = l.render unit

namespace IsLaidOut

variable {f g : String → String}

theorem render (l : Layout) : IsLaidOut fun unit => l.render unit := ⟨l, fun _ => rfl⟩

theorem piece (p : Piece) : IsLaidOut fun unit => p.render unit := by
  refine ⟨[p], fun unit => ?_⟩
  rw [Layout.render_cons, Layout.render_nil, String.append_empty]

theorem const (chars : String) : IsLaidOut fun _ => chars := piece (.text chars)

theorem newline (depth : Nat) : IsLaidOut fun unit => newline unit depth := piece (.line depth)

/-- Two texts, one behind the other. -/
theorem append (hf : IsLaidOut f) (hg : IsLaidOut g) : IsLaidOut fun unit => f unit ++ g unit := by
  obtain ⟨l, hl⟩ := hf
  obtain ⟨l', hl'⟩ := hg
  refine ⟨l ++ l', fun unit => ?_⟩
  rw [Layout.render_append, ← hl, ← hl']

theorem ite (c : Prop) [Decidable c] (hf : IsLaidOut f) (hg : IsLaidOut g) :
    IsLaidOut fun unit => if c then f unit else g unit := by
  by_cases h : c
  · simpa only [if_pos h] using hf
  · simpa only [if_neg h] using hg

theorem parens (needed : Bool) (hf : IsLaidOut f) : IsLaidOut fun unit => parens needed (f unit) :=
  .ite _ (((const "(").append hf).append (const ")")) hf

/-- A text starts with a character if its first one is that. -/
theorem isPrefixOf_singleton_iff {c : Char} {cs : List Char} :
    [c].isPrefixOf cs = true ↔ cs.head? = some c := by
  cases cs with
  | nil => exact ⟨nofun, nofun⟩
  | cons d cs =>
    rw [List.isPrefixOf_iff_prefix, List.cons_prefix_cons, List.head?_cons, Option.some_inj]
    exact ⟨fun h => h.1.symm, fun h => ⟨h.symm, List.nil_prefix⟩⟩

/-- Whether an operator would fuse with its operand does not depend on the unit. -/
theorem unaryText (op : UnaryOp) (hf : IsLaidOut f) :
    IsLaidOut fun unit => unaryText op (f unit) := by
  have hfuses (unit : String) :
      ((op == .minus || op == .plus) && op.text.toList.isPrefixOf (f unit).toList) =
        ((op == .minus || op == .plus) && op.text.toList.isPrefixOf (f "").toList) := by
    obtain ⟨l, hl⟩ := hf
    have hhead := l.head?_render unit
    rw [← hl, ← hl] at hhead
    have hone (sign : Char) :
        [sign].isPrefixOf (f unit).toList = [sign].isPrefixOf (f "").toList := by
      rw [Bool.eq_iff_iff, isPrefixOf_singleton_iff, isPrefixOf_singleton_iff, hhead]
    cases op with
    | minus => exact congrArg _ (hone '-')
    | plus => exact congrArg _ (hone '+')
    | _ => rfl
  unfold Print.unaryText
  simp only [hfuses]
  exact ((const _).append (.ite _ (const _) (const _))).append hf

end IsLaidOut

/-! ### Lists of texts -/

/-- Texts of which each one depends on the unit in its line breaks alone. -/
def AreLaidOut (fs : String → List String) : Prop :=
  ∃ ls : List Layout, ∀ unit, fs unit = ls.map (·.render unit)

/-- Texts with holes between them. -/
def AreLaidOutWithHoles (fs : String → List (Option String)) : Prop :=
  ∃ ls : List (Option Layout), ∀ unit, fs unit = ls.map (Option.map (·.render unit))

section

variable {f : String → String} {fs : String → List String}
  {gs : String → List (Option String)}

theorem areLaidOut_nil : AreLaidOut fun _ => [] := ⟨[], fun _ => rfl⟩

/-- One more text in front of a list. -/
theorem IsLaidOut.cons (hf : IsLaidOut f) (hfs : AreLaidOut fs) :
    AreLaidOut fun unit => f unit :: fs unit := by
  obtain ⟨l, hl⟩ := hf
  obtain ⟨ls, hls⟩ := hfs
  refine ⟨l :: ls, fun unit => ?_⟩
  rw [List.map_cons, ← hl, ← hls]

theorem areLaidOutWithHoles_nil : AreLaidOutWithHoles fun _ => [] := ⟨[], fun _ => rfl⟩

theorem AreLaidOutWithHoles.hole (hgs : AreLaidOutWithHoles gs) :
    AreLaidOutWithHoles fun unit => none :: gs unit := by
  obtain ⟨ls, hls⟩ := hgs
  refine ⟨none :: ls, fun unit => ?_⟩
  rw [List.map_cons, ← hls]
  rfl

theorem IsLaidOut.consSome (hf : IsLaidOut f) (hgs : AreLaidOutWithHoles gs) :
    AreLaidOutWithHoles fun unit => some (f unit) :: gs unit := by
  obtain ⟨l, hl⟩ := hf
  obtain ⟨ls, hls⟩ := hgs
  refine ⟨some l :: ls, fun unit => ?_⟩
  rw [List.map_cons, ← hls, Option.map_some, ← hl]

namespace AreLaidOut

/-- Texts with a separator between them. -/
theorem intercalate (separator : String) (hfs : AreLaidOut fs) :
    IsLaidOut fun unit => separator.intercalate (fs unit) := by
  obtain ⟨ls, hls⟩ := hfs
  simp only [hls]
  clear hls
  induction ls with
  | nil => exact .const ""
  | cons l ls ih =>
    cases ls with
    | nil =>
      simp only [List.map_cons, List.map_nil, String.intercalate_singleton]
      exact .render l
    | cons l' ls =>
      simp only [List.map_cons, String.intercalate_cons_cons]
      exact ((IsLaidOut.render l).append (.const separator)).append ih

/-- Whether a list of texts is empty does not depend on the unit. -/
theorem isEmpty_eq (hfs : AreLaidOut fs) (unit : String) :
    (fs unit).isEmpty = (fs "").isEmpty := by
  obtain ⟨ls, hls⟩ := hfs
  rw [hls, hls, List.isEmpty_map, List.isEmpty_map]

theorem braced (hfs : AreLaidOut fs) : IsLaidOut fun unit => braced (fs unit) := by
  unfold Print.braced
  simp only [hfs.isEmpty_eq]
  exact .ite _ (.const _) (((IsLaidOut.const _).append (hfs.intercalate _)).append (.const _))

/-- Lines at a depth, each with a line break in front. -/
theorem lines (depth : Nat) (hfs : AreLaidOut fs) :
    IsLaidOut fun unit => String.join ((fs unit).map (newline unit depth ++ ·)) := by
  obtain ⟨ls, hls⟩ := hfs
  simp only [hls]
  clear hls
  induction ls with
  | nil => exact .const ""
  | cons l ls ih =>
    simp only [List.map_cons, String.join_cons]
    exact ((IsLaidOut.newline depth).append (.render l)).append ih

/-- Texts on lines of their own between braces. -/
theorem bracedLines (depth : Nat) (hfs : AreLaidOut fs) :
    IsLaidOut fun unit => bracedLines unit depth (fs unit) := by
  unfold Print.bracedLines
  simp only [hfs.isEmpty_eq]
  refine .ite _ (.const _) ?_
  exact (((IsLaidOut.const _).append (hfs.lines _)).append (.newline _)).append (.const _)

/-- A template is laid out piece by piece. -/
theorem templateBody (pieces : List String) (hfs : AreLaidOut fs) :
    IsLaidOut fun unit => templateBody pieces (fs unit) := by
  obtain ⟨ls, hls⟩ := hfs
  simp only [hls]
  clear hls
  induction pieces generalizing ls with
  | nil => exact .const ""
  | cons piece pieces ih =>
    simp only [Print.templateBody]
    refine (IsLaidOut.const _).append ?_
    cases ls with
    | nil => exact ih []
    | cons l ls =>
      exact (((IsLaidOut.const _).append (.render l)).append (.const _)).append (ih ls)

end AreLaidOut

/-- The elements of an array, holes included. -/
theorem AreLaidOutWithHoles.elements (hgs : AreLaidOutWithHoles gs) :
    IsLaidOut fun unit => elements (gs unit) := by
  obtain ⟨ls, hls⟩ := hgs
  simp only [hls]
  clear hls
  induction ls with
  | nil => exact .const ""
  | cons l? ls ih =>
    cases ls with
    | nil =>
      cases l? with
      | none => exact .const ","
      | some l => exact .render l
    | cons l'? ls =>
      simp only [List.map_cons, Print.elements] at ih ⊢
      refine (IsLaidOut.append ?_ ?_).append ih
      · cases l? with
        | none => exact .const ""
        | some l => exact .render l
      · simp only [Option.isSome_map]
        exact .ite _ (.const _) (.const _)

end

/-- The body of a loop stands behind its head, an empty one without a blank. -/
theorem isLaidOut_loopBody {f : String → String} (body : Stmt) (hf : IsLaidOut f) :
    IsLaidOut fun unit => loopBody body (f unit) := by
  cases body with
  | empty => exact .const _
  | _ => exact (IsLaidOut.const _).append hf

/-! ### The tree -/

mutual

/-- Every expression is laid out, one case for each form. -/
theorem isLaidOut_expr (depth least : Nat) (e : Expr) :
    IsLaidOut fun unit => expr unit depth least e := by
  cases e with
  | null | bool | number | bigint | string | regex | ident | this | super | importWord
  | metaProperty => exact .const _
  | template t => exact isLaidOut_template depth t
  | tagged s tag quasi => exact (isLaidOut_expr depth _ tag).append (isLaidOut_template depth quasi)
  | array s es =>
    exact ((IsLaidOut.const _).append (areLaidOut_optionalExprs depth es).elements).append
      (.const _)
  | object s ps => exact (areLaidOut_properties depth ps).braced
  | function f => exact isLaidOut_function depth f
  | arrow a => exact .parens _ (isLaidOut_arrow depth a)
  | classExpr c => exact isLaidOut_classDef depth c
  | unary s op e => exact .parens _ (.unaryText op (isLaidOut_expr depth _ e))
  | update s op isPrefix e =>
    cases isPrefix with
    | true => exact .parens _ ((IsLaidOut.const _).append (isLaidOut_expr depth _ e))
    | false => exact .parens _ ((isLaidOut_expr depth _ e).append (.const _))
  | binary s op l r =>
    -- the levels of the operands depend on the operator, the layout does not
    have hl (least : Nat) := isLaidOut_expr depth least l
    have hr (least : Nat) := isLaidOut_expr depth least r
    cases op with
    | pow => exact .parens _ (((hl _).append (.const _)).append (hr _))
    | _ =>
      exact .parens _ (((((hl _).append (.const _)).append (.const _)).append (.const _)).append
        (hr _))
  | logical s op l r =>
    have hl := isLaidOut_expr depth (op.operandLevel (InfixOp.logical op).level l) l
    have hr := isLaidOut_expr depth (op.operandLevel ((InfixOp.logical op).level + 1) r) r
    exact .parens _ ((((hl.append (.const _)).append (.const _)).append (.const _)).append hr)
  | assign s op l r =>
    have hl := isLaidOut_pattern depth l
    have hr := isLaidOut_expr depth Level.assignment r
    exact .parens _ ((((hl.append (.const _)).append (.const _)).append (.const _)).append hr)
  | conditional s t c a =>
    have hc := isLaidOut_expr depth Level.assignment c
    have ha := isLaidOut_expr depth Level.assignment a
    exact .parens _ (((((isLaidOut_expr depth _ t).append (.const _)).append hc).append
      (.const _)).append ha)
  | sequence s es => exact .parens _ ((areLaidOut_exprs depth es).intercalate _)
  | member s o m isOptional =>
    have ho := isLaidOut_expr depth Level.member o
    cases m with
    | ident i => exact (ho.append (.const _)).append (.const _)
    | computed k =>
      exact ((ho.append (.const _)).append (isLaidOut_expr depth 0 k)).append (.const _)
  | call s f args isOptional =>
    have hargs := (areLaidOut_exprs depth args).intercalate ", "
    exact (((isLaidOut_expr depth _ f).append (.const _)).append hargs).append (.const _)
  | new s f args =>
    have hargs := (areLaidOut_exprs depth args).intercalate ", "
    have hcallee := IsLaidOut.ite (f.containsCall = true)
      (((IsLaidOut.const "(").append (isLaidOut_expr depth 0 f)).append (.const ")"))
      (isLaidOut_expr depth Level.creation f)
    exact ((((IsLaidOut.const _).append hcallee).append (.const _)).append hargs).append (.const _)
  | spread s e => exact (IsLaidOut.const _).append (isLaidOut_expr depth _ e)
  | yield s e delegate =>
    cases e with
    | none => exact .parens _ (.const _)
    | some e => exact .parens _ ((IsLaidOut.const _).append (isLaidOut_expr depth _ e))
  | await s e => exact .parens _ ((IsLaidOut.const _).append (isLaidOut_expr depth _ e))

theorem areLaidOut_exprs (depth : Nat) (es : List Expr) :
    AreLaidOut fun unit => exprs unit depth es := by
  match es with
  | [] => exact areLaidOut_nil
  | e :: es => exact (isLaidOut_expr depth _ e).cons (areLaidOut_exprs depth es)

theorem areLaidOut_optionalExprs (depth : Nat) (es : List (Option Expr)) :
    AreLaidOutWithHoles fun unit => optionalExprs unit depth es := by
  match es with
  | [] => exact areLaidOutWithHoles_nil
  | none :: es => exact (areLaidOut_optionalExprs depth es).hole
  | some e :: es => exact (isLaidOut_expr depth _ e).consSome (areLaidOut_optionalExprs depth es)

/-- A template is laid out: its pieces are texts, its expressions are laid out themselves. -/
theorem isLaidOut_template (depth : Nat) (t : Template) :
    IsLaidOut fun unit => template unit depth t := by
  obtain ⟨quasis, es, s⟩ := t
  exact ((IsLaidOut.const _).append ((areLaidOut_substitutions depth es).templateBody _)).append
    (.const _)

theorem areLaidOut_substitutions (depth : Nat) (es : List Expr) :
    AreLaidOut fun unit => substitutions unit depth es := by
  match es with
  | [] => exact areLaidOut_nil
  | e :: es => exact (isLaidOut_expr depth _ e).cons (areLaidOut_substitutions depth es)

theorem isLaidOut_key (depth : Nat) (k : PropertyKey) : IsLaidOut fun unit => key unit depth k := by
  cases k with
  | ident i => exact .const _
  | literal e => exact isLaidOut_expr depth 0 e
  | computed e => exact ((IsLaidOut.const _).append (isLaidOut_expr depth _ e)).append (.const _)

theorem isLaidOut_property (depth : Nat) (p : Property) :
    IsLaidOut fun unit => property unit depth p := by
  cases p with
  | init s k value shorthand =>
    have hk := isLaidOut_key depth k
    have hvalue := isLaidOut_expr depth Level.assignment value
    simp only [property]
    split
    · exact .const _
    · exact (hk.append (.const _)).append hvalue
  | method s k kind f =>
    exact ((IsLaidOut.const _).append (isLaidOut_key depth k)).append (isLaidOut_methodRest depth f)
  | spread s e => exact (IsLaidOut.const _).append (isLaidOut_expr depth _ e)

theorem areLaidOut_properties (depth : Nat) (ps : List Property) :
    AreLaidOut fun unit => properties unit depth ps := by
  match ps with
  | [] => exact areLaidOut_nil
  | p :: ps => exact (isLaidOut_property depth p).cons (areLaidOut_properties depth ps)

theorem isLaidOut_methodRest (depth : Nat) (f : Func) :
    IsLaidOut fun unit => methodRest unit depth f := by
  obtain ⟨id, params, body, isAsync, isGenerator, s⟩ := f
  have hparams := (areLaidOut_patterns depth params).intercalate ", "
  exact (((IsLaidOut.const _).append hparams).append (.const _)).append (isLaidOut_block depth body)

theorem isLaidOut_function (depth : Nat) (f : Func) :
    IsLaidOut fun unit => function unit depth f := by
  obtain ⟨id, params, body, isAsync, isGenerator, s⟩ := f
  have hparams := (areLaidOut_patterns depth params).intercalate ", "
  have hhead := ((((IsLaidOut.const (if isAsync then "async function" else "function")).append
    (.const (if isGenerator then "*" else ""))).append (.const " ")).append
      (.const (id.elim "" Ident.name))).append (.const "(")
  exact ((hhead.append hparams).append (.const _)).append (isLaidOut_block depth body)

theorem isLaidOut_arrow (depth : Nat) (a : Arrow) : IsLaidOut fun unit => arrow unit depth a := by
  obtain ⟨params, body, isAsync, s⟩ := a
  have hparams := (areLaidOut_patterns depth params).intercalate ", "
  have hbody := isLaidOut_arrowBody depth body
  simp only [arrow.eq_def]
  split
  · next heq =>
    cases heq
    exact (((IsLaidOut.const _).append (.const _)).append (.const _)).append hbody
  · next heq =>
    cases heq
    exact ((((IsLaidOut.const _).append (.const _)).append hparams).append (.const _)).append hbody

theorem isLaidOut_arrowBody (depth : Nat) (b : ArrowBody) :
    IsLaidOut fun unit => arrowBody unit depth b := by
  cases b with
  | expr e => exact .parens _ (isLaidOut_expr depth _ e)
  | block b => exact isLaidOut_block depth b

theorem isLaidOut_classDef (depth : Nat) (c : Class) :
    IsLaidOut fun unit => classDef unit depth c := by
  obtain ⟨id, superClass, ⟨ms, t⟩, s⟩ := c
  have hbody := (areLaidOut_members (depth + 1) ms).bracedLines depth
  exact ((((IsLaidOut.const _).append (.const _)).append
    (isLaidOut_heritage depth superClass)).append (.const _)).append hbody

theorem isLaidOut_heritage (depth : Nat) (e? : Option Expr) :
    IsLaidOut fun unit => heritage unit depth e? := by
  match e? with
  | none => exact .const _
  | some e => exact (IsLaidOut.const _).append (isLaidOut_expr depth _ e)

theorem isLaidOut_member (depth : Nat) (m : ClassMember) :
    IsLaidOut fun unit => member unit depth m := by
  cases m with
  | method s k kind isStatic f =>
    exact (((IsLaidOut.const _).append (.const _)).append (isLaidOut_key depth k)).append
      (isLaidOut_methodRest depth f)
  | property s k value isStatic =>
    exact (((IsLaidOut.const _).append (isLaidOut_key depth k)).append
      (isLaidOut_initializer depth value)).append (.const _)

theorem areLaidOut_members (depth : Nat) (ms : List ClassMember) :
    AreLaidOut fun unit => members unit depth ms := by
  match ms with
  | [] => exact areLaidOut_nil
  | m :: ms => exact (isLaidOut_member depth m).cons (areLaidOut_members depth ms)

theorem isLaidOut_initializer (depth : Nat) (e? : Option Expr) :
    IsLaidOut fun unit => initializer unit depth e? := by
  match e? with
  | none => exact .const _
  | some e => exact (IsLaidOut.const _).append (isLaidOut_expr depth _ e)

theorem isLaidOut_pattern (depth : Nat) (p : Pattern) :
    IsLaidOut fun unit => pattern unit depth p := by
  cases p with
  | ident i => exact .const _
  | array s ps =>
    exact ((IsLaidOut.const _).append (areLaidOut_optionalPatterns depth ps).elements).append
      (.const _)
  | object s ps => exact (areLaidOut_patternProperties depth ps).braced
  | default s l r =>
    exact ((isLaidOut_pattern depth l).append (.const _)).append (isLaidOut_expr depth _ r)
  | rest s p => exact (IsLaidOut.const _).append (isLaidOut_pattern depth p)
  | target e => exact isLaidOut_expr depth _ e

theorem areLaidOut_patterns (depth : Nat) (ps : List Pattern) :
    AreLaidOut fun unit => patterns unit depth ps := by
  match ps with
  | [] => exact areLaidOut_nil
  | p :: ps => exact (isLaidOut_pattern depth p).cons (areLaidOut_patterns depth ps)

theorem areLaidOut_optionalPatterns (depth : Nat) (ps : List (Option Pattern)) :
    AreLaidOutWithHoles fun unit => optionalPatterns unit depth ps := by
  match ps with
  | [] => exact areLaidOutWithHoles_nil
  | none :: ps => exact (areLaidOut_optionalPatterns depth ps).hole
  | some p :: ps =>
    exact (isLaidOut_pattern depth p).consSome (areLaidOut_optionalPatterns depth ps)

theorem isLaidOut_patternProperty (depth : Nat) (p : PatternProperty) :
    IsLaidOut fun unit => patternProperty unit depth p := by
  cases p with
  | entry s k value shorthand =>
    exact .ite _ (isLaidOut_pattern depth value)
      (((isLaidOut_key depth k).append (.const _)).append (isLaidOut_pattern depth value))
  | rest s p => exact (IsLaidOut.const _).append (isLaidOut_pattern depth p)

theorem areLaidOut_patternProperties (depth : Nat) (ps : List PatternProperty) :
    AreLaidOut fun unit => patternProperties unit depth ps := by
  match ps with
  | [] => exact areLaidOut_nil
  | p :: ps =>
    exact (isLaidOut_patternProperty depth p).cons (areLaidOut_patternProperties depth ps)

/-- A block has each of its statements on a line of its own. -/
theorem isLaidOut_block (depth : Nat) (b : Block) : IsLaidOut fun unit => block unit depth b := by
  obtain ⟨body, s⟩ := b
  exact (areLaidOut_stmts (depth + 1) body).bracedLines depth

theorem isLaidOut_declaration (depth : Nat) (d : VarDecl) :
    IsLaidOut fun unit => declaration unit depth d := by
  obtain ⟨kind, ds, s⟩ := d
  exact ((IsLaidOut.const _).append (.const _)).append
    ((areLaidOut_declarators depth ds).intercalate _)

theorem areLaidOut_declarators (depth : Nat) (ds : List VarDeclarator) :
    AreLaidOut fun unit => declarators unit depth ds := by
  match ds with
  | [] => exact areLaidOut_nil
  | ⟨id, init, s⟩ :: ds =>
    exact ((isLaidOut_pattern depth id).append (isLaidOut_initializer depth init)).cons
      (areLaidOut_declarators depth ds)

theorem isLaidOut_forInit (depth : Nat) (i : ForInit) :
    IsLaidOut fun unit => forInit unit depth i := by
  cases i with
  | decl d => exact isLaidOut_declaration depth d
  | expr e => exact isLaidOut_expr depth 0 e

theorem isLaidOut_forHead (depth : Nat) (h : ForHead) :
    IsLaidOut fun unit => forHead unit depth h := by
  cases h with
  | decl d => exact isLaidOut_declaration depth d
  | pattern p => exact isLaidOut_pattern depth p

theorem isLaidOut_optionalExpr (depth : Nat) (before : String) (e? : Option Expr) :
    IsLaidOut fun unit => optionalExpr unit depth before e? := by
  match e? with
  | none => exact .const _
  | some e => exact (IsLaidOut.const _).append (isLaidOut_expr depth 0 e)

/-- A case has its statements on lines below it. -/
theorem isLaidOut_switchCase (depth : Nat) (c : SwitchCase) :
    IsLaidOut fun unit => switchCase unit depth c := by
  obtain ⟨test, body, s⟩ := c
  have hbody := (areLaidOut_stmts (depth + 1) body).lines (depth + 1)
  match test with
  | none => exact (IsLaidOut.const _).append hbody
  | some e =>
    exact (((IsLaidOut.const _).append (isLaidOut_expr depth 0 e)).append (.const _)).append hbody

theorem areLaidOut_switchCases (depth : Nat) (cs : List SwitchCase) :
    AreLaidOut fun unit => switchCases unit depth cs := by
  match cs with
  | [] => exact areLaidOut_nil
  | c :: cs => exact (isLaidOut_switchCase depth c).cons (areLaidOut_switchCases depth cs)

theorem isLaidOut_handler (depth : Nat) (h? : Option CatchClause) :
    IsLaidOut fun unit => handler unit depth h? := by
  match h? with
  | none => exact .const _
  | some ⟨none, body, _⟩ => exact (IsLaidOut.const _).append (isLaidOut_block depth body)
  | some ⟨some p, body, _⟩ =>
    exact (((IsLaidOut.const _).append (isLaidOut_pattern depth p)).append (.const _)).append
      (isLaidOut_block depth body)

theorem isLaidOut_finalizer (depth : Nat) (b? : Option Block) :
    IsLaidOut fun unit => finalizer unit depth b? := by
  match b? with
  | none => exact .const _
  | some b => exact (IsLaidOut.const _).append (isLaidOut_block depth b)

theorem isLaidOut_exported (depth : Nat) (d : ExportDefault) :
    IsLaidOut fun unit => exported unit depth d := by
  cases d with
  | function f => exact isLaidOut_function depth f
  | classDecl c => exact isLaidOut_classDef depth c
  | expr e => exact (IsLaidOut.parens _ (isLaidOut_expr depth _ e)).append (.const _)

/-- Every statement is laid out, one case for each form. -/
theorem isLaidOut_stmt (depth : Nat) (s : Stmt) : IsLaidOut fun unit => stmt unit depth s := by
  cases s with
  | var d => exact (isLaidOut_declaration depth d).append (.const _)
  | function f => exact isLaidOut_function depth f
  | classDecl c => exact isLaidOut_classDef depth c
  | block b => exact isLaidOut_block depth b
  | expr s e => exact (IsLaidOut.parens _ (isLaidOut_expr depth 0 e)).append (.const _)
  | empty | debugger | breakTo | continueTo => exact .const _
  | ifThen s test consequent alternate =>
    have htest := ((IsLaidOut.const "if (").append (isLaidOut_expr depth 0 test)).append
      (.const ") ")
    match alternate with
    | none => exact htest.append (isLaidOut_stmt depth consequent)
    | some alternate =>
      have hconsequent := (isLaidOut_stmt (depth + 1) consequent).cons areLaidOut_nil
      have hbraced := hconsequent.bracedLines depth
      have hplain := (isLaidOut_stmt depth consequent).append
        (.ite (consequent.isBlock = true) (.const " ") (.newline depth))
      -- whether braces are put around the consequent does not depend on the unit
      have hthen := IsLaidOut.ite (consequent.isOpenIf = true) (hbraced.append (.const " ")) hplain
      exact ((htest.append hthen).append (.const _)).append (isLaidOut_stmt depth alternate)
  | switch s e cases =>
    exact (((IsLaidOut.const _).append (isLaidOut_expr depth 0 e)).append (.const _)).append
      ((areLaidOut_switchCases (depth + 1) cases).bracedLines depth)
  | forLoop s init test update body =>
    have htest := isLaidOut_optionalExpr depth " " test
    have hupdate := isLaidOut_optionalExpr depth " " update
    have hbody := isLaidOut_loopBody body (isLaidOut_stmt depth body)
    match init with
    | none =>
      exact (((((IsLaidOut.const _).append htest).append (.const _)).append hupdate).append
        (.const _)).append hbody
    | some init =>
      have hinit := ((IsLaidOut.const "for (").append (isLaidOut_forInit depth init)).append
        (.const ";")
      exact ((((hinit.append htest).append (.const _)).append hupdate).append (.const _)).append
        hbody
  | forIn s left right body =>
    have hbody := isLaidOut_loopBody body (isLaidOut_stmt depth body)
    exact (((((IsLaidOut.const _).append (isLaidOut_forHead depth left)).append (.const _)).append
      (isLaidOut_expr depth 0 right)).append (.const _)).append hbody
  | forOf s left right body isAwait =>
    have hbody := isLaidOut_loopBody body (isLaidOut_stmt depth body)
    exact (((((IsLaidOut.const _).append (isLaidOut_forHead depth left)).append (.const _)).append
      (isLaidOut_expr depth _ right)).append (.const _)).append hbody
  | whileLoop s test body =>
    have hbody := isLaidOut_loopBody body (isLaidOut_stmt depth body)
    exact (((IsLaidOut.const _).append (isLaidOut_expr depth 0 test)).append (.const _)).append
      hbody
  | doWhile s body test =>
    exact ((((IsLaidOut.const _).append (isLaidOut_stmt depth body)).append (.const _)).append
      (isLaidOut_expr depth 0 test)).append (.const _)
  | returns s e =>
    exact ((IsLaidOut.const _).append (isLaidOut_optionalExpr depth " " e)).append (.const _)
  | throws s e => exact ((IsLaidOut.const _).append (isLaidOut_expr depth 0 e)).append (.const _)
  | tryCatch s b h f =>
    exact (((IsLaidOut.const _).append (isLaidOut_block depth b)).append
      (isLaidOut_handler depth h)).append (isLaidOut_finalizer depth f)
  | labeled s label body =>
    exact ((IsLaidOut.const _).append (.const _)).append (isLaidOut_stmt depth body)
  | importDecl s specifiers source =>
    exact (((IsLaidOut.const _).append (.const _)).append (isLaidOut_expr depth 0 source)).append
      (.const _)
  | exportNamed s declaration specifiers source =>
    match declaration with
    | some d => exact (IsLaidOut.const _).append (isLaidOut_stmt depth d)
    | none =>
      exact (((IsLaidOut.const _).append (.const _)).append
        (isLaidOut_optionalExpr depth _ source)).append (.const _)
  | exportDefault s d => exact (IsLaidOut.const _).append (isLaidOut_exported depth d)
  | exportAll s name source =>
    exact ((((IsLaidOut.const _).append (.const _)).append (.const _)).append
      (isLaidOut_expr depth 0 source)).append (.const _)

theorem areLaidOut_stmts (depth : Nat) (ss : List Stmt) :
    AreLaidOut fun unit => stmts unit depth ss := by
  match ss with
  | [] => exact areLaidOut_nil
  | s :: ss => exact (isLaidOut_stmt depth s).cons (areLaidOut_stmts depth ss)

end

end Espalier.Print
