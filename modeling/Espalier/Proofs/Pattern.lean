import Espalier.Proofs.Growth.Statement
import Espalier.Proofs.Node.Walk

/-!
# Patterns in accepted programs

The patterns of a program stand where names are bound, in declarations, catch clauses and
parameters, and left of assignments. The ones come from the grammar of bindings or, as the
parameters of an arrow, from expressions that pass a check; the others come from expressions alone.
`Tree.TakesPatterns` says what they are right below a node, and it holds of all nodes of an accepted
program. So what is bound are names only (`Program.binds_names`), and what is assigned to is a name,
a member outside optional chains or a pattern of such (`Program.assigns_to_targets`): also an
assignment in parentheses, which is read as a pattern with a default.
-/

namespace Espalier

/-- The place of the patterns that bind names in a field of the nodes of a type. -/
def NodeType.bindingPlace? (type : NodeType) (field : String) : Option PatternPlace :=
  match type with
  | .variableDeclarator => if field = "id" then some .whole else none
  | .catchClause => if field = "param" then some .whole else none
  | _ => if type.isFunction ∧ field = "params" then some .element else none

namespace Tree

/-- The patterns right below a node bind names or are the targets of an assignment. -/
structure TakesPatterns (t : Tree) : Prop where
  binds : ∀ f ∈ t.fields, ∀ u ∈ f.nodes, ∀ place, t.type.bindingPlace? f.name = some place →
    u.IsPattern false place
  assigns : t.type = .assignmentExpression → ∃ (op : String) (left right : Tree),
    t.fields = [.text "operator" op, .child "left" left, .child "right" right] ∧
    (op = "=" → left.IsPattern true .whole) ∧
    (op ≠ "=" → left.type ∈ [.identifier, .memberExpression])

/-- This holds of a node and of all that is below it. -/
def AllTakePatterns (t : Tree) : Prop := ∀ u, t.Reaches u → u.TakesPatterns

variable {t : Tree}

/-- What holds of all below a node holds of all below its parts. -/
theorem AllTakePatterns.parts (h : t.AllTakePatterns) : ∀ u ∈ t.parts, u.AllTakePatterns :=
  Everywhere.parts h

theorem allTakePatterns_of_parts (h : t.TakesPatterns) (hparts : ∀ u ∈ t.parts, u.AllTakePatterns) :
    t.AllTakePatterns :=
  everywhere_of_parts h hparts

end Tree

/-! ### Expressions that spell patterns -/

/-- A member outside optional chains. -/
theorem type_member {s : Span} {o : Expr} {m : MemberName} {isOptional : Bool}
    (hchain : ¬(Expr.member s o m isOptional).isOptionalChain = true) :
    (Expr.member s o m isOptional).tree.type = .memberExpression := by
  rw [Expr.isOptionalChain] at hchain
  rw [Expr.tree]
  simp [hchain]

/-- What is no part of a pattern but a name or a member has no parts that are patterns. -/
theorem isPattern_of_type {t : Tree} (ht : t.type ∈ [.identifier, .memberExpression]) :
    t.IsPattern true .whole := by
  obtain ⟨type, span, fields⟩ := t
  simp only [List.mem_cons, List.not_mem_nil, or_false] at ht
  rcases ht with rfl | rfl
  all_goals
    refine .node rfl fun _ _ _ _ _ hinner => ?_
    cases hinner

/-- A simple target is a name or a member. -/
theorem type_toSimpleTarget {e : Expr} {p : Pattern} (h : e.toSimpleTarget = .ok p) :
    p.tree.type ∈ [.identifier, .memberExpression] := by
  cases e with
  | ident i =>
    cases h
    exact List.mem_cons_self
  | member s o m isOptional =>
    rw [Expr.toSimpleTarget] at h
    split at h
    · cases h
    · next hchain =>
      cases h
      rw [Pattern.tree, type_member hchain]
      decide
  | _ => cases h

mutual

/-- The pattern that an expression spells, if the assignments in the expression have targets. -/
theorem isPattern_toPattern (e : Expr) {p : Pattern} (h : e.toPattern = .ok p)
    (he : e.tree.AllTakePatterns) : p.tree.IsPattern true .whole := by
  cases e with
  | ident i =>
    cases h
    simp
  | array s es =>
    obtain ⟨ps, hps, h⟩ := exists_of_bind_eq_ok h
    cases h
    rw [Tree.isPattern_array]
    exact ⟨nofun, isPattern_elementsToPatterns es hps fun t ht =>
      he.parts t (by simpa [Tree.parts, Expr.tree] using ht)⟩
  | object s ps =>
    obtain ⟨qs, hqs, h⟩ := exists_of_bind_eq_ok h
    cases h
    rw [Tree.isPattern_object]
    exact ⟨nofun, isPattern_propertiesToPatterns ps hqs fun t ht =>
      he.parts t (by simpa [Tree.parts, Expr.tree] using ht)⟩
  | assign s op l r =>
    cases op with
    | plain =>
      cases h
      -- a default comes from an assignment, whose left side is a pattern already
      obtain ⟨op, left, right, hfields, hplain, -⟩ := (he _ .refl).assigns rfl
      cases hfields
      rw [Tree.isPattern_default]
      exact ⟨nofun, hplain rfl⟩
    | compound => cases h
  | member s o m isOptional =>
    rw [Expr.toPattern] at h
    split at h
    · cases h
    · next hchain =>
      cases h
      exact isPattern_of_type (by rw [Pattern.tree, type_member hchain]; decide)
  | _ => cases h

/-- Array elements read as patterns are patterns throughout. -/
theorem isPattern_elementsToPatterns (es : List (Option Expr)) {ps : List (Option Pattern)}
    (h : elementsToPatterns es = .ok ps) (hes : ∀ t ∈ nodes es, t.AllTakePatterns) :
    ∀ t ∈ nodes ps, t.IsPattern true .element := by
  match es with
  | [] =>
    cases h
    nofun
  | none :: es =>
    obtain ⟨qs, hqs, h⟩ := exists_of_bind_eq_ok h
    cases h
    rw [nodes_cons, nodes_none, List.nil_append] at hes ⊢
    exact isPattern_elementsToPatterns es hqs hes
  | some e :: es =>
    rw [nodes_cons, nodes_some, nodes_eq, List.singleton_append, List.forall_mem_cons] at hes
    -- a spread becomes a rest
    by_cases hspread : ∃ s a, e = .spread s a
    · obtain ⟨s, a, rfl⟩ := hspread
      obtain ⟨p, hp, h⟩ := exists_of_bind_eq_ok h
      obtain ⟨qs, hqs, h⟩ := exists_of_bind_eq_ok h
      cases h
      have ha := isPattern_toPattern a hp (hes.1.parts a.tree (List.mem_singleton_self _))
      have hmore := isPattern_elementsToPatterns es hqs hes.2
      simpa [ha] using hmore
    · rw [elementsToPatterns_some fun s a heq => hspread ⟨s, a, heq⟩] at h
      obtain ⟨p, hp, h⟩ := exists_of_bind_eq_ok h
      obtain ⟨qs, hqs, h⟩ := exists_of_bind_eq_ok h
      cases h
      have he := isPattern_toPattern e hp hes.1
      have hmore := isPattern_elementsToPatterns es hqs hes.2
      simpa [he.element] using hmore

/-- And so are object properties. -/
theorem isPattern_propertiesToPatterns (ps : List Property) {qs : List PatternProperty}
    (h : propertiesToPatterns ps = .ok qs) (hps : ∀ t ∈ nodes ps, t.AllTakePatterns) :
    ∀ t ∈ nodes qs, t.IsPattern true .property := by
  match ps with
  | [] =>
    cases h
    nofun
  | .init s key value shorthand :: ps =>
    obtain ⟨p, hp, h⟩ := exists_of_bind_eq_ok h
    obtain ⟨qs, hqs, h⟩ := exists_of_bind_eq_ok h
    cases h
    rw [nodes_cons, nodes_eq, List.singleton_append, List.forall_mem_cons] at hps
    have hvalue := isPattern_toPattern value hp
      (hps.1.parts value.tree (by simp [Tree.parts, Property.tree]))
    have hmore := isPattern_propertiesToPatterns ps hqs hps.2
    simpa [hvalue] using hmore
  | .spread s e :: ps =>
    obtain ⟨p, hp, h⟩ := exists_of_bind_eq_ok h
    obtain ⟨qs, hqs, h⟩ := exists_of_bind_eq_ok h
    cases h
    rw [nodes_cons, nodes_eq, List.singleton_append, List.forall_mem_cons] at hps
    have he := isPattern_toPattern e hp (hps.1.parts e.tree (List.mem_singleton_self _))
    have hmore := isPattern_propertiesToPatterns ps hqs hps.2
    simpa [he] using hmore
  -- a method is no pattern
  | .method s key kind f :: ps => cases h

end

/-- The parameters that expressions spell bind names. -/
theorem isPattern_arrowParams (es : List Expr) {ps : List Pattern}
    (h : Grammar.arrowParams es = .ok ps) (hes : ∀ t ∈ nodes es, t.AllTakePatterns) :
    ∀ t ∈ nodes ps, t.IsPattern false .element := by
  induction es generalizing ps with
  | nil =>
    cases h
    nofun
  | cons e es ih =>
    obtain ⟨p, hp, h⟩ := exists_of_bind_eq_ok h
    obtain ⟨_, hcheck, h⟩ := exists_of_bind_eq_ok h
    obtain ⟨qs, hqs, h⟩ := exists_of_bind_eq_ok h
    cases h
    rw [nodes_cons, nodes_eq, List.singleton_append, List.forall_mem_cons] at hes ⊢
    have he := isPattern_of_checkBinding p hcheck (isPattern_toPattern e hp hes.1)
    exact ⟨he.element, ih hqs hes.2⟩

/-! ### Growth -/

namespace Tree

variable {type : NodeType} {span : Span} {fields : List TreeField}

/-- Nothing is asked of the patterns below a node that neither binds nor assigns. -/
theorem takesPatterns_of_free (hbinds : ∀ field, type.bindingPlace? field = none)
    (hassigns : type ≠ .assignmentExpression) : TakesPatterns ⟨type, span, fields⟩ := by
  refine ⟨fun f hf u hu place hplace => ?_, fun htype => absurd htype hassigns⟩
  rw [hbinds] at hplace
  cases hplace

/-- A plain node has no field for a pattern. -/
theorem takesPatterns_of_isPlain (htype : type.isPlain = true) :
    TakesPatterns ⟨type, span, fields⟩ := by
  refine takesPatterns_of_free (fun field => ?_) ?_
  · revert htype
    cases type <;> simp [NodeType.isPlain, NodeType.bindingPlace?, NodeType.isFunction]
  · rintro rfl
    cases htype

/-- The parameters of a function are the patterns right below it. -/
theorem takesPatterns_of_function (htype : type.isFunction = true)
    (h : ∀ f ∈ fields, f.name = "params" → ∀ u ∈ f.nodes, u.IsPattern false .element) :
    TakesPatterns ⟨type, span, fields⟩ := by
  refine ⟨fun f hf u hu place hplace => ?_, ?_⟩
  · have hparams : f.name = "params" ∧ place = .element := by
      revert htype hplace
      cases type <;> simp [NodeType.isFunction, NodeType.bindingPlace?, eq_comm]
    rw [hparams.2]
    exact h f hf hparams.1 u hu
  · rintro rfl
    cases htype

/-- A declarator takes one in its name. -/
theorem takesPatterns_declarator {d : VarDeclarator} (h : d.id.tree.IsPattern false .whole) :
    d.tree.TakesPatterns := by
  obtain ⟨id, init, span⟩ := d
  refine ⟨?_, nofun⟩
  cases init <;>
    simpa [VarDeclarator.tree, optionalExprField, NodeType.bindingPlace?, TreeField.name] using h

/-- A handler takes one in its parameter. -/
theorem takesPatterns_catchClause {c : CatchClause}
    (h : ∀ u ∈ nodes c.param, u.IsPattern false .whole) : c.tree.TakesPatterns := by
  obtain ⟨_ | p, body, span⟩ := c
  · refine ⟨by simp [CatchClause.tree, NodeType.bindingPlace?, TreeField.name], fun htype => ?_⟩
    cases htype
  · refine ⟨?_, fun htype => ?_⟩
    · simpa [CatchClause.tree, NodeType.bindingPlace?, TreeField.name] using h
    · cases htype

/-- An assignment takes one on its left, any with `=` and a simple one otherwise. -/
theorem takesPatterns_assign {op : AssignOp} {target : Pattern} {right : Expr}
    (hplain : op = .plain → target.tree.IsPattern true .whole)
    (hcompound : op ≠ .plain → target.tree.type ∈ [.identifier, .memberExpression]) :
    (Expr.assign span op target right).tree.TakesPatterns := by
  refine ⟨by simp [Expr.tree, NodeType.bindingPlace?, NodeType.isFunction], fun _ => ?_⟩
  refine ⟨op.text, target.tree, right.tree, rfl, fun _ => ?_, fun hop => hcompound ?_⟩
  · by_cases hop : op = .plain
    · exact hplain hop
    · exact isPattern_of_type (hcompound hop)
  · rintro rfl
    exact hop rfl

/-- That patterns are what they should be is handed on by the readers of the grammar. -/
def patternGrowth : Growth where
  Holds _ _ t := t.AllTakePatterns
  Stands _ _ t := t.AllTakePatterns
  slack := 0
  methodSlack := 0
  slack_le := Nat.le_succ 0
  mono h _ := h
  widen h := h
  stands h := h
  parts h _ := h.parts
  places htype h := by
    refine allTakePatterns_of_parts (takesPatterns_of_isPlain htype) fun u hu => ?_
    obtain ⟨f, hf, hu⟩ := List.mem_flatMap.mp hu
    simpa using h f hf u hu
  construct htype h := by
    simp only [List.mem_cons, List.not_mem_nil, or_false] at htype
    rcases htype with rfl | rfl | rfl | rfl <;>
      exact allTakePatterns_of_parts (takesPatterns_of_free (fun _ => rfl) (by decide)) h
  template {_ _ t} _ _ h := by
    obtain ⟨quasis, expressions, span⟩ := t
    exact allTakePatterns_of_parts (takesPatterns_of_free (fun _ => rfl) (by decide)) h
  await _ h := allTakePatterns_of_parts (takesPatterns_of_free (fun _ => rfl) (by decide))
    (by simpa [Expr.tree, parts] using h)
  yield _ h := allTakePatterns_of_parts (takesPatterns_of_free (fun _ => rfl) (by decide))
    (by simpa [Expr.tree, parts] using h)
  returns _ h := allTakePatterns_of_parts (takesPatterns_of_free (fun _ => rfl) (by decide))
    (by simpa [Stmt.tree, parts] using h)
  forOf _ hleft hright hbody :=
    allTakePatterns_of_parts (takesPatterns_of_free (fun _ => rfl) (by decide))
      (by simp [Stmt.tree, parts, hleft, hright, hbody])
  declarator hbinds h := allTakePatterns_of_parts (takesPatterns_declarator hbinds) h
  handler hbinds h := allTakePatterns_of_parts (takesPatterns_catchClause hbinds) h
  assign {_ _ _ op spelled right target} hspelled hleft htarget hright := by
    refine allTakePatterns_of_parts (takesPatterns_assign (fun hop => ?_) fun hop => ?_) ?_
    · rw [if_pos hop] at hspelled
      exact isPattern_toPattern spelled hspelled hleft
    · rw [if_neg hop] at hspelled
      exact type_toSimpleTarget hspelled
    · simp [Expr.tree, parts, htarget, hright]
  func {_ _ f type} htype hid hbinds h := by
    obtain ⟨id, params, body, isAsync, isGenerator, span⟩ := f
    refine allTakePatterns_of_parts (takesPatterns_of_function ?_ ?_) ?_
    · simp only [List.mem_cons, List.not_mem_nil, or_false] at htype
      rcases htype with rfl | rfl <;> rfl
    · cases id <;> simpa [TreeField.orAbsent, TreeField.flag, TreeField.name] using hbinds
    · simpa [parts, Func.tree] using List.forall_mem_append.mpr ⟨hid, h⟩
  arrow {_ _ spelled params rest body isAsync span} hspelled hitems hbinds hparams hbody := by
    refine allTakePatterns_of_parts (takesPatterns_of_function rfl ?_) ?_
    · have hspelled := isPattern_arrowParams spelled hspelled hitems
      simpa [TreeField.flag, TreeField.name] using List.forall_mem_append.mpr ⟨hspelled, hbinds⟩
    · simpa [parts, Arrow.tree, or_imp, forall_and, hbody] using hparams
  objectMethod {_ _ span key kind f} hkey hbinds h := by
    obtain ⟨id, params, body, isAsync, isGenerator, span'⟩ := f
    refine allTakePatterns_of_parts (takesPatterns_of_function rfl ?_) ?_
    · simpa [Func.fields, TreeField.flag, TreeField.text, TreeField.name] using hbinds
    · simpa [parts, Property.tree, Func.fields, hkey] using h
  classMethod {_ _ span key kind isStatic f} hkey hbinds h := by
    obtain ⟨id, params, body, isAsync, isGenerator, span'⟩ := f
    refine allTakePatterns_of_parts (takesPatterns_of_function rfl ?_) ?_
    · simpa [Func.fields, TreeField.flag, TreeField.text, TreeField.name] using hbinds
    · simpa [parts, ClassMember.tree, Func.fields, hkey] using h

end Tree

namespace Program

variable {source : String} {options : ParserOptions} {p : Program}

/-- **What is bound are names.** In the program of an accepted source, the patterns of variable
declarations, of catch clauses and of the parameters of functions, methods and arrows are made of
names, arrays, objects, defaults and rests only, at any depth. -/
theorem binds_names (h : Program.parse source options = .ok p) {t : Tree}
    (ht : t ∈ p.tree.preorder) {f : TreeField} (hf : f ∈ t.fields) {u : Tree} (hu : u ∈ f.nodes) :
    (t.type = .variableDeclarator ∧ f.name = "id" ∨ t.type = .catchClause ∧ f.name = "param" →
      u.IsPattern false .whole) ∧
    (t.type.isFunction = true ∧ f.name = "params" → u.IsPattern false .element) := by
  have hbinds := (Tree.patternGrowth.of_parse h t (Tree.mem_preorder_iff.mp ht)).binds f hf u hu
  refine ⟨?_, ?_⟩
  · rintro (⟨htype, hname⟩ | ⟨htype, hname⟩)
    · exact hbinds _ (by simp [NodeType.bindingPlace?, htype, hname])
    · exact hbinds _ (by simp [NodeType.bindingPlace?, htype, hname])
  · rintro ⟨htype, hname⟩
    refine hbinds _ ?_
    revert htype
    cases t.type <;> simp [NodeType.isFunction, NodeType.bindingPlace?, hname]

/-- The first parameter of an arrow, in which a name stands below an object, an array and a
default. -/
theorem binds_names_of_arrow :
    ∃ p t f u, Program.parse "(\x7b a: [b = 1] \x7d, ...c) => 0;" = .ok p ∧ t ∈ p.tree.preorder ∧
      f ∈ t.fields ∧ u ∈ f.nodes ∧ u.type = .objectPattern ∧ u.IsPattern false .element := by
  have hfound :
      ((Program.parse "(\x7b a: [b = 1] \x7d, ...c) => 0;").toOption.any fun p =>
        p.tree.preorder.any fun t => t.type.isFunction && t.fields.any fun f =>
          f.name == "params" && f.nodes.any (·.type == .objectPattern)) = true := by
    decide +kernel
  obtain ⟨p, h, hfound⟩ := exists_ok_of_toOption_any hfound
  obtain ⟨t, ht, hfound⟩ := List.any_eq_true.mp hfound
  obtain ⟨hfunction, hfound⟩ := Bool.and_eq_true_iff.mp hfound
  obtain ⟨f, hf, hfound⟩ := List.any_eq_true.mp hfound
  obtain ⟨hname, hfound⟩ := Bool.and_eq_true_iff.mp hfound
  obtain ⟨u, hu, htype⟩ := List.any_eq_true.mp hfound
  exact ⟨p, t, f, u, h, ht, hf, hu, eq_of_beq htype,
    (binds_names h ht hf hu).2 ⟨hfunction, eq_of_beq hname⟩⟩

/-- **What is assigned to.** In the program of an accepted source, left of `=` there is a name, a
member outside optional chains or the pattern of an array or of an object, at any depth of which
there are such, with defaults, and rests among elements and properties only; or else there is a
pattern with a default. Left of any other sign of assignment there is a name or a member outside
optional chains. -/
theorem assigns_to_targets (h : Program.parse source options = .ok p) {t : Tree}
    (ht : t ∈ p.tree.preorder) (htype : t.type = .assignmentExpression) :
    ∃ (op : String) (left right : Tree),
      t.fields = [.text "operator" op, .child "left" left, .child "right" right] ∧
      (op = "=" → left.IsPattern true .whole ∧ left.type ∈
        [.identifier, .memberExpression, .arrayPattern, .objectPattern, .assignmentPattern]) ∧
      (op ≠ "=" → left.type ∈ [.identifier, .memberExpression]) := by
  obtain ⟨op, left, right, hfields, hplain, hother⟩ :=
    (Tree.patternGrowth.of_parse h t (Tree.mem_preorder_iff.mp ht)).assigns htype
  refine ⟨op, left, right, hfields, fun hop => ⟨hplain hop, ?_⟩, hother⟩
  have hallows := (Tree.isPattern_iff.mp (hplain hop)).1
  revert hallows
  cases left.type <;> simp [PatternPlace.allows]

/-- An array with a member and a rest in it, to which something is assigned. -/
theorem assigns_to_targets_of_array :
    ∃ p t left right, Program.parse "[a.b, ...[c = 1]] = d;" = .ok p ∧ t ∈ p.tree.preorder ∧
      t.fields = [.text "operator" "=", .child "left" left, .child "right" right] ∧
      left.IsPattern true .whole ∧ left.type = .arrayPattern := by
  have hfound :
      ((Program.parse "[a.b, ...[c = 1]] = d;").toOption.any fun p =>
        p.tree.preorder.any fun t => t.type == .assignmentExpression && t.fields.any fun f =>
          f.name == "left" && f.nodes.any (·.type == .arrayPattern)) = true := by
    decide +kernel
  obtain ⟨p, h, hfound⟩ := exists_ok_of_toOption_any hfound
  obtain ⟨t, ht, hfound⟩ := List.any_eq_true.mp hfound
  obtain ⟨htype, hfound⟩ := Bool.and_eq_true_iff.mp hfound
  obtain ⟨op, left, right, hfields, hplain, hother⟩ := assigns_to_targets h ht (eq_of_beq htype)
  have hleft : left.type = .arrayPattern := by
    simpa [hfields, TreeField.text, TreeField.name, TreeField.nodes, TreeField.children]
      using hfound
  by_cases hop : op = "="
  · subst hop
    exact ⟨p, t, left, right, h, ht, hfields, (hplain rfl).1, hleft⟩
  · -- with another operator the left side would be a simple target
    have htarget := hother hop
    rw [hleft] at htarget
    exact absurd htarget (by decide)

end Program

end Espalier
