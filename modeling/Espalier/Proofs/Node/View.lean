import Espalier.Node
import Mathlib.Data.List.Nodup

/-!
# The two views of a program agree

A program is read through its `Tree` and edited through the places (`Slot`) of its nodes, and the
two are defined apart. Here every node is shown to have the same type, span and fields in both
(`Node.tree_eq`), so that a path leads to a place exactly when it leads to a node
(`Program.map_slotAt?_eq_descend?`), and the steps that lead on from a node are its children
(`Tree.child?_eq_some_iff`).
-/

namespace Espalier

/-! ### Constructs and the nodes that they are -/

namespace Node

@[simp] theorem tree_ofStmt (s : Stmt) : (ofStmt s).tree = s.tree := by cases s <;> rfl

@[simp] theorem tree_ofExpr (e : Expr) : (ofExpr e).tree = e.tree := by cases e <;> rfl

@[simp] theorem tree_ofPattern (p : Pattern) : (ofPattern p).tree = p.tree := by
  cases p <;> simp [ofPattern, Pattern.tree] <;> rfl

/-- A node that is not merely the wrapping of another one: `ofStmt`, `ofExpr` and `ofPattern` give
no others. -/
def IsProper : Node → Prop
  | stmt s => ofStmt s = stmt s
  | expr e => ofExpr e = expr e
  | pattern p => ofPattern p = pattern p
  | _ => True

theorem isProper_ofStmt (s : Stmt) : (ofStmt s).IsProper := by cases s <;> trivial

theorem isProper_ofExpr (e : Expr) : (ofExpr e).IsProper := by cases e <;> trivial

theorem isProper_ofPattern (p : Pattern) : (ofPattern p).IsProper := by
  cases p with
  | target e => exact isProper_ofExpr e
  | _ => trivial

end Node

/-! ### The nodes in places -/

namespace Slot

variable {α : Type}

/-- A way to make places of a `β` whose node is read as `f` reads the `β`, and is proper. -/
class Shows {β : Type} (slot : β → (β → α) → Slot α) (f : outParam (β → Tree)) : Prop where
  tree (x : β) (put : β → α) : (slot x put).node.tree = f x
  isProper (x : β) (put : β → α) : (slot x put).node.IsProper

instance : Shows (@atStmt α) Stmt.tree :=
  ⟨fun s _ => Node.tree_ofStmt s, fun s _ => Node.isProper_ofStmt s⟩

instance : Shows (@atExpr α) Expr.tree :=
  ⟨fun e _ => Node.tree_ofExpr e, fun e _ => Node.isProper_ofExpr e⟩

instance : Shows (@atPattern α) Pattern.tree :=
  ⟨fun p _ => Node.tree_ofPattern p, fun p _ => Node.isProper_ofPattern p⟩

instance : Shows (@atIdent α) Ident.tree :=
  ⟨fun _ _ => rfl, fun _ _ => trivial⟩

instance : Shows (@atBlock α) Block.tree :=
  ⟨fun _ _ => rfl, fun _ _ => trivial⟩

instance : Shows (@atVarDecl α) VarDecl.tree :=
  ⟨fun _ _ => rfl, fun _ _ => trivial⟩

instance : Shows (@atDeclarator α) VarDeclarator.tree :=
  ⟨fun _ _ => rfl, fun _ _ => trivial⟩

instance : Shows (@atFunction α) (Func.tree .functionDeclaration) :=
  ⟨fun _ _ => rfl, fun _ _ => trivial⟩

instance : Shows (@atClass α) (Class.tree .classDeclaration) :=
  ⟨fun _ _ => rfl, fun _ _ => trivial⟩

instance : Shows (@atClassBody α) ClassBody.tree :=
  ⟨fun _ _ => rfl, fun _ _ => trivial⟩

instance : Shows (@atClassMember α) ClassMember.tree :=
  ⟨fun _ _ => rfl, fun _ _ => trivial⟩

instance : Shows (@atSwitchCase α) SwitchCase.tree :=
  ⟨fun _ _ => rfl, fun _ _ => trivial⟩

instance : Shows (@atCatchClause α) CatchClause.tree :=
  ⟨fun _ _ => rfl, fun _ _ => trivial⟩

instance : Shows (@atImportSpecifier α) ImportSpecifier.tree :=
  ⟨fun _ _ => rfl, fun _ _ => trivial⟩

instance : Shows (@atExportSpecifier α) ExportSpecifier.tree :=
  ⟨fun _ _ => rfl, fun _ _ => trivial⟩

instance : Shows (@atTemplate α) Template.tree :=
  ⟨fun _ _ => rfl, fun _ _ => trivial⟩

instance : Shows (@atTemplateElement α) TemplateElement.tree :=
  ⟨fun _ _ => rfl, fun _ _ => trivial⟩

instance : Shows (@atProperty α) Property.tree :=
  ⟨fun _ _ => rfl, fun _ _ => trivial⟩

instance : Shows (@atPatternProperty α) PatternProperty.tree :=
  ⟨fun _ _ => rfl, fun _ _ => trivial⟩

instance : Shows (@atKey α) PropertyKey.tree where
  tree key _ := by
    cases key with
    | ident => rfl
    | literal e | computed e => exact Node.tree_ofExpr e
  isProper key _ := by
    cases key with
    | ident => trivial
    | literal e | computed e => exact Node.isProper_ofExpr e

instance : Shows (@MemberName.slot α) MemberName.tree where
  tree name _ := by
    cases name with
    | ident => rfl
    | computed e => exact Node.tree_ofExpr e
  isProper name _ := by
    cases name with
    | ident => trivial
    | computed e => exact Node.isProper_ofExpr e

instance : Shows (@ForInit.slot α) ForInit.tree where
  tree init _ := by
    cases init with
    | decl => rfl
    | expr e => exact Node.tree_ofExpr e
  isProper init _ := by
    cases init with
    | decl => trivial
    | expr e => exact Node.isProper_ofExpr e

instance : Shows (@ForHead.slot α) ForHead.tree where
  tree head _ := by
    cases head with
    | decl => rfl
    | pattern p => exact Node.tree_ofPattern p
  isProper head _ := by
    cases head with
    | decl => trivial
    | pattern p => exact Node.isProper_ofPattern p

instance : Shows (@ArrowBody.slot α) ArrowBody.tree where
  tree body _ := by
    cases body with
    | expr e => exact Node.tree_ofExpr e
    | block => rfl
  isProper body _ := by
    cases body with
    | expr e => exact Node.isProper_ofExpr e
    | block => trivial

instance : Shows (@ExportDefault.slot α) ExportDefault.tree where
  tree declaration _ := by
    cases declaration with
    | expr e => exact Node.tree_ofExpr e
    | _ => rfl
  isProper declaration _ := by
    cases declaration with
    | expr e => exact Node.isProper_ofExpr e
    | _ => trivial

end Slot

/-! ### Lists as they are read -/

/-- The trees of a list, one for each expression. -/
theorem exprTrees_eq_map (es : List Expr) : exprTrees es = es.map Expr.tree := by
  induction es with
  | nil => rfl
  | cons e es ih => simp [exprTrees, ih]

theorem propertyTrees_eq_map (ps : List Property) : propertyTrees ps = ps.map Property.tree := by
  induction ps with
  | nil => rfl
  | cons p ps ih => simp [propertyTrees, ih]

theorem memberTrees_eq_map (ms : List ClassMember) : memberTrees ms = ms.map ClassMember.tree := by
  induction ms with
  | nil => rfl
  | cons m ms ih => simp [memberTrees, ih]

theorem patternTrees_eq_map (ps : List Pattern) : patternTrees ps = ps.map Pattern.tree := by
  induction ps with
  | nil => rfl
  | cons p ps ih => simp [patternTrees, ih]

theorem patternPropertyTrees_eq_map (ps : List PatternProperty) :
    patternPropertyTrees ps = ps.map PatternProperty.tree := by
  induction ps with
  | nil => rfl
  | cons p ps ih => simp [patternPropertyTrees, ih]

theorem declaratorTrees_eq_map (ds : List VarDeclarator) :
    declaratorTrees ds = ds.map VarDeclarator.tree := by
  induction ds with
  | nil => rfl
  | cons d ds ih => simp [declaratorTrees, ih]

theorem switchCaseTrees_eq_map (cs : List SwitchCase) :
    switchCaseTrees cs = cs.map SwitchCase.tree := by
  induction cs with
  | nil => rfl
  | cons c cs ih => simp [switchCaseTrees, ih]

theorem stmtTrees_eq_map (ss : List Stmt) : stmtTrees ss = ss.map Stmt.tree := by
  induction ss with
  | nil => rfl
  | cons s ss ih => simp [stmtTrees, ih]

/-- Holes are left out. -/
theorem optionalExprTrees_eq_map (es : List (Option Expr)) :
    optionalExprTrees es = (es.filterMap id).map Expr.tree := by
  induction es with
  | nil => rfl
  | cons e? es ih => cases e? <;> simp [optionalExprTrees, ih]

/-- Holes are left out. -/
theorem optionalPatternTrees_eq_map (ps : List (Option Pattern)) :
    optionalPatternTrees ps = (ps.filterMap id).map Pattern.tree := by
  induction ps with
  | nil => rfl
  | cons p? ps ih => cases p? <;> simp [optionalPatternTrees, ih]

/-! ### Fields and the trees of constructs -/

namespace Field

open Slot Items

variable {α β : Type}

/-- A field as a reader sees it. -/
def seen (field : String × Field α) : TreeField :=
  match field with
  | (name, .value scalar _) => .value name scalar
  | (name, .fixed scalar) => .value name scalar
  | (name, .absent) => .absent name
  | (name, .child slot) => .child name slot.node.tree
  | (name, .list items) => .list name (items.slots.map (·.node.tree))

@[simp] theorem name_seen (field : String × Field α) : (seen field).name = field.1 := by
  obtain ⟨name, field⟩ := field
  cases field <;> rfl

/-- Whether all places of a field hold proper nodes. -/
def HoldsProper (field : String × Field α) : Prop :=
  match field with
  | (_, .child slot) => slot.node.IsProper
  | (_, .list items) => ∀ slot ∈ items.slots, slot.node.IsProper
  | _ => True

section

variable (name : String) (value : Bool)

@[simp] theorem seen_value (scalar : Scalar) (set : Scalar → Except EditError α) :
    seen (name, .value scalar set) = .value name scalar := rfl

@[simp] theorem seen_fixed (scalar : Scalar) :
    seen ((name, .fixed scalar) : String × Field α) = .value name scalar := rfl

@[simp] theorem seen_absent : seen ((name, .absent) : String × Field α) = .absent name := rfl

@[simp] theorem seen_flag (put : Bool → α) : seen (flag name value put) = .flag name value := rfl

@[simp] theorem seen_text (value : String) (put : String → α) :
    seen (text name value put) = .text name value := rfl

@[simp] theorem seen_word (value : String) (ofText? : String → Option β) (put : β → α) :
    seen (word name value ofText? put) = .text name value := rfl

@[simp] theorem seen_fixedFlag :
    seen (fixedFlag name value : String × Field α) = .flag name value := rfl

@[simp] theorem seen_computedKey (key : PropertyKey) (put : PropertyKey → α) :
    seen (computedKey key put) = .flag "computed" key.isComputed := rfl

@[simp] theorem holdsProper_value (scalar : Scalar) (set : Scalar → Except EditError α) :
    HoldsProper (name, .value scalar set) := trivial

@[simp] theorem holdsProper_fixed (scalar : Scalar) :
    HoldsProper ((name, .fixed scalar) : String × Field α) := trivial

@[simp] theorem holdsProper_absent : HoldsProper ((name, .absent) : String × Field α) := trivial

@[simp] theorem holdsProper_flag (put : Bool → α) : HoldsProper (flag name value put) := trivial

@[simp] theorem holdsProper_text (value : String) (put : String → α) :
    HoldsProper (text name value put) := trivial

@[simp] theorem holdsProper_word (value : String) (ofText? : String → Option β) (put : β → α) :
    HoldsProper (word name value ofText? put) := trivial

@[simp] theorem holdsProper_fixedFlag :
    HoldsProper (fixedFlag name value : String × Field α) := trivial

@[simp] theorem holdsProper_computedKey (key : PropertyKey) (put : PropertyKey → α) :
    HoldsProper (computedKey key put) := trivial

end

section

variable {slot : β → (β → α) → Slot α} {f : β → Tree} [Shows slot f] (name : String)

include f

@[simp] theorem seen_one (x : β) (put : β → α) :
    seen (one name (slot x put)) = .child name (f x) := by
  simp [one, seen, Shows.tree]

/-- What is seen of a part that may be absent. -/
@[simp] theorem seen_optional (x? : Option β) (put : Option β → α) :
    seen (optional name slot x? put) = .orAbsent name (x?.map f) := by
  cases x? with
  | none => rfl
  | some x => simp [optional, seen, Shows.tree, TreeField.orAbsent]

@[simp] theorem seen_many_ofList (xs : List β) (put : List β → α) :
    seen (many name (ofList slot xs put)) = .list name (xs.map f) := by
  have h : xs.zipIdx.map (f ∘ Prod.fst) = xs.map f := by
    rw [← List.map_map, List.zipIdx_map_fst]
  simpa [many, seen, ofList, Shows.tree, Function.comp_def] using h

@[simp] theorem seen_many_ofParts (xs : List β) (put : List β → α) :
    seen (many name (ofParts slot xs put)) = .list name (xs.map f) :=
  seen_many_ofList name xs put

/-- Holes are not seen. -/
@[simp] theorem seen_many_ofHoles (xs : List (Option β)) (put : List (Option β) → α) :
    seen (many name (ofHoles slot xs put)) = .list name ((xs.filterMap id).map f) := by
  have h : ∀ n, (xs.zipIdx n).filterMap (fun xi => xi.1.map f) = (xs.filterMap id).map f := by
    induction xs with
    | nil => simp
    | cons x? xs ih => intro n; cases x? <;> simp [List.zipIdx_cons, ih]
  simpa [many, seen, ofHoles, Shows.tree, Function.comp_def, List.map_filterMap] using h 0

omit f in
@[simp] theorem fst_optional (x? : Option β) (put : Option β → α) :
    (optional name slot x? put).1 = name := by cases x? <;> rfl

@[simp] theorem holdsProper_one (x : β) (put : β → α) : HoldsProper (one name (slot x put)) :=
  Shows.isProper x put

/-- A part that may be absent is proper when it is there. -/
@[simp] theorem holdsProper_optional (x? : Option β) (put : Option β → α) :
    HoldsProper (optional name slot x? put) := by
  cases x? with
  | none => trivial
  | some x => exact Shows.isProper x _

@[simp] theorem holdsProper_many_ofList (xs : List β) (put : List β → α) :
    HoldsProper (many name (ofList slot xs put)) := by
  intro s hs
  obtain ⟨xi, -, rfl⟩ := List.mem_map.mp hs
  exact Shows.isProper xi.1 _

@[simp] theorem holdsProper_many_ofParts (xs : List β) (put : List β → α) :
    HoldsProper (many name (ofParts slot xs put)) :=
  holdsProper_many_ofList name xs put

@[simp] theorem holdsProper_many_ofHoles (xs : List (Option β)) (put : List (Option β) → α) :
    HoldsProper (many name (ofHoles slot xs put)) := by
  intro s hs
  obtain ⟨xi, -, rfl⟩ := List.mem_map.mp hs
  exact Shows.isProper xi.1 _

end

end Field

/-! ### Each construct in both views -/

section

variable {α : Type}

/-- A field that may be absent, in the form shared by all of them. -/
theorem optionalExprField_eq (name : String) (e? : Option Expr) :
    optionalExprField name e? = .orAbsent name (e?.map Expr.tree) := by cases e? <;> rfl

theorem optionalStmtField_eq (name : String) (s? : Option Stmt) :
    optionalStmtField name s? = .orAbsent name (s?.map Stmt.tree) := by cases s? <;> rfl

theorem forInitField_eq (i? : Option ForInit) :
    forInitField i? = .orAbsent "init" (i?.map ForInit.tree) := by cases i? <;> rfl

theorem handlerField_eq (c? : Option CatchClause) :
    handlerField c? = .orAbsent "handler" (c?.map CatchClause.tree) := by cases c? <;> rfl

theorem finalizerField_eq (b? : Option Block) :
    finalizerField b? = .orAbsent "finalizer" (b?.map Block.tree) := by cases b? <;> rfl

/-- An expression is seen through its fields. -/
theorem Expr.tree_eq (put : Expr → α) (e : Expr) (h : Node.ofExpr e = .expr e) :
    e.tree = ⟨e.nodeType, e.span, (e.nodeFields put).map Field.seen⟩ := by
  cases e with
  | template | ident | function | arrow | classExpr => simp [Node.ofExpr] at h
  | member s o p isOptional =>
    by_cases hc : isOptional || o.isOptionalChain <;>
      simp_all [tree, nodeType, span, nodeFields, isOptionalChain, TreeField.flag]
  | call s f args isOptional =>
    by_cases hc : isOptional || f.isOptionalChain <;>
      simp_all [tree, nodeType, span, nodeFields, isOptionalChain, exprTrees_eq_map]
  | _ =>
    simp [tree, nodeType, span, nodeFields, exprTrees_eq_map, optionalExprTrees_eq_map,
      propertyTrees_eq_map, optionalExprField_eq, TreeField.text, TreeField.flag]

/-- So is a statement. -/
theorem Stmt.tree_eq (put : Stmt → α) (s : Stmt) (h : Node.ofStmt s = .stmt s) :
    s.tree = ⟨s.nodeType, s.span, (s.nodeFields put).map Field.seen⟩ := by
  cases s with
  | var | function | classDecl | block => simp [Node.ofStmt] at h
  | _ =>
    simp [tree, nodeType, span, nodeFields, optionalExprField_eq, optionalStmtField_eq,
      forInitField_eq, handlerField_eq, finalizerField_eq, switchCaseTrees_eq_map]

/-- So is a pattern. -/
theorem Pattern.tree_eq (put : Pattern → α) (p : Pattern) (h : Node.ofPattern p = .pattern p) :
    p.tree = ⟨p.nodeType, p.span, (p.nodeFields put).map Field.seen⟩ := by
  cases p with
  | ident => simp [Node.ofPattern] at h
  | target e => cases e <;> simp [Node.ofPattern, Node.ofExpr] at h
  | _ =>
    simp [tree, nodeType, span, nodeFields, optionalPatternTrees_eq_map,
      patternPropertyTrees_eq_map]

theorem Func.fields_eq (put : Func → α) (f : Func) :
    f.fields = (f.nodeFields put).map Field.seen := by
  obtain ⟨_, params, body, isAsync, isGenerator, _⟩ := f
  simp [fields, nodeFields, patternTrees_eq_map]

end

namespace Node

/-- What a reader sees of a node is what can be edited there: the same type, the same span and the
same fields. -/
theorem tree_eq (n : Node) (h : n.IsProper) :
    n.tree = ⟨n.type, n.span, n.fields.map Field.seen⟩ := by
  cases n with
  -- the large types have their own lemmas, the others are read off
  | stmt s => exact s.tree_eq stmt h
  | expr e => exact e.tree_eq expr h
  | pattern p => exact p.tree_eq pattern h
  | function f standing =>
    obtain ⟨id, params, body, isAsync, isGenerator, s⟩ := f
    cases standing <;>
      simp [tree, type, span, fields, Func.tree, Func.nodeFields, patternTrees_eq_map]
  | classDef c standing =>
    obtain ⟨id, superClass, body, s⟩ := c
    cases standing <;> simp [tree, type, span, fields, Class.tree, optionalExprField_eq]
  | classMember m =>
    cases m with
    | method s k kind isStatic f =>
      simp [tree, type, span, fields, ClassMember.tree, ClassMember.nodeFields,
        f.fields_eq fun f => classMember (.method s k kind isStatic f)]
    | property =>
      simp [tree, type, span, fields, ClassMember.tree, ClassMember.nodeFields,
        optionalExprField_eq]
  | property p =>
    cases p with
    | method s k kind f =>
      simp [tree, type, span, fields, Property.tree, Property.nodeFields,
        f.fields_eq fun f => property (.method s k kind f)]
    | _ => simp [tree, type, span, fields, Property.tree, Property.nodeFields]
  | patternProperty p =>
    cases p <;>
      simp [tree, type, span, fields, PatternProperty.tree, PatternProperty.nodeFields]
  | importSpecifier s =>
    cases s <;>
      simp [tree, type, span, fields, ImportSpecifier.tree, ImportSpecifier.nodeFields]
  | catchClause c =>
    obtain ⟨_ | p, body, s⟩ := c <;>
      simp [tree, type, span, fields, CatchClause.tree, TreeField.orAbsent]
  | program p => simp [tree, type, span, fields, Program.tree, TreeField.text, stmtTrees_eq_map]
  | block b =>
    obtain ⟨body, s⟩ := b
    simp [tree, type, span, fields, Block.tree, stmtTrees_eq_map]
  | varDecl d =>
    obtain ⟨kind, ds, s⟩ := d
    simp [tree, type, span, fields, VarDecl.tree, declaratorTrees_eq_map]
  | declarator d =>
    obtain ⟨id, init, s⟩ := d
    simp [tree, type, span, fields, VarDeclarator.tree, optionalExprField_eq]
  | arrow a =>
    obtain ⟨params, body, isAsync, s⟩ := a
    simp [tree, type, span, fields, Arrow.tree, patternTrees_eq_map]
  | classBody b =>
    obtain ⟨ms, s⟩ := b
    simp [tree, type, span, fields, ClassBody.tree, memberTrees_eq_map]
  | switchCase c =>
    obtain ⟨test, body, s⟩ := c
    simp [tree, type, span, fields, SwitchCase.tree, optionalExprField_eq, stmtTrees_eq_map]
  | template t =>
    obtain ⟨quasis, es, s⟩ := t
    simp [tree, type, span, fields, Template.tree, exprTrees_eq_map]
  | exportSpecifier | templateElement | ident =>
    simp [tree, type, span, fields, ExportSpecifier.tree, TemplateElement.tree, Ident.tree]

/-- The places of a node hold proper nodes. -/
theorem holdsProper_of_mem_fields (n : Node) : ∀ field ∈ n.fields, Field.HoldsProper field := by
  cases n with
  | stmt s => cases s <;> simp [fields, Stmt.nodeFields]
  | expr e => cases e <;> simp [fields, Expr.nodeFields]
  | pattern p => cases p <;> simp [fields, Pattern.nodeFields]
  | classMember m => cases m <;> simp [fields, ClassMember.nodeFields, Func.nodeFields]
  | property p => cases p <;> simp [fields, Property.nodeFields, Func.nodeFields]
  | patternProperty p => cases p <;> simp [fields, PatternProperty.nodeFields]
  | importSpecifier s => cases s <;> simp [fields, ImportSpecifier.nodeFields]
  | _ => simp [fields, Func.nodeFields]

/-- No two fields of a node share a name. -/
theorem nodup_names (n : Node) : (n.fields.map (·.1)).Nodup := by
  open Field in
  cases n with
  | stmt s => cases s <;> simp [fields, Stmt.nodeFields, one, many, flag]
  | expr e =>
    cases e with
    | member _ _ _ isOptional | call _ _ _ isOptional =>
      simp only [fields, Expr.nodeFields]
      split <;> simp [one, many, fixedFlag]
    | _ => simp [fields, Expr.nodeFields, one, many, flag, text, word, fixedFlag]
  | pattern p => cases p <;> simp [fields, Pattern.nodeFields, one]
  | classMember m =>
    cases m <;>
      simp [fields, ClassMember.nodeFields, Func.nodeFields, one, many, flag, word, computedKey]
  | property p =>
    cases p <;>
      simp [fields, Property.nodeFields, Func.nodeFields, one, many, flag, word, computedKey,
        fixedFlag]
  | patternProperty p =>
    cases p <;> simp [fields, PatternProperty.nodeFields, one, flag, computedKey, fixedFlag]
  | importSpecifier s => cases s <;> simp [fields, ImportSpecifier.nodeFields, one]
  | _ => simp [fields, Func.nodeFields, one, many, flag, text, word, fixedFlag]

end Node

/-! ### Steps -/

/-- The child at a place in a field: in a list it has an index. -/
def TreeField.at? : TreeField → Option Nat → Option Tree
  | .child _ t, none => some t
  | .list _ ts, some i => ts[i]?
  | _, _ => none

/-- The children of a field are what stands at its indices. -/
theorem TreeField.mem_children_iff (f : TreeField) (step : Step) (c : Tree) :
    (step, c) ∈ f.children ↔ f.name = step.field ∧ f.at? step.index = some c := by
  obtain ⟨field, index⟩ := step
  cases f with
  | value | absent => simp [children, at?]
  | child n t => cases index <;> simp [children, at?, name, eq_comm]
  | list n ts =>
    cases index with
    | none => simp [children, at?]
    | some i => simp [children, at?, name, List.mem_zipIdx_iff_getElem?]; tauto

namespace Tree

/-- A child is found in two steps, the field first. -/
theorem child?_eq_bind (t : Tree) (step : Step) :
    t.child? step = (t.field? step.field).bind (·.at? step.index) := by
  cases hf : t.field? step.field with
  | none => simp [child?, hf]
  | some f => cases f <;> cases hi : step.index <;> simp [child?, hf, hi, TreeField.at?]

/-- Where no two fields share a name, looking a name up finds any field that has it. -/
theorem field?_eq_some_iff {t : Tree} (h : (t.fields.map TreeField.name).Nodup) (name : String)
    (f : TreeField) : t.field? name = some f ↔ f ∈ t.fields ∧ f.name = name := by
  obtain ⟨type, span, fields⟩ := t
  simp only [field?] at h ⊢
  -- each name is given once, so the first field of a name is the only one
  induction fields with
  | nil => simp
  | cons g gs ih =>
    obtain ⟨hg, hgs⟩ := List.nodup_cons.mp h
    by_cases hn : g.name = name
    · have hne : ∀ f ∈ gs, f.name ≠ name := fun f hf hfn =>
        hg (hn ▸ hfn ▸ List.mem_map_of_mem hf)
      simp only [hn, beq_self_eq_true, List.find?_cons_of_pos, Option.some.injEq, List.mem_cons]
      constructor
      · rintro rfl
        exact ⟨.inl rfl, hn⟩
      · rintro ⟨rfl | hf, hfn⟩
        · rfl
        · exact absurd hfn (hne f hf)
    · rw [List.find?_cons_of_neg (by simpa using hn), ih hgs, List.mem_cons]
      constructor
      · rintro ⟨hf, hfn⟩
        exact ⟨.inr hf, hfn⟩
      · rintro ⟨rfl | hf, hfn⟩
        · exact absurd hfn hn
        · exact ⟨hf, hfn⟩

/-- Where no two fields share a name, the steps that lead on from a node are those to its
children. -/
theorem child?_eq_some_iff {t : Tree} (h : (t.fields.map TreeField.name).Nodup) (step : Step)
    (c : Tree) : t.child? step = some c ↔ (step, c) ∈ t.children := by
  rw [child?_eq_bind, Option.bind_eq_some_iff, children, List.mem_flatMap]
  simp only [field?_eq_some_iff h, TreeField.mem_children_iff, and_assoc]

end Tree

namespace Node

/-- The fields of a proper node have different names, in the tree as well. -/
theorem nodup_names_tree {n : Node} (h : n.IsProper) :
    (n.tree.fields.map TreeField.name).Nodup := by
  rw [tree_eq n h, List.map_map]
  simpa [Function.comp_def] using n.nodup_names

/-- A field of the tree is the field of the node, as it is seen. -/
theorem field?_tree {n : Node} (h : n.IsProper) (name : String) :
    n.tree.field? name = (n.fields.find? (·.1 == name)).map Field.seen := by
  rw [tree_eq n h, Tree.field?, List.find?_map]
  simp [Function.comp_def]

/-- A step leads to a place exactly when it leads to a node, and the place holds that node. -/
theorem map_slot?_eq_child? {n : Node} (h : n.IsProper) (step : Step) :
    (n.slot? step).map (·.node.tree) = n.tree.child? step := by
  rw [Tree.child?_eq_bind, field?_tree h, slot?, field?]
  cases n.fields.find? (·.1 == step.field) with
  | none => simp
  | some field =>
    obtain ⟨name, field⟩ := field
    cases field <;> cases step.index <;> simp [Field.seen, TreeField.at?]

/-- A place that a step leads to is in a field of the name. -/
theorem mem_fields_of_slot? {n : Node} {step : Step} {slot : Slot Node}
    (h : n.slot? step = some slot) :
    (step.field, .child slot) ∈ n.fields ∨
      ∃ items, (step.field, .list items) ∈ n.fields ∧ slot ∈ items.slots := by
  rw [slot?, field?] at h
  cases hf : n.fields.find? (·.1 == step.field) with
  | none => simp [hf] at h
  | some field =>
    have hmem := List.mem_of_find?_eq_some hf
    have hname : field.1 = step.field := by simpa using List.find?_some hf
    obtain ⟨name, field⟩ := field
    obtain rfl : name = step.field := hname
    rw [hf, Option.map_some] at h
    cases field <;> cases hi : step.index <;> simp [hi] at h
    · exact .inl (h ▸ hmem)
    · exact .inr ⟨_, hmem, List.mem_of_getElem? h⟩

/-- The node in a place that a step leads to is proper. -/
theorem isProper_of_slot? {n : Node} {step : Step} {slot : Slot Node}
    (h : n.slot? step = some slot) : slot.node.IsProper := by
  rcases mem_fields_of_slot? h with hmem | ⟨items, hmem, hslot⟩
  · exact n.holdsProper_of_mem_fields _ hmem
  · exact n.holdsProper_of_mem_fields _ hmem slot hslot

/-! ### Paths -/

/-- A path leads to the same node in both views. -/
theorem map_descend?_eq_descend? {n : Node} (h : n.IsProper) (path : List Step) :
    (n.descend? path).map tree = n.tree.descend? path := by
  induction path generalizing n with
  | nil => rfl
  | cons step path ih =>
    rw [descend?, Tree.descend?, List.foldlM_cons, ← map_slot?_eq_child? h]
    cases hs : n.slot? step with
    | none => rfl
    | some slot => exact ih (isProper_of_slot? hs)

/-- Following a path commutes with seeing the tree. -/
theorem descend?_tree {n m : Node} (h : n.IsProper) {path : List Step}
    (hm : n.descend? path = some m) : n.tree.descend? path = some m.tree := by
  rw [← map_descend?_eq_descend? h, hm]
  rfl

/-- A path of at least one step leads to a place exactly when it leads to a node, and the place
holds that node. -/
theorem map_slotAt?_eq_descend? (n : Node) (step : Step) (path : List Step) :
    (n.slotAt? (step :: path)).map (·.node) = n.descend? (step :: path) := by
  induction path generalizing n step with
  | nil => cases hs : n.slot? step <;> simp [slotAt?, descend?, hs]
  | cons next path ih =>
    cases hs : n.slot? step with
    | none => simp [slotAt?, descend?, hs]
    | some slot =>
      have hput : (n.slotAt? (step :: next :: path)) =
          (slot.node.slotAt? (next :: path)).map (·.map slot.put) := by
        simp [slotAt?, hs, Option.map_eq_bind, Function.comp_def]
      rw [hput, Option.map_map, descend?, hs]
      exact ih slot.node next

/-- A path leads to a proper node. -/
theorem isProper_of_descend? {n m : Node} (h : n.IsProper) {path : List Step}
    (hm : n.descend? path = some m) : m.IsProper := by
  induction path generalizing n with
  | nil => exact Option.some.inj hm ▸ h
  | cons step path ih =>
    obtain ⟨slot, hs, hm⟩ := Option.bind_eq_some_iff.mp hm
    exact ih (isProper_of_slot? hs) hm

end Node

namespace Program

/-- The node at a place, seen as a tree, is the tree found by the same path. -/
theorem map_nodeAt?_eq_descend? (p : Program) (path : List Step) :
    (p.nodeAt? path).map Node.tree = p.tree.descend? path :=
  Node.map_descend?_eq_descend? (n := .program p) trivial path

theorem descend?_of_nodeAt? {p : Program} {path : List Step} {n : Node}
    (h : p.nodeAt? path = some n) : p.tree.descend? path = some n.tree :=
  Node.descend?_tree (n := .program p) trivial h

theorem isProper_of_nodeAt? {p : Program} {path : List Step} {n : Node}
    (h : p.nodeAt? path = some n) : n.IsProper :=
  Node.isProper_of_descend? (n := .program p) trivial h

/-- The slot at a place holds the node there. -/
theorem map_slotAt?_eq_nodeAt? (p : Program) (step : Step) (path : List Step) :
    (p.slotAt? (step :: path)).map (·.node) = p.nodeAt? (step :: path) := by
  rw [slotAt?, Option.map_map]
  exact Node.map_slotAt?_eq_descend? (.program p) step path

/-- A path goes on from a node exactly by the steps to its children. -/
theorem descend?_append_singleton_iff (p : Program) (path : List Step) (step : Step) (c : Tree) :
    p.tree.descend? (path ++ [step]) = some c ↔
      ∃ t, p.tree.descend? path = some t ∧ (step, c) ∈ t.children := by
  have hsplit : p.tree.descend? (path ++ [step]) =
      (p.tree.descend? path).bind (Tree.child? · step) := by
    simp [Tree.descend?, List.foldlM_append]
  rw [hsplit, Option.bind_eq_some_iff]
  refine exists_congr fun t => and_congr_right fun ht => ?_
  rw [← map_nodeAt?_eq_descend?, Option.map_eq_some_iff] at ht
  obtain ⟨n, hn, rfl⟩ := ht
  have hp : n.IsProper := Node.isProper_of_descend? (n := .program p) trivial hn
  exact Tree.child?_eq_some_iff (Node.nodup_names_tree hp) step c

/-- **Reading and editing lead to the same nodes.** A path of at least one step leads to a place of
the program exactly when it leads to a node, and the node in that place has the type, the span and
the fields of the one that is read. From a node, wherever it is, the single steps that lead on are,
in either view, those to its children, each to the child it is listed with. -/
theorem places_are_the_nodes (p : Program) (path : List Step) (step : Step) :
    (p.slotAt? (step :: path)).map (·.node.tree) = p.tree.descend? (step :: path) ∧
      (p.slotAt? (step :: path)).map (·.node.tree) =
        (p.slotAt? (step :: path)).map
          (fun s => ⟨s.node.type, s.node.span, s.node.fields.map Field.seen⟩) ∧
      ∀ c,
        (p.tree.descend? (path ++ [step]) = some c ↔
          ∃ t, p.tree.descend? path = some t ∧ (step, c) ∈ t.children) ∧
        ((p.slotAt? (path ++ [step])).map (·.node.tree) = some c ↔
          ∃ t, p.tree.descend? path = some t ∧ (step, c) ∈ t.children) := by
  -- slot, node and tree agree on what stands at a place below the top
  have hview : ∀ step path,
      (p.slotAt? (step :: path)).map (·.node.tree) = p.tree.descend? (step :: path) := by
    intro step path
    rw [← map_nodeAt?_eq_descend?, ← map_slotAt?_eq_nodeAt?, Option.map_map]
    rfl
  refine ⟨hview step path, ?_, fun c => ⟨p.descend?_append_singleton_iff path step c, ?_⟩⟩
  · refine Option.map_congr fun s hs => Node.tree_eq s.node ?_
    have hn : (Node.program p).descend? (step :: path) = some s.node :=
      (p.map_slotAt?_eq_nodeAt? step path).symm.trans (by rw [hs]; rfl)
    have hp : (Node.program p).IsProper := trivial
    exact Node.isProper_of_descend? hp hn
  · rw [← p.descend?_append_singleton_iff path step c]
    cases path with
    | nil => rw [List.nil_append, hview]
    | cons first path => rw [List.cons_append, hview]

end Program

end Espalier
