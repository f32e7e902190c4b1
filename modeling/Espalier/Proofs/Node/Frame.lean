import Espalier.Proofs.Node.Change
import Mathlib.Data.List.InsertIdx

/-!
# What an edit changes

An edit puts another node into one place, or takes one item out of one list. What a reader sees of
the whole afterwards is what was there before, with that one field changed: nothing else is touched
(`Node.tree_put`, `Node.tree_remove`). So an item taken out of a program is all that a reader misses
in it afterwards (`Program.tree_removeAt?`).
-/

namespace Espalier

namespace TreeField

@[simp] theorem name_value (n : String) (scalar : Scalar) : (value n scalar).name = n := rfl

@[simp] theorem name_text (n s : String) : (text n s).name = n := rfl

@[simp] theorem name_flag (n : String) (b : Bool) : (flag n b).name = n := rfl

@[simp] theorem name_absent (n : String) : (absent n).name = n := rfl

@[simp] theorem name_child (n : String) (t : Tree) : (child n t).name = n := rfl

@[simp] theorem name_list (n : String) (ts : List Tree) : (list n ts).name = n := rfl

@[simp] theorem name_orAbsent (n : String) (t? : Option Tree) : (orAbsent n t?).name = n := by
  cases t? <;> rfl

@[simp] theorem name_optionalExprField (n : String) (e? : Option Expr) :
    (optionalExprField n e?).name = n := by
  cases e? <;> rfl

@[simp] theorem name_optionalStmtField (n : String) (s? : Option Stmt) :
    (optionalStmtField n s?).name = n := by
  cases s? <;> rfl

@[simp] theorem name_forInitField (i? : Option ForInit) : (forInitField i?).name = "init" := by
  cases i? <;> rfl

@[simp] theorem orAbsent_some (n : String) (t : Tree) : orAbsent n (some t) = child n t := rfl

end TreeField

/-! ### Nodes of one kind -/

namespace Node

/-- One node may take the place of another one without a change of what holds it: it is of the same
kind, and stands where that stands. -/
inductive Alters : Node → Node → Prop
  | program (p q : Program) : Alters (program p) (program q)
  | stmt (s t : Stmt) (h : ofStmt t = stmt t) : Alters (stmt s) (stmt t)
  | block (b c : Block) : Alters (block b) (block c)
  | varDecl (d e : VarDecl) : Alters (varDecl d) (varDecl e)
  | declarator (d e : VarDeclarator) : Alters (declarator d) (declarator e)
  | function (f g : Func) (standing : Standing) : Alters (function f standing) (function g standing)
  | arrow (a b : Arrow) : Alters (arrow a) (arrow b)
  | classDef (c d : Class) (standing : Standing) :
    Alters (classDef c standing) (classDef d standing)
  | classBody (b c : ClassBody) : Alters (classBody b) (classBody c)
  | classMember (m n : ClassMember) : Alters (classMember m) (classMember n)
  | switchCase (c d : SwitchCase) : Alters (switchCase c) (switchCase d)
  | catchClause (c d : CatchClause) : Alters (catchClause c) (catchClause d)
  | importSpecifier (s t : ImportSpecifier) : Alters (importSpecifier s) (importSpecifier t)
  | exportSpecifier (s t : ExportSpecifier) : Alters (exportSpecifier s) (exportSpecifier t)
  | expr (d e : Expr) (h : ofExpr e = expr e) (hchain : e.isOptionalChain = d.isOptionalChain) :
    Alters (expr d) (expr e)
  | template (t u : Template) : Alters (template t) (template u)
  | templateElement (e f : TemplateElement) : Alters (templateElement e) (templateElement f)
  | property (p q : Property) : Alters (property p) (property q)
  | patternProperty (p q : PatternProperty) : Alters (patternProperty p) (patternProperty q)
  | pattern (p q : Pattern) (h : ofPattern q = pattern q) : Alters (pattern p) (pattern q)
  | ident (i j : Ident) : Alters (ident i) (ident j)

attribute [simp] Alters.program Alters.stmt Alters.block Alters.varDecl Alters.declarator
  Alters.function Alters.arrow Alters.classDef Alters.classBody Alters.classMember
  Alters.switchCase Alters.catchClause Alters.importSpecifier Alters.exportSpecifier Alters.expr
  Alters.template Alters.templateElement Alters.property Alters.patternProperty Alters.pattern
  Alters.ident

/-- What a node alters to is proper. -/
theorem Alters.isProper {n k : Node} (h : Alters n k) : k.IsProper := by
  cases h with
  | stmt s t h => exact h
  | expr d e h => exact h
  | pattern p q h => exact h
  | _ => trivial

end Node

namespace Slot

variable {α : Type}

/-- Into such a place another node of the kind can be put, and then is what is read there. A mark of
what stood there is kept. -/
class Takes {β : Type} (slot : β → (β → α) → Slot α) (f : outParam (β → Tree))
    (mark : outParam (β → Bool)) : Prop where
  put (x : β) (put : β → α) {k : Node} (h : (slot x put).node.Alters k) :
    ∃ y, (slot x put).put k = put y ∧ f y = k.tree ∧ mark y = mark x

instance : Takes (@atStmt α) Stmt.tree fun _ => false where
  put s put k h := by
    refine ⟨_, rfl, ?_, rfl⟩
    change (Node.ofStmt s).Alters k at h
    cases s <;> cases h <;> rfl

instance : Takes (@atExpr α) Expr.tree Expr.isOptionalChain where
  put e put k h := by
    change (Node.ofExpr e).Alters k at h
    refine ⟨_, rfl, ?_, ?_⟩
    · cases e <;> cases h <;> rfl
    · cases e <;> cases h <;> first | rfl | assumption

instance : Takes (@atPattern α) Pattern.tree fun _ => false where
  put p put k h := by
    cases p with
    | target e =>
      change (Node.ofExpr e).Alters k at h
      refine ⟨.target (k.toExpr?.getD e), rfl, ?_, rfl⟩
      cases e <;> cases h <;> rfl
    | _ =>
      cases h
      exact ⟨_, rfl, rfl, rfl⟩

instance : Takes (@atIdent α) Ident.tree fun _ => false where
  put i put k h := by
    cases h
    exact ⟨_, rfl, rfl, rfl⟩

instance : Takes (@atBlock α) Block.tree fun _ => false :=
  ⟨fun _ _ _ h => by cases h; exact ⟨_, rfl, rfl, rfl⟩⟩

instance : Takes (@atVarDecl α) VarDecl.tree fun _ => false :=
  ⟨fun _ _ _ h => by cases h; exact ⟨_, rfl, rfl, rfl⟩⟩

instance : Takes (@atDeclarator α) VarDeclarator.tree fun _ => false :=
  ⟨fun _ _ _ h => by cases h; exact ⟨_, rfl, rfl, rfl⟩⟩

instance : Takes (@atFunction α) (Func.tree .functionDeclaration) fun _ => false :=
  ⟨fun _ _ _ h => by cases h; exact ⟨_, rfl, rfl, rfl⟩⟩

instance : Takes (@atClass α) (Class.tree .classDeclaration) fun _ => false :=
  ⟨fun _ _ _ h => by cases h; exact ⟨_, rfl, rfl, rfl⟩⟩

instance : Takes (@atClassBody α) ClassBody.tree fun _ => false :=
  ⟨fun _ _ _ h => by cases h; exact ⟨_, rfl, rfl, rfl⟩⟩

instance : Takes (@atClassMember α) ClassMember.tree fun _ => false :=
  ⟨fun _ _ _ h => by cases h; exact ⟨_, rfl, rfl, rfl⟩⟩

instance : Takes (@atSwitchCase α) SwitchCase.tree fun _ => false :=
  ⟨fun _ _ _ h => by cases h; exact ⟨_, rfl, rfl, rfl⟩⟩

instance : Takes (@atCatchClause α) CatchClause.tree fun _ => false :=
  ⟨fun _ _ _ h => by cases h; exact ⟨_, rfl, rfl, rfl⟩⟩

instance : Takes (@atImportSpecifier α) ImportSpecifier.tree fun _ => false :=
  ⟨fun _ _ _ h => by cases h; exact ⟨_, rfl, rfl, rfl⟩⟩

instance : Takes (@atExportSpecifier α) ExportSpecifier.tree fun _ => false :=
  ⟨fun _ _ _ h => by cases h; exact ⟨_, rfl, rfl, rfl⟩⟩

instance : Takes (@atTemplate α) Template.tree fun _ => false :=
  ⟨fun _ _ _ h => by cases h; exact ⟨_, rfl, rfl, rfl⟩⟩

instance : Takes (@atTemplateElement α) TemplateElement.tree fun _ => false :=
  ⟨fun _ _ _ h => by cases h; exact ⟨_, rfl, rfl, rfl⟩⟩

instance : Takes (@atProperty α) Property.tree fun _ => false :=
  ⟨fun _ _ _ h => by cases h; exact ⟨_, rfl, rfl, rfl⟩⟩

instance : Takes (@atPatternProperty α) PatternProperty.tree fun _ => false :=
  ⟨fun _ _ _ h => by cases h; exact ⟨_, rfl, rfl, rfl⟩⟩

instance : Takes (@atKey α) PropertyKey.tree PropertyKey.isComputed where
  put key put k h := by
    cases key with
    | ident i =>
      change (atIdent i (put ∘ PropertyKey.ident)).node.Alters k at h
      obtain ⟨y, hput, hy, -⟩ := Takes.put i (put ∘ PropertyKey.ident) h
      exact ⟨PropertyKey.ident y, hput, hy, rfl⟩
    | literal e =>
      change (atExpr e (put ∘ PropertyKey.literal)).node.Alters k at h
      obtain ⟨y, hput, hy, -⟩ := Takes.put e (put ∘ PropertyKey.literal) h
      exact ⟨PropertyKey.literal y, hput, hy, rfl⟩
    | computed e =>
      change (atExpr e (put ∘ PropertyKey.computed)).node.Alters k at h
      obtain ⟨y, hput, hy, -⟩ := Takes.put e (put ∘ PropertyKey.computed) h
      exact ⟨PropertyKey.computed y, hput, hy, rfl⟩

instance : Takes (@MemberName.slot α) MemberName.tree MemberName.isComputed where
  put name put k h := by
    cases name with
    | ident i =>
      change (atIdent i (put ∘ MemberName.ident)).node.Alters k at h
      obtain ⟨y, hput, hy, -⟩ := Takes.put i (put ∘ MemberName.ident) h
      exact ⟨MemberName.ident y, hput, hy, rfl⟩
    | computed e =>
      change (atExpr e (put ∘ MemberName.computed)).node.Alters k at h
      obtain ⟨y, hput, hy, -⟩ := Takes.put e (put ∘ MemberName.computed) h
      exact ⟨MemberName.computed y, hput, hy, rfl⟩

instance : Takes (@ForInit.slot α) ForInit.tree fun _ => false where
  put init put k h := by
    cases init with
    | decl d =>
      change (atVarDecl d (put ∘ ForInit.decl)).node.Alters k at h
      obtain ⟨y, hput, hy, -⟩ := Takes.put d (put ∘ ForInit.decl) h
      exact ⟨ForInit.decl y, hput, hy, rfl⟩
    | expr e =>
      change (atExpr e (put ∘ ForInit.expr)).node.Alters k at h
      obtain ⟨y, hput, hy, -⟩ := Takes.put e (put ∘ ForInit.expr) h
      exact ⟨ForInit.expr y, hput, hy, rfl⟩

instance : Takes (@ForHead.slot α) ForHead.tree fun _ => false where
  put head put k h := by
    cases head with
    | decl d =>
      change (atVarDecl d (put ∘ ForHead.decl)).node.Alters k at h
      obtain ⟨y, hput, hy, -⟩ := Takes.put d (put ∘ ForHead.decl) h
      exact ⟨ForHead.decl y, hput, hy, rfl⟩
    | pattern p =>
      change (atPattern p (put ∘ ForHead.pattern)).node.Alters k at h
      obtain ⟨y, hput, hy, -⟩ := Takes.put p (put ∘ ForHead.pattern) h
      exact ⟨ForHead.pattern y, hput, hy, rfl⟩

instance : Takes (@ArrowBody.slot α) ArrowBody.tree fun _ => false where
  put body put k h := by
    cases body with
    | expr e =>
      change (atExpr e (put ∘ ArrowBody.expr)).node.Alters k at h
      obtain ⟨y, hput, hy, -⟩ := Takes.put e (put ∘ ArrowBody.expr) h
      exact ⟨ArrowBody.expr y, hput, hy, rfl⟩
    | block b =>
      change (atBlock b (put ∘ ArrowBody.block)).node.Alters k at h
      obtain ⟨y, hput, hy, -⟩ := Takes.put b (put ∘ ArrowBody.block) h
      exact ⟨ArrowBody.block y, hput, hy, rfl⟩

instance : Takes (@ExportDefault.slot α) ExportDefault.tree fun _ => false where
  put declaration put k h := by
    cases declaration with
    | function f =>
      change (atFunction f (put ∘ ExportDefault.function)).node.Alters k at h
      obtain ⟨y, hput, hy, -⟩ := Takes.put f (put ∘ ExportDefault.function) h
      exact ⟨ExportDefault.function y, hput, hy, rfl⟩
    | classDecl c =>
      change (atClass c (put ∘ ExportDefault.classDecl)).node.Alters k at h
      obtain ⟨y, hput, hy, -⟩ := Takes.put c (put ∘ ExportDefault.classDecl) h
      exact ⟨ExportDefault.classDecl y, hput, hy, rfl⟩
    | expr e =>
      change (atExpr e (put ∘ ExportDefault.expr)).node.Alters k at h
      obtain ⟨y, hput, hy, -⟩ := Takes.put e (put ∘ ExportDefault.expr) h
      exact ⟨ExportDefault.expr y, hput, hy, rfl⟩

end Slot

/-! ### Fields after an edit -/

section

variable {β : Type}

/-- The items of a list with holes, counted and where they stand. -/
theorem getElem?_present {xs : List (Option β)} {k i n : Nat} {x : β}
    (h : ((xs.zipIdx n).filterMap fun (x?, i) => x?.map (·, i))[k]? = some (x, i)) :
    ∃ j, i = n + j ∧ xs[j]? = some (some x) ∧
      (∀ y, (xs.set j (some y)).filterMap id = (xs.filterMap id).set k y) ∧
      (xs.eraseIdx j).filterMap id = (xs.filterMap id).eraseIdx k := by
  -- `j` counts the holes, `k` does not
  induction xs generalizing n k with
  | nil => simp at h
  | cons x? xs ih =>
    cases x? with
    | none =>
      obtain ⟨j, rfl, hx, hset, herase⟩ := ih (n := n + 1) (k := k) (by simpa using h)
      exact ⟨j + 1, by omega, by simpa using hx, by simpa using hset, by simpa using herase⟩
    | some z =>
      cases k with
      | zero =>
        simp only [List.zipIdx_cons, Option.map_some, List.filterMap_cons_some,
          List.getElem?_cons_zero, Option.some_inj, Prod.mk.injEq] at h
        obtain ⟨rfl, rfl⟩ := h
        exact ⟨0, by omega, rfl, by simp, by simp⟩
      | succ k =>
        obtain ⟨j, rfl, hx, hset, herase⟩ := ih (n := n + 1) (k := k) (by simpa using h)
        exact ⟨j + 1, by omega, by simpa using hx, by simpa using hset, by simpa using herase⟩

end

namespace Field

open Slot Items

/-- An edit in this field of a node changes this field and no other. Only an item that is there can
be taken out. -/
def Frames (n : Node) (field : String × Field Node) : Prop :=
  match field with
  | (name, .child slot) =>
    ∀ k, slot.node.Alters k →
      n.Alters (slot.put k) ∧ (slot.put k).tree = n.tree.setField (.child name k.tree)
  | (name, .list items) =>
    (∀ i slot, items.slots[i]? = some slot → ∀ k, slot.node.Alters k →
      n.Alters (slot.put k) ∧ (slot.put k).tree =
        n.tree.setField (.list name ((items.slots.map (·.node.tree)).set i k.tree))) ∧
    ∀ i n', items.remove i = .ok n' →
      i < items.slots.length ∧ n.Alters n' ∧ n'.tree =
        n.tree.setField (.list name ((items.slots.map (·.node.tree)).eraseIdx i))
  | _ => True

section

variable {n : Node} (name : String) {β : Type}

@[simp] theorem frames_value (scalar : Scalar) (set : Scalar → Except EditError Node) :
    Frames n (name, .value scalar set) := trivial

@[simp] theorem frames_fixed (scalar : Scalar) : Frames n (name, .fixed scalar) := trivial

@[simp] theorem frames_absent : Frames n (name, .absent) := trivial

@[simp] theorem frames_flag (value : Bool) (put : Bool → Node) :
    Frames n (flag name value put) := trivial

@[simp] theorem frames_text (value : String) (put : String → Node) :
    Frames n (text name value put) := trivial

@[simp] theorem frames_word (value : String) (ofText? : String → Option β) (put : β → Node) :
    Frames n (word name value ofText? put) := trivial

@[simp] theorem frames_fixedFlag (value : Bool) : Frames n (fixedFlag name value) := trivial

@[simp] theorem frames_computedKey (key : PropertyKey) (put : PropertyKey → Node) :
    Frames n (computedKey key put) := trivial

variable {slot : β → (β → Node) → Slot Node} {f : β → Tree}

/-- A single child is framed if putting one of its kind sets that field. -/
theorem frames_one {mark : β → Bool} [Takes slot f mark] (x : β) (put : β → Node)
    (h : ∀ y, mark y = mark x →
      n.Alters (put y) ∧ (put y).tree = n.tree.setField (.child name (f y))) :
    Frames n (one name (slot x put)) := by
  intro k hk
  obtain ⟨y, hput, hy, hmark⟩ := Takes.put x put hk
  rw [hput, ← hy]
  exact h y hmark

/-- So is a child that may be absent. -/
theorem frames_optional {mark : β → Bool} [Takes slot f mark] (x? : Option β)
    (put : Option β → Node)
    (h : ∀ y, n.Alters (put (some y)) ∧
      (put (some y)).tree = n.tree.setField (.child name (f y))) :
    Frames n (optional name slot x? put) := by
  cases x? with
  | none => trivial
  | some x => exact frames_one name x (put ∘ some) fun y _ => h y

/-- A list of parts of the node is framed. -/
theorem frames_many_ofParts {mark : β → Bool} [Takes slot f mark] [Shows slot f] (xs : List β)
    (put : List β → Node)
    (h : ∀ ys, n.Alters (put ys) ∧ (put ys).tree = n.tree.setField (.list name (ys.map f))) :
    Frames n (many name (ofParts slot xs put)) := by
  have htrees : (ofParts slot xs put).slots.map (·.node.tree) = xs.map f := by
    have hseen : seen (many name (ofParts slot xs put)) = .list name (xs.map f) :=
      seen_many_ofParts name xs put
    simpa only [many, seen, TreeField.list.injEq, true_and] using hseen
  refine ⟨fun i s hs k hk => ?_, fun i n' hn' => by cases hn'⟩
  simp only [ofParts, ofList, List.getElem?_map, List.getElem?_zipIdx, Nat.zero_add,
    Option.map_map, Option.map_eq_some_iff, Function.comp_apply] at hs
  obtain ⟨x, -, rfl⟩ := hs
  obtain ⟨y, hput, hy, -⟩ := Takes.put x (put ∘ xs.set i) hk
  rw [htrees, hput, ← hy, ← List.map_set]
  exact h (xs.set i y)

/-- A list of nodes is framed. -/
theorem frames_many_ofList {mark : β → Bool} [Takes slot f mark] [Shows slot f] (xs : List β)
    (put : List β → Node)
    (h : ∀ ys, n.Alters (put ys) ∧ (put ys).tree = n.tree.setField (.list name (ys.map f))) :
    Frames n (many name (ofList slot xs put)) := by
  have htrees : (ofList slot xs put).slots.map (·.node.tree) = xs.map f := by
    have hseen : seen (many name (ofList slot xs put)) = .list name (xs.map f) :=
      seen_many_ofList name xs put
    simpa only [many, seen, TreeField.list.injEq, true_and] using hseen
  refine ⟨(frames_many_ofParts name xs put h).1, fun i n' hn' => ?_⟩
  simp only [ofList] at hn'
  split at hn'
  · next hi =>
    cases hn'
    refine ⟨by simpa [ofList] using hi, ?_⟩
    rw [htrees, List.eraseIdx_map]
    exact h (xs.eraseIdx i)
  · cases hn'

/-- A list with holes is framed, its items counted without the holes. -/
theorem frames_many_ofHoles {mark : β → Bool} [Takes slot f mark] [Shows slot f]
    (xs : List (Option β)) (put : List (Option β) → Node)
    (h : ∀ ys, n.Alters (put ys) ∧
      (put ys).tree = n.tree.setField (.list name ((ys.filterMap id).map f))) :
    Frames n (many name (ofHoles slot xs put)) := by
  -- what the list shows are the trees of the items that are there
  have htrees : (ofHoles slot xs put).slots.map (·.node.tree) = (xs.filterMap id).map f := by
    have hseen : seen (many name (ofHoles slot xs put)) = .list name ((xs.filterMap id).map f) :=
      seen_many_ofHoles name xs put
    simpa only [many, seen, TreeField.list.injEq, true_and] using hseen
  refine ⟨fun k s hs m hm => ?_, fun k n' hn' => ?_⟩
  · simp only [ofHoles, List.getElem?_map, Option.map_eq_some_iff] at hs
    obtain ⟨⟨x, i⟩, hx, rfl⟩ := hs
    obtain ⟨j, hj, -, hset, -⟩ := getElem?_present hx
    obtain rfl : i = j := by omega
    obtain ⟨y, hput, hy, -⟩ := Takes.put x (fun y => put (xs.set i (some y))) hm
    rw [htrees, hput, ← hy, ← List.map_set, ← hset]
    exact h (xs.set i (some y))
  · simp only [ofHoles] at hn'
    split at hn'
    · next x i hx =>
      obtain ⟨j, hj, -, -, herase⟩ := getElem?_present hx
      obtain rfl : i = j := by omega
      cases hn'
      refine ⟨?_, ?_⟩
      · rw [ofHoles, List.length_map]
        exact (List.getElem?_eq_some_iff.mp hx).1
      · rw [htrees, List.eraseIdx_map, ← herase]
        exact h (xs.eraseIdx i)
    · cases hn'

end

end Field

namespace Node

open Slot Items Field

/-- An edit of a node that is a statement changes one of its fields. -/
theorem frames_stmt (s : Stmt) (h : ofStmt s = stmt s) :
    ∀ field ∈ (stmt s).fields, Frames (stmt s) field := by
  cases s with
  | var | function | classDecl | block => simp [ofStmt] at h
  | _ =>
    simp only [fields, Stmt.nodeFields, List.forall_mem_cons, List.not_mem_nil, false_imp_iff,
      implies_true, and_true, frames_flag, true_and]
    repeat' first
      | refine frames_one _ _ _ fun _ _ => ⟨.stmt _ _ rfl, ?_⟩
      | refine frames_optional _ _ _ fun _ => ⟨.stmt _ _ rfl, ?_⟩
      | refine frames_many_ofList _ _ _ fun _ => ⟨.stmt _ _ rfl, ?_⟩
      | refine And.intro ?_ ?_
    all_goals
      simp [tree, Stmt.tree, Tree.setField, optionalExprField_eq, optionalStmtField_eq,
        forInitField_eq, handlerField_eq, finalizerField_eq, switchCaseTrees_eq_map]

/-- An edit of a node that is an expression changes one of its fields. Whether a member or call is
part of an optional chain is a matter of its object or callee, which keeps the mark. -/
theorem frames_expr (e : Expr) (h : ofExpr e = expr e) :
    ∀ field ∈ (expr e).fields, Frames (expr e) field := by
  cases e with
  | template | ident | function | arrow | classExpr => simp [ofExpr] at h
  | member s o p isOptional =>
    -- whether `optional` is listed depends on the chain, and it holds no child
    have hlast : ∀ field ∈ (if isOptional || o.isOptionalChain then
        [fixedFlag "optional" isOptional] else ([] : List (String × Field Node))),
        Frames (expr (.member s o p isOptional)) field := by
      intro field hfield
      split at hfield
      · obtain rfl := List.mem_singleton.mp hfield
        trivial
      · cases hfield
    simp only [fields, Expr.nodeFields, List.forall_mem_append, List.forall_mem_cons]
    refine ⟨⟨frames_one _ _ _ fun y hy => ⟨.expr _ _ rfl ?_, ?_⟩, trivial,
      frames_one _ _ _ fun y hy => ⟨.expr _ _ rfl rfl, ?_⟩, List.forall_mem_nil _⟩, hlast⟩
    · simp [Expr.isOptionalChain, hy]
    · by_cases hc : isOptional || o.isOptionalChain <;>
        simp_all [tree, Expr.tree, Tree.setField]
    · by_cases hc : isOptional || o.isOptionalChain <;>
        simp_all [tree, Expr.tree, Tree.setField]
  | call s f args isOptional =>
    have hlast : ∀ field ∈ (if isOptional || f.isOptionalChain then
        [fixedFlag "optional" isOptional] else ([] : List (String × Field Node))),
        Frames (expr (.call s f args isOptional)) field := by
      intro field hfield
      split at hfield
      · obtain rfl := List.mem_singleton.mp hfield
        trivial
      · cases hfield
    simp only [fields, Expr.nodeFields, List.forall_mem_append, List.forall_mem_cons]
    refine ⟨⟨frames_one _ _ _ fun y hy => ⟨.expr _ _ rfl ?_, ?_⟩,
      frames_many_ofList _ _ _ fun ys => ⟨.expr _ _ rfl rfl, ?_⟩, List.forall_mem_nil _⟩, hlast⟩
    · simp [Expr.isOptionalChain, hy]
    · by_cases hc : isOptional || f.isOptionalChain <;>
        simp_all [tree, Expr.tree, Tree.setField]
    · by_cases hc : isOptional || f.isOptionalChain <;>
        simp_all [tree, Expr.tree, Tree.setField, exprTrees_eq_map]
  -- the other expressions list the same fields whatever they hold
  | _ =>
    simp only [fields, Expr.nodeFields, List.forall_mem_cons, List.not_mem_nil, false_imp_iff,
      implies_true, and_true, frames_flag, frames_text, frames_word, frames_fixedFlag,
      frames_value, true_and]
    repeat' first
      | refine frames_one _ _ _ fun _ _ => ⟨.expr _ _ rfl rfl, ?_⟩
      | refine frames_optional _ _ _ fun _ => ⟨.expr _ _ rfl rfl, ?_⟩
      | refine frames_many_ofList _ _ _ fun _ => ⟨.expr _ _ rfl rfl, ?_⟩
      | refine frames_many_ofHoles _ _ _ fun _ => ⟨.expr _ _ rfl rfl, ?_⟩
      | refine And.intro ?_ ?_
    all_goals
      simp [tree, Expr.tree, Tree.setField, exprTrees_eq_map, optionalExprTrees_eq_map,
        propertyTrees_eq_map, optionalExprField_eq]

/-- An edit of a node that is a pattern changes one of its fields. -/
theorem frames_pattern (p : Pattern) (h : ofPattern p = pattern p) :
    ∀ field ∈ (pattern p).fields, Frames (pattern p) field := by
  cases p with
  | ident => simp [ofPattern] at h
  | target e => cases e <;> simp [ofPattern, ofExpr] at h
  | _ =>
    simp only [fields, Pattern.nodeFields, List.forall_mem_cons, List.not_mem_nil, false_imp_iff,
      implies_true, and_true]
    repeat' first
      | refine frames_one _ _ _ fun _ _ => ⟨.pattern _ _ rfl, ?_⟩
      | refine frames_many_ofList _ _ _ fun _ => ⟨.pattern _ _ rfl, ?_⟩
      | refine frames_many_ofHoles _ _ _ fun _ => ⟨.pattern _ _ rfl, ?_⟩
      | refine And.intro ?_ ?_
    all_goals
      simp [tree, Pattern.tree, Tree.setField, optionalPatternTrees_eq_map,
        patternPropertyTrees_eq_map]

/-- An edit in a field of a node changes this field and no other. -/
theorem frames_of_mem_fields (n : Node) (h : n.IsProper) : ∀ field ∈ n.fields, Frames n field := by
  cases n with
  | stmt s => exact frames_stmt s h
  | expr e => exact frames_expr e h
  | pattern p => exact frames_pattern p h
  -- the others, one record after the other
  | program p =>
    simp only [fields, List.forall_mem_cons]
    refine ⟨trivial, frames_many_ofList _ _ _ fun ys => ⟨.program _ _, ?_⟩, List.forall_mem_nil _⟩
    simp [tree, Program.tree, Tree.setField, stmtTrees_eq_map]
  | block b =>
    obtain ⟨body, s⟩ := b
    simp only [fields, List.forall_mem_cons]
    refine ⟨frames_many_ofList _ _ _ fun ys => ⟨.block _ _, ?_⟩, List.forall_mem_nil _⟩
    simp [tree, Block.tree, Tree.setField, stmtTrees_eq_map]
  | varDecl d =>
    obtain ⟨kind, ds, s⟩ := d
    simp only [fields, List.forall_mem_cons]
    refine ⟨frames_many_ofList _ _ _ fun ys => ⟨.varDecl _ _, ?_⟩, trivial, List.forall_mem_nil _⟩
    simp [tree, VarDecl.tree, Tree.setField, declaratorTrees_eq_map]
  | declarator d =>
    obtain ⟨id, init, s⟩ := d
    simp only [fields, List.forall_mem_cons]
    refine ⟨frames_one _ _ _ fun y _ => ⟨.declarator _ _, ?_⟩,
      frames_optional _ _ _ fun y => ⟨.declarator _ _, ?_⟩, List.forall_mem_nil _⟩
    · simp [tree, VarDeclarator.tree, Tree.setField, optionalExprField_eq]
    · simp [tree, VarDeclarator.tree, Tree.setField, optionalExprField_eq]
  | function f standing =>
    obtain ⟨id, params, body, isAsync, isGenerator, s⟩ := f
    simp only [fields, Func.nodeFields, List.forall_mem_cons]
    refine ⟨frames_optional _ _ _ fun y => ⟨.function _ _ _, ?_⟩, trivial, trivial,
      frames_many_ofList _ _ _ fun ys => ⟨.function _ _ _, ?_⟩,
      frames_one _ _ _ fun y _ => ⟨.function _ _ _, ?_⟩, List.forall_mem_nil _⟩
    all_goals cases standing <;> simp [tree, Func.tree, Tree.setField, patternTrees_eq_map]
  | arrow a =>
    obtain ⟨params, body, isAsync, s⟩ := a
    simp only [fields, List.forall_mem_cons]
    refine ⟨trivial, trivial, trivial, frames_many_ofList _ _ _ fun ys => ⟨.arrow _ _, ?_⟩,
      frames_one _ _ _ fun y _ => ⟨.arrow _ _, ?_⟩, List.forall_mem_nil _⟩
    all_goals simp [tree, Arrow.tree, Tree.setField, patternTrees_eq_map]
  | classDef c standing =>
    obtain ⟨id, superClass, body, s⟩ := c
    simp only [fields, List.forall_mem_cons]
    refine ⟨frames_optional _ _ _ fun y => ⟨.classDef _ _ _, ?_⟩,
      frames_optional _ _ _ fun y => ⟨.classDef _ _ _, ?_⟩,
      frames_one _ _ _ fun y _ => ⟨.classDef _ _ _, ?_⟩, List.forall_mem_nil _⟩
    all_goals cases standing <;> simp [tree, Class.tree, Tree.setField, optionalExprField_eq]
  | classBody b =>
    obtain ⟨ms, s⟩ := b
    simp only [fields, List.forall_mem_cons]
    refine ⟨frames_many_ofList _ _ _ fun ys => ⟨.classBody _ _, ?_⟩, List.forall_mem_nil _⟩
    simp [tree, ClassBody.tree, Tree.setField, memberTrees_eq_map]
  | classMember m =>
    cases m with
    | method s k kind isStatic f =>
      obtain ⟨id, params, body, isAsync, isGenerator, t⟩ := f
      simp only [fields, ClassMember.nodeFields, Func.nodeFields, List.forall_mem_append,
        List.forall_mem_cons]
      refine ⟨⟨trivial, frames_one _ _ _ fun y hy => ⟨.classMember _ _, ?_⟩, trivial, trivial,
        List.forall_mem_nil _⟩, trivial, trivial,
        frames_many_ofList _ _ _ fun ys => ⟨.classMember _ _, ?_⟩,
        frames_one _ _ _ fun y _ => ⟨.classMember _ _, ?_⟩, List.forall_mem_nil _⟩
      all_goals
        simp_all [tree, ClassMember.tree, Func.fields, Tree.setField, patternTrees_eq_map]
    | property s k v isStatic =>
      simp only [fields, ClassMember.nodeFields, List.forall_mem_cons]
      refine ⟨trivial, frames_one _ _ _ fun y hy => ⟨.classMember _ _, ?_⟩, trivial,
        frames_optional _ _ _ fun y => ⟨.classMember _ _, ?_⟩, List.forall_mem_nil _⟩
      all_goals simp_all [tree, ClassMember.tree, Tree.setField, optionalExprField_eq]
  | switchCase c =>
    obtain ⟨test, body, s⟩ := c
    simp only [fields, List.forall_mem_cons]
    refine ⟨frames_optional _ _ _ fun y => ⟨.switchCase _ _, ?_⟩,
      frames_many_ofList _ _ _ fun ys => ⟨.switchCase _ _, ?_⟩, List.forall_mem_nil _⟩
    all_goals simp [tree, SwitchCase.tree, Tree.setField, optionalExprField_eq, stmtTrees_eq_map]
  | catchClause c =>
    obtain ⟨param, body, s⟩ := c
    simp only [fields, List.forall_mem_cons]
    refine ⟨frames_optional _ _ _ fun y => ⟨.catchClause _ _, ?_⟩,
      frames_one _ _ _ fun y _ => ⟨.catchClause _ _, ?_⟩, List.forall_mem_nil _⟩
    all_goals cases param <;> simp [tree, CatchClause.tree, Tree.setField]
  | importSpecifier s =>
    cases s <;> simp only [fields, ImportSpecifier.nodeFields, List.forall_mem_cons]
    · refine ⟨frames_one _ _ _ fun y _ => ⟨.importSpecifier _ _, ?_⟩, List.forall_mem_nil _⟩
      simp [tree, ImportSpecifier.tree, Tree.setField]
    · refine ⟨frames_one _ _ _ fun y _ => ⟨.importSpecifier _ _, ?_⟩, List.forall_mem_nil _⟩
      simp [tree, ImportSpecifier.tree, Tree.setField]
    · refine ⟨frames_one _ _ _ fun y _ => ⟨.importSpecifier _ _, ?_⟩,
        frames_one _ _ _ fun y _ => ⟨.importSpecifier _ _, ?_⟩, List.forall_mem_nil _⟩
      all_goals simp [tree, ImportSpecifier.tree, Tree.setField]
  | exportSpecifier s =>
    simp only [fields, List.forall_mem_cons]
    refine ⟨frames_one _ _ _ fun y _ => ⟨.exportSpecifier _ _, ?_⟩,
      frames_one _ _ _ fun y _ => ⟨.exportSpecifier _ _, ?_⟩, List.forall_mem_nil _⟩
    all_goals simp [tree, ExportSpecifier.tree, Tree.setField]
  | template t =>
    obtain ⟨quasis, es, s⟩ := t
    simp only [fields, List.forall_mem_cons]
    refine ⟨frames_many_ofParts _ _ _ fun ys => ⟨.template _ _, ?_⟩,
      frames_many_ofParts _ _ _ fun ys => ⟨.template _ _, ?_⟩, List.forall_mem_nil _⟩
    all_goals simp [tree, Template.tree, Tree.setField, exprTrees_eq_map]
  | templateElement e =>
    simp only [fields, List.forall_mem_cons]
    exact ⟨trivial, trivial, List.forall_mem_nil _⟩
  | property p =>
    cases p with
    | init s k v shorthand =>
      simp only [fields, Property.nodeFields, List.forall_mem_cons]
      refine ⟨trivial, frames_one _ _ _ fun y hy => ⟨.property _ _, ?_⟩, trivial, trivial,
        frames_one _ _ _ fun y _ => ⟨.property _ _, ?_⟩, List.forall_mem_nil _⟩
      all_goals simp_all [tree, Property.tree, Tree.setField]
    | method s k kind f =>
      obtain ⟨id, params, body, isAsync, isGenerator, t⟩ := f
      simp only [fields, Property.nodeFields, Func.nodeFields, List.forall_mem_append,
        List.forall_mem_cons]
      refine ⟨⟨trivial, frames_one _ _ _ fun y hy => ⟨.property _ _, ?_⟩, trivial, trivial,
        List.forall_mem_nil _⟩, trivial, trivial,
        frames_many_ofList _ _ _ fun ys => ⟨.property _ _, ?_⟩,
        frames_one _ _ _ fun y _ => ⟨.property _ _, ?_⟩, List.forall_mem_nil _⟩
      all_goals simp_all [tree, Property.tree, Func.fields, Tree.setField, patternTrees_eq_map]
    | spread s e =>
      simp only [fields, Property.nodeFields, List.forall_mem_cons]
      refine ⟨frames_one _ _ _ fun y _ => ⟨.property _ _, ?_⟩, List.forall_mem_nil _⟩
      simp [tree, Property.tree, Tree.setField]
  | patternProperty p =>
    cases p with
    | entry s k v shorthand =>
      simp only [fields, PatternProperty.nodeFields, List.forall_mem_cons]
      refine ⟨trivial, frames_one _ _ _ fun y hy => ⟨.patternProperty _ _, ?_⟩, trivial, trivial,
        frames_one _ _ _ fun y _ => ⟨.patternProperty _ _, ?_⟩, List.forall_mem_nil _⟩
      all_goals simp_all [tree, PatternProperty.tree, Tree.setField]
    | rest s p =>
      simp only [fields, PatternProperty.nodeFields, List.forall_mem_cons]
      refine ⟨frames_one _ _ _ fun y _ => ⟨.patternProperty _ _, ?_⟩, List.forall_mem_nil _⟩
      simp [tree, PatternProperty.tree, Tree.setField]
  | ident i =>
    simp only [fields, List.forall_mem_cons]
    exact ⟨trivial, List.forall_mem_nil _⟩

/-! ### Edits at the end of a path -/

/-- What is put into a place is put there, and nothing else is changed. -/
theorem tree_put {n : Node} (h : n.IsProper) {step : Step} {slot : Slot Node}
    (hslot : n.slot? step = some slot) {k : Node} (hk : slot.node.Alters k) :
    n.Alters (slot.put k) ∧ (slot.put k).tree = n.tree.setChild step k.tree := by
  obtain ⟨name, index⟩ := step
  unfold slot? at hslot
  cases hfield : n.field? name with
  | none => simp [hfield] at hslot
  | some field =>
    obtain ⟨⟨name', field'⟩, hfind, rfl⟩ := Option.map_eq_some_iff.mp hfield
    obtain rfl : name' = name := by simpa using List.find?_some hfind
    -- the field that holds the slot says what putting a node does
    have hframes := n.frames_of_mem_fields h _ (List.mem_of_find?_eq_some hfind)
    have htree : n.tree.field? name' = some (seen (name', field')) := by
      rw [field?_tree h, hfind]
      rfl
    dsimp only at hslot hfield
    rw [hfield] at hslot
    cases field' with
    | value | fixed | absent => cases hslot
    | child s =>
      cases index with
      | some i => cases hslot
      | none =>
        cases hslot
        obtain ⟨halters, heq⟩ := hframes k hk
        refine ⟨halters, ?_⟩
        rw [heq, Tree.setChild, htree]
        rfl
    | list items =>
      cases index with
      | none => cases hslot
      | some i =>
        obtain ⟨halters, heq⟩ := hframes.1 i slot hslot k hk
        refine ⟨halters, ?_⟩
        rw [heq, Tree.setChild, htree]
        rfl

/-- Taking an item out takes out an item that is there and changes nothing else. -/
theorem tree_remove {n : Node} (h : n.IsProper) {name : String} {items : Items Node}
    (hitems : n.items? name = some items) {i : Nat} {n' : Node} (hn' : items.remove i = .ok n') :
    (∃ ts, n.tree.field? name = some (.list name ts) ∧ i < ts.length) ∧
      n.Alters n' ∧ n'.tree = n.tree.eraseItem name i := by
  unfold items? at hitems
  split at hitems
  · next items' hfield =>
    cases hitems
    obtain ⟨⟨name', field'⟩, hfind, hlist⟩ := Option.map_eq_some_iff.mp hfield
    obtain rfl : name' = name := by simpa using List.find?_some hfind
    obtain rfl : field' = .list items := hlist
    -- the field that holds the list says what removing an item does
    have hframes := n.frames_of_mem_fields h _ (List.mem_of_find?_eq_some hfind)
    have htree : n.tree.field? name' = some (seen (name', .list items)) := by
      rw [field?_tree h, hfind]
      rfl
    obtain ⟨hi, halters, heq⟩ := hframes.2 i n' hn'
    refine ⟨⟨_, htree, by rwa [List.length_map]⟩, halters, ?_⟩
    rw [heq, Tree.eraseItem, htree]
    rfl
  · cases hitems

/-- What is put into a place at the end of a path is put there, and nothing else is changed. -/
theorem tree_put_slotAt? {n : Node} (h : n.IsProper) {path : List Step} {slot : Slot Node}
    (hslot : n.slotAt? path = some slot) {k : Node} (hk : slot.node.Alters k) :
    n.Alters (slot.put k) ∧ (slot.put k).tree = n.tree.editAt path fun _ => k.tree := by
  -- from the slot at the end back to the top
  induction path generalizing n slot with
  | nil => cases hslot
  | cons step path ih =>
    cases hs : n.slot? step with
    | none => cases path <;> simp [slotAt?, hs] at hslot
    | some first =>
      have hchild : n.tree.child? step = some first.node.tree := by
        rw [← map_slot?_eq_child? h, hs]
        rfl
      cases path with
      | nil =>
        obtain rfl : first = slot := by simpa [slotAt?, hs] using hslot
        obtain ⟨halters, htree⟩ := tree_put h hs hk
        refine ⟨halters, ?_⟩
        rw [htree]
        simp only [Tree.editAt, hchild]
      | cons next path =>
        have hsplit : (first.node.slotAt? (next :: path)).map (·.map first.put) = some slot := by
          simpa [slotAt?, hs, Option.map_eq_bind, Function.comp_def] using hslot
        obtain ⟨inner, hinner, rfl⟩ := Option.map_eq_some_iff.mp hsplit
        obtain ⟨hbelow, hinnerTree⟩ := ih (isProper_of_slot? hs) hinner hk
        obtain ⟨halters, htree⟩ := tree_put h hs hbelow
        refine ⟨halters, ?_⟩
        show (first.put (inner.put k)).tree = _
        rw [htree, hinnerTree]
        simp only [Tree.editAt, hchild]

end Node

namespace Program

theorem tree_asProgram {p : Program} {k : Node} (h : (Node.program p).Alters k) :
    (k.asProgram p).tree = k.tree := by
  cases h
  rfl

/-- An edit of the node to which a path leads, if it leaves that a node of its kind, changes it and
nothing else. -/
theorem tree_editAt? {p p' : Program} {path : List Step} {edit : Node → Except EditError Node}
    (hedit : ∀ n k, p.nodeAt? path = some n → edit n = .ok k → n.Alters k)
    (h : p.editAt? path edit = some (.ok p')) :
    ∃ n k, p.nodeAt? path = some n ∧ edit n = .ok k ∧
      p'.tree = p.tree.editAt path fun _ => k.tree := by
  have hroot : (Node.program p).IsProper := trivial
  -- the empty path is the program, which stands in no slot
  cases path with
  | nil =>
    change some ((edit (.program p)).map (·.asProgram p)) = some (.ok p') at h
    cases hk : edit (.program p) with
    | error cause =>
      rw [hk] at h
      cases h
    | ok k =>
      rw [hk] at h
      cases h
      exact ⟨_, k, rfl, hk, tree_asProgram (hedit _ k rfl hk)⟩
  | cons step path =>
    obtain ⟨slot, hslot, hput⟩ := Option.map_eq_some_iff.mp h
    have hnode : p.nodeAt? (step :: path) = some slot.node := by
      rw [← map_slotAt?_eq_nodeAt?, hslot]
      rfl
    obtain ⟨whole, hwhole, rfl⟩ := Option.map_eq_some_iff.mp hslot
    change (edit whole.node).map _ = .ok p' at hput
    cases hk : edit whole.node with
    | error cause =>
      rw [hk] at hput
      cases hput
    | ok k =>
      rw [hk] at hput
      cases hput
      obtain ⟨halters, htree⟩ := Node.tree_put_slotAt? hroot hwhole (hedit _ k hnode hk)
      exact ⟨_, k, hnode, hk, (tree_asProgram halters).trans htree⟩

/-- An item is taken out of a node of the program, and nothing else is changed. -/
theorem exists_of_removeAt? {p p' : Program} {path : List Step} {field : String} {i : Nat}
    (h : p.removeAt? path field i = some (.ok p')) :
    ∃ n items k, p.nodeAt? path = some n ∧ n.items? field = some items ∧ items.remove i = .ok k ∧
      p'.tree = p.tree.editAt path fun _ => k.tree := by
  obtain ⟨n, hn, hrest⟩ := Option.bind_eq_some_iff.mp h
  obtain ⟨items, hitems, hedit⟩ := Option.bind_eq_some_iff.mp hrest
  have halters : ∀ m k, p.nodeAt? path = some m → items.remove i = .ok k → m.Alters k := by
    intro m k hm hk
    obtain rfl : n = m := Option.some.inj (hn.symm.trans hm)
    exact (Node.tree_remove (isProper_of_nodeAt? hn) hitems hk).2.1
  obtain ⟨-, k, -, hk, htree⟩ := tree_editAt? halters hedit
  exact ⟨n, items, k, hn, hitems, hk, htree⟩

/-- **An item is taken out of a program.** It is there, and what is read of the program afterwards
is what was read before, less that item. -/
theorem tree_removeAt? {p p' : Program} {path : List Step} {field : String} {i : Nat}
    (h : p.removeAt? path field i = some (.ok p')) :
    (∃ t ts, p.tree.descend? path = some t ∧ t.field? field = some (.list field ts) ∧
      i < ts.length) ∧ p'.tree = p.tree.eraseAt path field i := by
  obtain ⟨n, items, k, hn, hitems, hk, htree⟩ := exists_of_removeAt? h
  have hread : p.tree.descend? path = some n.tree := descend?_of_nodeAt? hn
  obtain ⟨⟨ts, hlist, hi⟩, -, hitem⟩ := Node.tree_remove (isProper_of_nodeAt? hn) hitems hk
  refine ⟨⟨n.tree, ts, hread, hlist, hi⟩, ?_⟩
  rw [htree, hitem]
  exact Tree.editAt_of_descend? hread (Tree.eraseItem field i)

end Program

end Espalier
