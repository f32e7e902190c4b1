import Espalier.Proofs.Node.Frame

/-!
# Replacements

An expression that is put in the place of a node stands there afterwards: the steps that led to the
node lead to the expression, or to the statement that it becomes, and all steps that lead elsewhere
lead where they led (`Program.grafted_replaceAt?`).

The nodes above the place stay constructs of their kinds. An expression among them may become part
of an optional chain, or cease to be one, by what is put below it, and then shows another field; so
this is more than an edit of one field, of which `Node.tree_put` speaks, and less is said: the
children are those of such an edit (`Node.Grafts`).
-/

namespace Espalier

namespace Node

/-- One node may become another one by a replacement below it: it is of the same kind, and stands
where that stands. -/
inductive Resembles : Node → Node → Prop
  | of_alters {n k : Node} (h : Alters n k) : Resembles n k
  | expr (d e : Expr) (h : ofExpr e = expr e) : Resembles (expr d) (expr e)

/-- Of what is no expression nothing more changes by a replacement than by another edit. -/
theorem Resembles.alters {n k : Node} (h : n.Resembles k) (hn : ∀ e, n ≠ .expr e) : n.Alters k := by
  cases h with
  | of_alters h => exact h
  | expr d e h => exact absurd rfl (hn d)

theorem Resembles.isProper {n k : Node} (h : n.Resembles k) : k.IsProper := by
  cases h with
  | of_alters h => exact h.isProper
  | expr d e h => exact h

end Node

open Node (Resembles Alters)

/-- An expression as the node that it becomes in a place: a statement of it, or itself. -/
def SlotKind.placed (kind : SlotKind) (e : Expr) : Tree :=
  match kind with
  | .stmt => (Stmt.expr e.span e).tree
  | _ => e.tree

namespace Slot

variable {α β γ : Type}

/-- Into such a place, where `f` reads what is there, a node that resembles the one there can be
put, and then is what is read there; and so is what an expression becomes that is put there. -/
class Refills (slot : β → (β → α) → Slot α) (f : outParam (β → Tree)) : Prop where
  put (x : β) (put : β → α) {k : Node} (h : (slot x put).node.Resembles k) :
    ∃ y, (slot x put).put k = put y ∧ f y = k.tree
  replace (x : β) (put : β → α) {e : Expr} {a : α} (h : (slot x put).replace e = .ok a) :
    ∃ y, a = put y ∧ f y = (slot x put).kind.placed e

instance : Refills (@atStmt α) Stmt.tree where
  put s put k h := by
    have hnode : ∀ e, (atStmt s put).node ≠ .expr e := by
      intro e he
      change Node.ofStmt s = .expr e at he
      cases s <;> cases he
    obtain ⟨y, hput, hy, -⟩ := Takes.put s put (h.alters hnode)
    exact ⟨y, hput, hy⟩
  replace s put e a h := ⟨.expr e.span e, (Except.ok.inj h).symm, rfl⟩

instance : Refills (@atExpr α) Expr.tree where
  put e put k h := by
    refine ⟨_, rfl, ?_⟩
    change (Node.ofExpr e).Resembles k at h
    cases e <;> obtain h | _ := h <;> first | rfl | (cases h; rfl)
  replace e put d a h := ⟨d, (Except.ok.inj h).symm, rfl⟩

/-- An expression taken for a pattern is seen as it was. -/
theorem tree_toReplacedPattern {e : Expr} {p : Pattern} (h : e.toReplacedPattern = .ok p) :
    p.tree = e.tree := by
  unfold Expr.toReplacedPattern at h
  split at h
  · cases h
    rfl
  · split at h <;> cases h
    rfl
  · cases h

theorem tree_toReplacedName {e : Expr} {i : Ident} (h : e.toReplacedName = .ok i) :
    i.tree = e.tree := by
  unfold Expr.toReplacedName at h
  split at h
  · cases h
    rfl
  · cases h

instance : Refills (@atPattern α) Pattern.tree where
  put p put k h := by
    cases p with
    | target e =>
      change (Node.ofExpr e).Resembles k at h
      refine ⟨.target (k.toExpr?.getD e), rfl, ?_⟩
      cases e <;> obtain h | _ := h <;> first | rfl | (cases h; rfl)
    | _ =>
      obtain h | _ := h
      cases h
      exact ⟨_, rfl, rfl⟩
  replace p put e a h := by
    change e.toReplacedPattern.map put = .ok a at h
    cases hp : e.toReplacedPattern with
    | ok q =>
      rw [hp] at h
      exact ⟨q, (Except.ok.inj h).symm, tree_toReplacedPattern hp⟩
    | error cause =>
      rw [hp] at h
      cases h

instance : Refills (@atIdent α) Ident.tree where
  put i put k h := by
    have hnode : ∀ e, (atIdent i put).node ≠ .expr e := by
      intro e he
      cases he
    obtain ⟨y, hput, hy, -⟩ := Takes.put i put (h.alters hnode)
    exact ⟨y, hput, hy⟩
  replace i put e a h := by
    change e.toReplacedName.map put = .ok a at h
    cases hi : e.toReplacedName with
    | ok j =>
      rw [hi] at h
      exact ⟨j, (Except.ok.inj h).symm, tree_toReplacedName hi⟩
    | error cause =>
      rw [hi] at h
      cases h

/-- No expression stands in the place of a construct that is always a node of its own type, and none
can be put there. -/
theorem refills_of_takes {slot : β → (β → α) → Slot α} {f : β → Tree} {mark : β → Bool}
    [Takes slot f mark] (hnode : ∀ x put e, (slot x put).node ≠ .expr e)
    (hreplace : ∀ x put e, ∃ cause, (slot x put).replace e = .error cause) : Refills slot f where
  put x put k h := by
    obtain ⟨y, hput, hy, -⟩ := Takes.put x put (h.alters (hnode x put))
    exact ⟨y, hput, hy⟩
  replace x put e a h := by
    obtain ⟨cause, hcause⟩ := hreplace x put e
    rw [hcause] at h
    cases h

instance : Refills (@atBlock α) Block.tree :=
  refills_of_takes (fun _ _ _ h => by cases h) fun _ _ _ => ⟨_, rfl⟩

instance : Refills (@atVarDecl α) VarDecl.tree :=
  refills_of_takes (fun _ _ _ h => by cases h) fun _ _ _ => ⟨_, rfl⟩

instance : Refills (@atDeclarator α) VarDeclarator.tree :=
  refills_of_takes (fun _ _ _ h => by cases h) fun _ _ _ => ⟨_, rfl⟩

instance : Refills (@atFunction α) (Func.tree .functionDeclaration) :=
  refills_of_takes (fun _ _ _ h => by cases h) fun _ _ _ => ⟨_, rfl⟩

instance : Refills (@atClass α) (Class.tree .classDeclaration) :=
  refills_of_takes (fun _ _ _ h => by cases h) fun _ _ _ => ⟨_, rfl⟩

instance : Refills (@atClassBody α) ClassBody.tree :=
  refills_of_takes (fun _ _ _ h => by cases h) fun _ _ _ => ⟨_, rfl⟩

instance : Refills (@atClassMember α) ClassMember.tree :=
  refills_of_takes (fun _ _ _ h => by cases h) fun _ _ _ => ⟨_, rfl⟩

instance : Refills (@atSwitchCase α) SwitchCase.tree :=
  refills_of_takes (fun _ _ _ h => by cases h) fun _ _ _ => ⟨_, rfl⟩

instance : Refills (@atCatchClause α) CatchClause.tree :=
  refills_of_takes (fun _ _ _ h => by cases h) fun _ _ _ => ⟨_, rfl⟩

instance : Refills (@atImportSpecifier α) ImportSpecifier.tree :=
  refills_of_takes (fun _ _ _ h => by cases h) fun _ _ _ => ⟨_, rfl⟩

instance : Refills (@atExportSpecifier α) ExportSpecifier.tree :=
  refills_of_takes (fun _ _ _ h => by cases h) fun _ _ _ => ⟨_, rfl⟩

instance : Refills (@atTemplate α) Template.tree :=
  refills_of_takes (fun _ _ _ h => by cases h) fun _ _ _ => ⟨_, rfl⟩

instance : Refills (@atTemplateElement α) TemplateElement.tree :=
  refills_of_takes (fun _ _ _ h => by cases h) fun _ _ _ => ⟨_, rfl⟩

instance : Refills (@atProperty α) Property.tree :=
  refills_of_takes (fun _ _ _ h => by cases h) fun _ _ _ => ⟨_, rfl⟩

instance : Refills (@atPatternProperty α) PatternProperty.tree :=
  refills_of_takes (fun _ _ _ h => by cases h) fun _ _ _ => ⟨_, rfl⟩

/-! A place of one of several constructs is a place of the one that stands there. -/

section

variable (slot : β → (β → α) → Slot α) {f : β → Tree} [Refills slot f] (wrap : β → γ)
  {outer : γ → (γ → α) → Slot α} {g : γ → Tree} {x : β} {put : γ → α}

/-- A slot around another one takes what the inner one takes. -/
theorem put_wrap (houter : ∀ put, outer (wrap x) put = slot x (put ∘ wrap))
    (hread : ∀ y, g (wrap y) = f y) {k : Node} (h : (outer (wrap x) put).node.Resembles k) :
    ∃ y, (outer (wrap x) put).put k = put y ∧ g y = k.tree := by
  rw [houter] at h ⊢
  obtain ⟨y, hput, hy⟩ := Refills.put x (put ∘ wrap) h
  exact ⟨wrap y, hput, (hread y).trans hy⟩

/-- And it is replaced as the inner one is. -/
theorem replace_wrap (houter : ∀ put, outer (wrap x) put = slot x (put ∘ wrap))
    (hread : ∀ y, g (wrap y) = f y) {e : Expr} {a : α}
    (h : (outer (wrap x) put).replace e = .ok a) :
    ∃ y, a = put y ∧ g y = (outer (wrap x) put).kind.placed e := by
  rw [houter] at h ⊢
  obtain ⟨y, hput, hy⟩ := Refills.replace x (put ∘ wrap) h
  exact ⟨wrap y, hput, (hread y).trans hy⟩

end

instance : Refills (@atKey α) PropertyKey.tree where
  put key put k h := by
    cases key with
    | ident i => exact put_wrap atIdent PropertyKey.ident (fun _ => rfl) (fun _ => rfl) h
    | literal e => exact put_wrap atExpr PropertyKey.literal (fun _ => rfl) (fun _ => rfl) h
    | computed e => exact put_wrap atExpr PropertyKey.computed (fun _ => rfl) (fun _ => rfl) h
  replace key put e a h := by
    cases key with
    | ident i => exact replace_wrap atIdent PropertyKey.ident (fun _ => rfl) (fun _ => rfl) h
    | literal e => exact replace_wrap atExpr PropertyKey.literal (fun _ => rfl) (fun _ => rfl) h
    | computed e => exact replace_wrap atExpr PropertyKey.computed (fun _ => rfl) (fun _ => rfl) h

instance : Refills (@MemberName.slot α) MemberName.tree where
  put name put k h := by
    cases name with
    | ident i => exact put_wrap atIdent MemberName.ident (fun _ => rfl) (fun _ => rfl) h
    | computed e => exact put_wrap atExpr MemberName.computed (fun _ => rfl) (fun _ => rfl) h
  replace name put e a h := by
    cases name with
    | ident i => exact replace_wrap atIdent MemberName.ident (fun _ => rfl) (fun _ => rfl) h
    | computed e => exact replace_wrap atExpr MemberName.computed (fun _ => rfl) (fun _ => rfl) h

instance : Refills (@ForInit.slot α) ForInit.tree where
  put init put k h := by
    cases init with
    | decl d => exact put_wrap atVarDecl ForInit.decl (fun _ => rfl) (fun _ => rfl) h
    | expr e => exact put_wrap atExpr ForInit.expr (fun _ => rfl) (fun _ => rfl) h
  replace init put e a h := by
    cases init with
    | decl d => exact replace_wrap atVarDecl ForInit.decl (fun _ => rfl) (fun _ => rfl) h
    | expr e => exact replace_wrap atExpr ForInit.expr (fun _ => rfl) (fun _ => rfl) h

instance : Refills (@ForHead.slot α) ForHead.tree where
  put head put k h := by
    cases head with
    | decl d => exact put_wrap atVarDecl ForHead.decl (fun _ => rfl) (fun _ => rfl) h
    | pattern p => exact put_wrap atPattern ForHead.pattern (fun _ => rfl) (fun _ => rfl) h
  replace head put e a h := by
    cases head with
    | decl d => exact replace_wrap atVarDecl ForHead.decl (fun _ => rfl) (fun _ => rfl) h
    | pattern p => exact replace_wrap atPattern ForHead.pattern (fun _ => rfl) (fun _ => rfl) h

instance : Refills (@ArrowBody.slot α) ArrowBody.tree where
  put body put k h := by
    cases body with
    | expr e => exact put_wrap atExpr ArrowBody.expr (fun _ => rfl) (fun _ => rfl) h
    | block b => exact put_wrap atBlock ArrowBody.block (fun _ => rfl) (fun _ => rfl) h
  replace body put e a h := by
    cases body with
    | expr e => exact replace_wrap atExpr ArrowBody.expr (fun _ => rfl) (fun _ => rfl) h
    | block b => exact replace_wrap atBlock ArrowBody.block (fun _ => rfl) (fun _ => rfl) h

instance : Refills (@ExportDefault.slot α) ExportDefault.tree where
  put declaration put k h := by
    cases declaration with
    | function f => exact put_wrap atFunction ExportDefault.function (fun _ => rfl) (fun _ => rfl) h
    | classDecl c => exact put_wrap atClass ExportDefault.classDecl (fun _ => rfl) (fun _ => rfl) h
    | expr e => exact put_wrap atExpr ExportDefault.expr (fun _ => rfl) (fun _ => rfl) h
  replace declaration put e a h := by
    cases declaration with
    | function f =>
      exact replace_wrap atFunction ExportDefault.function (fun _ => rfl) (fun _ => rfl) h
    | classDecl c =>
      exact replace_wrap atClass ExportDefault.classDecl (fun _ => rfl) (fun _ => rfl) h
    | expr e => exact replace_wrap atExpr ExportDefault.expr (fun _ => rfl) (fun _ => rfl) h

/-- What becomes of a node when a node is put into one of its places, or an expression: a node like
it, which has the children that an edit of one field gives it. -/
structure Grafts (n : Node) (field : Tree → TreeField) (slot : Slot Node) : Prop where
  put : ∀ k, slot.node.Resembles k →
    n.Resembles (slot.put k) ∧
      (slot.put k).tree.children = (n.tree.setField (field k.tree)).children
  replace : ∀ e n', slot.replace e = .ok n' →
    n.Resembles n' ∧ n'.tree.children = (n.tree.setField (field (slot.kind.placed e))).children

/-- A slot that can be refilled grafts into its field. -/
theorem grafts_of_refills {slot : β → (β → Node) → Slot Node} {f : β → Tree} [Refills slot f]
    {n : Node} {field : Tree → TreeField} (x : β) (put : β → Node)
    (h : ∀ y, n.Resembles (put y) ∧
      (put y).tree.children = (n.tree.setField (field (f y))).children) :
    Slot.Grafts n field (slot x put) where
  put k hk := by
    obtain ⟨y, hput, hy⟩ := Refills.put x put hk
    rw [hput, ← hy]
    exact h y
  replace e n' he := by
    obtain ⟨y, rfl, hy⟩ := Refills.replace x put he
    rw [← hy]
    exact h y

end Slot

/-! ### Fields -/

/-- A field of a node is found by its name. -/
theorem Node.field?_of_mem {n : Node} {name : String} {field : Field Node}
    (h : (name, field) ∈ n.fields) : n.field? name = some field := by
  have hnodup := n.nodup_names
  unfold field?
  generalize n.fields = fields at h hnodup
  induction fields with
  | nil => cases h
  | cons first rest ih =>
    obtain ⟨hfirst, hrest⟩ := List.nodup_cons.mp hnodup
    rcases List.mem_cons.mp h with rfl | hmem
    · simp
    · have hne : first.1 ≠ name := by
        intro heq
        refine hfirst (show first.1 ∈ _ from ?_)
        rw [heq]
        exact List.mem_map_of_mem hmem
      rw [List.find?_cons_of_neg (by simpa using hne)]
      exact ih hmem hrest

namespace Field

open Slot Items

/-- What is put into a place of this field of a node changes no other child of the node. -/
def Grafts (n : Node) (field : String × Field Node) : Prop :=
  match field with
  | (name, .child slot) => Slot.Grafts n (.child name) slot
  | (name, .list items) =>
    ∀ i slot, items.slots[i]? = some slot →
      Slot.Grafts n (fun c => .list name ((items.slots.map (·.node.tree)).set i c)) slot
  | _ => True

section

variable {n : Node} (name : String) {β : Type} {slot : β → (β → Node) → Slot Node} {f : β → Tree}
  [Refills slot f]

/-- A single child grafts. -/
theorem grafts_one (x : β) (put : β → Node)
    (h : ∀ y, n.Resembles (put y) ∧
      (put y).tree.children = (n.tree.setField (.child name (f y))).children) :
    Grafts n (one name (slot x put)) :=
  grafts_of_refills x put h

/-- So does a child that may be absent. -/
theorem grafts_optional (x? : Option β) (put : Option β → Node)
    (h : ∀ y, n.Resembles (put (some y)) ∧
      (put (some y)).tree.children = (n.tree.setField (.child name (f y))).children) :
    Grafts n (optional name slot x? put) := by
  cases x? with
  | none => trivial
  | some x => exact grafts_one name x (put ∘ some) h

variable [Shows slot f]

/-- The places in a list are those of its elements. -/
theorem grafts_many {xs : List β} {put : List β → Node} {items : Items Node}
    (hitems : items.slots = (ofList slot xs put).slots)
    (h : ∀ ys, n.Resembles (put ys) ∧
      (put ys).tree.children = (n.tree.setField (.list name (ys.map f))).children) :
    Grafts n (many name items) := by
  intro i s hs
  have htrees : items.slots.map (·.node.tree) = xs.map f := by
    have hseen : seen (many name (ofList slot xs put)) = .list name (xs.map f) :=
      seen_many_ofList name xs put
    rw [hitems]
    simpa only [many, seen, TreeField.list.injEq, true_and] using hseen
  rw [htrees]
  rw [hitems, ofList, List.getElem?_map, List.getElem?_zipIdx, Nat.zero_add, Option.map_map,
    Option.map_eq_some_iff] at hs
  obtain ⟨x, hx, rfl⟩ := hs
  refine grafts_of_refills x (put ∘ xs.set i) fun y => ?_
  rw [← List.map_set]
  exact h (xs.set i y)

/-- A list of nodes grafts item by item. -/
theorem grafts_many_ofList (xs : List β) (put : List β → Node)
    (h : ∀ ys, n.Resembles (put ys) ∧
      (put ys).tree.children = (n.tree.setField (.list name (ys.map f))).children) :
    Grafts n (many name (ofList slot xs put)) :=
  grafts_many name rfl h

theorem grafts_many_ofParts (xs : List β) (put : List β → Node)
    (h : ∀ ys, n.Resembles (put ys) ∧
      (put ys).tree.children = (n.tree.setField (.list name (ys.map f))).children) :
    Grafts n (many name (ofParts slot xs put)) :=
  grafts_many name rfl h

/-- Filling a place again in a list with holes moves no hole. -/
theorem grafts_many_ofHoles (xs : List (Option β)) (put : List (Option β) → Node)
    (h : ∀ ys, n.Resembles (put ys) ∧
      (put ys).tree.children = (n.tree.setField (.list name ((ys.filterMap id).map f))).children) :
    Grafts n (many name (ofHoles slot xs put)) := by
  intro k s hs
  have htrees : (ofHoles slot xs put).slots.map (·.node.tree) = (xs.filterMap id).map f := by
    have hseen : seen (many name (ofHoles slot xs put)) = .list name ((xs.filterMap id).map f) :=
      seen_many_ofHoles name xs put
    simpa only [many, seen, TreeField.list.injEq, true_and] using hseen
  rw [htrees]
  simp only [ofHoles, List.getElem?_map, Option.map_eq_some_iff] at hs
  obtain ⟨⟨x, i⟩, hx, rfl⟩ := hs
  obtain ⟨j, hj, -, hset, -⟩ := getElem?_present hx
  obtain rfl : i = j := by omega
  refine grafts_of_refills x (fun y => put (xs.set i (some y))) fun y => ?_
  rw [← List.map_set, ← hset]
  exact h (xs.set i (some y))

end

theorem grafts_of_mem_ite {n : Node} (name : String) {c : Prop} [Decidable c] (value : Bool) :
    ∀ field ∈ (if c then [fixedFlag name value] else []), Grafts n field := by
  intro field hmem
  split at hmem
  · obtain rfl := List.mem_singleton.mp hmem
    trivial
  · cases hmem

end Field

/-! ### Nodes -/

theorem Func.fields_eq_list (f : Func) :
    f.fields =
      [.flag "generator" f.isGenerator, .flag "async" f.isAsync,
        .list "params" (f.params.map Pattern.tree), .child "body" f.body.tree] := by
  cases f
  simp only [fields, patternTrees_eq_map]

/-- A flag is no child. -/
@[simp] theorem TreeField.children_flag (name : String) (value : Bool) :
    (flag name value).children = [] := rfl

namespace Node

open Slot Items Field

/-- What is put into a place of an expression changes no other child of it, though an object or
callee decides whether the expression is part of an optional chain. -/
theorem grafts_expr (e : Expr) (h : ofExpr e = expr e) :
    ∀ field ∈ (expr e).fields, Grafts (expr e) field := by
  cases e with
  | template | ident | function | arrow | classExpr => simp [ofExpr] at h
  | member s o p isOptional =>
    simp only [fields, Expr.nodeFields, List.forall_mem_append, List.forall_mem_cons]
    refine ⟨⟨grafts_one _ _ _ fun y => ⟨.expr _ _ rfl, ?_⟩, trivial,
      grafts_one _ _ _ fun y => ⟨.expr _ _ rfl, ?_⟩, List.forall_mem_nil _⟩, grafts_of_mem_ite _ _⟩
    · simp only [tree, Expr.tree]
      split <;> split <;> simp [Tree.setField, Tree.children]
    · simp only [tree, Expr.tree]
      split <;> simp [Tree.setField, Tree.children]
  | call s f args isOptional =>
    simp only [fields, Expr.nodeFields, List.forall_mem_append, List.forall_mem_cons]
    refine ⟨⟨grafts_one _ _ _ fun y => ⟨.expr _ _ rfl, ?_⟩,
      grafts_many_ofList _ _ _ fun ys => ⟨.expr _ _ rfl, ?_⟩, List.forall_mem_nil _⟩,
      grafts_of_mem_ite _ _⟩
    · simp only [tree, Expr.tree]
      split <;> split <;> simp [Tree.setField, Tree.children]
    · simp only [tree, Expr.tree]
      split <;> simp [Tree.setField, Tree.children, exprTrees_eq_map]
  | _ =>
    simp only [fields, Expr.nodeFields, List.forall_mem_cons, List.not_mem_nil, false_imp_iff,
      implies_true, and_true]
    repeat' first
      | exact trivial
      | refine grafts_one _ _ _ fun _ => ⟨.expr _ _ rfl, ?_⟩
      | refine grafts_optional _ _ _ fun _ => ⟨.expr _ _ rfl, ?_⟩
      | refine grafts_many_ofList _ _ _ fun _ => ⟨.expr _ _ rfl, ?_⟩
      | refine grafts_many_ofHoles _ _ _ fun _ => ⟨.expr _ _ rfl, ?_⟩
      | refine And.intro ?_ ?_
    all_goals
      simp [tree, Expr.tree, Tree.setField, exprTrees_eq_map, optionalExprTrees_eq_map,
        propertyTrees_eq_map, optionalExprField_eq]

theorem grafts_stmt (s : Stmt) (h : ofStmt s = stmt s) :
    ∀ field ∈ (stmt s).fields, Grafts (stmt s) field := by
  cases s with
  | var | function | classDecl | block => simp [ofStmt] at h
  | _ =>
    simp only [fields, Stmt.nodeFields, List.forall_mem_cons, List.not_mem_nil, false_imp_iff,
      implies_true, and_true]
    repeat' first
      | exact trivial
      | refine grafts_one _ _ _ fun _ => ⟨.of_alters (.stmt _ _ rfl), ?_⟩
      | refine grafts_optional _ _ _ fun _ => ⟨.of_alters (.stmt _ _ rfl), ?_⟩
      | refine grafts_many_ofList _ _ _ fun _ => ⟨.of_alters (.stmt _ _ rfl), ?_⟩
      | refine And.intro ?_ ?_
    all_goals
      simp [tree, Stmt.tree, Tree.setField, optionalExprField_eq, optionalStmtField_eq,
        forInitField_eq, handlerField_eq, finalizerField_eq, switchCaseTrees_eq_map]

theorem grafts_pattern (p : Pattern) (h : ofPattern p = pattern p) :
    ∀ field ∈ (pattern p).fields, Grafts (pattern p) field := by
  cases p with
  | ident => simp [ofPattern] at h
  | target e => cases e <;> simp [ofPattern, ofExpr] at h
  | _ =>
    simp only [fields, Pattern.nodeFields, List.forall_mem_cons, List.not_mem_nil, false_imp_iff,
      implies_true, and_true]
    repeat' first
      | refine grafts_one _ _ _ fun _ => ⟨.of_alters (.pattern _ _ rfl), ?_⟩
      | refine grafts_many_ofList _ _ _ fun _ => ⟨.of_alters (.pattern _ _ rfl), ?_⟩
      | refine grafts_many_ofHoles _ _ _ fun _ => ⟨.of_alters (.pattern _ _ rfl), ?_⟩
      | refine And.intro ?_ ?_
    all_goals
      simp [tree, Pattern.tree, Tree.setField, optionalPatternTrees_eq_map,
        patternPropertyTrees_eq_map]

/-- What is put into a place of a node changes no other child of it. A key that is put in place of
another one may change a flag of the property, and an object or callee that of the chain. -/
theorem grafts_of_mem_fields (n : Node) (h : n.IsProper) : ∀ field ∈ n.fields, Grafts n field := by
  cases n with
  | stmt s => exact grafts_stmt s h
  | expr e => exact grafts_expr e h
  | pattern p => exact grafts_pattern p h
  | template t =>
    obtain ⟨quasis, es, s⟩ := t
    simp only [fields, List.forall_mem_cons]
    refine ⟨grafts_many_ofParts _ _ _ fun _ => ⟨.of_alters (.template _ _), ?_⟩,
      grafts_many_ofParts _ _ _ fun _ => ⟨.of_alters (.template _ _), ?_⟩, List.forall_mem_nil _⟩
    all_goals simp [tree, Template.tree, Tree.setField, exprTrees_eq_map]
  | catchClause c =>
    obtain ⟨param, body, s⟩ := c
    simp only [fields, List.forall_mem_cons]
    refine ⟨grafts_optional _ _ _ fun _ => ⟨.of_alters (.catchClause _ _), ?_⟩,
      grafts_one _ _ _ fun _ => ⟨.of_alters (.catchClause _ _), ?_⟩, List.forall_mem_nil _⟩
    all_goals cases param <;> simp [tree, CatchClause.tree, Tree.setField]
  | classMember part | property part | patternProperty part | importSpecifier part =>
    cases part <;>
      simp only [fields, ClassMember.nodeFields, Property.nodeFields, PatternProperty.nodeFields,
        ImportSpecifier.nodeFields, Func.nodeFields, List.forall_mem_append, List.forall_mem_cons,
        List.not_mem_nil, false_imp_iff, implies_true, and_true]
    all_goals
      repeat' first
        | exact trivial
        | refine grafts_one _ _ _ fun _ => ⟨.of_alters (by constructor), ?_⟩
        | refine grafts_optional _ _ _ fun _ => ⟨.of_alters (by constructor), ?_⟩
        | refine grafts_many_ofList _ _ _ fun _ => ⟨.of_alters (by constructor), ?_⟩
        | refine And.intro ?_ ?_
    all_goals
      simp [tree, ClassMember.tree, Property.tree, PatternProperty.tree, ImportSpecifier.tree,
        Func.fields_eq_list, Tree.setField, Tree.children, optionalExprField_eq]
  -- an expression or a declaration: the type differs, the fields do not
  | function part standing | classDef part standing =>
    cases part
    simp only [fields, Func.nodeFields, List.forall_mem_cons]
    repeat' first
      | exact trivial
      | refine grafts_one _ _ _ fun _ => ⟨.of_alters (by constructor), ?_⟩
      | refine grafts_optional _ _ _ fun _ => ⟨.of_alters (by constructor), ?_⟩
      | refine grafts_many_ofList _ _ _ fun _ => ⟨.of_alters (by constructor), ?_⟩
      | exact List.forall_mem_nil _
      | refine And.intro ?_ ?_
    all_goals
      cases standing <;>
        simp [tree, Func.tree, Class.tree, Tree.setField, optionalExprField_eq,
          patternTrees_eq_map]
  | program part | block part | varDecl part | declarator part | arrow part | classBody part
  | switchCase part | exportSpecifier part | templateElement part | ident part =>
    cases part
    simp only [fields, List.forall_mem_cons]
    repeat' first
      | exact trivial
      | refine grafts_one _ _ _ fun _ => ⟨.of_alters (by constructor), ?_⟩
      | refine grafts_optional _ _ _ fun _ => ⟨.of_alters (by constructor), ?_⟩
      | refine grafts_many_ofList _ _ _ fun _ => ⟨.of_alters (by constructor), ?_⟩
      | exact List.forall_mem_nil _
      | refine And.intro ?_ ?_
    all_goals
      simp [tree, Program.tree, Block.tree, VarDecl.tree, VarDeclarator.tree, Arrow.tree,
        ClassBody.tree, SwitchCase.tree, ExportSpecifier.tree, Tree.setField,
        optionalExprField_eq, stmtTrees_eq_map, declaratorTrees_eq_map, patternTrees_eq_map,
        memberTrees_eq_map]

/-! ### Replacements at the end of a path -/

/-- What a place that a step leads to does to the node that has it. -/
theorem exists_grafts_of_slot? {n : Node} (h : n.IsProper) {step : Step} {slot : Slot Node}
    (hslot : n.slot? step = some slot) :
    ∃ field, Slot.Grafts n field slot ∧
      ∀ c, n.tree.setField (field c) = n.tree.setChild step c := by
  obtain ⟨name, index⟩ := step
  unfold slot? at hslot
  cases hfield : n.field? name with
  | none => simp [hfield] at hslot
  | some field =>
    obtain ⟨⟨name', field'⟩, hfind, rfl⟩ := Option.map_eq_some_iff.mp hfield
    obtain rfl : name' = name := by simpa using List.find?_some hfind
    -- the field that holds the slot says how it grafts
    have hgrafts := n.grafts_of_mem_fields h _ (List.mem_of_find?_eq_some hfind)
    have htree : n.tree.field? name' = some (seen (name', field')) := by
      rw [field?_tree h, hfind]
      rfl
    dsimp only at hslot hfield
    rw [hfield] at hslot
    cases field' with
    | value | fixed | absent => cases hslot
    | child s =>
      cases index with
      | some i => cases hslot
      | none =>
        cases hslot
        refine ⟨_, hgrafts, fun c => ?_⟩
        rw [Tree.setChild, htree]
        rfl
    | list items =>
      cases index with
      | none => cases hslot
      | some i =>
        refine ⟨_, hgrafts i slot hslot, fun c => ?_⟩
        rw [Tree.setChild, htree]
        rfl

/-- A node that has the children of another one with one of them changed: each step but the one to
that child leads where it led. -/
theorem child?_of_children_eq {n n' : Node} (h : n.IsProper) (h' : n'.IsProper) {step : Step}
    {c d : Tree} (hd : n.tree.child? step = some d)
    (hchildren : n'.tree.children = (n.tree.setChild step c).children) (other : Step) :
    n'.tree.child? other = if other = step then some c else n.tree.child? other := by
  have hnodup := nodup_names_tree h
  rw [← Tree.names_setChild n.tree step c] at hnodup
  rw [← Tree.child?_setChild hd]
  ext d
  rw [Tree.child?_eq_some_iff (nodup_names_tree h'), Tree.child?_eq_some_iff hnodup, hchildren]

/-- Another node has been put where a step leads, and the node above it is one like it: each other
step leads where it led. -/
structure Regrows (n : Node) (step : Step) (c : Tree) (n' : Node) : Prop where
  resembles : n.Resembles n'
  child?_eq : ∀ other,
    n'.tree.child? other = if other = step then some c else n.tree.child? other

theorem regrows_of_children_eq {n n' : Node} (h : n.IsProper) (hlike : n.Resembles n') {step : Step}
    {c d : Tree} (hd : n.tree.child? step = some d)
    (hchildren : n'.tree.children = (n.tree.setChild step c).children) : n.Regrows step c n' :=
  ⟨hlike, child?_of_children_eq h hlike.isProper hd hchildren⟩

/-- A replacement at the end of a path renews the nodes on the way from below: first the one above
the place, then each one above a node that has been renewed. -/
theorem replace_induction {e : Expr} {motive : Node → List Step → SlotKind → Node → Prop}
    (here : ∀ {n n' m : Node} {step : Step} {kind : SlotKind}, n.tree.child? step = some m.tree →
      n.Regrows step (kind.placed e) n' → motive n [step] kind n')
    (above : ∀ {n n' m m' : Node} {step : Step} {path : List Step} {kind : SlotKind},
      n.tree.child? step = some m.tree → n.Regrows step m'.tree n' → motive m path kind m' →
      motive n (step :: path) kind n')
    {n n' : Node} (h : n.IsProper) {path : List Step} {slot : Slot Node}
    (hslot : n.slotAt? path = some slot) (he : slot.replace e = .ok n') :
    n.Resembles n' ∧ motive n path slot.kind n' := by
  induction path generalizing n n' slot with
  | nil => cases hslot
  | cons step path ih =>
    cases hs : n.slot? step with
    | none => cases path <;> simp [slotAt?, hs] at hslot
    | some first =>
      have hchild : n.tree.child? step = some first.node.tree := by
        rw [← map_slot?_eq_child? h, hs]
        rfl
      obtain ⟨field, hgrafts, hfield⟩ := exists_grafts_of_slot? h hs
      cases path with
      | nil =>
        obtain rfl : first = slot := by simpa [slotAt?, hs] using hslot
        obtain ⟨hlike, hchildren⟩ := hgrafts.replace e n' he
        rw [hfield] at hchildren
        exact ⟨hlike, here hchild (regrows_of_children_eq h hlike hchild hchildren)⟩
      | cons next path =>
        have hsplit : (first.node.slotAt? (next :: path)).map (·.map first.put) = some slot := by
          simpa [slotAt?, hs, Option.map_eq_bind, Function.comp_def] using hslot
        obtain ⟨inner, hinner, rfl⟩ := Option.map_eq_some_iff.mp hsplit
        change (inner.replace e).map first.put = .ok n' at he
        cases hk : inner.replace e with
        | error cause =>
          rw [hk] at he
          cases he
        | ok k =>
          rw [hk] at he
          cases he
          -- what becomes of the node below is put back where the first step leads
          obtain ⟨hbelow, hmotive⟩ := ih (isProper_of_slot? hs) hinner hk
          obtain ⟨hlike, hchildren⟩ := hgrafts.put k hbelow
          rw [hfield] at hchildren
          exact ⟨hlike, above hchild (regrows_of_children_eq h hlike hchild hchildren) hmotive⟩

/-- A replacement at the end of a path leaves the node where the path starts as it is, in kind, and
puts the expression where the path leads. -/
theorem grafted_of_replace {n n' : Node} (h : n.IsProper) {path : List Step} {slot : Slot Node}
    (hslot : n.slotAt? path = some slot) {e : Expr} (he : slot.replace e = .ok n') :
    n.Resembles n' ∧ n.tree.Grafted path (slot.kind.placed e) n'.tree := by
  refine replace_induction (motive := fun n path kind n' =>
    n.tree.Grafted path (kind.placed e) n'.tree) ?_ ?_ h hslot he
  · intro n n' m step kind hchild hgrown
    exact ⟨_, _, hchild, rfl, hgrown.child?_eq⟩
  · intro n n' m m' step path kind hchild hgrown hgraft
    exact ⟨_, _, hchild, hgraft, hgrown.child?_eq⟩

end Node

namespace Program

/-- An expression is put in a place of the program, and what comes of it is read as the program. -/
theorem exists_of_replaceAt? {p p' : Program} {path : List Step} {e : Expr}
    (h : p.replaceAt? path e = some (.ok p')) :
    ∃ slot k, (Node.program p).slotAt? path = some slot ∧ slot.replace e = .ok k ∧
      p'.tree = k.tree := by
  obtain ⟨slot, hslot, he⟩ := Option.map_eq_some_iff.mp h
  obtain ⟨whole, hwhole, rfl⟩ := Option.map_eq_some_iff.mp hslot
  change (whole.replace e).map (Node.asProgram p) = .ok p' at he
  cases hk : whole.replace e with
  | error cause =>
    rw [hk] at he
    cases he
  | ok k =>
    rw [hk] at he
    cases he
    have hroot : (Node.program p).IsProper := trivial
    obtain ⟨hlike, -⟩ := Node.grafted_of_replace hroot hwhole hk
    exact ⟨whole, k, hwhole, hk, tree_asProgram (hlike.alters fun e he => by cases he)⟩

/-- **An expression is put in place of a node of a program.** It is read there afterwards, and where
no step leads to that place or through it, nothing else is read than before. -/
theorem grafted_replaceAt? {p p' : Program} {path : List Step} {e : Expr}
    (h : p.replaceAt? path e = some (.ok p')) :
    ∃ slot, p.slotAt? path = some slot ∧ p.tree.Grafted path (slot.kind.placed e) p'.tree := by
  obtain ⟨whole, k, hwhole, hk, htree⟩ := exists_of_replaceAt? h
  have hroot : (Node.program p).IsProper := trivial
  refine ⟨whole.map (·.asProgram p), ?_, ?_⟩
  · rw [slotAt?, hwhole]
    rfl
  · rw [htree]
    exact (Node.grafted_of_replace hroot hwhole hk).2

/-- What is replaced can be found again: the path leads to a node. -/
theorem isSome_nodeAt?_of_replaceAt? {p p' : Program} {path : List Step} {e : Expr}
    (h : p.replaceAt? path e = some (.ok p')) : (p'.nodeAt? path).isSome := by
  obtain ⟨slot, -, hgraft⟩ := grafted_replaceAt? h
  have hread := hgraft.descend?_self
  rw [← map_nodeAt?_eq_descend?] at hread
  obtain ⟨n, hn, -⟩ := Option.map_eq_some_iff.mp hread
  rw [hn]
  rfl

end Program

end Espalier
