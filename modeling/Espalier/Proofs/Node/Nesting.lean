import Espalier.Grammar.Function
import Espalier.Proofs.Node.View
import Espalier.Proofs.Source.Cursor
import Mathlib.Logic.Relation

/-!
# Nodes inside nodes

A node fits between two places of a source if its span lies there, between borders of characters,
and all that is below it fits into its span in the same way. Only the pieces of templates may have
no text at all, and even these start before the end of the template. A path leads down from a node,
from child to child. `nodes` lists, for everything that is read from a source, the nodes that it is
or holds.
-/

namespace Espalier

/-! ### The nodes right below a node -/

namespace TreeField

/-- The nodes in a field. -/
def nodes (f : TreeField) : List Tree := f.children.map Prod.snd

@[simp] theorem nodes_value (name : String) (scalar : Scalar) : (value name scalar).nodes = [] :=
  rfl

@[simp] theorem nodes_text (name value : String) : (text name value).nodes = [] := rfl

@[simp] theorem nodes_flag (name : String) (value : Bool) : (flag name value).nodes = [] := rfl

@[simp] theorem nodes_absent (name : String) : (absent name).nodes = [] := rfl

@[simp] theorem nodes_child (name : String) (t : Tree) : (child name t).nodes = [t] := rfl

@[simp] theorem nodes_list (name : String) (ts : List Tree) : (list name ts).nodes = ts := by
  have hsnd : Prod.snd ∘ (fun x : Tree × Nat => ((⟨name, some x.2⟩ : Step), x.1)) = Prod.fst := rfl
  show (ts.zipIdx.map _).map Prod.snd = ts
  rw [List.map_map, hsnd, List.zipIdx_map_fst]

end TreeField

namespace Tree

/-- The nodes right below a node. -/
def parts (t : Tree) : List Tree := t.fields.flatMap TreeField.nodes

/-- A child is a part. -/
theorem mem_parts {t c : Tree} {step : Step} (h : (step, c) ∈ t.children) : c ∈ t.parts := by
  obtain ⟨f, hf, hc⟩ := List.mem_flatMap.mp h
  exact List.mem_flatMap.mpr ⟨f, hf, List.mem_map.mpr ⟨(step, c), hc, rfl⟩⟩

/-! ### Fitting between two places -/

/-- The span of a node lies between two places of a source and starts before the second one. -/
structure LiesIn (cs : List Char) (lo hi : Nat) (t : Tree) : Prop where
  le_start : lo ≤ t.span.start
  start_le : t.span.start ≤ t.span.stop
  stop_le : t.span.stop ≤ hi
  start_lt : t.span.start < hi
  solid : t.type ≠ .templateElement → t.span.start < t.span.stop
  isBorder_start : IsBorder cs t.span.start
  isBorder_stop : IsBorder cs t.span.stop

/-- A node and all that is below it, each inside the one that it is below. -/
inductive Fits (cs : List Char) : Nat → Nat → Tree → Prop
  | intro {lo hi : Nat} {t : Tree} (lies : t.LiesIn cs lo hi)
      (parts : ∀ c ∈ t.parts, Fits cs t.span.start t.span.stop c) : Fits cs lo hi t

namespace Fits

variable {cs : List Char} {lo hi : Nat} {t : Tree}

/-- What fits lies inside. -/
theorem lies (h : t.Fits cs lo hi) : t.LiesIn cs lo hi := by
  cases h with
  | intro lies parts => exact lies

theorem parts (h : t.Fits cs lo hi) : ∀ c ∈ t.parts, c.Fits cs t.span.start t.span.stop := by
  cases h with
  | intro lies parts => exact parts

/-- What fits between two places fits between any that lie farther apart. -/
theorem widen {lo' hi' : Nat} (h : t.Fits cs lo hi) (hlo : lo' ≤ lo) (hhi : hi ≤ hi') :
    t.Fits cs lo' hi' := by
  have hl := h.lies
  refine .intro ⟨?_, hl.start_le, ?_, ?_, hl.solid, hl.isBorder_start, hl.isBorder_stop⟩ h.parts
  · exact Nat.le_trans hlo hl.le_start
  · exact Nat.le_trans hl.stop_le hhi
  · exact Nat.lt_of_lt_of_le hl.start_lt hhi

/-- A node may be closed in on from the left as far as its start. -/
theorem from_start (h : t.Fits cs lo hi) : t.Fits cs t.span.start hi := by
  have hl := h.lies
  exact .intro ⟨Nat.le_refl _, hl.start_le, hl.stop_le, hl.start_lt, hl.solid, hl.isBorder_start,
    hl.isBorder_stop⟩ h.parts

/-- A node may be closed in on from the right as far as its end, if it is no piece of a
template. -/
theorem upto_stop (h : t.Fits cs lo hi) (ht : t.type ≠ .templateElement) :
    t.Fits cs lo t.span.stop := by
  have hl := h.lies
  exact .intro ⟨hl.le_start, hl.start_le, Nat.le_refl _, hl.solid ht, hl.solid, hl.isBorder_start,
    hl.isBorder_stop⟩ h.parts

/-- Another node with the span of one that fits does so as well, if all that is below it does. -/
theorem renew {type type' : NodeType} {s : Span} {fields fields' : List TreeField}
    (h : Fits cs lo hi ⟨type, s, fields⟩) (ht : type ≠ .templateElement)
    (hparts : ∀ c ∈ fields'.flatMap TreeField.nodes, c.Fits cs s.start s.stop) :
    Fits cs lo hi ⟨type', s, fields'⟩ := by
  have hl := h.lies
  exact .intro ⟨hl.le_start, hl.start_le, hl.stop_le, hl.start_lt, fun _ => hl.solid ht,
    hl.isBorder_start, hl.isBorder_stop⟩ hparts

end Fits

/-! ### Reaching nodes -/

/-- A node is right below another one. -/
def IsParent (t c : Tree) : Prop := ∃ step, (step, c) ∈ t.children

/-- A node is another one, or the way down from there leads to it. -/
def Reaches (t u : Tree) : Prop := Relation.ReflTransGen IsParent t u

/-- The span of a node lies between borders of characters, and all that is below it fits there. -/
structure Nests (cs : List Char) (t : Tree) : Prop where
  start_le : t.span.start ≤ t.span.stop
  isBorder_start : IsBorder cs t.span.start
  isBorder_stop : IsBorder cs t.span.stop
  fits : ∀ c ∈ t.parts, c.Fits cs t.span.start t.span.stop

/-- What fits somewhere nests. -/
theorem Fits.nests {cs : List Char} {lo hi : Nat} {t : Tree} (h : t.Fits cs lo hi) : t.Nests cs :=
  ⟨h.lies.start_le, h.lies.isBorder_start, h.lies.isBorder_stop, h.parts⟩

/-- What nests does so at every node below. -/
theorem Nests.of_reaches {cs : List Char} {t u : Tree} (h : t.Nests cs) (hu : t.Reaches u) :
    u.Nests cs := by
  induction hu with
  | refl => exact h
  | tail _ hparent ih =>
    obtain ⟨step, hc⟩ := hparent
    exact (ih.fits _ (mem_parts hc)).nests

/-- A node and all that is below it have a property. -/
def Everywhere (P : Tree → Prop) (t : Tree) : Prop := ∀ u, t.Reaches u → P u

theorem isParent_of_child? {t c : Tree} {step : Step} (h : t.child? step = some c) :
    t.IsParent c := by
  rw [child?_eq_bind] at h
  obtain ⟨f, hf, hc⟩ := Option.bind_eq_some_iff.mp h
  have hname : f.name = step.field := by simpa using List.find?_some hf
  exact ⟨step, List.mem_flatMap.mpr
    ⟨f, List.mem_of_find?_eq_some hf, (f.mem_children_iff step c).mpr ⟨hname, hc⟩⟩⟩

/-- A path leads to a node that the program reaches. -/
theorem reaches_of_descend? {t u : Tree} {path : List Step} (h : t.descend? path = some u) :
    t.Reaches u := by
  induction path generalizing t with
  | nil =>
    cases h
    exact .refl
  | cons step path ih =>
    rw [descend?, List.foldlM_cons] at h
    obtain ⟨c, hc, hu⟩ := Option.bind_eq_some_iff.mp h
    exact .head (isParent_of_child? hc) (ih hu)

/-! ### Paths -/

/-- A path down from a node: the steps from child to child, with the nodes that they lead to. -/
def IsPath : Tree → List (Step × Tree) → Prop
  | _, [] => True
  | t, (step, u) :: path => (step, u) ∈ t.children ∧ u.IsPath path

/-- The parts are the children, whatever step leads to them. -/
theorem mem_parts_iff {t u : Tree} : u ∈ t.parts ↔ ∃ step, (step, u) ∈ t.children := by
  refine ⟨fun h => ?_, fun ⟨_, h⟩ => mem_parts h⟩
  obtain ⟨f, hf, hu⟩ := List.mem_flatMap.mp h
  obtain ⟨⟨step, v⟩, hv, rfl⟩ := List.mem_map.mp hu
  exact ⟨step, List.mem_flatMap.mpr ⟨f, hf, hv⟩⟩

theorem Everywhere.parts {P : Tree → Prop} {t : Tree} (h : t.Everywhere P) :
    ∀ u ∈ t.parts, u.Everywhere P := by
  intro u hu v hv
  exact h v (.head (mem_parts_iff.mp hu) hv)

/-- What holds at the top and everywhere in the parts holds everywhere. -/
theorem everywhere_of_parts {P : Tree → Prop} {t : Tree} (h : P t)
    (hparts : ∀ u ∈ t.parts, u.Everywhere P) : t.Everywhere P := by
  intro v hv
  rcases hv.cases_head with rfl | ⟨u, ⟨step, hu⟩, huv⟩
  · exact h
  · exact hparts u (mem_parts hu) v huv

/-- The path of up to a number of steps that leads to the first child each time. -/
def leftmost : (length : Nat) → Tree → List (Step × Tree)
  | 0, _ => []
  | length + 1, t =>
    match t.children with
    | [] => []
    | (step, u) :: _ => (step, u) :: u.leftmost length

/-- The leftmost way down is a path of the tree. -/
theorem isPath_leftmost (length : Nat) (t : Tree) : t.IsPath (t.leftmost length) := by
  induction length generalizing t with
  | zero => trivial
  | succ length ih =>
    rw [leftmost]
    split
    · trivial
    · next step u rest heq =>
      refine ⟨?_, ih u⟩
      rw [heq]
      exact List.mem_cons_self

end Tree

/-! ### The nodes of what is read -/

/-- What is read from a source, with the nodes that it is, or that its parts are. -/
class HasNodes (α : Type) where
  nodes : α → List Tree

export HasNodes (nodes)

/-- What is one node. -/
class IsNode (α : Type) where
  tree : α → Tree

attribute [simp] IsNode.tree

instance {α : Type} [IsNode α] : HasNodes α := ⟨fun x => [IsNode.tree x]⟩

@[simp] theorem nodes_eq {α : Type} [IsNode α] (x : α) : nodes x = [IsNode.tree x] := rfl

instance : IsNode Ident := ⟨Ident.tree⟩

instance : IsNode TemplateElement := ⟨TemplateElement.tree⟩

instance : IsNode ImportSpecifier := ⟨ImportSpecifier.tree⟩

instance : IsNode ExportSpecifier := ⟨ExportSpecifier.tree⟩

instance : IsNode Expr := ⟨Expr.tree⟩

instance : IsNode MemberName := ⟨MemberName.tree⟩

instance : IsNode Template := ⟨Template.tree⟩

instance : IsNode PropertyKey := ⟨PropertyKey.tree⟩

instance : IsNode Property := ⟨Property.tree⟩

instance : IsNode ArrowBody := ⟨ArrowBody.tree⟩

instance : IsNode ClassBody := ⟨ClassBody.tree⟩

instance : IsNode ClassMember := ⟨ClassMember.tree⟩

instance : IsNode Pattern := ⟨Pattern.tree⟩

instance : IsNode PatternProperty := ⟨PatternProperty.tree⟩

instance : IsNode Block := ⟨Block.tree⟩

instance : IsNode VarDecl := ⟨VarDecl.tree⟩

instance : IsNode VarDeclarator := ⟨VarDeclarator.tree⟩

instance : IsNode ForInit := ⟨ForInit.tree⟩

instance : IsNode ForHead := ⟨ForHead.tree⟩

instance : IsNode SwitchCase := ⟨SwitchCase.tree⟩

instance : IsNode CatchClause := ⟨CatchClause.tree⟩

instance : IsNode ExportDefault := ⟨ExportDefault.tree⟩

instance : IsNode Stmt := ⟨Stmt.tree⟩

section

variable {α β : Type} [HasNodes α] [HasNodes β]

instance : HasNodes Unit := ⟨fun _ => []⟩

instance : HasNodes Bool := ⟨fun _ => []⟩

instance : HasNodes (Option α) := ⟨fun x? => x?.toList.flatMap nodes⟩

instance : HasNodes (List α) := ⟨fun xs => xs.flatMap nodes⟩

instance : HasNodes (α × β) := ⟨fun x => nodes x.1 ++ nodes x.2⟩

/-- A function is a node of one type or another, and a method has its parameters and its body. -/
instance : HasNodes Func :=
  ⟨fun f => f.tree .functionExpression :: f.tree .functionDeclaration ::
    (nodes f.params ++ nodes f.body)⟩

instance : HasNodes Class :=
  ⟨fun c => [c.tree .classExpression, c.tree .classDeclaration]⟩

instance : HasNodes MethodKind := ⟨fun _ => []⟩

instance : HasNodes Grammar.MethodModifiers := ⟨fun _ => []⟩

instance : HasNodes (Parse.Round α) := ⟨fun | .again x | .last x => nodes x⟩

/-- What is no node and holds none. -/
class NoNodes (α : Type) [HasNodes α] : Prop where
  nodes_eq_nil (x : α) : nodes x = []

attribute [simp] NoNodes.nodes_eq_nil

instance : NoNodes Unit := ⟨fun _ => rfl⟩

instance : NoNodes Bool := ⟨fun _ => rfl⟩

instance : NoNodes MethodKind := ⟨fun _ => rfl⟩

instance : NoNodes Grammar.MethodModifiers := ⟨fun _ => rfl⟩

/-- A function stands in the tree as an expression or as a declaration, so both count as its
nodes. -/
@[simp] theorem mem_nodes_func {t : Tree} {f : Func} :
    t ∈ nodes f ↔ t = f.tree .functionExpression ∨ t = f.tree .functionDeclaration ∨
      t ∈ nodes f.params ∨ t = f.body.tree := by
  show t ∈ _ :: _ :: (nodes f.params ++ [f.body.tree]) ↔ _
  rw [List.mem_cons, List.mem_cons, List.mem_append, List.mem_singleton]

@[simp] theorem mem_nodes_class {t : Tree} {c : Class} :
    t ∈ nodes c ↔ t = c.tree .classExpression ∨ t = c.tree .classDeclaration := by
  show t ∈ [_, _] ↔ _
  rw [List.mem_cons, List.mem_singleton]

@[simp] theorem nodes_none : nodes (none : Option α) = [] := rfl

@[simp] theorem nodes_some (x : α) : nodes (some x) = nodes x := List.flatMap_singleton _ _

@[simp] theorem nodes_pair (x : α) (y : β) : nodes (x, y) = nodes x ++ nodes y := rfl

@[simp] theorem nodes_again (x : α) : nodes (Parse.Round.again x) = nodes x := rfl

@[simp] theorem nodes_last (x : α) : nodes (Parse.Round.last x) = nodes x := rfl

@[simp] theorem nodes_nil : nodes ([] : List α) = [] := rfl

@[simp] theorem nodes_cons (x : α) (xs : List α) : nodes (x :: xs) = nodes x ++ nodes xs := rfl

@[simp] theorem mem_nodes_reverse {t : Tree} {xs : List α} :
    t ∈ nodes xs.reverse ↔ t ∈ nodes xs := by
  show t ∈ xs.reverse.flatMap nodes ↔ t ∈ xs.flatMap nodes
  simp only [List.mem_flatMap, List.mem_reverse]

@[simp] theorem nodes_append (xs ys : List α) : nodes (xs ++ ys) = nodes xs ++ nodes ys :=
  List.flatMap_append

@[simp] theorem nodes_toList (x? : Option α) : nodes x?.toList = nodes x? := rfl

theorem mem_nodes {t : Tree} {x : α} {xs : List α} (hx : x ∈ xs) (ht : t ∈ nodes x) :
    t ∈ nodes xs :=
  List.mem_flatMap.mpr ⟨x, hx, ht⟩

/-- The nodes of some nodes are those nodes. -/
theorem nodes_eq_map {α : Type} [IsNode α] (xs : List α) : nodes xs = xs.map IsNode.tree := by
  induction xs with
  | nil => rfl
  | cons x xs ih =>
    rw [nodes_cons, ih]
    rfl

end

/-! ### The nodes in fields -/

@[simp] theorem exprTrees_eq_nodes (es : List Expr) : exprTrees es = nodes es := by
  rw [exprTrees_eq_map, nodes_eq_map]
  rfl

@[simp] theorem propertyTrees_eq_nodes (ps : List Property) : propertyTrees ps = nodes ps := by
  rw [propertyTrees_eq_map, nodes_eq_map]
  rfl

@[simp] theorem memberTrees_eq_nodes (ms : List ClassMember) : memberTrees ms = nodes ms := by
  rw [memberTrees_eq_map, nodes_eq_map]
  rfl

@[simp] theorem patternTrees_eq_nodes (ps : List Pattern) : patternTrees ps = nodes ps := by
  rw [patternTrees_eq_map, nodes_eq_map]
  rfl

@[simp] theorem patternPropertyTrees_eq_nodes (ps : List PatternProperty) :
    patternPropertyTrees ps = nodes ps := by
  rw [patternPropertyTrees_eq_map, nodes_eq_map]
  rfl

@[simp] theorem declaratorTrees_eq_nodes (ds : List VarDeclarator) :
    declaratorTrees ds = nodes ds := by
  rw [declaratorTrees_eq_map, nodes_eq_map]
  rfl

@[simp] theorem switchCaseTrees_eq_nodes (cs : List SwitchCase) :
    switchCaseTrees cs = nodes cs := by
  rw [switchCaseTrees_eq_map, nodes_eq_map]
  rfl

@[simp] theorem stmtTrees_eq_nodes (ss : List Stmt) : stmtTrees ss = nodes ss := by
  rw [stmtTrees_eq_map, nodes_eq_map]
  rfl

@[simp] theorem optionalExprTrees_eq_nodes (es : List (Option Expr)) :
    optionalExprTrees es = nodes es := by
  induction es with
  | nil => rfl
  | cons e? es ih =>
    rw [nodes_cons, ← ih]
    cases e? <;> rfl

@[simp] theorem optionalPatternTrees_eq_nodes (ps : List (Option Pattern)) :
    optionalPatternTrees ps = nodes ps := by
  induction ps with
  | nil => rfl
  | cons p? ps ih =>
    rw [nodes_cons, ← ih]
    cases p? <;> rfl

@[simp] theorem map_templateElement_eq_nodes (es : List TemplateElement) :
    es.map TemplateElement.tree = nodes es :=
  (nodes_eq_map es).symm

@[simp] theorem map_importSpecifier_eq_nodes (ss : List ImportSpecifier) :
    ss.map ImportSpecifier.tree = nodes ss :=
  (nodes_eq_map ss).symm

@[simp] theorem map_exportSpecifier_eq_nodes (ss : List ExportSpecifier) :
    ss.map ExportSpecifier.tree = nodes ss :=
  (nodes_eq_map ss).symm

@[simp] theorem nodes_orAbsent_ident (name : String) (i? : Option Ident) :
    (TreeField.orAbsent name (i?.map Ident.tree)).nodes = nodes i? := by cases i? <;> rfl

@[simp] theorem nodes_optionalExprField (name : String) (e? : Option Expr) :
    (optionalExprField name e?).nodes = nodes e? := by cases e? <;> rfl

@[simp] theorem nodes_optionalStmtField (name : String) (s? : Option Stmt) :
    (optionalStmtField name s?).nodes = nodes s? := by cases s? <;> rfl

@[simp] theorem nodes_forInitField (i? : Option ForInit) :
    (forInitField i?).nodes = nodes i? := by cases i? <;> rfl

@[simp] theorem nodes_handlerField (c? : Option CatchClause) :
    (handlerField c?).nodes = nodes c? := by cases c? <;> rfl

@[simp] theorem nodes_finalizerField (b? : Option Block) :
    (finalizerField b?).nodes = nodes b? := by cases b? <;> rfl

end Espalier
