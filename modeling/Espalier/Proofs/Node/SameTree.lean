import Espalier.Node.Tree
import Mathlib.Data.List.Forall2

/-!
# Trees up to spans

Two expressions are the same up to spans if their trees are once all spans are forgotten. This goes
along with how expressions are put together, and what is read off the tree alone is the same for
both: whether an expression is a name, a member, or a link of an optional chain. It goes along with
how statements of control flow are put together as well.
-/

namespace Espalier

mutual

/-- A tree of which all spans are forgotten. -/
def Tree.withoutSpans : Tree → Tree
  | ⟨type, _, fields⟩ => ⟨type, default, fieldsWithoutSpans fields⟩

def fieldsWithoutSpans : List TreeField → List TreeField
  | [] => []
  | .value n s :: fs => .value n s :: fieldsWithoutSpans fs
  | .absent n :: fs => .absent n :: fieldsWithoutSpans fs
  | .child n t :: fs => .child n t.withoutSpans :: fieldsWithoutSpans fs
  | .list n ts :: fs => .list n (treesWithoutSpans ts) :: fieldsWithoutSpans fs

def treesWithoutSpans : List Tree → List Tree
  | [] => []
  | t :: ts => t.withoutSpans :: treesWithoutSpans ts

end

theorem Tree.type_withoutSpans (t : Tree) : t.withoutSpans.type = t.type := by
  cases t
  rfl

/-- Two lists of fields are the same up to spans. -/
def SameFields (fs gs : List TreeField) : Prop := fieldsWithoutSpans fs = fieldsWithoutSpans gs

namespace SameFields

variable {name : String} {fs gs : List TreeField}

theorem nil : SameFields [] [] := rfl

theorem value {v : Scalar} (h : SameFields fs gs) :
    SameFields (.value name v :: fs) (.value name v :: gs) :=
  congrArg (TreeField.value name v :: ·) h

theorem absent (h : SameFields fs gs) : SameFields (.absent name :: fs) (.absent name :: gs) :=
  congrArg (TreeField.absent name :: ·) h

/-- Fields that agree go on agreeing behind a child that agrees. -/
theorem child {t u : Tree} (ht : t.withoutSpans = u.withoutSpans) (h : SameFields fs gs) :
    SameFields (.child name t :: fs) (.child name u :: gs) :=
  congrArg₂ (fun t fs => TreeField.child name t :: fs) ht h

theorem list {ts us : List Tree} (ht : treesWithoutSpans ts = treesWithoutSpans us)
    (h : SameFields fs gs) : SameFields (.list name ts :: fs) (.list name us :: gs) :=
  congrArg₂ (fun ts fs => TreeField.list name ts :: fs) ht h

end SameFields

namespace Expr

/-- Two expressions are the same up to spans. -/
def SameTree (a e : Expr) : Prop := a.tree.withoutSpans = e.tree.withoutSpans

theorem type_tree_member (s : Span) (o : Expr) (p : MemberName) (isOptional : Bool) :
    (member s o p isOptional).tree.type =
      if isOptional || o.isOptionalChain then .optionalMemberExpression else .memberExpression := by
  show Tree.type (if _ then _ else _) = _
  split <;> rfl

theorem type_tree_call (s : Span) (f : Expr) (args : List Expr) (isOptional : Bool) :
    (call s f args isOptional).tree.type =
      if isOptional || f.isOptionalChain then .optionalCallExpression else .callExpression := by
  show Tree.type (if _ then _ else _) = _
  split <;> rfl

theorem tree_member (s : Span) {o : Expr} (p : MemberName) (h : o.isOptionalChain = false) :
    (member s o p false).tree =
      ⟨.memberExpression, s,
        [.child "object" o.tree, .flag "computed" p.isComputed, .child "property" p.tree]⟩ := by
  show (if false || o.isOptionalChain then _ else _) = _
  rw [h]
  rfl

theorem tree_call (s : Span) {f : Expr} (args : List Expr) (h : f.isOptionalChain = false) :
    (call s f args false).tree =
      ⟨.callExpression, s, [.child "callee" f.tree, .list "arguments" (exprTrees args)]⟩ := by
  show (if false || f.isOptionalChain then _ else _) = _
  rw [h]
  rfl

/-- Whether an expression is an optional chain can be told from its type. -/
theorem isOptionalChain_eq (e : Expr) : e.isOptionalChain =
    (e.tree.type == .optionalMemberExpression || e.tree.type == .optionalCallExpression) := by
  cases e with
  | member s o p isOptional =>
    rw [type_tree_member]
    cases h : isOptional || o.isOptionalChain <;> exact h
  | call s f args isOptional =>
    rw [type_tree_call]
    cases h : isOptional || f.isOptionalChain <;> exact h
  | template t | function t | arrow t | classExpr t =>
    cases t
    rfl
  | _ => rfl

/-- A node of the type of identifiers is one. -/
theorem exists_ident_of_type {e : Expr} (h : e.tree.type = .identifier) : ∃ i, e = .ident i := by
  cases e with
  | ident i => exact ⟨i, rfl⟩
  | member s o p isOptional =>
    rw [type_tree_member] at h
    split at h <;> cases h
  | call s f args isOptional =>
    rw [type_tree_call] at h
    split at h <;> cases h
  | template t | function t | arrow t | classExpr t =>
    cases t
    cases h
  | _ => cases h

/-- A plain member expression has no optional link. -/
theorem exists_member_of_type {e : Expr} (h : e.tree.type = .memberExpression) :
    ∃ s o p, e = .member s o p false ∧ o.isOptionalChain = false := by
  cases e with
  | member s o p isOptional =>
    rw [type_tree_member] at h
    split at h
    · cases h
    · next hchain =>
      rw [Bool.not_eq_true, Bool.or_eq_false_iff] at hchain
      obtain ⟨rfl, ho⟩ := hchain
      exact ⟨s, o, p, rfl, ho⟩
  | call s f args isOptional =>
    rw [type_tree_call] at h
    split at h <;> cases h
  | template t | function t | arrow t | classExpr t =>
    cases t
    cases h
  | _ => cases h

/-- A name, or a member outside of optional chains: what can be changed in place. -/
def IsTarget (e : Expr) : Prop :=
  (∃ i, e = .ident i) ∨ ∃ s o p, e = .member s o p false ∧ o.isOptionalChain = false

namespace SameTree

variable {a b c a' b' c' e : Expr} {s s' : Span} {as es : List Expr}

theorem type_eq (h : a.SameTree e) : a.tree.type = e.tree.type := by
  rw [← Tree.type_withoutSpans, ← Tree.type_withoutSpans e.tree, show _ = _ from h]

theorem isOptionalChain_eq (h : a.SameTree e) : a.isOptionalChain = e.isOptionalChain := by
  rw [Expr.isOptionalChain_eq, Expr.isOptionalChain_eq e, h.type_eq]

/-- What looks like a target is one. -/
theorem isTarget (h : a.SameTree e) (he : e.IsTarget) : a.IsTarget := by
  rcases he with ⟨i, rfl⟩ | ⟨s, o, p, rfl, ho⟩
  · exact .inl (exists_ident_of_type h.type_eq)
  · refine .inr (exists_member_of_type (h.type_eq.trans ?_))
    rw [type_tree_member, ho]
    rfl

/-! #### Expressions and their parts -/

/-- Nodes of one type are the same up to spans if their fields are. -/
theorem of_fields {type : NodeType} {fs gs : List TreeField} (ha : a.tree = ⟨type, s, fs⟩)
    (he : e.tree = ⟨type, s', gs⟩) (h : SameFields fs gs) : a.SameTree e := by
  show a.tree.withoutSpans = e.tree.withoutSpans
  rw [ha, he]
  exact congrArg (Tree.mk type default) h

theorem ident (name : String) : SameTree (.ident ⟨name, s⟩) (.ident ⟨name, s'⟩) := rfl

theorem unary (h : a.SameTree a') (op : UnaryOp) :
    SameTree (.unary s op a) (.unary s' op a') :=
  of_fields rfl rfl (.value (.value (.child h .nil)))

theorem update (h : a.SameTree a') (op : UpdateOp) (isPrefix : Bool) :
    SameTree (.update s op isPrefix a) (.update s' op isPrefix a') :=
  of_fields rfl rfl (.value (.value (.child h .nil)))

theorem operation (ha : a.SameTree a') (hb : b.SameTree b') (op : InfixOp) :
    SameTree (.operation s op a b) (.operation s' op a' b') := by
  cases op <;> exact of_fields rfl rfl (.child ha (.value (.child hb .nil)))

theorem conditional (ha : a.SameTree a') (hb : b.SameTree b') (hc : c.SameTree c') :
    SameTree (.conditional s a b c) (.conditional s' a' b' c') :=
  of_fields rfl rfl (.child ha (.child hb (.child hc .nil)))

theorem assign {l l' : Pattern} (hl : l.tree.withoutSpans = l'.tree.withoutSpans)
    (hb : b.SameTree b') (op : AssignOp) : SameTree (.assign s op l b) (.assign s' op l' b') :=
  of_fields rfl rfl (.value (.child hl (.child hb .nil)))

/-- Lists that agree item by item have trees that agree. -/
theorem exprTrees (h : List.Forall₂ SameTree as es) :
    treesWithoutSpans (exprTrees as) = treesWithoutSpans (Espalier.exprTrees es) := by
  induction h with
  | nil => rfl
  | cons hhead _ ih => exact congrArg₂ List.cons hhead ih

/-- Sequences agree when their items do. -/
theorem sequence (h : List.Forall₂ SameTree as es) :
    SameTree (.sequence s as) (.sequence s' es) :=
  of_fields rfl rfl (.list (exprTrees h) .nil)

/-- Members agree when their objects and properties do, outside optional chains. -/
theorem member {p q : MemberName} (ha : a.SameTree a') (h : a'.isOptionalChain = false)
    (hcomputed : p.isComputed = q.isComputed) (hp : p.tree.withoutSpans = q.tree.withoutSpans) :
    SameTree (.member s a p false) (.member s' a' q false) := by
  refine of_fields (tree_member s p (ha.isOptionalChain_eq.trans h)) (tree_member s' q h) ?_
  rw [hcomputed]
  exact .child ha (.value (.child hp .nil))

theorem memberWord (ha : a.SameTree a') (h : a'.isOptionalChain = false) (word : String)
    {t t' : Span} : SameTree (.member s a (.ident ⟨word, t⟩) false)
      (.member s' a' (.ident ⟨word, t'⟩) false) :=
  ha.member h rfl rfl

theorem memberComputed (ha : a.SameTree a') (h : a'.isOptionalChain = false)
    (hb : b.SameTree b') :
    SameTree (.member s a (.computed b) false) (.member s' a' (.computed b') false) :=
  ha.member h rfl hb

/-- Calls agree when their callees and arguments do. -/
theorem call (ha : a.SameTree a') (h : a'.isOptionalChain = false)
    (hs : List.Forall₂ SameTree as es) :
    SameTree (.call s a as false) (.call s' a' es false) :=
  of_fields (tree_call s as (ha.isOptionalChain_eq.trans h)) (tree_call s' es h)
    (.child ha (.list (exprTrees hs) .nil))

theorem new (ha : a.SameTree a') (hs : List.Forall₂ SameTree as es) :
    SameTree (.new s a as) (.new s' a' es) :=
  of_fields rfl rfl (.child ha (.list (exprTrees hs) .nil))

end SameTree

end Expr

/-- A part that may be absent agrees when both are absent or both agree. -/
theorem SameFields.optionalExpr {e? e'? : Option Expr} (he : Option.Rel Expr.SameTree e? e'?)
    (name : String) {fs gs : List TreeField} (h : SameFields fs gs) :
    SameFields (optionalExprField name e? :: fs) (optionalExprField name e'? :: gs) := by
  cases he with
  | none => exact h.absent
  | some he => exact h.child he

namespace Stmt

/-- Two statements are the same up to spans. -/
def SameTree (a b : Stmt) : Prop := a.tree.withoutSpans = b.tree.withoutSpans

namespace SameTree

variable {a b c a' b' c' : Stmt} {e e' : Expr} {s s' : Span} {as bs : List Stmt}

/-- Statements of one type are the same up to spans if their fields are. -/
theorem of_fields {type : NodeType} {fs gs : List TreeField} (ha : a.tree = ⟨type, s, fs⟩)
    (hb : b.tree = ⟨type, s', gs⟩) (h : SameFields fs gs) : a.SameTree b := by
  show a.tree.withoutSpans = b.tree.withoutSpans
  rw [ha, hb]
  exact congrArg (Tree.mk type default) h

theorem expr (he : e.SameTree e') : SameTree (.expr s e) (.expr s' e') :=
  of_fields rfl rfl (.child he .nil)

theorem ifThen (he : e.SameTree e') (hc : c.SameTree c') :
    SameTree (.ifThen s e c none) (.ifThen s' e' c' none) :=
  of_fields rfl rfl (.child he (.child hc (.absent .nil)))

theorem ifElse (he : e.SameTree e') (hc : c.SameTree c') (ha : a.SameTree a') :
    SameTree (.ifThen s e c (some a)) (.ifThen s' e' c' (some a')) :=
  of_fields rfl rfl (.child he (.child hc (.child ha .nil)))

theorem whileLoop (he : e.SameTree e') (hb : b.SameTree b') :
    SameTree (.whileLoop s e b) (.whileLoop s' e' b') :=
  of_fields rfl rfl (.child he (.child hb .nil))

theorem forLoop {init init' test test' update update' : Option Expr}
    (hinit : Option.Rel Expr.SameTree init init') (htest : Option.Rel Expr.SameTree test test')
    (hupdate : Option.Rel Expr.SameTree update update') (hb : b.SameTree b') :
    SameTree (.forLoop s (init.map .expr) test update b)
      (.forLoop s' (init'.map .expr) test' update' b') := by
  have hbody : SameFields [.child "body" b.tree] [.child "body" b'.tree] := .child hb .nil
  have hrest := SameFields.optionalExpr htest "test" (.optionalExpr hupdate "update" hbody)
  cases hinit with
  | none => exact of_fields rfl rfl hrest.absent
  | some hinit => exact of_fields rfl rfl (.child hinit hrest)

theorem labeled (hb : b.SameTree b') (label : String) {t t' : Span} :
    SameTree (.labeled s ⟨label, t⟩ b) (.labeled s' ⟨label, t'⟩ b') :=
  of_fields rfl rfl (.child rfl (.child hb .nil))

theorem stmtTrees (h : List.Forall₂ SameTree as bs) :
    treesWithoutSpans (stmtTrees as) = treesWithoutSpans (Espalier.stmtTrees bs) := by
  induction h with
  | nil => rfl
  | cons hhead _ ih => exact congrArg₂ List.cons hhead ih

theorem block (h : List.Forall₂ SameTree as bs) : SameTree (.block ⟨as, s⟩) (.block ⟨bs, s'⟩) :=
  of_fields rfl rfl (.list (stmtTrees h) .nil)

end SameTree

end Stmt

/-! ### Blocks around single statements -/

/-- What a node stands for, if it is a block of one statement. -/
def Tree.unwrap : Tree → Tree
  | ⟨.blockStatement, _, [.list _ [t]]⟩ => t
  | t => t

mutual

/-- A tree in which blocks of one statement are replaced by that. -/
def Tree.unwrapped : Tree → Tree
  | ⟨type, s, fields⟩ => Tree.unwrap ⟨type, s, fieldsUnwrapped fields⟩

def fieldsUnwrapped : List TreeField → List TreeField
  | [] => []
  | .value n s :: fs => .value n s :: fieldsUnwrapped fs
  | .absent n :: fs => .absent n :: fieldsUnwrapped fs
  | .child n t :: fs => .child n t.unwrapped :: fieldsUnwrapped fs
  | .list n ts :: fs => .list n (treesUnwrapped ts) :: fieldsUnwrapped fs

def treesUnwrapped : List Tree → List Tree
  | [] => []
  | t :: ts => t.unwrapped :: treesUnwrapped ts

end

/-- The tree of a block up to spans. -/
def blockTree (ts : List Tree) : Tree := ⟨.blockStatement, default, [.list "body" ts]⟩

/-- Blocks of the same length look alike exactly if their statements do. -/
theorem Tree.unwrap_blockTree_inj {ts us : List Tree} (hlength : ts.length = us.length) :
    (blockTree ts).unwrap = (blockTree us).unwrap ↔ ts = us := by
  match ts, us with
  | [], [] => exact iff_of_true rfl rfl
  | [t], [u] => exact (List.singleton_inj (a := t) (b := u)).symm
  | t :: t' :: ts, u :: u' :: us =>
    refine ⟨fun h => ?_, fun h => h ▸ rfl⟩
    injection h with _ _ hfields
    injection (List.cons.inj hfields).1

/-- A tree up to spans and up to blocks around single statements. -/
def Tree.shape (t : Tree) : Tree := t.withoutSpans.unwrapped

namespace Stmt

/-- What a statement looks like without spans and without blocks around one statement. -/
def shape (s : Stmt) : Tree := s.tree.shape

theorem SameTree.shape_eq {a b : Stmt} (h : a.SameTree b) : a.shape = b.shape :=
  congrArg Tree.unwrapped h

theorem SameTree.map_shape {as bs : List Stmt} (h : List.Forall₂ SameTree as bs) :
    as.map shape = bs.map shape := by
  induction h with
  | nil => rfl
  | cons hhead _ ih => exact congrArg₂ List.cons hhead.shape_eq ih

theorem shape_ifThen (t : Span) (e : Expr) (c : Stmt) : (ifThen t e c none).shape =
    ⟨.ifStatement, default,
      [.child "test" e.tree.shape, .child "consequent" c.shape, .absent "alternate"]⟩ :=
  rfl

theorem shape_ifElse (t : Span) (e : Expr) (c a : Stmt) : (ifThen t e c (some a)).shape =
    ⟨.ifStatement, default,
      [.child "test" e.tree.shape, .child "consequent" c.shape, .child "alternate" a.shape]⟩ :=
  rfl

theorem shape_whileLoop (t : Span) (e : Expr) (b : Stmt) : (whileLoop t e b).shape =
    ⟨.whileStatement, default, [.child "test" e.tree.shape, .child "body" b.shape]⟩ :=
  rfl

theorem shape_labeled (t : Span) (i : Ident) (b : Stmt) : (labeled t i b).shape =
    ⟨.labeledStatement, default, [.child "label" i.tree.shape, .child "body" b.shape]⟩ :=
  rfl

/-- What stands in the head of a loop does not depend on the body. -/
theorem exists_shape_forLoop (i : Option ForInit) (e u : Option Expr) :
    ∃ head : List TreeField, ∀ t b, (forLoop t i e u b).shape =
      ⟨.forStatement, default, head ++ [.child "body" b.shape]⟩ := by
  cases i <;> cases e <;> cases u <;> exact ⟨[_, _, _], fun _ _ => rfl⟩

theorem treesUnwrapped_stmtTrees (body : List Stmt) :
    treesUnwrapped (treesWithoutSpans (stmtTrees body)) = body.map shape := by
  induction body with
  | nil => rfl
  | cons s body ih => exact congrArg (s.shape :: ·) ih

/-- A block of one statement has the shape of that statement. -/
theorem shape_block (body : List Stmt) (t : Span) :
    (block ⟨body, t⟩).shape = (blockTree (body.map shape)).unwrap := by
  rw [← treesUnwrapped_stmtTrees]
  rfl

/-- A block around a single statement. -/
theorem shape_block_singleton (s : Stmt) (t : Span) : (block ⟨[s], t⟩).shape = s.shape := rfl

end Stmt

end Espalier
