import Espalier.Proofs.Node.Nesting
import Espalier.Script.Value
import Mathlib.Algebra.BigOperators.Group.List.Basic
import Mathlib.Algebra.Order.Group.Multiset
import Mathlib.Data.Multiset.UnionInter

/-!
# The functions in a text

`functions` lists, for everything that is read from a source, the functions that are written in it,
each with its code and with the two spans that tell where it stands: that of its node, and that by
which the machine knows its code. `starts` gives the places where these spans start.
-/

namespace Espalier

/-- A function as it is written. -/
structure FunctionLiteral where
  /-- The span of its node. -/
  node : Span
  /-- The span by which its code is known. That of a method leaves out its modifiers and its key. -/
  span : Span
  code : Script.Code

namespace FunctionLiteral

/-- A function written with a word. -/
def ofFunction (f : Func) : FunctionLiteral := ⟨f.span, f.span, .ofFunction f⟩

/-- A method of an object or a class. -/
def ofMethod (node : Span) (f : Func) : FunctionLiteral := ⟨node, f.span, .ofFunction f⟩

/-- A function written with an arrow. -/
def ofArrow (a : Arrow) : FunctionLiteral := ⟨a.span, a.span, .ofArrow a⟩

end FunctionLiteral

/-! ### The functions in the syntax tree -/

mutual

/-- The functions in an expression. -/
def Expr.functions : Expr → List FunctionLiteral
  | .null _ | .bool _ _ | .number _ _ | .bigint _ _ | .string _ _ | .regex _ _ _ | .ident _
  | .this _ | .super _ | .importWord _ | .metaProperty _ _ _ => []
  | .template t => t.functions
  | .tagged _ tag quasi => tag.functions ++ quasi.functions
  | .array _ es => optionalExprsFunctions es
  | .object _ ps => propertiesFunctions ps
  | .function f => .ofFunction f :: f.functions
  | .arrow a => .ofArrow a :: a.functions
  | .classExpr c => c.functions
  | .unary _ _ e | .update _ _ _ e | .spread _ e | .await _ e => e.functions
  | .binary _ _ l r | .logical _ _ l r => l.functions ++ r.functions
  | .assign _ _ l r => l.functions ++ r.functions
  | .conditional _ t c a => t.functions ++ (c.functions ++ a.functions)
  | .sequence _ es => exprsFunctions es
  | .member _ e p _ => e.functions ++ p.functions
  | .call _ f args _ => f.functions ++ exprsFunctions args
  | .new _ f args => f.functions ++ exprsFunctions args
  | .yield _ e _ => optionalExprFunctions e

def MemberName.functions : MemberName → List FunctionLiteral
  | .ident _ => []
  | .computed e => e.functions

def exprsFunctions : List Expr → List FunctionLiteral
  | [] => []
  | e :: es => e.functions ++ exprsFunctions es

def optionalExprFunctions : Option Expr → List FunctionLiteral
  | none => []
  | some e => e.functions

def optionalExprsFunctions : List (Option Expr) → List FunctionLiteral
  | [] => []
  | none :: es => optionalExprsFunctions es
  | some e :: es => e.functions ++ optionalExprsFunctions es

def Template.functions : Template → List FunctionLiteral
  | ⟨_, es, _⟩ => exprsFunctions es

def PropertyKey.functions : PropertyKey → List FunctionLiteral
  | .ident _ => []
  | .literal e => e.functions
  | .computed e => e.functions

def Property.functions : Property → List FunctionLiteral
  | .init _ k value _ => k.functions ++ value.functions
  | .method s k _ f => .ofMethod s f :: (k.functions ++ f.functions)
  | .spread _ e => e.functions

def propertiesFunctions : List Property → List FunctionLiteral
  | [] => []
  | p :: ps => p.functions ++ propertiesFunctions ps

/-- The functions in the parameters and the body of a function. -/
def Func.functions : Func → List FunctionLiteral
  | ⟨_, params, body, _, _, _⟩ => patternsFunctions params ++ body.functions

/-- The functions in the parameters and the body of a function written with an arrow. -/
def Arrow.functions : Arrow → List FunctionLiteral
  | ⟨params, body, _, _⟩ => patternsFunctions params ++ body.functions

def ArrowBody.functions : ArrowBody → List FunctionLiteral
  | .expr e => e.functions
  | .block b => b.functions

def Class.functions : Class → List FunctionLiteral
  | ⟨_, superClass, body, _⟩ => optionalExprFunctions superClass ++ body.functions

def ClassBody.functions : ClassBody → List FunctionLiteral
  | ⟨members, _⟩ => membersFunctions members

def ClassMember.functions : ClassMember → List FunctionLiteral
  | .method s k _ _ f => .ofMethod s f :: (k.functions ++ f.functions)
  | .property _ k value _ => k.functions ++ optionalExprFunctions value

def membersFunctions : List ClassMember → List FunctionLiteral
  | [] => []
  | m :: ms => m.functions ++ membersFunctions ms

/-- The functions in a pattern. -/
def Pattern.functions : Pattern → List FunctionLiteral
  | .ident _ => []
  | .array _ ps => optionalPatternsFunctions ps
  | .object _ ps => patternPropertiesFunctions ps
  | .default _ l r => l.functions ++ r.functions
  | .rest _ p => p.functions
  | .target e => e.functions

def patternsFunctions : List Pattern → List FunctionLiteral
  | [] => []
  | p :: ps => p.functions ++ patternsFunctions ps

def optionalPatternFunctions : Option Pattern → List FunctionLiteral
  | none => []
  | some p => p.functions

def optionalPatternsFunctions : List (Option Pattern) → List FunctionLiteral
  | [] => []
  | none :: ps => optionalPatternsFunctions ps
  | some p :: ps => p.functions ++ optionalPatternsFunctions ps

def PatternProperty.functions : PatternProperty → List FunctionLiteral
  | .entry _ k value _ => k.functions ++ value.functions
  | .rest _ p => p.functions

def patternPropertiesFunctions : List PatternProperty → List FunctionLiteral
  | [] => []
  | p :: ps => p.functions ++ patternPropertiesFunctions ps

def Block.functions : Block → List FunctionLiteral
  | ⟨body, _⟩ => stmtsFunctions body

def VarDecl.functions : VarDecl → List FunctionLiteral
  | ⟨_, ds, _⟩ => declaratorsFunctions ds

def VarDeclarator.functions : VarDeclarator → List FunctionLiteral
  | ⟨id, init, _⟩ => id.functions ++ optionalExprFunctions init

def declaratorsFunctions : List VarDeclarator → List FunctionLiteral
  | [] => []
  | d :: ds => d.functions ++ declaratorsFunctions ds

def ForInit.functions : ForInit → List FunctionLiteral
  | .decl d => d.functions
  | .expr e => e.functions

def optionalForInitFunctions : Option ForInit → List FunctionLiteral
  | none => []
  | some i => i.functions

def ForHead.functions : ForHead → List FunctionLiteral
  | .decl d => d.functions
  | .pattern p => p.functions

def SwitchCase.functions : SwitchCase → List FunctionLiteral
  | ⟨test, body, _⟩ => optionalExprFunctions test ++ stmtsFunctions body

def switchCasesFunctions : List SwitchCase → List FunctionLiteral
  | [] => []
  | c :: cs => c.functions ++ switchCasesFunctions cs

def CatchClause.functions : CatchClause → List FunctionLiteral
  | ⟨param, body, _⟩ => optionalPatternFunctions param ++ body.functions

def optionalHandlerFunctions : Option CatchClause → List FunctionLiteral
  | none => []
  | some c => c.functions

def optionalBlockFunctions : Option Block → List FunctionLiteral
  | none => []
  | some b => b.functions

def ExportDefault.functions : ExportDefault → List FunctionLiteral
  | .function f => .ofFunction f :: f.functions
  | .classDecl c => c.functions
  | .expr e => e.functions

/-- The functions in a statement. -/
def Stmt.functions : Stmt → List FunctionLiteral
  | .var d => d.functions
  | .function f => .ofFunction f :: f.functions
  | .classDecl c => c.functions
  | .block b => b.functions
  | .empty _ | .debugger _ | .breakTo _ _ | .continueTo _ _ => []
  | .expr _ e | .throws _ e | .importDecl _ _ e | .exportAll _ _ e => e.functions
  | .ifThen _ t c a => t.functions ++ (c.functions ++ optionalStmtFunctions a)
  | .switch _ e cs => e.functions ++ switchCasesFunctions cs
  | .forLoop _ i t u b =>
    optionalForInitFunctions i ++
      (optionalExprFunctions t ++ (optionalExprFunctions u ++ b.functions))
  | .forIn _ l r b | .forOf _ l r b _ => l.functions ++ (r.functions ++ b.functions)
  | .whileLoop _ t b => t.functions ++ b.functions
  | .doWhile _ b t => b.functions ++ t.functions
  | .returns _ e => optionalExprFunctions e
  | .tryCatch _ b h f =>
    b.functions ++ (optionalHandlerFunctions h ++ optionalBlockFunctions f)
  | .labeled _ _ b => b.functions
  | .exportNamed _ d _ source => optionalStmtFunctions d ++ optionalExprFunctions source
  | .exportDefault _ d => d.functions

def optionalStmtFunctions : Option Stmt → List FunctionLiteral
  | none => []
  | some s => s.functions

def stmtsFunctions : List Stmt → List FunctionLiteral
  | [] => []
  | s :: ss => s.functions ++ stmtsFunctions ss

end

/-- The functions in a program. -/
def Program.functions (p : Program) : List FunctionLiteral := stmtsFunctions p.body

attribute [simp] Expr.functions MemberName.functions Template.functions PropertyKey.functions
  Property.functions Func.functions Arrow.functions ArrowBody.functions Class.functions
  ClassBody.functions ClassMember.functions Pattern.functions PatternProperty.functions
  Block.functions VarDecl.functions VarDeclarator.functions ForInit.functions ForHead.functions
  SwitchCase.functions CatchClause.functions ExportDefault.functions Stmt.functions

/-- What is read from a source, with the functions that are written in it. -/
class HasFunctions (α : Type) where
  functions : α → List FunctionLiteral

export HasFunctions (functions)

attribute [simp] HasFunctions.functions

instance : HasFunctions Expr := ⟨Expr.functions⟩

instance : HasFunctions MemberName := ⟨MemberName.functions⟩

instance : HasFunctions Template := ⟨Template.functions⟩

instance : HasFunctions PropertyKey := ⟨PropertyKey.functions⟩

instance : HasFunctions Property := ⟨Property.functions⟩

instance : HasFunctions Func := ⟨Func.functions⟩

instance : HasFunctions Arrow := ⟨Arrow.functions⟩

instance : HasFunctions ArrowBody := ⟨ArrowBody.functions⟩

instance : HasFunctions Class := ⟨Class.functions⟩

instance : HasFunctions ClassBody := ⟨ClassBody.functions⟩

instance : HasFunctions ClassMember := ⟨ClassMember.functions⟩

instance : HasFunctions Pattern := ⟨Pattern.functions⟩

instance : HasFunctions PatternProperty := ⟨PatternProperty.functions⟩

instance : HasFunctions Block := ⟨Block.functions⟩

instance : HasFunctions VarDecl := ⟨VarDecl.functions⟩

instance : HasFunctions VarDeclarator := ⟨VarDeclarator.functions⟩

instance : HasFunctions ForInit := ⟨ForInit.functions⟩

instance : HasFunctions ForHead := ⟨ForHead.functions⟩

instance : HasFunctions SwitchCase := ⟨SwitchCase.functions⟩

instance : HasFunctions CatchClause := ⟨CatchClause.functions⟩

instance : HasFunctions ExportDefault := ⟨ExportDefault.functions⟩

instance : HasFunctions Stmt := ⟨Stmt.functions⟩

instance : HasFunctions Unit := ⟨fun _ => []⟩

instance : HasFunctions Bool := ⟨fun _ => []⟩

instance : HasFunctions Ident := ⟨fun _ => []⟩

instance : HasFunctions TemplateElement := ⟨fun _ => []⟩

instance : HasFunctions ImportSpecifier := ⟨fun _ => []⟩

instance : HasFunctions ExportSpecifier := ⟨fun _ => []⟩

instance : HasFunctions MethodKind := ⟨fun _ => []⟩

instance : HasFunctions Grammar.MethodModifiers := ⟨fun _ => []⟩

section

variable {α β : Type} [HasFunctions α] [HasFunctions β]

/-- The functions in each of some parts. -/
def functionsOfAll (xs : List α) : List FunctionLiteral := xs.flatMap functions

/-- The functions in a part that may be missing. -/
def functionsOfAny (x? : Option α) : List FunctionLiteral := x?.elim [] functions

instance : HasFunctions (List α) := ⟨functionsOfAll⟩

instance : HasFunctions (Option α) := ⟨functionsOfAny⟩

instance : HasFunctions (α × β) := ⟨fun x => functions x.1 ++ functions x.2⟩

instance : HasFunctions (Parse.Round α) := ⟨fun | .again x | .last x => functions x⟩

@[simp] theorem functionsOfAll_nil : functionsOfAll ([] : List α) = [] := rfl

@[simp] theorem functionsOfAll_cons (x : α) (xs : List α) :
    functionsOfAll (x :: xs) = functions x ++ functionsOfAll xs := rfl

@[simp] theorem functionsOfAll_append (xs ys : List α) :
    functionsOfAll (xs ++ ys) = functionsOfAll xs ++ functionsOfAll ys :=
  List.flatMap_append

@[simp] theorem functionsOfAny_none : functionsOfAny (none : Option α) = [] := rfl

@[simp] theorem functionsOfAny_some (x : α) : functionsOfAny (some x) = functions x := rfl

@[simp] theorem functionsOfAll_toList (x? : Option α) :
    functionsOfAll x?.toList = functionsOfAny x? := by
  cases x? with
  | none => rfl
  | some x => exact List.flatMap_singleton functions x

/-- A function of several constructs is a function of one of them. -/
theorem mem_functionsOfAll {ℓ : FunctionLiteral} {xs : List α} :
    ℓ ∈ functionsOfAll xs ↔ ∃ x ∈ xs, ℓ ∈ functions x :=
  List.mem_flatMap

/-- What no function is written in. -/
class NoFunctions (α : Type) [HasFunctions α] : Prop where
  functions_eq_nil (x : α) : functions x = []

instance : NoFunctions Unit := ⟨fun _ => rfl⟩

instance : NoFunctions Bool := ⟨fun _ => rfl⟩

instance : NoFunctions Ident := ⟨fun _ => rfl⟩

instance : NoFunctions TemplateElement := ⟨fun _ => rfl⟩

instance : NoFunctions ImportSpecifier := ⟨fun _ => rfl⟩

instance : NoFunctions ExportSpecifier := ⟨fun _ => rfl⟩

instance : NoFunctions MethodKind := ⟨fun _ => rfl⟩

instance : NoFunctions Grammar.MethodModifiers := ⟨fun _ => rfl⟩

@[simp] theorem functionsOfAll_eq_nil [NoFunctions α] (xs : List α) : functionsOfAll xs = [] :=
  List.flatMap_eq_nil_iff.mpr fun x _ => NoFunctions.functions_eq_nil x

instance [NoFunctions α] : NoFunctions (List α) := ⟨functionsOfAll_eq_nil⟩

@[simp] theorem functionsOfAny_eq_nil [NoFunctions α] (x? : Option α) :
    functionsOfAny x? = [] := by
  cases x? with
  | none => rfl
  | some x => exact NoFunctions.functions_eq_nil x

instance [NoFunctions α] : NoFunctions (Option α) := ⟨functionsOfAny_eq_nil⟩

/-- A function on lists that takes each element for itself lists what is in all of them. -/
theorem eq_functionsOfAll {fs : List α → List FunctionLiteral} (hnil : fs [] = [])
    (hcons : ∀ x xs, fs (x :: xs) = functions x ++ fs xs) (xs : List α) :
    fs xs = functionsOfAll xs := by
  induction xs with
  | nil => exact hnil
  | cons x xs ih => rw [hcons, ih, functionsOfAll_cons]

end

/-! Lists and optional parts are taken element by element. -/

@[simp] theorem exprsFunctions_eq (es : List Expr) : exprsFunctions es = functionsOfAll es :=
  eq_functionsOfAll rfl (fun _ _ => rfl) es

@[simp] theorem optionalExprFunctions_eq (e? : Option Expr) :
    optionalExprFunctions e? = functionsOfAny e? := by
  cases e? <;> rfl

@[simp] theorem optionalExprsFunctions_eq (es : List (Option Expr)) :
    optionalExprsFunctions es = functionsOfAll es :=
  eq_functionsOfAll rfl (fun e? _ => by cases e? <;> rfl) es

@[simp] theorem propertiesFunctions_eq (ps : List Property) :
    propertiesFunctions ps = functionsOfAll ps :=
  eq_functionsOfAll rfl (fun _ _ => rfl) ps

@[simp] theorem membersFunctions_eq (ms : List ClassMember) :
    membersFunctions ms = functionsOfAll ms :=
  eq_functionsOfAll rfl (fun _ _ => rfl) ms

@[simp] theorem patternsFunctions_eq (ps : List Pattern) :
    patternsFunctions ps = functionsOfAll ps :=
  eq_functionsOfAll rfl (fun _ _ => rfl) ps

@[simp] theorem optionalPatternFunctions_eq (p? : Option Pattern) :
    optionalPatternFunctions p? = functionsOfAny p? := by
  cases p? <;> rfl

@[simp] theorem optionalPatternsFunctions_eq (ps : List (Option Pattern)) :
    optionalPatternsFunctions ps = functionsOfAll ps :=
  eq_functionsOfAll rfl (fun p? _ => by cases p? <;> rfl) ps

@[simp] theorem patternPropertiesFunctions_eq (ps : List PatternProperty) :
    patternPropertiesFunctions ps = functionsOfAll ps :=
  eq_functionsOfAll rfl (fun _ _ => rfl) ps

@[simp] theorem declaratorsFunctions_eq (ds : List VarDeclarator) :
    declaratorsFunctions ds = functionsOfAll ds :=
  eq_functionsOfAll rfl (fun _ _ => rfl) ds

@[simp] theorem optionalForInitFunctions_eq (i? : Option ForInit) :
    optionalForInitFunctions i? = functionsOfAny i? := by
  cases i? <;> rfl

@[simp] theorem switchCasesFunctions_eq (cs : List SwitchCase) :
    switchCasesFunctions cs = functionsOfAll cs :=
  eq_functionsOfAll rfl (fun _ _ => rfl) cs

@[simp] theorem optionalHandlerFunctions_eq (c? : Option CatchClause) :
    optionalHandlerFunctions c? = functionsOfAny c? := by
  cases c? <;> rfl

@[simp] theorem optionalBlockFunctions_eq (b? : Option Block) :
    optionalBlockFunctions b? = functionsOfAny b? := by
  cases b? <;> rfl

@[simp] theorem optionalStmtFunctions_eq (s? : Option Stmt) :
    optionalStmtFunctions s? = functionsOfAny s? := by
  cases s? <;> rfl

@[simp] theorem stmtsFunctions_eq (ss : List Stmt) : stmtsFunctions ss = functionsOfAll ss :=
  eq_functionsOfAll rfl (fun _ _ => rfl) ss

/-! ### Where functions start -/

/-- Where the spans of a function start. -/
def FunctionLiteral.starts (f : FunctionLiteral) : Multiset ℕ :=
  if f.node.start = f.span.start then {f.node.start} else {f.node.start, f.span.start}

/-- Where the spans of functions start. -/
def startsOf (fs : List FunctionLiteral) : Multiset ℕ := (fs.map FunctionLiteral.starts).sum

section

variable {f : FunctionLiteral} {fs gs : List FunctionLiteral}

@[simp] theorem startsOf_nil : startsOf [] = 0 := rfl

@[simp] theorem startsOf_cons : startsOf (f :: fs) = f.starts + startsOf fs := rfl

@[simp] theorem startsOf_append : startsOf (fs ++ gs) = startsOf fs + startsOf gs := by
  rw [startsOf, List.map_append, List.sum_append]
  rfl

/-- The order of several constructs makes no difference to where functions start. -/
@[simp] theorem startsOf_reverse {α : Type} [HasFunctions α] (xs : List α) :
    startsOf (functionsOfAll xs.reverse) = startsOf (functionsOfAll xs) := by
  induction xs with
  | nil => rfl
  | cons x xs ih => simp [ih, add_comm]

/-- A function starts where its node does. -/
theorem node_start_mem_starts : f.node.start ∈ f.starts := by
  unfold FunctionLiteral.starts
  split <;> simp

/-- It starts where its own span does, too. -/
theorem span_start_mem_starts : f.span.start ∈ f.starts := by
  unfold FunctionLiteral.starts
  split
  · next h => simp [h]
  · simp

/-- It starts nowhere else. -/
theorem starts_le : f.starts ≤ {f.node.start} + {f.span.start} := by
  unfold FunctionLiteral.starts
  split
  · exact Multiset.le_add_right _ _
  · exact le_refl _

/-- What a function of some starts at, one of them starts at. -/
theorem mem_startsOf (h : f ∈ fs) {n : ℕ} (hn : n ∈ f.starts) : n ∈ startsOf fs := by
  induction fs with
  | nil => cases h
  | cons g fs ih =>
    rw [startsOf_cons, Multiset.mem_add]
    rcases List.mem_cons.mp h with rfl | h
    · exact .inl hn
    · exact .inr (ih h)

/-- Functions whose spans start apart have different ones. -/
theorem pairwise_ne_of_nodup (h : (startsOf fs).Nodup) :
    fs.Pairwise fun f g => f.node.start ≠ g.node.start ∧ f.span.start ≠ g.span.start := by
  induction fs with
  | nil => exact .nil
  | cons f fs ih =>
    rw [startsOf_cons, Multiset.nodup_add] at h
    obtain ⟨-, hfs, hdisjoint⟩ := h
    refine .cons (fun g hg => ?_) (ih hfs)
    have hapart (n : ℕ) (hf : n ∈ f.starts) (hg' : n ∈ g.starts) : False :=
      Multiset.disjoint_left.mp hdisjoint hf (mem_startsOf hg hg')
    refine ⟨fun heq => hapart _ node_start_mem_starts ?_, fun heq =>
      hapart _ span_start_mem_starts ?_⟩
    · exact heq ▸ node_start_mem_starts
    · exact heq ▸ span_start_mem_starts

end

/-- Where the functions start that are written in what is read. -/
@[simp] abbrev starts {α : Type} [HasFunctions α] (x : α) : Multiset ℕ := startsOf (functions x)

/-- What has no functions has no starts of functions. -/
theorem starts_eq_zero {α : Type} [HasFunctions α] [NoFunctions α] (x : α) : starts x = 0 := by
  rw [starts, NoFunctions.functions_eq_nil]
  rfl

end Espalier
