import Espalier.Grammar

/-!
# Programs without their spans

`Program.withoutSpans` forgets where everything in a program came from, and nothing else.
-/

namespace Espalier

/-! ### Forgetting spans -/

/-- What stands in the place of a span that is forgotten. -/
def Span.forgotten : Span := .empty 0

def Ident.withoutSpans (i : Ident) : Ident := ⟨i.name, .forgotten⟩

def TemplateElement.withoutSpans (e : TemplateElement) : TemplateElement :=
  ⟨e.cooked, e.tail, .forgotten⟩

def ImportSpecifier.withoutSpans : ImportSpecifier → ImportSpecifier
  | .default _ b => .default .forgotten b.withoutSpans
  | .star _ b => .star .forgotten b.withoutSpans
  | .named _ i b => .named .forgotten i.withoutSpans b.withoutSpans

def ExportSpecifier.withoutSpans (e : ExportSpecifier) : ExportSpecifier :=
  ⟨.forgotten, e.binding.withoutSpans, e.exported.withoutSpans⟩

mutual

/-- An expression of which all spans are forgotten. -/
def Expr.withoutSpans : Expr → Expr
  | .null _ => .null .forgotten
  | .bool _ value => .bool .forgotten value
  | .number _ value => .number .forgotten value
  | .bigint _ digits => .bigint .forgotten digits
  | .string _ value => .string .forgotten value
  | .regex _ pattern flags => .regex .forgotten pattern flags
  | .template t => .template t.withoutSpans
  | .tagged _ tag quasi => .tagged .forgotten tag.withoutSpans quasi.withoutSpans
  | .ident i => .ident i.withoutSpans
  | .this _ => .this .forgotten
  | .super _ => .super .forgotten
  | .importWord _ => .importWord .forgotten
  | .metaProperty _ object property =>
    .metaProperty .forgotten object.withoutSpans property.withoutSpans
  | .array _ es => .array .forgotten (optionalExprsWithoutSpans es)
  | .object _ ps => .object .forgotten (propertiesWithoutSpans ps)
  | .function f => .function f.withoutSpans
  | .arrow a => .arrow a.withoutSpans
  | .classExpr c => .classExpr c.withoutSpans
  | .unary _ op e => .unary .forgotten op e.withoutSpans
  | .update _ op isPrefix e => .update .forgotten op isPrefix e.withoutSpans
  | .binary _ op l r => .binary .forgotten op l.withoutSpans r.withoutSpans
  | .logical _ op l r => .logical .forgotten op l.withoutSpans r.withoutSpans
  | .assign _ op l r => .assign .forgotten op l.withoutSpans r.withoutSpans
  | .conditional _ t c a => .conditional .forgotten t.withoutSpans c.withoutSpans a.withoutSpans
  | .sequence _ es => .sequence .forgotten (exprsWithoutSpans es)
  | .member _ o p isOptional => .member .forgotten o.withoutSpans p.withoutSpans isOptional
  | .call _ f args isOptional => .call .forgotten f.withoutSpans (exprsWithoutSpans args) isOptional
  | .new _ f args => .new .forgotten f.withoutSpans (exprsWithoutSpans args)
  | .spread _ e => .spread .forgotten e.withoutSpans
  | .yield _ e delegate => .yield .forgotten (optionalExprWithoutSpans e) delegate
  | .await _ e => .await .forgotten e.withoutSpans

def MemberName.withoutSpans : MemberName → MemberName
  | .ident i => .ident i.withoutSpans
  | .computed e => .computed e.withoutSpans

def exprsWithoutSpans : List Expr → List Expr
  | [] => []
  | e :: es => e.withoutSpans :: exprsWithoutSpans es

def optionalExprWithoutSpans : Option Expr → Option Expr
  | none => none
  | some e => some e.withoutSpans

def optionalExprsWithoutSpans : List (Option Expr) → List (Option Expr)
  | [] => []
  | none :: es => none :: optionalExprsWithoutSpans es
  | some e :: es => some e.withoutSpans :: optionalExprsWithoutSpans es

def Template.withoutSpans : Template → Template
  | ⟨quasis, es, _⟩ => ⟨quasis.map TemplateElement.withoutSpans, exprsWithoutSpans es, .forgotten⟩

def PropertyKey.withoutSpans : PropertyKey → PropertyKey
  | .ident i => .ident i.withoutSpans
  | .literal e => .literal e.withoutSpans
  | .computed e => .computed e.withoutSpans

def Property.withoutSpans : Property → Property
  | .init _ k value shorthand => .init .forgotten k.withoutSpans value.withoutSpans shorthand
  | .method _ k kind f => .method .forgotten k.withoutSpans kind f.withoutSpans
  | .spread _ e => .spread .forgotten e.withoutSpans

def propertiesWithoutSpans : List Property → List Property
  | [] => []
  | p :: ps => p.withoutSpans :: propertiesWithoutSpans ps

def Func.withoutSpans : Func → Func
  | ⟨id, params, body, isAsync, isGenerator, _⟩ =>
    ⟨id.map Ident.withoutSpans, patternsWithoutSpans params, body.withoutSpans, isAsync,
      isGenerator, .forgotten⟩

def Arrow.withoutSpans : Arrow → Arrow
  | ⟨params, body, isAsync, _⟩ =>
    ⟨patternsWithoutSpans params, body.withoutSpans, isAsync, .forgotten⟩

def ArrowBody.withoutSpans : ArrowBody → ArrowBody
  | .expr e => .expr e.withoutSpans
  | .block b => .block b.withoutSpans

def Class.withoutSpans : Class → Class
  | ⟨id, superClass, body, _⟩ =>
    ⟨id.map Ident.withoutSpans, optionalExprWithoutSpans superClass, body.withoutSpans, .forgotten⟩

def ClassBody.withoutSpans : ClassBody → ClassBody
  | ⟨members, _⟩ => ⟨membersWithoutSpans members, .forgotten⟩

def ClassMember.withoutSpans : ClassMember → ClassMember
  | .method _ k kind isStatic f => .method .forgotten k.withoutSpans kind isStatic f.withoutSpans
  | .property _ k value isStatic =>
    .property .forgotten k.withoutSpans (optionalExprWithoutSpans value) isStatic

def membersWithoutSpans : List ClassMember → List ClassMember
  | [] => []
  | m :: ms => m.withoutSpans :: membersWithoutSpans ms

/-- A pattern of which all spans are forgotten. -/
def Pattern.withoutSpans : Pattern → Pattern
  | .ident i => .ident i.withoutSpans
  | .array _ ps => .array .forgotten (optionalPatternsWithoutSpans ps)
  | .object _ ps => .object .forgotten (patternPropertiesWithoutSpans ps)
  | .default _ l r => .default .forgotten l.withoutSpans r.withoutSpans
  | .rest _ p => .rest .forgotten p.withoutSpans
  | .target e => .target e.withoutSpans

def patternsWithoutSpans : List Pattern → List Pattern
  | [] => []
  | p :: ps => p.withoutSpans :: patternsWithoutSpans ps

def optionalPatternWithoutSpans : Option Pattern → Option Pattern
  | none => none
  | some p => some p.withoutSpans

def optionalPatternsWithoutSpans : List (Option Pattern) → List (Option Pattern)
  | [] => []
  | none :: ps => none :: optionalPatternsWithoutSpans ps
  | some p :: ps => some p.withoutSpans :: optionalPatternsWithoutSpans ps

def PatternProperty.withoutSpans : PatternProperty → PatternProperty
  | .entry _ k value shorthand => .entry .forgotten k.withoutSpans value.withoutSpans shorthand
  | .rest _ p => .rest .forgotten p.withoutSpans

def patternPropertiesWithoutSpans : List PatternProperty → List PatternProperty
  | [] => []
  | p :: ps => p.withoutSpans :: patternPropertiesWithoutSpans ps

def Block.withoutSpans : Block → Block
  | ⟨body, _⟩ => ⟨stmtsWithoutSpans body, .forgotten⟩

def VarDecl.withoutSpans : VarDecl → VarDecl
  | ⟨kind, ds, _⟩ => ⟨kind, declaratorsWithoutSpans ds, .forgotten⟩

def VarDeclarator.withoutSpans : VarDeclarator → VarDeclarator
  | ⟨id, init, _⟩ => ⟨id.withoutSpans, optionalExprWithoutSpans init, .forgotten⟩

def declaratorsWithoutSpans : List VarDeclarator → List VarDeclarator
  | [] => []
  | d :: ds => d.withoutSpans :: declaratorsWithoutSpans ds

def ForInit.withoutSpans : ForInit → ForInit
  | .decl d => .decl d.withoutSpans
  | .expr e => .expr e.withoutSpans

def forInitWithoutSpans : Option ForInit → Option ForInit
  | none => none
  | some i => some i.withoutSpans

def ForHead.withoutSpans : ForHead → ForHead
  | .decl d => .decl d.withoutSpans
  | .pattern p => .pattern p.withoutSpans

def SwitchCase.withoutSpans : SwitchCase → SwitchCase
  | ⟨test, body, _⟩ => ⟨optionalExprWithoutSpans test, stmtsWithoutSpans body, .forgotten⟩

def switchCasesWithoutSpans : List SwitchCase → List SwitchCase
  | [] => []
  | c :: cs => c.withoutSpans :: switchCasesWithoutSpans cs

def CatchClause.withoutSpans : CatchClause → CatchClause
  | ⟨param, body, _⟩ => ⟨optionalPatternWithoutSpans param, body.withoutSpans, .forgotten⟩

def handlerWithoutSpans : Option CatchClause → Option CatchClause
  | none => none
  | some c => some c.withoutSpans

def optionalBlockWithoutSpans : Option Block → Option Block
  | none => none
  | some b => some b.withoutSpans

def ExportDefault.withoutSpans : ExportDefault → ExportDefault
  | .function f => .function f.withoutSpans
  | .classDecl c => .classDecl c.withoutSpans
  | .expr e => .expr e.withoutSpans

/-- A statement of which all spans are forgotten. -/
def Stmt.withoutSpans : Stmt → Stmt
  | .var d => .var d.withoutSpans
  | .function f => .function f.withoutSpans
  | .classDecl c => .classDecl c.withoutSpans
  | .block b => .block b.withoutSpans
  | .expr _ e => .expr .forgotten e.withoutSpans
  | .empty _ => .empty .forgotten
  | .debugger _ => .debugger .forgotten
  | .ifThen _ t c a => .ifThen .forgotten t.withoutSpans c.withoutSpans (optionalStmtWithoutSpans a)
  | .switch _ e cs => .switch .forgotten e.withoutSpans (switchCasesWithoutSpans cs)
  | .forLoop _ i t u b =>
    .forLoop .forgotten (forInitWithoutSpans i) (optionalExprWithoutSpans t)
      (optionalExprWithoutSpans u) b.withoutSpans
  | .forIn _ l r b => .forIn .forgotten l.withoutSpans r.withoutSpans b.withoutSpans
  | .forOf _ l r b isAwait => .forOf .forgotten l.withoutSpans r.withoutSpans b.withoutSpans isAwait
  | .whileLoop _ t b => .whileLoop .forgotten t.withoutSpans b.withoutSpans
  | .doWhile _ b t => .doWhile .forgotten b.withoutSpans t.withoutSpans
  | .breakTo _ label => .breakTo .forgotten (label.map Ident.withoutSpans)
  | .continueTo _ label => .continueTo .forgotten (label.map Ident.withoutSpans)
  | .returns _ e => .returns .forgotten (optionalExprWithoutSpans e)
  | .throws _ e => .throws .forgotten e.withoutSpans
  | .tryCatch _ b h f =>
    .tryCatch .forgotten b.withoutSpans (handlerWithoutSpans h) (optionalBlockWithoutSpans f)
  | .labeled _ label b => .labeled .forgotten label.withoutSpans b.withoutSpans
  | .importDecl _ specifiers source =>
    .importDecl .forgotten (specifiers.map ImportSpecifier.withoutSpans) source.withoutSpans
  | .exportNamed _ declaration specifiers source =>
    .exportNamed .forgotten (optionalStmtWithoutSpans declaration)
      (specifiers.map ExportSpecifier.withoutSpans) (optionalExprWithoutSpans source)
  | .exportDefault _ declaration => .exportDefault .forgotten declaration.withoutSpans
  | .exportAll _ name source =>
    .exportAll .forgotten (name.map Ident.withoutSpans) source.withoutSpans

def optionalStmtWithoutSpans : Option Stmt → Option Stmt
  | none => none
  | some s => some s.withoutSpans

def stmtsWithoutSpans : List Stmt → List Stmt
  | [] => []
  | s :: ss => s.withoutSpans :: stmtsWithoutSpans ss

end

attribute [simp] Ident.withoutSpans TemplateElement.withoutSpans ImportSpecifier.withoutSpans
  ExportSpecifier.withoutSpans Expr.withoutSpans MemberName.withoutSpans Template.withoutSpans
  PropertyKey.withoutSpans Property.withoutSpans Func.withoutSpans Arrow.withoutSpans
  ArrowBody.withoutSpans Class.withoutSpans ClassBody.withoutSpans ClassMember.withoutSpans
  Pattern.withoutSpans PatternProperty.withoutSpans Block.withoutSpans VarDecl.withoutSpans
  VarDeclarator.withoutSpans
  ForInit.withoutSpans ForHead.withoutSpans SwitchCase.withoutSpans CatchClause.withoutSpans
  ExportDefault.withoutSpans Stmt.withoutSpans

section

variable {α : Type} {f : α → α}

/-- A function on lists that takes each element for itself. -/
theorem eq_map_of_cons (fs : List α → List α) (hnil : fs [] = [])
    (hcons : ∀ a as, fs (a :: as) = f a :: fs as) (as : List α) : fs as = as.map f := by
  induction as with
  | nil => exact hnil
  | cons a as ih => rw [hcons, ih, List.map_cons]

/-- A function on lists with holes that takes each element for itself. -/
theorem eq_map_of_cons_some (fs : List (Option α) → List (Option α)) (hnil : fs [] = [])
    (hnone : ∀ as, fs (none :: as) = none :: fs as)
    (hsome : ∀ a as, fs (some a :: as) = some (f a) :: fs as) (as : List (Option α)) :
    fs as = as.map (Option.map f) :=
  eq_map_of_cons fs hnil (fun a as => by cases a with
    | none => exact hnone as
    | some a => exact hsome a as) as

end

/-! Lists and optional parts are taken element by element. -/

@[simp] theorem exprsWithoutSpans_eq (xs : List Expr) :
    exprsWithoutSpans xs = xs.map Expr.withoutSpans :=
  eq_map_of_cons exprsWithoutSpans rfl (fun _ _ => rfl) xs

@[simp] theorem optionalExprWithoutSpans_eq (x : Option Expr) :
    optionalExprWithoutSpans x = x.map Expr.withoutSpans := by
  cases x <;> rfl

@[simp] theorem optionalExprsWithoutSpans_eq (xs : List (Option Expr)) :
    optionalExprsWithoutSpans xs = xs.map (Option.map Expr.withoutSpans) :=
  eq_map_of_cons_some optionalExprsWithoutSpans rfl (fun _ => rfl) (fun _ _ => rfl) xs

@[simp] theorem propertiesWithoutSpans_eq (xs : List Property) :
    propertiesWithoutSpans xs = xs.map Property.withoutSpans :=
  eq_map_of_cons propertiesWithoutSpans rfl (fun _ _ => rfl) xs

@[simp] theorem membersWithoutSpans_eq (xs : List ClassMember) :
    membersWithoutSpans xs = xs.map ClassMember.withoutSpans :=
  eq_map_of_cons membersWithoutSpans rfl (fun _ _ => rfl) xs

@[simp] theorem patternsWithoutSpans_eq (xs : List Pattern) :
    patternsWithoutSpans xs = xs.map Pattern.withoutSpans :=
  eq_map_of_cons patternsWithoutSpans rfl (fun _ _ => rfl) xs

@[simp] theorem optionalPatternWithoutSpans_eq (x : Option Pattern) :
    optionalPatternWithoutSpans x = x.map Pattern.withoutSpans := by
  cases x <;> rfl

@[simp] theorem optionalPatternsWithoutSpans_eq (xs : List (Option Pattern)) :
    optionalPatternsWithoutSpans xs = xs.map (Option.map Pattern.withoutSpans) :=
  eq_map_of_cons_some optionalPatternsWithoutSpans rfl (fun _ => rfl) (fun _ _ => rfl) xs

@[simp] theorem patternPropertiesWithoutSpans_eq (xs : List PatternProperty) :
    patternPropertiesWithoutSpans xs = xs.map PatternProperty.withoutSpans :=
  eq_map_of_cons patternPropertiesWithoutSpans rfl (fun _ _ => rfl) xs

@[simp] theorem declaratorsWithoutSpans_eq (xs : List VarDeclarator) :
    declaratorsWithoutSpans xs = xs.map VarDeclarator.withoutSpans :=
  eq_map_of_cons declaratorsWithoutSpans rfl (fun _ _ => rfl) xs

@[simp] theorem forInitWithoutSpans_eq (x : Option ForInit) :
    forInitWithoutSpans x = x.map ForInit.withoutSpans := by
  cases x <;> rfl

@[simp] theorem switchCasesWithoutSpans_eq (xs : List SwitchCase) :
    switchCasesWithoutSpans xs = xs.map SwitchCase.withoutSpans :=
  eq_map_of_cons switchCasesWithoutSpans rfl (fun _ _ => rfl) xs

@[simp] theorem handlerWithoutSpans_eq (x : Option CatchClause) :
    handlerWithoutSpans x = x.map CatchClause.withoutSpans := by
  cases x <;> rfl

@[simp] theorem optionalBlockWithoutSpans_eq (x : Option Block) :
    optionalBlockWithoutSpans x = x.map Block.withoutSpans := by
  cases x <;> rfl

@[simp] theorem optionalStmtWithoutSpans_eq (x : Option Stmt) :
    optionalStmtWithoutSpans x = x.map Stmt.withoutSpans := by
  cases x <;> rfl

@[simp] theorem stmtsWithoutSpans_eq (xs : List Stmt) :
    stmtsWithoutSpans xs = xs.map Stmt.withoutSpans :=
  eq_map_of_cons stmtsWithoutSpans rfl (fun _ _ => rfl) xs

/-- A program of which all spans are forgotten. -/
def Program.withoutSpans (p : Program) : Program :=
  ⟨stmtsWithoutSpans p.body, p.sourceType, .forgotten⟩

/-! ### Alike results -/

/-- What is left of a value if it is forgotten where in a source it was read. -/
class Bare (α : Type) where
  bare : α → α

export Bare (bare)

/-- Nothing but places in a source tells two values apart. -/
def Alike {α : Type} [Bare α] (a b : α) : Prop := bare a = bare b

theorem Alike.refl {α : Type} [Bare α] (a : α) : Alike a a := rfl

attribute [simp] Alike Bare.bare

/-- Numbers are read as places only. -/
instance : Bare Nat := ⟨fun _ => 0⟩

instance : Bare Span := ⟨fun _ => .forgotten⟩

instance : Bare Unit := ⟨id⟩

instance : Bare Bool := ⟨id⟩

instance : Bare MethodKind := ⟨id⟩

instance : Bare Grammar.MethodModifiers := ⟨id⟩

instance : Bare Token := ⟨fun t => ⟨t.kind, .forgotten, t.newlineBefore⟩⟩

section

variable {α β : Type} [Bare α] [Bare β]

instance : Bare (Option α) := ⟨Option.map bare⟩

instance : Bare (List α) := ⟨List.map bare⟩

instance : Bare (α × β) := ⟨Prod.map bare bare⟩

instance : Bare (Parse.Round α) where
  bare
    | .again a => .again (bare a)
    | .last a => .last (bare a)

/-- Lists that are alike are so in reverse. -/
theorem Alike.reverse {as as' : List α} (h : Alike as as') : Alike as.reverse as'.reverse := by
  show as.reverse.map bare = as'.reverse.map bare
  rw [List.map_reverse, List.map_reverse, show as.map bare = as'.map bare from h]

/-- And with one more item in front. -/
theorem Alike.cons {a a' : α} {as as' : List α} (ha : Alike a a') (h : Alike as as') :
    Alike (a :: as) (a' :: as') := by
  show bare a :: as.map bare = bare a' :: as'.map bare
  rw [show bare a = bare a' from ha, show as.map bare = as'.map bare from h]

theorem Alike.some {a a' : α} (h : Alike a a') : Alike (Option.some a) (Option.some a') :=
  congrArg Option.some h

/-- Of two parts that are alike, both are there or none is. -/
theorem Alike.isNone {x x' : Option α} (h : Alike x x') : x'.isNone = x.isNone := by
  simpa using (congrArg Option.isNone h).symm

theorem Alike.again {a a' : α} (h : Alike a a') : Alike (Parse.Round.again a) (.again a') :=
  congrArg Parse.Round.again h

theorem Alike.last {a a' : α} (h : Alike a a') : Alike (Parse.Round.last a) (.last a') :=
  congrArg Parse.Round.last h

end

instance : Bare Ident := ⟨Ident.withoutSpans⟩

instance : Bare TemplateElement := ⟨TemplateElement.withoutSpans⟩

instance : Bare ImportSpecifier := ⟨ImportSpecifier.withoutSpans⟩

instance : Bare ExportSpecifier := ⟨ExportSpecifier.withoutSpans⟩

instance : Bare Expr := ⟨Expr.withoutSpans⟩

instance : Bare MemberName := ⟨MemberName.withoutSpans⟩

instance : Bare Template := ⟨Template.withoutSpans⟩

instance : Bare PropertyKey := ⟨PropertyKey.withoutSpans⟩

instance : Bare Property := ⟨Property.withoutSpans⟩

instance : Bare Func := ⟨Func.withoutSpans⟩

instance : Bare Arrow := ⟨Arrow.withoutSpans⟩

instance : Bare ArrowBody := ⟨ArrowBody.withoutSpans⟩

instance : Bare Class := ⟨Class.withoutSpans⟩

instance : Bare ClassBody := ⟨ClassBody.withoutSpans⟩

instance : Bare ClassMember := ⟨ClassMember.withoutSpans⟩

instance : Bare Pattern := ⟨Pattern.withoutSpans⟩

instance : Bare PatternProperty := ⟨PatternProperty.withoutSpans⟩

instance : Bare Block := ⟨Block.withoutSpans⟩

instance : Bare VarDecl := ⟨VarDecl.withoutSpans⟩

instance : Bare VarDeclarator := ⟨VarDeclarator.withoutSpans⟩

instance : Bare ForInit := ⟨ForInit.withoutSpans⟩

instance : Bare ForHead := ⟨ForHead.withoutSpans⟩

instance : Bare SwitchCase := ⟨SwitchCase.withoutSpans⟩

instance : Bare CatchClause := ⟨CatchClause.withoutSpans⟩

instance : Bare ExportDefault := ⟨ExportDefault.withoutSpans⟩

instance : Bare Stmt := ⟨Stmt.withoutSpans⟩

end Espalier
