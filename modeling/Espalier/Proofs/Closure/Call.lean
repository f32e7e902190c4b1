import Espalier.Plugin.Module
import Espalier.Proofs.Closure.Evaluation
import Espalier.Proofs.Node.View

/-!
# How functions are called

A function node of a program is one of its functions, and so are those inside it: what is in a place
of a construct is in the construct (`Program.functions_nodeAt?_subset`). How a function is called is
said here of the function as it is written (`Script.Evaluator.apply`,
`Script.Evaluator.applyArrow`), without the code that the machine has put by for its span. What a
run makes of a function node is called so, wherever the node stands: in an expression, a declaration
or an export (`Script.makeFunction_runs`, `Script.makeArrow_runs`), or as a method
(`Script.addProperty_runs`).
-/

namespace Espalier

open Field Slot Items

variable {α β : Type} {L : List FunctionLiteral}

/-! ### Functions in nodes -/

/-- The functions in a node, and the one that it is. -/
def Node.functions : Node → List FunctionLiteral
  | program p => p.functions
  | stmt s => s.functions
  | block b => b.functions
  | varDecl d => d.functions
  | declarator d => d.functions
  | function f _ => .ofFunction f :: f.functions
  | arrow a => .ofArrow a :: a.functions
  | classDef c _ => c.functions
  | classBody b => b.functions
  | classMember m => m.functions
  | switchCase c => c.functions
  | catchClause c => c.functions
  | expr e => e.functions
  | template t => t.functions
  | property p => p.functions
  | patternProperty p => p.functions
  | pattern p => p.functions
  | importSpecifier _ | exportSpecifier _ | templateElement _ | ident _ => []

namespace Slot

/-- A way to make places of a `β` whose node has the functions of the `β`. -/
class Holds [HasFunctions β] (slot : β → (β → α) → Slot α) : Prop where
  functions_node (x : β) (put : β → α) : (slot x put).node.functions = functions x

/-- The node in a place has the functions of what stands there. -/
theorem functions_node [HasFunctions β] (slot : β → (β → α) → Slot α) [Holds slot] (x : β)
    (put : β → α) : (slot x put).node.functions = functions x :=
  Holds.functions_node x put

instance : Holds (@atStmt α) := ⟨fun s _ => by cases s <;> rfl⟩

instance : Holds (@atExpr α) := ⟨fun e _ => by cases e <;> rfl⟩

instance : Holds (@atPattern α) where
  functions_node p _ := by
    cases p with
    | target e => exact functions_node atExpr e id
    | _ => rfl

instance : Holds (@atIdent α) := ⟨fun _ _ => rfl⟩
instance : Holds (@atBlock α) := ⟨fun _ _ => rfl⟩
instance : Holds (@atVarDecl α) := ⟨fun _ _ => rfl⟩
instance : Holds (@atDeclarator α) := ⟨fun _ _ => rfl⟩
instance : Holds (@atClass α) := ⟨fun _ _ => rfl⟩
instance : Holds (@atClassBody α) := ⟨fun _ _ => rfl⟩
instance : Holds (@atClassMember α) := ⟨fun _ _ => rfl⟩
instance : Holds (@atSwitchCase α) := ⟨fun _ _ => rfl⟩
instance : Holds (@atCatchClause α) := ⟨fun _ _ => rfl⟩
instance : Holds (@atImportSpecifier α) := ⟨fun _ _ => rfl⟩
instance : Holds (@atExportSpecifier α) := ⟨fun _ _ => rfl⟩
instance : Holds (@atTemplate α) := ⟨fun _ _ => rfl⟩
instance : Holds (@atTemplateElement α) := ⟨fun _ _ => rfl⟩
instance : Holds (@atProperty α) := ⟨fun _ _ => rfl⟩
instance : Holds (@atPatternProperty α) := ⟨fun _ _ => rfl⟩

instance : Holds (@atKey α) where
  functions_node key _ := by
    cases key with
    | ident i => rfl
    | literal e | computed e => exact functions_node atExpr e id

instance : Holds (@MemberName.slot α) where
  functions_node name _ := by
    cases name with
    | ident i => rfl
    | computed e => exact functions_node atExpr e id

instance : Holds (@ForInit.slot α) where
  functions_node init _ := by
    cases init with
    | decl d => rfl
    | expr e => exact functions_node atExpr e id

instance : Holds (@ForHead.slot α) where
  functions_node head _ := by
    cases head with
    | decl d => rfl
    | pattern p => exact functions_node atPattern p id

instance : Holds (@ArrowBody.slot α) where
  functions_node body _ := by
    cases body with
    | expr e => exact functions_node atExpr e id
    | block b => rfl

instance : Holds (@ExportDefault.slot α) where
  functions_node declaration _ := by
    cases declaration with
    | function f | classDecl c => rfl
    | expr e => exact functions_node atExpr e id

end Slot

namespace Field

/-- The functions in the places of this field are all among `L`. -/
def IsWithin (L : List FunctionLiteral) (field : String × Field α) : Prop :=
  match field with
  | (_, .child slot) => slot.node.functions ⊆ L
  | (_, .list items) => ∀ slot ∈ items.slots, slot.node.functions ⊆ L
  | _ => True

section

variable (name : String)

@[simp] theorem isWithin_value (scalar : Scalar) (set : Scalar → Except EditError α) :
    IsWithin L (name, .value scalar set) := trivial

@[simp] theorem isWithin_fixed (scalar : Scalar) :
    IsWithin L ((name, .fixed scalar) : String × Field α) := trivial

@[simp] theorem isWithin_absent : IsWithin L ((name, .absent) : String × Field α) := trivial

@[simp] theorem isWithin_flag (value : Bool) (put : Bool → α) :
    IsWithin L (flag name value put) := trivial

@[simp] theorem isWithin_text (value : String) (put : String → α) :
    IsWithin L (text name value put) := trivial

@[simp] theorem isWithin_word (value : String) (ofText? : String → Option β) (put : β → α) :
    IsWithin L (word name value ofText? put) := trivial

@[simp] theorem isWithin_fixedFlag (value : Bool) :
    IsWithin L (fixedFlag name value : String × Field α) := trivial

@[simp] theorem isWithin_computedKey (key : PropertyKey) (put : PropertyKey → α) :
    IsWithin L (computedKey key put) := trivial

variable [HasFunctions β] {slot : β → (β → α) → Slot α} [Holds slot]

@[simp] theorem isWithin_one (x : β) (put : β → α) :
    IsWithin L (one name (slot x put)) ↔ functions x ⊆ L := by
  rw [← functions_node slot x put]
  rfl

@[simp] theorem isWithin_optional (x? : Option β) (put : Option β → α) :
    IsWithin L (optional name slot x? put) ↔ functionsOfAny x? ⊆ L := by
  cases x? with
  | none => exact iff_of_true trivial (List.nil_subset L)
  | some x => exact isWithin_one name x _

theorem isWithin_many_ofList {xs : List β} (h : functionsOfAll xs ⊆ L) (put : List β → α) :
    IsWithin L (many name (ofList slot xs put)) := by
  intro s hs
  obtain ⟨⟨x, i⟩, hx, rfl⟩ := List.mem_map.mp hs
  rw [functions_node slot x]
  exact functionsOfAll_subset.mp h x (List.fst_mem_of_mem_zipIdx hx)

theorem isWithin_many_ofParts {xs : List β} (h : functionsOfAll xs ⊆ L) (put : List β → α) :
    IsWithin L (many name (ofParts slot xs put)) :=
  isWithin_many_ofList name h put

/-- A list with holes is within if its functions are. -/
theorem isWithin_many_ofHoles {xs : List (Option β)} (h : functionsOfAll xs ⊆ L)
    (put : List (Option β) → α) : IsWithin L (many name (ofHoles slot xs put)) := by
  intro s hs
  obtain ⟨⟨x, i⟩, hx, rfl⟩ := List.mem_map.mp hs
  obtain ⟨⟨x?, j⟩, hmem, hpair⟩ := List.mem_filterMap.mp hx
  obtain ⟨y, rfl, hpair⟩ := Option.map_eq_some_iff.mp hpair
  cases hpair
  rw [functions_node slot x]
  exact functionsOfAll_subset.mp h (some x) (List.fst_mem_of_mem_zipIdx hmem)

end

end Field

namespace Node

/-- The fields of a function are within those of the function. -/
theorem isWithin_func (f : Func) (h : f.functions ⊆ L) (put : Func → α) :
    ∀ field ∈ f.nodeFields put, IsWithin L field := by
  cases f
  simp [-functionsOfAll_subset] at h
  simp [Func.nodeFields, isWithin_many_ofList, h]

/-- What is in a place of a construct is in the construct. -/
theorem isWithin_of_mem_fields {n : Node} (h : n.functions ⊆ L) :
    ∀ field ∈ n.fields, IsWithin L field := by
  -- The fields are taken one kind of node at a time; each of them shows parts that the functions of
  -- the node are collected from.
  cases n with
  | program p =>
    have hbody : functionsOfAll p.body ⊆ L := stmtsFunctions_eq p.body ▸ h
    simp only [fields, List.forall_mem_cons]
    exact ⟨trivial, isWithin_many_ofList _ hbody _, List.forall_mem_nil _⟩
  | expr e =>
    cases e <;> simp [functions, -functionsOfAll_subset, -functionsOfAny_subset] at h <;>
      simp [fields, Expr.nodeFields, isWithin_many_ofList, isWithin_many_ofHoles, h,
        -functionsOfAny_subset]
  | stmt part | pattern part | importSpecifier part | patternProperty part =>
    cases part <;> simp [functions, -functionsOfAll_subset, -functionsOfAny_subset] at h <;>
      simp [fields, Stmt.nodeFields, Pattern.nodeFields, ImportSpecifier.nodeFields,
        PatternProperty.nodeFields, isWithin_many_ofList, isWithin_many_ofHoles, h,
        -functionsOfAny_subset]
  | classMember m =>
    cases m with
    | method s key kind isStatic f =>
      simp [functions] at h
      refine List.forall_mem_append.mpr ⟨?_, isWithin_func f h.2.2 _⟩
      simp [h]
    | property =>
      simp [functions, -functionsOfAny_subset] at h
      simp [fields, ClassMember.nodeFields, h, -functionsOfAny_subset]
  | property p =>
    cases p with
    | method s key kind f =>
      simp [functions] at h
      refine List.forall_mem_append.mpr ⟨?_, isWithin_func f h.2.2 _⟩
      simp [h]
    | init | spread =>
      simp [functions] at h
      simp [fields, Property.nodeFields, h]
  | function f standing =>
    refine List.forall_mem_cons.mpr ⟨?_, isWithin_func f (List.cons_subset.mp h).2 _⟩
    simp
  | classDef f standing | _ f =>
    cases f
    simp [functions, -functionsOfAll_subset, -functionsOfAny_subset] at h
    simp [fields, isWithin_many_ofList, isWithin_many_ofParts, h, -functionsOfAny_subset]

/-- One step down there are no other functions than above. -/
theorem functions_slot?_subset {n : Node} {step : Step} {slot : Slot Node}
    (h : n.slot? step = some slot) : slot.node.functions ⊆ n.functions := by
  have hwithin := isWithin_of_mem_fields (List.Subset.refl n.functions)
  rcases mem_fields_of_slot? h with hmem | ⟨items, hmem, hslot⟩
  · exact hwithin _ hmem
  · exact hwithin _ hmem slot hslot

/-- Nor are there at the end of a path. -/
theorem functions_descend?_subset {n k : Node} {path : List Step} (h : n.descend? path = some k) :
    k.functions ⊆ n.functions := by
  induction path generalizing n with
  | nil =>
    cases h
    exact List.Subset.refl _
  | cons step path ih =>
    obtain ⟨slot, hslot, hrest⟩ := Option.bind_eq_some_iff.mp h
    exact List.Subset.trans (ih hrest) (functions_slot?_subset hslot)

end Node

theorem Program.functions_nodeAt?_subset {p : Program} {path : List Step} {n : Node}
    (h : p.nodeAt? path = some n) : n.functions ⊆ p.functions :=
  Node.functions_descend?_subset h

/-! ### What is carried out -/

namespace Script

namespace Evaluator

variable (self : Evaluator)

/-- The parameters of a function get the arguments at their places; what stands for the rest gets an
array of those that are left. -/
def bindArguments (params : List Pattern) (args : Array Value) (env : Env) : Script Unit :=
  params.zipIdx.forM fun (p, i) =>
    match p with
    | .rest _ p => do self.bind p (← newArray (args.extract i args.size)) env .blockVariable
    | p => self.bind p (args.getD i .undefined) env .blockVariable

/-- The value of the body of a function: that of an expression, or what statements return. -/
def runBody (body : ArrowBody) (env : Env) : Script Value := do
  match body with
  | .expr e => self.eval e env
  | .block b =>
    match ← self.execBody b.body env with
    | .returned v => return v
    | _ => return .undefined

/-- A call of the function that is written so, within the scopes that it is written in. -/
def apply (f : Func) (env : Env) (this : Value) (args : Array Value) : Script Value := do
  tick
  if f.isAsync || f.isGenerator then raise (.unsupported "Async functions and generators")
  let all ← newArray args
  let scope ← newScope
    { bindings := [("arguments", ⟨all, true⟩)], this := some this, isFunction := true } env
  self.bindArguments f.params args scope
  self.runBody (.block f.body) scope

/-- A call of the arrow function that is written so. -/
def applyArrow (a : Arrow) (env : Env) (args : Array Value) : Script Value := do
  tick
  if a.isAsync then raise (.unsupported "Async functions and generators")
  let scope ← newScope { isFunction := true } env
  self.bindArguments a.params args scope
  self.runBody a.body scope

/-- Parameters are bound like the elements of an array, each to the argument at its place. -/
theorem bindElements_eq (args : Array Value) (env : Env) (i : Nat) (params : List Pattern) :
    self.bindElements args env .blockVariable i (params.map some) =
      (params.zipIdx i).forM fun (p, i) =>
        match p with
        | .rest _ p => do self.bind p (← newArray (args.extract i args.size)) env .blockVariable
        | p => self.bind p (args.getD i .undefined) env .blockVariable := by
  induction params generalizing i with
  | nil => rfl
  | cons p params ih =>
    rw [List.map_cons, List.zipIdx_cons, List.forM_eq_forM, List.forM_cons, ← List.forM_eq_forM,
      ← ih]
    cases p with
    | rest s p => exact (bind_assoc ..).symm
    | _ => rfl

theorem bindParams_eq (args : Array Value) (env : Env) (params : List Pattern) :
    self.bindParams args env 0 params = self.bindArguments params args env :=
  self.bindElements_eq args env 0 params

/-- A closure of a function is called as the function is written. -/
theorem callClosure_ofFunction (id : Nat) (name : String) (f : Func) (env : Env) (this : Value)
    (args : Array Value) :
    self.callClosure ⟨id, name, .ofFunction f, env⟩ this args = self.apply f env this args := by
  simp only [callClosure, bindParams_eq]
  obtain ⟨name, params, body, isAsync, isGenerator, span⟩ := f
  cases isAsync <;> cases isGenerator <;> rfl

/-- A closure of an arrow function, likewise; it has no use for a receiver. -/
theorem callClosure_ofArrow (id : Nat) (name : String) (a : Arrow) (env : Env) (this : Value)
    (args : Array Value) :
    self.callClosure ⟨id, name, .ofArrow a, env⟩ this args = self.applyArrow a env args := by
  simp only [callClosure, bindParams_eq]
  obtain ⟨params, body, isAsync, span⟩ := a
  cases body <;> cases isAsync <;> rfl

end Evaluator

/-- Every call of a function is one of the function that is written so, in the given scopes. -/
def Closure.Runs (c : Closure) (env : Env) (f : Func) : Prop :=
  ∀ fuel this args, (Evaluator.ofFuel (fuel + 1)).call (.function c) this args =
    callingDeeper ((Evaluator.ofFuel fuel).apply f env this args)

/-- Every call of a function is one of the arrow function that is written so. -/
def Closure.RunsArrow (c : Closure) (env : Env) (a : Arrow) : Prop :=
  ∀ fuel this args, (Evaluator.ofFuel (fuel + 1)).call (.function c) this args =
    callingDeeper ((Evaluator.ofFuel fuel).applyArrow a env args)

variable {m : Machine} {env : Env}

section

variable (hL : L.Pairwise fun f g => f.span ≠ g.span) (hm : IsFrom L m)

include hL hm

/-- What is made of a function with the code of `f` is called as `f` is written. -/
theorem newClosure_runs {node : Span} {f : Func} (hf : ⟨node, f.span, .ofFunction f⟩ ∈ L)
    (name : String) :
    ∃ c m', newClosure f.span name (.ofFunction f) env m = .ok (.function c) m' ∧ IsFrom L m' ∧
      c.Runs env f := by
  obtain ⟨known, heq, hm'⟩ := newClosure_eq hL hf name env hm
  exact ⟨_, _, heq, hm', fun fuel this args =>
    congrArg callingDeeper (Evaluator.callClosure_ofFunction _ _ _ f env this args)⟩

/-- A function node is made to a function that is called as it is written, where its value is asked
for, where its statement is carried out at the start of a block, and where it is exported. -/
theorem makeFunction_runs {f : Func} {standing : Standing}
    (hf : (Node.function f standing).functions ⊆ L) :
    ∃ c m', IsFrom L m' ∧ c.Runs env f ∧
      (∀ fuel, (Evaluator.ofFuel (fuel + 1)).eval (.function f) env m = .ok (.function c) m') ∧
      (∀ id s stmts, f.id = some id → declaredFunction? s = some f →
        hoist (s :: stmts) env m =
          (declare env id.name (.function c) true >>= fun _ => hoist stmts env) m') ∧
      ∀ self exports done span,
        Plugin.execItem self exports env done (.exportDefault span (.function f)) m =
          (do
            if let some id := f.id then declare env id.name (.function c) true
            return { done with default := some (.function c) } : Script Plugin.Exports) m' := by
  obtain ⟨c, m', heq, hm', hruns⟩ :=
    newClosure_runs hL hm (List.cons_subset.mp hf).1 (f.id.elim "anonymous" (·.name))
  refine ⟨c, m', hm', hruns, fun fuel => heq, fun id s stmts hid hs => ?_, fun _ _ _ _ => ?_⟩
  · -- A function that is declared is made before the first statement is carried out.
    unfold hoist
    rw [List.filterMap_cons_some hs, List.forM_eq_forM, List.forM_cons, hid]
    show ((makeFunction f env >>= fun v => declare env id.name v true) >>= fun _ => _) m = _
    rw [bind_assoc]
    exact bind_eq_of_ok heq _
  · exact bind_eq_of_ok heq _

/-- An arrow function is made to a function that is called as it is written. -/
theorem makeArrow_runs {a : Arrow} (ha : (Node.arrow a).functions ⊆ L) :
    ∃ c m', IsFrom L m' ∧ c.RunsArrow env a ∧
      ∀ fuel, (Evaluator.ofFuel (fuel + 1)).eval (.arrow a) env m = .ok (.function c) m' := by
  obtain ⟨known, heq, hm'⟩ := newClosure_eq hL (List.cons_subset.mp ha).1 "anonymous" env hm
  exact ⟨_, _, hm', fun fuel this args =>
    congrArg callingDeeper (Evaluator.callClosure_ofArrow _ _ _ a env this args), fun fuel => heq⟩

/-- A method of an object gets the name of its key. -/
theorem addProperty_runs {self : Evaluator} {s : Span} {key : PropertyKey} {kind : MethodKind}
    {f : Func} (hf : (Node.property (.method s key kind f)).functions ⊆ L)
    (hkind : kind ≠ .getter ∧ kind ≠ .setter) {m₀ : Machine} {name : String}
    (hkey : self.key env key m₀ = .ok name m) (o : ObjectData) :
    ∃ c m', IsFrom L m' ∧ c.Runs env f ∧
      self.addProperty env o (.method s key kind f) m₀ = .ok (o.set name (.function c)) m' := by
  obtain ⟨c, m', heq, hm', hruns⟩ := newClosure_runs hL hm (List.cons_subset.mp hf).1 name
  refine ⟨c, m', hm', hruns, ?_⟩
  have hplain : ¬ (kind == .getter || kind == .setter) = true := by simpa using hkind
  show (if _ then _ else _ : Script ObjectData) m₀ = _
  rw [if_neg hplain]
  exact (bind_eq_of_ok hkey _).trans (bind_eq_of_ok heq _)

end

end Script

end Espalier
