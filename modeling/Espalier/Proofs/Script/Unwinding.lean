import Mathlib.Logic.Relation
import Espalier.Proofs.Script.Operation

/-!
# The end of a run without steps

When the steps are used up, control still passes through every finalizer around the statement that
failed: a block is opened, and its functions are made, before its first statement finds out that
there is no step left. `Machine.Unwinds` lists what can happen to the machine on this way, and
`Machine.Stands` says that none of it can be seen: the program under work, the console and whatever
existed before stay as they were, and no function is entered.
-/

namespace Espalier.Script

variable {m m' : Machine}

namespace Machine

/-- The machine in a new block, with the functions of the block. -/
def inBlock (m : Machine) (block : Scope) (nextFunction : Nat) (code : List (Span × Code)) :
    Machine :=
  { m with scopes := m.scopes.push block, nextFunction, code }

/-- What happens to a machine after its steps are used up: calls are left, blocks are opened, steps
are tried in vain, and failures are overruled. -/
inductive Unwinds (m : Machine) : Machine → Prop
  | returned : Unwinds m m.returned
  | inBlock (block : Scope) (nextFunction : Nat) (code : List (Span × Code)) :
      block.isFunction = false → Unwinds m (m.inBlock block nextFunction code)
  | tried : Unwinds m (m.step.enter (.exhausted (.steps m.budget.maxSteps)))
  | overruled (es : List Failure) : Unwinds m { m with overruled := es }

/-- Whatever a script or an observer can see of a machine is as it was: the program under work, the
console, the arrays, objects, paths and variables. Only blocks have been opened since. -/
structure Stands (m m' : Machine) : Prop where
  target_eq : m'.target = m.target
  console_eq : m'.console = m.console
  isStopped_eq : m'.isStopped = m.isStopped
  arrays_eq : m'.arrays = m.arrays
  objects_eq : m'.objects = m.objects
  paths_eq : m'.paths = m.paths
  lastIndices_eq : m'.lastIndices = m.lastIndices
  scopes_eq : ∃ blocks : Array Scope,
    m'.scopes = m.scopes ++ blocks ∧ ∀ s ∈ blocks, s.isFunction = false

theorem Stands.refl (m : Machine) : m.Stands m :=
  ⟨rfl, rfl, rfl, rfl, rfl, rfl, rfl, #[], (Array.append_empty).symm, by simp⟩

/-- Nothing that happens on the way can be seen. -/
theorem Unwinds.stands {m₀ : Machine} (h : m.Unwinds m') (hm : m₀.Stands m) : m₀.Stands m' := by
  cases h with
  | returned => exact { hm with }
  | inBlock block nextFunction code hblock =>
    obtain ⟨blocks, hscopes, hblocks⟩ := hm.scopes_eq
    refine { hm with scopes_eq := ⟨blocks.push block, ?_, ?_⟩ }
    · show m.scopes.push block = _
      rw [hscopes, Array.append_push]
    · intro s hs
      rcases Array.mem_push.mp hs with hs | rfl
      · exact hblocks s hs
      · exact hblock
  | tried => exact { hm with }
  | overruled es => exact { hm with }

end Machine

open Relation (ReflTransGen)

/-- Unwinding leaves the machine standing where it does. -/
theorem Machine.stands_of_unwinds (h : ReflTransGen Unwinds m m') : m.Stands m' := by
  induction h with
  | refl => exact .refl m
  | tail _ h ih => exact h.stands ih

/-- The way back is the same from one call further out. -/
theorem Machine.unwinds_returned (h : ReflTransGen Unwinds m m') :
    ReflTransGen Unwinds m.returned m'.returned := by
  induction h with
  | refl => exact .refl
  | tail _ h ih =>
    refine ih.tail ?_
    cases h with
    | returned => exact .returned
    | inBlock block nextFunction code hblock => exact .inBlock block nextFunction code hblock
    | tried => exact .tried
    | overruled es => exact .overruled es

theorem Machine.unwinds_overrule_self (m : Machine) (pending : Except Failure Completion) :
    m.Unwinds (m.overrule pending) := by
  rw [overrule_eq]
  exact .overruled _

/-- The way back is the same where a failure is overruled. -/
theorem Machine.unwinds_overrule (pending : Except Failure Completion)
    (h : ReflTransGen Unwinds m m') :
    ReflTransGen Unwinds (m.overrule pending) (m'.overrule pending) := by
  have hfirst : Unwinds (m.overrule pending) m := by
    rw [overrule_eq]
    exact .overruled m.overruled
  exact (ReflTransGen.head hfirst h).tail (m'.unwinds_overrule_self pending)

/-- Unwinding keeps the budget. -/
theorem Machine.budget_eq_of_unwinds (h : ReflTransGen Unwinds m m') : m'.budget = m.budget := by
  induction h with
  | refl => rfl
  | tail _ h ih => cases h <;> exact ih

/-- It takes no step back. -/
theorem Machine.steps_le_of_unwinds (h : ReflTransGen Unwinds m m') : m.steps ≤ m'.steps := by
  induction h with
  | refl => exact Nat.le_refl _
  | tail _ h ih =>
    cases h with
    | tried => exact Nat.le_succ_of_le ih
    | returned | inBlock | overruled => exact ih

/-! ### Blocks -/

variable {α β : Type}

/-- Operations that only change the block that they are carried out in, and make functions. -/
def StaysInBlock (x : Env → Script α) : Prop :=
  ∀ (m : Machine) (env : Env) (block : Scope) (nextFunction : Nat) (code : List (Span × Code)),
    block.isFunction = false → ∃ a block' nextFunction' code', block'.isFunction = false ∧
      x (⟨m.scopes.size⟩ :: env) (m.inBlock block nextFunction code) =
        .ok a (m.inBlock block' nextFunction' code')

namespace StaysInBlock

theorem pure (a : α) : StaysInBlock fun _ => (pure a : Script α) :=
  fun _ _ block nextFunction code h => ⟨a, block, nextFunction, code, h, rfl⟩

/-- Two steps stay in their block if each does. -/
theorem bind {x : Env → Script α} {f : Env → α → Script β} (hx : StaysInBlock x)
    (hf : ∀ a, StaysInBlock fun env => f env a) : StaysInBlock fun env => x env >>= f env := by
  intro m env block nextFunction code h
  obtain ⟨a, block', nextFunction', code', h', hr⟩ := hx m env block nextFunction code h
  obtain ⟨b, block'', nextFunction'', code'', h'', hs⟩ := hf a m env block' nextFunction' code' h'
  exact ⟨b, block'', nextFunction'', code'', h'', (bind_eq_of_ok hr _).trans hs⟩

theorem forM {f : Env → α → Script PUnit} (hf : ∀ a, StaysInBlock fun env => f env a)
    (as : List α) : StaysInBlock fun env => as.forM (f env) := by
  induction as with
  | nil => exact pure _
  | cons a as ih =>
    show StaysInBlock fun env => f env a >>= fun _ => as.forM (f env)
    exact bind (hf a) fun _ => ih

/-- A function gets the next number; its code is entered if there is none with its span. -/
theorem newClosure (span : Span) (name : String) (c : Code) :
    StaysInBlock (newClosure span name c) := by
  intro m env block nextFunction code h
  unfold Script.newClosure
  -- the code of a function is kept under its span, unless it is known already
  cases hknown : code.lookup span with
  | some known =>
    refine ⟨.function ⟨nextFunction, name, known, ⟨m.scopes.size⟩ :: env⟩, block, nextFunction + 1,
      code, h, ?_⟩
    refine (bind_eq_of_ok (x := newFunctionId) rfl _).trans
      ((bind_eq_of_ok (x := get) rfl _).trans ?_)
    dsimp only [Machine.inBlock]
    rw [hknown]
    rfl
  | none =>
    refine ⟨.function ⟨nextFunction, name, c, ⟨m.scopes.size⟩ :: env⟩, block, nextFunction + 1,
      (span, c) :: code, h, ?_⟩
    refine (bind_eq_of_ok (x := newFunctionId) rfl _).trans
      ((bind_eq_of_ok (x := get) rfl _).trans ?_)
    dsimp only [Machine.inBlock]
    rw [hknown]
    rfl

/-- A declaration in a block changes that block alone. -/
theorem declare (name : String) (v : Value) (isMutable : Bool) :
    StaysInBlock fun env => declare env name v isMutable := by
  intro m env block nextFunction code h
  refine ⟨⟨⟩, block.declare name ⟨v, isMutable⟩, nextFunction, code, h, ?_⟩
  have hscopes : (m.scopes.push block).modify m.scopes.size (·.declare name ⟨v, isMutable⟩) =
      m.scopes.push (block.declare name ⟨v, isMutable⟩) := by
    refine Array.ext (by simp) fun i _ _ => ?_
    rw [Array.getElem_modify]
    grind
  exact congrArg (fun scopes => EStateM.Result.ok PUnit.unit { m with scopes, nextFunction, code })
    hscopes

/-- Declaring the functions of a body stays in its block. -/
theorem hoist (stmts : List Stmt) : StaysInBlock (hoist stmts) := by
  refine forM (fun f => ?_) _
  cases f.id with
  | some id => exact bind (newClosure _ _ _) fun v => declare _ v _
  | none => exact pure _

end StaysInBlock

/-- Statements are steps: if none is left, none is carried out. -/
def Evaluator.Counts (self : Evaluator) : Prop :=
  ∀ s env m, m.budget.maxSteps ≤ m.steps →
    self.exec s env m = .error (.exhausted (.steps m.budget.maxSteps))
      (m.step.enter (.exhausted (.steps m.budget.maxSteps)))

/-- Every evaluator counts steps, whatever fuel there is. -/
theorem Evaluator.counts_ofFuel (fuel : Nat) : (Evaluator.ofFuel fuel).Counts := by
  intro s env m h
  cases fuel with
  | zero => exact bind_eq_error (tick_of_le h) _
  | succ fuel => exact bind_eq_error (tick_of_le h) _

/-- Without steps left a block ends at once: it is empty, or it fails for want of a step. -/
theorem Evaluator.execBlock_of_le {self : Evaluator} (hself : self.Counts) (b : Block) (env : Env)
    (h : m.budget.maxSteps ≤ m.steps) :
    ∃ m', ReflTransGen Machine.Unwinds m m' ∧
      (self.execBlock b env m = .ok .normal m' ∨
        self.execBlock b env m = .error (.exhausted (.steps m.budget.maxSteps)) m') := by
  obtain ⟨_, block, nextFunction, code, hblock, hhoist⟩ :=
    StaysInBlock.hoist b.body m env { isFunction := false } m.nextFunction m.code rfl
  have hrun : self.execBlock b env m =
      self.execList (⟨m.scopes.size⟩ :: env) b.body (m.inBlock block nextFunction code) :=
    bind_eq_of_ok hhoist _
  have hopened : ReflTransGen Machine.Unwinds m (m.inBlock block nextFunction code) :=
    .single (.inBlock block nextFunction code hblock)
  rw [hrun]
  cases b.body with
  | nil => exact ⟨_, hopened, .inl rfl⟩
  | cons s ss =>
    have hfirst := hself s (⟨m.scopes.size⟩ :: env) (m.inBlock block nextFunction code) h
    exact ⟨_, hopened.tail .tried, .inr (bind_eq_error hfirst _)⟩

/-- Without steps left a failure for want of steps is not prevented by what is done at last. -/
theorem Evaluator.concluding_of_le {self : Evaluator} (hself : self.Counts) (finalizer : Block)
    (env : Env) (h : m.budget.maxSteps ≤ m.steps) :
    ∃ m', ReflTransGen Machine.Unwinds m m' ∧
      concluding (.error (.exhausted (.steps m.budget.maxSteps))) (self.execBlock finalizer env) m =
        .error (.exhausted (.steps m.budget.maxSteps)) m' := by
  obtain ⟨m', hm', hr | hr⟩ := execBlock_of_le hself finalizer env h
  · exact ⟨m', hm', concluding_of_normal _ hr⟩
  · exact ⟨_, hm'.tail (m'.unwinds_overrule_self _), concluding_of_error _ hr⟩

end Espalier.Script
