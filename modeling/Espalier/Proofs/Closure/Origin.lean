import Espalier.Proofs.Closure.Literal
import Espalier.Proofs.Script.Operation
import Mathlib.Data.List.Pairwise

/-!
# Where the code of functions comes from

The machine knows the code of the functions that it has made by the spans of their texts, and a
function of a span that is known gets the code that is known. `IsFrom L` says of whatever a run
holds that all code in it was written as one of the functions `L`, and of the machine that what it
knows by the span of one of them is the code of that one. If the functions `L` have texts with
different spans, every function that is made of one of them has its code (`newClosure_eq`).

`Stays L` says of an operation that it leads from a machine of this kind to one of this kind, gives
a result of this kind, and does the same on the machine that knows the code of all of `L` from the
start (`Machine.informed`). It agrees with the ways in which operations are made of each other.
-/

namespace Espalier

variable {L : List FunctionLiteral}

namespace Script

instance : HasFunctions Code := ⟨fun c => functions c.params ++ functions c.body⟩

theorem functions_ofFunction (f : Func) : functions (Code.ofFunction f) = f.functions := by
  cases f
  simp [Code.ofFunction]

theorem functions_ofArrow (a : Arrow) : functions (Code.ofArrow a) = a.functions := by
  cases a
  simp [Code.ofArrow]

end Script

/-- One of the functions `L`, with none but these inside it. -/
structure FunctionLiteral.IsIn (L : List FunctionLiteral) (f : FunctionLiteral) : Prop where
  mem : f ∈ L
  inner : functions f.code ⊆ L

/-- A function is among those of the construct that it is, with the functions inside it. -/
theorem isIn_ofFunction {f : Func} (h : FunctionLiteral.ofFunction f :: f.functions ⊆ L) :
    (FunctionLiteral.ofFunction f).IsIn L := by
  obtain ⟨hmem, hinner⟩ := List.cons_subset.mp h
  exact ⟨hmem, Script.functions_ofFunction f ▸ hinner⟩

/-- So is an arrow function. -/
theorem isIn_ofArrow {a : Arrow} (h : FunctionLiteral.ofArrow a :: a.functions ⊆ L) :
    (FunctionLiteral.ofArrow a).IsIn L := by
  obtain ⟨hmem, hinner⟩ := List.cons_subset.mp h
  exact ⟨hmem, Script.functions_ofArrow a ▸ hinner⟩

/-- So is a method, which is known by the span of its property. -/
theorem isIn_ofMethod {span : Span} {k : PropertyKey} {kind : MethodKind} {f : Func}
    (h : Property.functions (.method span k kind f) ⊆ L) :
    (FunctionLiteral.ofMethod span f).IsIn L := by
  obtain ⟨hmem, hinner⟩ := List.cons_subset.mp h
  exact ⟨hmem, Script.functions_ofFunction f ▸ (List.append_subset.mp hinner).2⟩

section

variable {α : Type} [HasFunctions α]

@[simp] theorem functionsOfAll_subset {xs : List α} :
    functionsOfAll xs ⊆ L ↔ ∀ x ∈ xs, functions x ⊆ L := by
  constructor
  · exact fun h x hx f hf => h (mem_functionsOfAll.mpr ⟨x, hx, hf⟩)
  · intro h f hf
    obtain ⟨x, hx, hf⟩ := mem_functionsOfAll.mp hf
    exact h x hx hf

@[simp] theorem functionsOfAny_subset {x? : Option α} :
    functionsOfAny x? ⊆ L ↔ ∀ x ∈ x?, functions x ⊆ L := by
  cases x? <;> simp

end

namespace Script

/-! ### What a run holds -/

/-- What a run may hold code in, and when all of it was written as one of some functions. -/
class Carries (α : Type) where
  IsFrom : List FunctionLiteral → α → Prop

export Carries (IsFrom)

/-- Most data of a run has no code in it. -/
instance (priority := low) {α : Type} : Carries α := ⟨fun _ _ => True⟩

section

variable {α β : Type} [Carries α] [Carries β]

instance : Carries (List α) := ⟨fun L as => ∀ a ∈ as, IsFrom L a⟩

instance : Carries (Array α) := ⟨fun L as => ∀ a ∈ as, IsFrom L a⟩

instance : Carries (Option α) := ⟨fun L a? => ∀ a ∈ a?, IsFrom L a⟩

theorem isFrom_nil : IsFrom L ([] : List α) := nofun

theorem isFrom_cons {a : α} {as : List α} (ha : IsFrom L a) (has : IsFrom L as) :
    IsFrom L (a :: as) :=
  List.forall_mem_cons.mpr ⟨ha, has⟩

theorem isFrom_none : IsFrom L (none : Option α) := nofun

theorem isFrom_some {a : α} (ha : IsFrom L a) : IsFrom L (some a) :=
  fun _ h => Option.some.inj h ▸ ha

theorem isFrom_optionMap {a? : Option α} (h : IsFrom L a?) {f : α → β}
    (hf : ∀ a, IsFrom L a → IsFrom L (f a)) : IsFrom L (a?.map f) := by
  cases a? with
  | none => exact isFrom_none
  | some a => exact isFrom_some (hf a (h a rfl))

theorem isFrom_orElse {a? b? : Option α} (ha : IsFrom L a?) (hb : IsFrom L b?) :
    IsFrom L (a? <|> b?) := by
  cases a? with
  | none => exact hb
  | some a => exact ha

instance : Carries (α × β) := ⟨fun L p => IsFrom L p.1 ∧ IsFrom L p.2⟩

instance : Carries (α ⊕ β) := ⟨fun L => Sum.elim (IsFrom L) (IsFrom L)⟩

end

/-- Scopes in reach only say where the machine keeps their variables. -/
instance : Carries Env := ⟨fun _ _ => True⟩

/-- Code that was written as one of the functions `L`. -/
def Code.IsFrom (L : List FunctionLiteral) (c : Code) : Prop :=
  ∃ f : FunctionLiteral, f.IsIn L ∧ f.code = c

instance : Carries Closure := ⟨fun L c => c.code.IsFrom L⟩

/-- Containers only say where the machine keeps what is in them. -/
instance : Carries Value where
  IsFrom L
    | .function c => IsFrom L c
    | _ => True

instance : Carries ObjectData := ⟨fun L o => IsFrom L o.properties⟩

instance : Carries Binding := ⟨fun L b => IsFrom L b.value⟩

instance : Carries Scope := ⟨fun L s => IsFrom L s.bindings ∧ IsFrom L s.this⟩

instance : Carries Completion where
  IsFrom L
    | .returned v => IsFrom L v
    | _ => True

instance : Carries Failure where
  IsFrom L
    | .thrown v => IsFrom L v
    | _ => True

instance {α : Type} [Carries α] : Carries (Except Failure α) where
  IsFrom L
    | .ok a => IsFrom L a
    | .error e => IsFrom L e

/-- The code of some functions by the spans of their texts. -/
def codeTable (L : List FunctionLiteral) : List (Span × Code) := L.map fun f => (f.span, f.code)

/-- All code that a machine holds was written as one of the functions `L`. -/
structure Machine.IsFrom (L : List FunctionLiteral) (m : Machine) : Prop where
  arrays : Script.IsFrom L m.arrays
  objects : Script.IsFrom L m.objects
  scopes : Script.IsFrom L m.scopes
  /-- What is known by the span of a function is its code. -/
  code : m.code ⊆ codeTable L

instance : Carries Machine := ⟨Machine.IsFrom⟩

instance {α : Type} [Carries α] : Carries (EStateM.Result Failure Machine α) where
  IsFrom L
    | .ok a m => IsFrom L a ∧ IsFrom L m
    | .error e m => IsFrom L e ∧ IsFrom L m

/-- Where a machine holds code. -/
def Machine.stores (m : Machine) :
    Array (Array Value) × Array ObjectData × Array Scope × List (Span × Code) :=
  (m.arrays, m.objects, m.scopes, m.code)

/-- A machine with the same values in its stores stays with the same functions. -/
theorem Machine.IsFrom.of_stores_eq {m m' : Machine} (hm : m.IsFrom L)
    (h : m'.stores = m.stores) : m'.IsFrom L := by
  simp only [Machine.stores, Prod.mk.injEq] at h
  obtain ⟨harrays, hobjects, hscopes, hcode⟩ := h
  exact ⟨harrays ▸ hm.arrays, hobjects ▸ hm.objects, hscopes ▸ hm.scopes, hcode ▸ hm.code⟩

/-! ### Machines that know all code -/

/-- The machine if it knew the code of all functions `L`. -/
def Machine.informed (L : List FunctionLiteral) (m : Machine) : Machine :=
  { m with code := codeTable L }

/-- The end of an operation on such a machine. -/
def informedEnd (L : List FunctionLiteral) {α : Type} :
    EStateM.Result Failure Machine α → EStateM.Result Failure Machine α
  | .ok a m => .ok a (m.informed L)
  | .error e m => .error e (m.informed L)

section

variable (m : Machine)

/-- What is known of the code makes no difference to variables. -/
theorem Machine.lookup?_informed (name : String) (env : Env) :
    (m.informed L).lookup? name env = m.lookup? name env := by
  delta Machine.lookup?
  rfl

theorem Machine.this_informed (env : Env) : (m.informed L).this env = m.this env := by
  delta Machine.this
  rfl

theorem Machine.functionScope_informed (env : Env) :
    (m.informed L).functionScope env = m.functionScope env := by
  delta Machine.functionScope
  rfl

theorem Machine.number?_informed (v : Value) : (m.informed L).number? v = m.number? v := by
  delta Machine.number? Machine.numberWithin?
  rfl

/-- Nor does it to how a value reads as a text. -/
theorem Machine.text?_informed (v : Value) (locked : Option Container) :
    (m.informed L).text? v locked = m.text? v locked := by
  delta Machine.text? Machine.textWithin?
  rfl

theorem Machine.json_informed (v : Value) : (m.informed L).json v = m.json v := by
  suffices h : ∀ room, (m.informed L).jsonWithin room v = m.jsonWithin room v from h _
  intro room
  delta Machine.jsonWithin
  rfl

theorem Machine.shown?_informed : (m.informed L).shown? = m.shown? := by
  suffices h : ∀ levels v, (m.informed L).shownWithin? levels v = m.shownWithin? levels v by
    funext v
    unfold Machine.shown?
    simp only [h]
  have htext (v : Value) : (m.informed L).text? v = m.text? v := m.text?_informed v none
  have hitems (a : ArrayId) : (m.informed L).items a = m.items a := rfl
  have hobject (o : ObjectId) : (m.informed L).object o = m.object o := rfl
  have hnode (steps : List Step) : (m.informed L).nodeAt? steps = m.nodeAt? steps := rfl
  have hpath (p : PathId) : (m.informed L).path p = m.path p := rfl
  intro levels
  induction levels with
  | zero =>
    intro v
    unfold Machine.shownWithin?
    simp only [htext, hitems, hobject, hnode, hpath]
    -- no value is shown at the level below
    cases v with
    | array a => dsimp only; cases (m.items a).toList <;> rfl
    | object o => dsimp only; cases (m.object o).properties <;> rfl
    | _ => rfl
  | succ levels ih =>
    intro v
    unfold Machine.shownWithin?
    simp only [htext, hitems, hobject, hnode, hpath]
    cases v with
    | array a => dsimp only; cases (m.items a).toList <;> simp only [funext ih]
    | object o => dsimp only; cases (m.object o).properties <;> simp only [ih]
    | _ => rfl

end

/-! ### Operations -/

/-- An operation leads from machines with code of the functions `L` to such machines, gives nothing
with other code, and does the same if all code is known from the start. -/
def Stays (L : List FunctionLiteral) {α : Type} [Carries α] (x : Script α) : Prop :=
  ∀ m, IsFrom L m → IsFrom L (x m) ∧ x (m.informed L) = informedEnd L (x m)

namespace Stays

variable {α β σ : Type} [Carries α] [Carries β]

theorem pure {a : α} (h : IsFrom L a) : Stays L (pure a) := fun _ hm => ⟨⟨h, hm⟩, rfl⟩

/-- The two ways for an operation to end, each on both machines. -/
theorem ends {x : Script α} (hx : Stays L x) {m : Machine} (hm : IsFrom L m) :
    (∃ a m', IsFrom L a ∧ IsFrom L m' ∧ x m = .ok a m' ∧
      x (m.informed L) = .ok a (m'.informed L)) ∨
    ∃ e m', IsFrom L e ∧ IsFrom L m' ∧ x m = .error e m' ∧
      x (m.informed L) = .error e (m'.informed L) := by
  obtain ⟨hend, heq⟩ := hx m hm
  cases hr : x m with
  | ok a m' =>
    rw [hr] at hend heq
    exact .inl ⟨a, m', hend.1, hend.2, rfl, heq⟩
  | error e m' =>
    rw [hr] at hend heq
    exact .inr ⟨e, m', hend.1, hend.2, rfl, heq⟩

/-- Operations one after the other. -/
theorem bind {x : Script α} {f : α → Script β} (hx : Stays L x)
    (hf : ∀ a, IsFrom L a → Stays L (f a)) : Stays L (x >>= f) := by
  intro m hm
  obtain ⟨a, m₁, ha, hm₁, hr, heq⟩ | ⟨e, m₁, he, hm₁, hr, heq⟩ := hx.ends hm
  · rw [bind_eq_of_ok hr, bind_eq_of_ok heq]
    exact hf a ha m₁ hm₁
  · rw [bind_eq_error hr, bind_eq_error heq]
    exact ⟨⟨he, hm₁⟩, rfl⟩

/-- What is read of the machine is not which code it knows. -/
theorem read {f : Machine → Script α} (hf : ∀ m, f (m.informed L) = f m)
    (h : ∀ m, IsFrom L m → Stays L (f m)) : Stays L (get >>= f) := by
  intro m hm
  show IsFrom L (f m m) ∧ f (m.informed L) (m.informed L) = informedEnd L (f m m)
  rw [hf]
  exact h m hm m hm

/-- An operation that changes the machine, whatever is known of the code. -/
theorem modifyGet {f : Machine → α × Machine}
    (hf : ∀ m, f (m.informed L) = ((f m).1, (f m).2.informed L))
    (h : ∀ m, IsFrom L m → IsFrom L (f m)) : Stays L (modifyGet f : Script α) := by
  intro m hm
  refine ⟨h m hm, ?_⟩
  show EStateM.Result.ok (f (m.informed L)).1 (f (m.informed L)).2 = .ok _ _
  rw [hf]

/-- A change of what holds no code. -/
theorem alter {f : Machine → Machine} (hf : ∀ m, f (m.informed L) = (f m).informed L)
    (hstores : ∀ m, (f m).stores = m.stores) : Stays L (modify f : Script PUnit) :=
  modifyGet (fun m => Prod.ext rfl (hf m)) fun m hm => ⟨trivial, hm.of_stores_eq (hstores m)⟩

theorem modify {f : Machine → Machine} (hf : ∀ m, f (m.informed L) = (f m).informed L)
    (h : ∀ m, IsFrom L m → IsFrom L (f m)) : Stays L (modify f : Script PUnit) :=
  modifyGet (fun m => Prod.ext rfl (hf m)) fun m hm => ⟨trivial, h m hm⟩

theorem throw {e : Failure} (h : IsFrom L e) : Stays L (throw e : Script α) :=
  fun _ hm => ⟨⟨h, hm⟩, rfl⟩

theorem raise (fault : Fault) : Stays L (raise fault : Script α) := throw trivial

theorem orRaise (fault : Fault) {a? : Option α} (h : IsFrom L a?) : Stays L (orRaise fault a?) := by
  cases a? with
  | none => exact raise fault
  | some a => exact pure (h a rfl)

theorem giveUp {e : Failure} (h : IsFrom L e) : Stays L (giveUp e : Script α) :=
  fun _ hm => ⟨⟨h, hm.of_stores_eq rfl⟩, rfl⟩

theorem abort : Stays L (Script.giveUp .aborted : Script α) := giveUp trivial

theorem ite {c : Prop} [Decidable c] {x y : Script α} (hx : Stays L x) (hy : Stays L y) :
    Stays L (if c then x else y) := by
  split
  · exact hx
  · exact hy

/-- What comes after an operation that is carried out under a condition only. -/
theorem when {c : Prop} [Decidable c] {x : Script PUnit} {f : PUnit → Script α} (hx : Stays L x)
    (hf : ∀ u, Stays L (f u)) : Stays L (if c then x >>= fun u => f u else f ⟨⟩) :=
  ite (bind hx fun u _ => hf u) (hf ⟨⟩)

theorem tick : Stays L tick := by
  intro m hm
  rcases Nat.lt_or_ge m.steps m.budget.maxSteps with hlt | hge
  · have hlt' : (m.informed L).steps < (m.informed L).budget.maxSteps := hlt
    rw [tick_of_lt hlt, tick_of_lt hlt']
    exact ⟨⟨trivial, hm.of_stores_eq rfl⟩, rfl⟩
  · have hge' : (m.informed L).budget.maxSteps ≤ (m.informed L).steps := hge
    rw [tick_of_le hge, tick_of_le hge']
    exact ⟨⟨trivial, hm.of_stores_eq rfl⟩, rfl⟩

theorem callingDeeper {x : Script α} (hx : Stays L x) : Stays L (callingDeeper x) := by
  intro m hm
  rcases Nat.lt_or_ge m.depth m.budget.maxCallDepth with hlt | hge
  · have hlt' : (m.informed L).depth < (m.informed L).budget.maxCallDepth := hlt
    have hdeeper : IsFrom L m.deeper := hm.of_stores_eq rfl
    obtain ⟨a, m₁, ha, hm₁, hr, heq⟩ | ⟨e, m₁, he, hm₁, hr, heq⟩ := hx.ends hdeeper
    · rw [callingDeeper_of_ok hlt hr, callingDeeper_of_ok hlt' heq]
      exact ⟨⟨ha, hm₁.of_stores_eq rfl⟩, rfl⟩
    · rw [callingDeeper_of_error hlt hr, callingDeeper_of_error hlt' heq]
      exact ⟨⟨he, hm₁.of_stores_eq rfl⟩, rfl⟩
  · have hge' : (m.informed L).budget.maxCallDepth ≤ (m.informed L).depth := hge
    rw [callingDeeper_of_le x hge, callingDeeper_of_le x hge']
    exact ⟨⟨trivial, hm.of_stores_eq rfl⟩, rfl⟩

/-- A failure that is caught carries values of the same functions. -/
theorem catching {x : Script α} {handler : Failure → Script α} (hx : Stays L x)
    (hh : ∀ e, IsFrom L e → Stays L (handler e)) : Stays L (catching x handler) := by
  intro m hm
  obtain ⟨a, m₁, ha, hm₁, hr, heq⟩ | ⟨e, m₁, he, hm₁, hr, heq⟩ := hx.ends hm
  · rw [catching_of_ok hr, catching_of_ok heq]
    exact ⟨⟨ha, hm₁⟩, rfl⟩
  · rw [catching_of_error hr, catching_of_error heq]
    split
    · exact hh e he m₁ hm₁
    · exact ⟨⟨he, hm₁⟩, rfl⟩

/-- How an operation ends is a value of the same functions. -/
theorem outcome {x : Script α} (hx : Stays L x) : Stays L (outcome x) := by
  intro m hm
  obtain ⟨a, m₁, ha, hm₁, hr, heq⟩ | ⟨e, m₁, he, hm₁, hr, heq⟩ := hx.ends hm
  · rw [outcome_of_ok hr, outcome_of_ok heq]
    exact ⟨⟨ha, hm₁⟩, rfl⟩
  · by_cases haborted : e = .aborted
    · subst haborted
      rw [outcome_of_aborted hr, outcome_of_aborted heq]
      exact ⟨⟨he, hm₁⟩, rfl⟩
    · rw [outcome_of_error hr haborted, outcome_of_error heq haborted]
      exact ⟨⟨he, hm₁⟩, rfl⟩

omit [Carries α] in
/-- A failure that is forgotten is noted all the same. -/
theorem overrule_informed (m : Machine) (pending : Except Failure Completion) :
    (m.informed L).overrule pending = (m.overrule pending).informed L := by
  cases pending with
  | ok c => rfl
  | error e => cases e <;> rfl

/-- What is done last stays with the functions, and so does what had been done before. -/
theorem concluding {last : Script Completion} (h : Stays L last)
    {pending : Except Failure Completion} (hpending : IsFrom L pending) :
    Stays L (concluding pending last) := by
  intro m hm
  obtain ⟨c, m₁, hc, hm₁, hr, heq⟩ | ⟨e, m₁, he, hm₁, hr, heq⟩ := h.ends hm
  · by_cases hnormal : c = .normal
    · subst hnormal
      rw [concluding_of_normal pending hr, concluding_of_normal pending heq]
      cases pending with
      | ok c => exact ⟨⟨hpending, hm₁⟩, rfl⟩
      | error e => exact ⟨⟨hpending, hm₁⟩, rfl⟩
    · rw [concluding_of_ok pending hr hnormal, concluding_of_ok pending heq hnormal,
        overrule_informed, Machine.overrule_eq]
      exact ⟨⟨hc, hm₁.of_stores_eq rfl⟩, rfl⟩
  · rw [concluding_of_error pending hr, concluding_of_error pending heq, overrule_informed,
      Machine.overrule_eq]
    exact ⟨⟨he, hm₁.of_stores_eq rfl⟩, rfl⟩

theorem editing {edit : Edit} {x : Script α} (hx : Stays L x) : Stays L (editing edit x) :=
  bind hx fun _ ha =>
    bind (alter (fun _ => rfl) fun _ => rfl) fun _ _ => pure ha

/-! ### Repeating -/

theorem forM {f : σ → Script PUnit} {as : List σ} (h : ∀ a ∈ as, Stays L (f a)) :
    Stays L (as.forM f) := by
  induction as with
  | nil => exact pure trivial
  | cons a as ih =>
    show Stays L (f a >>= fun _ => as.forM f)
    exact bind (h a (List.mem_cons_self ..)) fun _ _ =>
      ih fun b hb => h b (List.mem_cons_of_mem a hb)

/-- A state is handed from item to item. -/
theorem foldlM {f : β → σ → Script β} {bs : List σ}
    (h : ∀ b, IsFrom L b → ∀ a ∈ bs, Stays L (f b a)) {b : β} (hb : IsFrom L b) :
    Stays L (bs.foldlM f b) := by
  induction bs generalizing b with
  | nil => exact pure hb
  | cons a as ih =>
    rw [List.foldlM_cons]
    refine bind (h b hb a (List.mem_cons_self ..)) fun b hb => ih (fun b hb c hc => ?_) hb
    exact h b hb c (List.mem_cons_of_mem a hc)

theorem mapM {f : σ → Script β} {as : List σ} (h : ∀ a ∈ as, Stays L (f a)) :
    Stays L (as.mapM f) := by
  induction as with
  | nil => exact pure nofun
  | cons a as ih =>
    rw [List.mapM_cons]
    refine bind (h a (List.mem_cons_self ..)) fun b hb => ?_
    refine bind (ih fun c hc => h c (List.mem_cons_of_mem a hc)) fun bs hbs => pure ?_
    exact isFrom_cons hb hbs

theorem arrayFoldlM {f : β → σ → Script β} {bs : Array σ}
    (h : ∀ b, IsFrom L b → ∀ a ∈ bs, Stays L (f b a)) {b : β} (hb : IsFrom L b) :
    Stays L (bs.foldlM f b) := by
  rw [← Array.foldlM_toList]
  exact foldlM (fun b hb a ha => h b hb a (Array.mem_toList_iff.mp ha)) hb

theorem arrayMapM {f : σ → Script β} {as : Array σ} (h : ∀ a ∈ as, Stays L (f a)) :
    Stays L (as.mapM f) := by
  rw [Array.mapM_eq_mapM_toList, map_eq_pure_bind]
  refine bind (mapM fun a ha => h a (Array.mem_toList_iff.mp ha)) fun bs hbs => pure ?_
  exact fun b hb => hbs b (List.mem_toArray.mp hb)

theorem allM {f : σ → Script Bool} {as : List σ} (h : ∀ a ∈ as, Stays L (f a)) :
    Stays L (as.allM f) := by
  induction as with
  | nil => exact pure trivial
  | cons a as ih =>
    unfold List.allM
    refine bind (h a (List.mem_cons_self ..)) fun b _ => ?_
    cases b with
    | true => exact ih fun c hc => h c (List.mem_cons_of_mem a hc)
    | false => exact pure trivial

/-- A state is handed from round to round. -/
theorem rounds [Carries σ] {round : σ → Script (σ ⊕ α)}
    (h : ∀ s, IsFrom L s → Stays L (round s)) (room : Nat) {s : σ} (hs : IsFrom L s) :
    Stays L (rounds round room s) := by
  induction room generalizing s with
  | zero => exact abort
  | succ room ih =>
    refine bind tick fun _ _ => bind (h s hs) fun next hnext => ?_
    cases next with
    | inl s => exact ih hnext
    | inr a => exact pure hnext

theorem repeating [Carries σ] {round : σ → Script (σ ⊕ α)}
    (h : ∀ s, IsFrom L s → Stays L (round s)) {s : σ} (hs : IsFrom L s) :
    Stays L (repeating round s) :=
  read (fun _ => rfl) fun _ _ => rounds h _ hs

end Stays

/-! ### Reading and changing what a machine holds -/

section

variable {α : Type} [Carries α] {as : Array α}

theorem isFrom_getD (has : IsFrom L as) (i : Nat) {a : α} (ha : IsFrom L a) :
    IsFrom L (as.getD i a) := by
  rw [Array.getD_eq_getD_getElem?]
  cases h : as[i]? with
  | none => exact ha
  | some b => exact has b (Array.mem_of_getElem? h)

theorem isFrom_push (has : IsFrom L as) {a : α} (ha : IsFrom L a) : IsFrom L (as.push a) :=
  Array.forall_mem_push.mpr ⟨ha, has⟩

theorem isFrom_append {bs : Array α} (has : IsFrom L as) (hbs : IsFrom L bs) :
    IsFrom L (as ++ bs) :=
  Array.forall_mem_append.mpr ⟨has, hbs⟩

theorem isFrom_extract (has : IsFrom L as) (start stop : Nat) :
    IsFrom L (as.extract start stop) := by
  intro a ha
  rw [← Array.mem_toList_iff, Array.toList_extract] at ha
  exact has a (Array.mem_toList_iff.mp (List.mem_of_mem_drop (List.mem_of_mem_take ha)))

theorem isFrom_pop (has : IsFrom L as) : IsFrom L as.pop := by
  intro a ha
  rw [← Array.mem_toList_iff, Array.toList_pop] at ha
  exact has a (Array.mem_toList_iff.mp (List.dropLast_subset _ ha))

theorem isFrom_eraseIdxIfInBounds (has : IsFrom L as) (i : Nat) :
    IsFrom L (as.eraseIdxIfInBounds i) := by
  unfold Array.eraseIdxIfInBounds
  split
  · exact fun a ha => has a (Array.mem_of_mem_eraseIdx ha)
  · exact has

/-- A change of one item that keeps the origin keeps that of the whole. -/
theorem isFrom_modify (has : IsFrom L as) (i : Nat) {f : α → α}
    (hf : ∀ a, IsFrom L a → IsFrom L (f a)) : IsFrom L (as.modify i f) := by
  intro a ha
  obtain ⟨j, hj⟩ := Array.mem_iff_getElem?.mp ha
  rw [Array.getElem?_modify] at hj
  split at hj
  · obtain ⟨b, hb, rfl⟩ := Option.map_eq_some_iff.mp hj
    exact hf b (has b (Array.mem_of_getElem? hb))
  · exact has a (Array.mem_of_getElem? hj)

theorem isFrom_toArray {as : List α} (has : IsFrom L as) : IsFrom L as.toArray :=
  fun a ha => has a (List.mem_toArray.mp ha)

theorem isFrom_toList (has : IsFrom L as) : IsFrom L as.toList :=
  fun a ha => has a (Array.mem_toList_iff.mp ha)

theorem isFrom_lookup {κ : Type} [BEq κ] [LawfulBEq κ] {entries : List (κ × α)}
    (h : IsFrom L entries) (key : κ) : IsFrom L (entries.lookup key) := by
  intro a ha
  obtain ⟨before, after, rfl, -⟩ := List.lookup_eq_some_iff.mp ha
  exact (h (key, a) (List.mem_append_right before (List.mem_cons_self ..))).2

end

/-- A property may be set to a value of that origin. -/
theorem isFrom_setIn {properties : List (String × Value)} (h : IsFrom L properties) (key : String)
    {v : Value} (hv : IsFrom L v) : IsFrom L (ObjectData.setIn key v properties) := by
  induction properties with
  | nil => exact isFrom_cons ⟨trivial, hv⟩ isFrom_nil
  | cons p rest ih =>
    obtain ⟨hp, hrest⟩ := List.forall_mem_cons.mp h
    unfold ObjectData.setIn
    split
    · exact isFrom_cons ⟨trivial, hv⟩ hrest
    · exact isFrom_cons hp (ih hrest)

/-- A name may be declared with one. -/
theorem isFrom_declareIn {bindings : List (String × Binding)} (h : IsFrom L bindings)
    (name : String) {b : Binding} (hb : IsFrom L b) :
    IsFrom L (Scope.declareIn name b bindings) := by
  induction bindings with
  | nil => exact isFrom_cons ⟨trivial, hb⟩ isFrom_nil
  | cons p rest ih =>
    obtain ⟨hp, hrest⟩ := List.forall_mem_cons.mp h
    unfold Scope.declareIn
    split
    · exact isFrom_cons ⟨trivial, hb⟩ hrest
    · exact isFrom_cons hp (ih hrest)

theorem isFrom_get? {o : ObjectData} (ho : IsFrom L o) (key : String) : IsFrom L (o.get? key) := by
  unfold ObjectData.get?
  exact isFrom_lookup ho key

theorem isFrom_set {o : ObjectData} (ho : IsFrom L o) (key : String) {v : Value}
    (hv : IsFrom L v) : IsFrom L (o.set key v) :=
  isFrom_setIn ho key hv

theorem isFrom_remove {o : ObjectData} (ho : IsFrom L o) (key : String) :
    IsFrom L (o.remove key) :=
  fun p hp => ho p (List.mem_of_mem_filter hp)

/-- An object may be made of such properties. -/
theorem isFrom_ofList {properties : List (String × Value)} (h : IsFrom L properties) :
    IsFrom L (ObjectData.ofList properties) := by
  have ho : IsFrom L ({} : ObjectData) := nofun
  unfold ObjectData.ofList
  -- the properties are set one after the other, of whichever object
  generalize ({} : ObjectData) = o at ho ⊢
  induction properties generalizing o with
  | nil => exact ho
  | cons p rest ih =>
    obtain ⟨hp, hrest⟩ := List.forall_mem_cons.mp h
    exact ih hrest _ (isFrom_set ho p.1 hp.2)

theorem isFrom_declare {s : Scope} (hs : IsFrom L s) (name : String) {b : Binding}
    (hb : IsFrom L b) : IsFrom L (s.declare name b) :=
  ⟨isFrom_declareIn hs.1 name hb, hs.2⟩

namespace Machine.IsFrom

variable {m : Machine} (hm : m.IsFrom L)

include hm

/-- The items of an array of the machine. -/
theorem items (a : ArrayId) : Script.IsFrom L (m.items a) := isFrom_getD hm.arrays _ nofun

/-- The properties of an object of the machine. -/
theorem object (o : ObjectId) : Script.IsFrom L (m.object o) := isFrom_getD hm.objects _ nofun

/-- The value of a variable. -/
theorem lookup? (name : String) (env : Env) : Script.IsFrom L (m.lookup? name env) := by
  induction env with
  | nil => exact nofun
  | cons s env ih =>
    unfold Machine.lookup?
    split
    · next b hb =>
      obtain ⟨scope, hscope, hb⟩ := Option.bind_eq_some_iff.mp hb
      have hs := hm.scopes scope (Array.mem_of_getElem? hscope)
      rintro v ⟨⟩
      exact isFrom_lookup hs.1 name b hb
    · exact ih

/-- The receiver of a function. -/
theorem this (env : Env) : Script.IsFrom L (m.this env) := by
  induction env with
  | nil => exact trivial
  | cons s env ih =>
    unfold Machine.this
    split
    · next v hv =>
      obtain ⟨scope, hscope, hv⟩ := Option.bind_eq_some_iff.mp hv
      exact (hm.scopes scope (Array.mem_of_getElem? hscope)).2 v hv
    · exact ih

end Machine.IsFrom

/-! ### Making and changing values -/

theorem stays_newFunctionId : Stays L newFunctionId :=
  .modifyGet (fun _ => rfl) fun _ hm => ⟨trivial, hm.of_stores_eq rfl⟩

theorem stays_newArray {items : Array Value} (h : IsFrom L items) : Stays L (newArray items) :=
  .modifyGet (fun _ => rfl) fun _ hm =>
    ⟨trivial, isFrom_push hm.arrays h, hm.objects, hm.scopes, hm.code⟩

theorem stays_newObject {o : ObjectData} (h : IsFrom L o) : Stays L (newObject o) :=
  .modifyGet (fun _ => rfl) fun _ hm =>
    ⟨trivial, hm.arrays, isFrom_push hm.objects h, hm.scopes, hm.code⟩

theorem stays_newError (kind : ErrorKind) (message : String) : Stays L (newError kind message) := by
  refine stays_newObject ?_
  simp [IsFrom]

theorem stays_newScope {s : Scope} (h : IsFrom L s) (env : Env) : Stays L (newScope s env) :=
  .modifyGet (fun _ => rfl) fun _ hm =>
    ⟨trivial, hm.arrays, hm.objects, isFrom_push hm.scopes h, hm.code⟩

theorem stays_newBlock (env : Env) : Stays L (newBlock env) :=
  stays_newScope ⟨isFrom_nil, isFrom_none⟩ env

theorem stays_forkScope (env : Env) : Stays L (forkScope env) := by
  cases env with
  | nil => exact .pure trivial
  | cons s env =>
    refine .read (fun _ => rfl) fun m hm => stays_newScope ?_ env
    exact isFrom_getD hm.scopes _ ⟨isFrom_nil, isFrom_none⟩

theorem stays_newMethod (method : Method) : Stays L (newMethod method) :=
  .bind stays_newFunctionId fun _ _ => .pure trivial

theorem stays_newPath (p : PathData) : Stays L (newPath p) :=
  .modifyGet (fun _ => rfl) fun _ hm => ⟨trivial, hm.of_stores_eq rfl⟩

theorem stays_modifyItems (a : ArrayId) {f : Array Value → Array Value}
    (hf : ∀ items, IsFrom L items → IsFrom L (f items)) : Stays L (modifyItems a f) :=
  .modify (fun _ => rfl) fun _ hm => ⟨isFrom_modify hm.arrays _ hf, hm.objects, hm.scopes, hm.code⟩

theorem stays_modifyObject (o : ObjectId) {f : ObjectData → ObjectData}
    (hf : ∀ o, IsFrom L o → IsFrom L (f o)) : Stays L (modifyObject o f) :=
  .modify (fun _ => rfl) fun _ hm => ⟨hm.arrays, isFrom_modify hm.objects _ hf, hm.scopes, hm.code⟩

theorem stays_modifyScope (s : ScopeId) {f : Scope → Scope}
    (hf : ∀ s, IsFrom L s → IsFrom L (f s)) : Stays L (modifyScope s f) :=
  .modify (fun _ => rfl) fun _ hm => ⟨hm.arrays, hm.objects, isFrom_modify hm.scopes _ hf, hm.code⟩

theorem stays_modifyPath (p : PathId) (f : PathData → PathData) : Stays L (modifyPath p f) :=
  .alter (fun _ => rfl) fun _ => rfl

theorem stays_writeLine (level : Level) (text : String) : Stays L (writeLine level text) :=
  .alter (fun _ => rfl) fun _ => rfl

theorem stays_declare (env : Env) (name : String) {v : Value} (hv : IsFrom L v)
    (isMutable : Bool) : Stays L (declare env name v isMutable) := by
  cases env with
  | nil => exact .pure trivial
  | cons s env => exact stays_modifyScope s fun s hs => isFrom_declare hs name hv

theorem stays_lookup (name : String) (env : Env) : Stays L (lookup name env) := by
  refine .read (fun m => by rw [m.lookup?_informed]) fun m hm => ?_
  split
  · next v hv => exact .pure (hm.lookup? name env v hv)
  · exact .raise _

theorem stays_assign (name : String) {v : Value} (hv : IsFrom L v) (env : Env) :
    Stays L (assign name v env) := by
  refine .read (fun _ => rfl) fun m _ => ?_
  split
  · exact .raise _
  · refine .read (fun _ => rfl) fun m _ => .ite (stays_modifyScope _ fun s hs => ?_) (.raise _)
    exact isFrom_declare hs name hv

/-! ### Making functions -/

/-- A machine with the code of one more of the functions `L`. -/
theorem Machine.IsFrom.remember {m : Machine} (hm : m.IsFrom L) {f : FunctionLiteral}
    (hf : f ∈ L) : { m with code := (f.span, f.code) :: m.code }.IsFrom L where
  arrays := hm.arrays
  objects := hm.objects
  scopes := hm.scopes
  code := List.cons_subset.mpr ⟨List.mem_map.mpr ⟨f, hf, rfl⟩, hm.code⟩

/-- What a machine knows by the span of a function is its code. -/
theorem Machine.IsFrom.eq_of_lookup_code {m : Machine} (hm : m.IsFrom L)
    (hL : L.Pairwise fun f g => f.span ≠ g.span) {f : FunctionLiteral} (hf : f ∈ L) {c : Code}
    (h : m.code.lookup f.span = some c) : c = f.code := by
  obtain ⟨before, after, heq, -⟩ := List.lookup_eq_some_iff.mp h
  have hknown : (f.span, c) ∈ m.code := heq ▸ List.mem_append_right before List.mem_cons_self
  obtain ⟨g, hg, hentry⟩ := List.mem_map.mp (hm.code hknown)
  obtain ⟨hspan, hcode⟩ := Prod.mk.inj hentry
  by_contra hne
  have hfg : f ≠ g := fun h => hne (by rw [h, hcode])
  have : Std.Symm fun f g : FunctionLiteral => f.span ≠ g.span := ⟨fun _ _ => Ne.symm⟩
  exact hL.forall hf hg hfg hspan.symm

/-- Where all code is known, the span of a function leads to its code. -/
theorem lookup_codeTable (hL : L.Pairwise fun f g => f.span ≠ g.span) {f : FunctionLiteral}
    (hf : f ∈ L) : (codeTable L).lookup f.span = some f.code := by
  induction L with
  | nil => cases hf
  | cons g rest ih =>
    obtain ⟨hg, hrest⟩ := List.pairwise_cons.mp hL
    rcases List.mem_cons.mp hf with rfl | hf
    · exact List.lookup_cons_self
    · have hne : (f.span == g.span) = false := beq_false_of_ne (Ne.symm (hg f hf))
      rw [codeTable, List.map_cons, List.lookup_cons, hne]
      exact ih hrest hf

section

variable {m : Machine} {span : Span} {name : String} {code : Code} {env : Env}

theorem newFunctionId_eq (m : Machine) :
    newFunctionId m = .ok m.nextFunction { m with nextFunction := m.nextFunction + 1 } := rfl

theorem get_eq (m : Machine) : (get : Script Machine) m = .ok m m := rfl

/-- Where the code of a span is known, a closure is made of that. -/
theorem newClosure_of_known {known : Code} (h : m.code.lookup span = some known) :
    newClosure span name code env m =
      .ok (.function ⟨m.nextFunction, name, known, env⟩)
        { m with nextFunction := m.nextFunction + 1 } := by
  unfold newClosure
  rw [bind_eq_of_ok (newFunctionId_eq m), bind_eq_of_ok (get_eq _)]
  simp only [h]
  rfl

theorem newClosure_of_unknown (h : m.code.lookup span = none) :
    newClosure span name code env m =
      .ok (.function ⟨m.nextFunction, name, code, env⟩)
        { m with nextFunction := m.nextFunction + 1, code := (span, code) :: m.code } := by
  unfold newClosure
  rw [bind_eq_of_ok (newFunctionId_eq m), bind_eq_of_ok (get_eq _)]
  simp only [h]
  rfl

end

/-- **Every function has the code that it was written with**, whatever the machine knows. -/
theorem newClosure_eq (hL : L.Pairwise fun f g => f.span ≠ g.span) {f : FunctionLiteral}
    (hf : f ∈ L) (name : String) (env : Env) {m : Machine} (hm : IsFrom L m) :
    ∃ known,
      newClosure f.span name f.code env m =
        .ok (.function ⟨m.nextFunction, name, f.code, env⟩)
          { m with nextFunction := m.nextFunction + 1, code := known } ∧
      IsFrom L { m with nextFunction := m.nextFunction + 1, code := known } := by
  have hnext : { m with nextFunction := m.nextFunction + 1 }.IsFrom L := hm.of_stores_eq rfl
  cases h : m.code.lookup f.span with
  | none => exact ⟨(f.span, f.code) :: m.code, newClosure_of_unknown h, hnext.remember hf⟩
  | some known =>
    obtain rfl := hm.eq_of_lookup_code hL hf h
    exact ⟨m.code, newClosure_of_known h, hnext⟩

theorem stays_newClosure (hL : L.Pairwise fun f g => f.span ≠ g.span) {f : FunctionLiteral}
    (hf : f.IsIn L) (name : String) (env : Env) :
    Stays L (newClosure f.span name f.code env) := by
  intro m hm
  obtain ⟨known, heq, hm'⟩ := newClosure_eq hL hf.mem name env hm
  have hlookup : (m.informed L).code.lookup f.span = some f.code := lookup_codeTable hL hf.mem
  rw [heq, newClosure_of_known hlookup]
  exact ⟨⟨⟨f, hf, rfl⟩, hm'⟩, rfl⟩

end Script

end Espalier
