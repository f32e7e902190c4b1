import Espalier.Script.Evaluator

/-!
# Relations between operations

What a run has used of its budget and which failures it could not catch are kept in the machine, but
hardly any operation touches them: steps are counted by `tick` alone, failures are entered by
`giveUp` alone, and only the end of a statement with a finalizer enters that one was overruled.
These entries are the ledger of the machine. The program under work is changed by edits only: an
assignment to a property of a node, and the methods of a path that remove its node or replace it.

A `Compatibility` is a relation between operations of the machine that agrees with the ways in which
operations are made of each other: operations that touch neither the ledger nor the program under
work are related to themselves, and what is made of related operations is related. A `Congruence`
relates edits to themselves as well. So a relation between runs has to be checked for the few
operations only that touch the ledger or the program, and holds for everything that a script can do.
-/

namespace Espalier.Script

/-- The entries of a machine about its steps and about the failures that ended operations. -/
structure Ledger where
  maxSteps : Nat
  steps : Nat
  raised : List Failure
  overruled : List Failure

namespace Machine

/-- The ledger of a machine. -/
def ledger (m : Machine) : Ledger := ⟨m.budget.maxSteps, m.steps, m.raised, m.overruled⟩

/-- The machine with another ledger. -/
def withLedger (m : Machine) (l : Ledger) : Machine :=
  { m with
    budget := { m.budget with maxSteps := l.maxSteps }
    steps := l.steps
    raised := l.raised
    overruled := l.overruled }

variable (m : Machine) (l : Ledger)

@[simp]
theorem ledger_withLedger : (m.withLedger l).ledger = l := rfl

/-- A machine with its own ledger is itself. -/
@[simp]
theorem withLedger_ledger : m.withLedger m.ledger = m := rfl

/-! ### What is read without the ledger -/

@[simp]
theorem scopes_withLedger : (m.withLedger l).scopes = m.scopes := rfl

@[simp]
theorem items_withLedger (a : ArrayId) : (m.withLedger l).items a = m.items a := rfl

@[simp]
theorem object_withLedger (o : ObjectId) : (m.withLedger l).object o = m.object o := rfl

@[simp]
theorem path_withLedger (p : PathId) : (m.withLedger l).path p = m.path p := rfl

@[simp]
theorem nodeAt?_withLedger (steps : List Step) :
    (m.withLedger l).nodeAt? steps = m.nodeAt? steps :=
  rfl

/-- Names are looked up in the scopes, not in the ledger. -/
@[simp]
theorem lookup?_withLedger (name : String) (env : Env) :
    (m.withLedger l).lookup? name env = m.lookup? name env := by
  induction env with
  | nil => rfl
  | cons s env ih => simp only [lookup?, scopes_withLedger, ih]

@[simp]
theorem this_withLedger (env : Env) : (m.withLedger l).this env = m.this env := by
  induction env with
  | nil => rfl
  | cons s env ih => simp only [this, scopes_withLedger, ih]

@[simp]
theorem functionScope_withLedger (env : Env) :
    (m.withLedger l).functionScope env = m.functionScope env := by
  induction env with
  | nil => rfl
  | cons s env ih =>
    cases env with
    | nil => rfl
    | cons t env => simp only [functionScope, scopes_withLedger, ih]

/-- Conversions do not look at the ledger. -/
@[simp]
theorem number?_withLedger (v : Value) : (m.withLedger l).number? v = m.number? v := by
  suffices h : ∀ fuel v, (m.withLedger l).numberWithin? fuel v = m.numberWithin? fuel v from h _ v
  intro fuel
  induction fuel with
  | zero => intro v; cases v <;> rfl
  | succ fuel ih => intro v; cases v <;> simp only [numberWithin?, items_withLedger, ih]

/-- The ledger of failures is not seen by what turns a value into text. -/
@[simp]
theorem text?_withLedger (v : Value) (locked : Option Container) :
    (m.withLedger l).text? v locked = m.text? v locked := by
  suffices h : ∀ fuel v,
      (m.withLedger l).textWithin? locked fuel v = m.textWithin? locked fuel v from h _ v
  intro fuel
  induction fuel with
  | zero => intro v; cases v <;> rfl
  | succ fuel ih =>
    intro v
    cases v <;> simp only [textWithin?, items_withLedger, object_withLedger, ih]

@[simp]
theorem json_withLedger (v : Value) : (m.withLedger l).json v = m.json v := by
  suffices h : ∀ room v, (m.withLedger l).jsonWithin room v = m.jsonWithin room v from h _ v
  intro room
  induction room with
  | zero => intro v; rfl
  | succ room ih =>
    intro v
    unfold jsonWithin
    simp only [items_withLedger, object_withLedger, nodeAt?_withLedger, ih]
    rfl

theorem shownWithin?_withLedger (levels : Nat) (v : Value) :
    (m.withLedger l).shownWithin? levels v = m.shownWithin? levels v := by
  induction levels generalizing v with
  | zero =>
    unfold shownWithin?
    simp only [items_withLedger, object_withLedger, nodeAt?_withLedger, path_withLedger,
      text?_withLedger]
    -- the branches that go on are not reached
    cases v with
    | array a =>
      dsimp only
      cases (m.items a).toList <;> rfl
    | object o =>
      dsimp only
      cases (m.object o).properties <;> rfl
    | _ => rfl
  | succ levels ih =>
    unfold shownWithin?
    simp only [items_withLedger, object_withLedger, nodeAt?_withLedger, path_withLedger,
      text?_withLedger]
    cases v with
    | array a =>
      dsimp only
      cases (m.items a).toList with
      | nil => rfl
      | cons v vs => simp only [funext ih]
    | object o =>
      dsimp only
      cases (m.object o).properties with
      | nil => rfl
      | cons p ps => simp only [ih]
    | _ => rfl

@[simp]
theorem shown?_withLedger : (m.withLedger l).shown? = m.shown? := by
  funext v
  unfold shown?
  simp only [shownWithin?_withLedger]

end Machine

/-- The program under work, and the edits of it. -/
def Machine.work (m : Machine) : Option Program × List Edit := (m.target, m.edits)

/-- A relation between operations that agrees with the ways in which operations are made of each
other, if these are no edits. -/
structure Compatibility where
  Relates : {α : Type} → Script α → Script α → Prop
  of_pure : ∀ {α : Type} (a : α), Relates (pure a) (pure a)
  of_bind : ∀ {α β : Type} {x y : Script α} {f g : α → Script β}, Relates x y →
    (∀ a, Relates (f a) (g a)) → Relates (x >>= f) (y >>= g)
  /-- What is read is not in the ledger. -/
  of_read : ∀ {α : Type} {f g : Machine → Script α}, (∀ m l, g (m.withLedger l) = g m) →
    (∀ m, Relates (f m) (g m)) → Relates (get >>= f) (get >>= g)
  /-- What is changed is neither the ledger nor the program under work, and does not depend on the
  ledger. -/
  of_modifyGet : ∀ {α : Type} {f : Machine → α × Machine},
    (∀ m l, f (m.withLedger l) = ((f m).1, (f m).2.withLedger l)) →
    (∀ m, (f m).2.work = m.work) → Relates (modifyGet f) (modifyGet f)
  of_throw : ∀ {α : Type} {e : Failure}, e.isCatchable = true →
    Relates (throw e : Script α) (throw e)
  /-- That the steps are used up is found out by `tick` only. -/
  of_giveUp : ∀ {α : Type} {e : Failure}, e.isCatchable = false →
    (∀ n, e ≠ .exhausted (.steps n)) → Relates (giveUp e : Script α) (giveUp e)
  of_tick : Relates tick tick
  of_callingDeeper : ∀ {α : Type} {x y : Script α}, Relates x y →
    Relates (callingDeeper x) (callingDeeper y)
  /-- A handler gets only failures that it can catch. -/
  of_catching : ∀ {α : Type} {x y : Script α} {f g : Failure → Script α}, Relates x y →
    (∀ e, e.isCatchable = true → Relates (f e) (g e)) → Relates (catching x f) (catching y g)
  of_repeating : ∀ {σ α : Type} {f g : σ → Script (σ ⊕ α)}, (∀ s, Relates (f s) (g s)) →
    ∀ s, Relates (repeating f s) (repeating g s)

namespace Compatibility

/-- An operation is related to itself. -/
abbrev Keeps (C : Compatibility) {α : Type} (x : Script α) : Prop := C.Relates x x

namespace Relates

variable {C : Compatibility} {α β : Type}

@[simp]
theorem pure (a : α) : C.Keeps (pure a) := C.of_pure a

/-- Two steps relate if each does. -/
@[simp]
theorem bind {x y : Script α} {f g : α → Script β} (hx : C.Relates x y)
    (hf : ∀ a, C.Relates (f a) (g a)) : C.Relates (x >>= f) (y >>= g) :=
  C.of_bind hx hf

/-- What is read must not depend on the ledger. -/
theorem read {f g : Machine → Script α} (hg : ∀ m l, g (m.withLedger l) = g m)
    (h : ∀ m, C.Relates (f m) (g m)) : C.Relates (get >>= f) (get >>= g) :=
  C.of_read hg h

/-- What is changed must be neither the ledger nor the program under work. -/
theorem modifyGet {f : Machine → α × Machine}
    (h : ∀ m l, f (m.withLedger l) = ((f m).1, (f m).2.withLedger l))
    (hwork : ∀ m, (f m).2.work = m.work) : C.Keeps (modifyGet f : Script α) :=
  C.of_modifyGet h hwork

theorem modify {f : Machine → Machine} (h : ∀ m l, f (m.withLedger l) = (f m).withLedger l)
    (hwork : ∀ m, (f m).work = m.work) : C.Keeps (modify f : Script PUnit) :=
  C.of_modifyGet (fun m l => Prod.ext rfl (h m l)) hwork

theorem throw {e : Failure} (he : e.isCatchable = true) : C.Keeps (throw e : Script α) :=
  C.of_throw he

@[simp]
theorem raise (fault : Fault) : C.Keeps (raise fault : Script α) := throw rfl

/-- A value that may be missing is raised for on both sides. -/
@[simp]
theorem orRaise (fault : Fault) (a? : Option α) : C.Keeps (orRaise fault a?) := by
  cases a? with
  | none => exact raise fault
  | some a => exact pure a

@[simp]
theorem abort : C.Keeps (giveUp .aborted : Script α) := C.of_giveUp rfl nofun

@[simp]
theorem noPlugin (cause : PluginError) : C.Keeps (giveUp (.plugin cause) : Script α) :=
  C.of_giveUp rfl nofun

@[simp]
theorem noInput (cause : ParseError) : C.Keeps (giveUp (.input cause) : Script α) :=
  C.of_giveUp rfl nofun

@[simp]
theorem tick : C.Keeps tick := C.of_tick

@[simp]
theorem map {x y : Script α} (f : α → β) (h : C.Relates x y) : C.Relates (f <$> x) (f <$> y) := by
  rw [map_eq_pure_bind, map_eq_pure_bind]
  exact bind h fun _ => pure _

@[simp]
theorem ite {c : Prop} [Decidable c] {x x' y y' : Script α} (hx : C.Relates x x')
    (hy : C.Relates y y') : C.Relates (if c then x else y) (if c then x' else y') := by
  split
  · exact hx
  · exact hy

/-- What comes after an operation that is carried out under a condition only. -/
theorem when {c : Prop} [Decidable c] {x y : Script PUnit} {f g : PUnit → Script α}
    (hx : C.Relates x y) (hf : ∀ u, C.Relates (f u) (g u)) :
    C.Relates (if c then x >>= fun u => f u else f ⟨⟩) (if c then y >>= fun u => g u else g ⟨⟩) :=
  ite (bind hx hf) (hf ⟨⟩)

theorem callingDeeper {x y : Script α} (h : C.Relates x y) :
    C.Relates (callingDeeper x) (callingDeeper y) :=
  C.of_callingDeeper h

theorem catching {x y : Script α} {f g : Failure → Script α} (h : C.Relates x y)
    (hf : ∀ e, e.isCatchable = true → C.Relates (f e) (g e)) :
    C.Relates (catching x f) (catching y g) :=
  C.of_catching h hf

/-! ### Repeating -/

theorem repeating {σ : Type} {f g : σ → Script (σ ⊕ α)} (h : ∀ s, C.Relates (f s) (g s)) (s : σ) :
    C.Relates (repeating f s) (repeating g s) :=
  C.of_repeating h s

/-- A list is gone through in the same order on both sides. -/
@[simp]
theorem forM {f g : α → Script PUnit} (h : ∀ a, C.Relates (f a) (g a)) (as : List α) :
    C.Relates (as.forM f) (as.forM g) := by
  induction as with
  | nil => exact pure _
  | cons a as ih =>
    show C.Relates (f a >>= fun _ => as.forM f) (g a >>= fun _ => as.forM g)
    exact bind (h a) fun _ => ih

@[simp]
theorem optionForM {f g : α → Script PUnit} (h : ∀ a, C.Relates (f a) (g a)) (a? : Option α) :
    C.Relates (a?.forM f) (a?.forM g) := by
  cases a? with
  | none => exact pure _
  | some a => exact h a

@[simp]
theorem foldlM {f g : β → α → Script β} (h : ∀ b a, C.Relates (f b a) (g b a)) (b : β)
    (as : List α) : C.Relates (as.foldlM f b) (as.foldlM g b) := by
  induction as generalizing b with
  | nil => exact pure _
  | cons a as ih =>
    rw [List.foldlM_cons, List.foldlM_cons]
    exact bind (h b a) fun b => ih b

@[simp]
theorem arrayFoldlM {f g : β → α → Script β} (h : ∀ b a, C.Relates (f b a) (g b a)) (b : β)
    (as : Array α) : C.Relates (as.foldlM f b) (as.foldlM g b) := by
  rw [← Array.foldlM_toList, ← Array.foldlM_toList]
  exact foldlM h b as.toList

@[simp]
theorem mapM {f g : α → Script β} (h : ∀ a, C.Relates (f a) (g a)) (as : List α) :
    C.Relates (as.mapM f) (as.mapM g) := by
  induction as with
  | nil => exact pure _
  | cons a as ih =>
    rw [List.mapM_cons, List.mapM_cons]
    exact bind (h a) fun b => bind ih fun bs => pure _

@[simp]
theorem arrayMapM {f g : α → Script β} (h : ∀ a, C.Relates (f a) (g a)) (as : Array α) :
    C.Relates (as.mapM f) (as.mapM g) := by
  rw [Array.mapM_eq_mapM_toList, Array.mapM_eq_mapM_toList]
  exact map _ (mapM h as.toList)

@[simp]
theorem allM {f g : α → Script Bool} (h : ∀ a, C.Relates (f a) (g a)) (as : List α) :
    C.Relates (as.allM f) (as.allM g) := by
  induction as with
  | nil => exact pure _
  | cons a as ih =>
    unfold List.allM
    refine bind (h a) fun b => ?_
    cases b with
    | true => exact ih
    | false => exact pure false

end Relates

end Compatibility

/-- A relation between operations that agrees with all the ways in which operations are made of each
other. -/
structure Congruence extends Compatibility where
  of_assignment : ∀ steps key v, toCompatibility.Keeps
    (editing (.assignment steps key) (setNodeProperty steps key v))
  of_pathEdit : ∀ {method id edit} args, method.edit? id = some edit →
    toCompatibility.Keeps (editing edit (callPathMethod method id args))

end Espalier.Script
