import Espalier.Script.Interpreter

/-!
# How operations end

What becomes of a machine in the operations that every other one is made of: one after another,
steps, calls, handlers, and what is done at last.
-/

namespace Espalier.Script

namespace Machine

/-- The machine after a step. -/
def step (m : Machine) : Machine := { m with steps := m.steps + 1 }

/-- The machine after a failure that cannot be caught. -/
def enter (m : Machine) (e : Failure) : Machine := { m with raised := e :: m.raised }

/-- The machine one call deeper. -/
def deeper (m : Machine) : Machine := { m with depth := m.depth + 1 }

/-- The machine after the return from a call. -/
def returned (m : Machine) : Machine := { m with depth := m.depth - 1 }

/-- Overruling only notes the failure. -/
theorem overrule_eq (m : Machine) (pending : Except Failure Completion) :
    m.overrule pending = { m with overruled := (m.overrule pending).overruled } := by
  cases pending with
  | ok c => rfl
  | error e => cases e <;> rfl

theorem steps_overrule (m : Machine) (pending : Except Failure Completion) :
    (m.overrule pending).steps = m.steps := by
  rw [overrule_eq]

end Machine

/-- Where an operation ends. -/
def endOf {α : Type} (x : Script α) (m : Machine) : Machine :=
  match x m with
  | .ok _ m' => m'
  | .error _ m' => m'

variable {α β : Type} {x : Script α} {m m' : Machine}

theorem endOf_of_ok {a : α} (h : x m = .ok a m') : endOf x m = m' := by
  unfold endOf
  rw [h]

theorem endOf_of_error {e : Failure} (h : x m = .error e m') : endOf x m = m' := by
  unfold endOf
  rw [h]

/-- Operations that give the same result, each on its machine, end on the same machine. -/
theorem endOf_congr {y : Script α} (h : x m = y m') : endOf x m = endOf y m' := by
  unfold endOf
  rw [h]

/-- If two operations have been carried out one after the other, each of them has. -/
theorem exists_of_bind_ok {f : α → Script β} {b : β} (h : (x >>= f) m = .ok b m') :
    ∃ a m₁, x m = .ok a m₁ ∧ f a m₁ = .ok b m' := by
  change EStateM.bind x f m = .ok b m' at h
  unfold EStateM.bind at h
  split at h
  · next a m₁ hx => exact ⟨a, m₁, hx, h⟩
  · cases h

/-- What is given where a fault may be raised was there, and giving it changes nothing. -/
theorem orRaise_ok {fault : Fault} {a? : Option α} {a : α} (h : orRaise fault a? m = .ok a m') :
    a? = some a ∧ m' = m := by
  cases a? with
  | none => cases h
  | some b =>
    cases h
    exact ⟨rfl, rfl⟩

/-- If two operations have failed, one after the other, the first one has failed or the second. -/
theorem exists_of_bind_error {f : α → Script β} {e : Failure} (h : (x >>= f) m = .error e m') :
    x m = .error e m' ∨ ∃ a m₁, x m = .ok a m₁ ∧ f a m₁ = .error e m' := by
  change EStateM.bind x f m = .error e m' at h
  unfold EStateM.bind at h
  split at h
  · next a m₁ hx => exact .inr ⟨a, m₁, hx, h⟩
  · next hx =>
    cases h
    exact .inl hx

/-- A failure means that the value was missing. -/
theorem orRaise_error {fault : Fault} {a? : Option α} {e : Failure}
    (h : orRaise fault a? m = .error e m') : a? = none ∧ m' = m := by
  cases a? <;> cases h
  exact ⟨rfl, rfl⟩

/-- A step that goes well leads on from where it ends. -/
theorem bind_eq_of_ok {a : α} (h : x m = .ok a m') (f : α → Script β) :
    (x >>= f) m = f a m' := by
  show EStateM.bind x f m = _
  unfold EStateM.bind
  rw [h]

/-- A step that fails is the end. -/
theorem bind_eq_error {e : Failure} (h : x m = .error e m') (f : α → Script β) :
    (x >>= f) m = .error e m' := by
  show EStateM.bind x f m = _
  unfold EStateM.bind
  rw [h]

/-! ### Steps -/

/-- Below the budget one more step is counted. -/
theorem tick_of_lt (h : m.steps < m.budget.maxSteps) : tick m = .ok () m.step := by
  show (if m.budget.maxSteps ≤ m.steps then _ else pure () : Script Unit) m.step = _
  rw [if_neg (Nat.not_le_of_lt h)]
  rfl

/-- At the budget the run is exhausted, and that is noted. -/
theorem tick_of_le (h : m.budget.maxSteps ≤ m.steps) :
    tick m = .error (.exhausted (.steps m.budget.maxSteps))
      (m.step.enter (.exhausted (.steps m.budget.maxSteps))) := by
  show (if m.budget.maxSteps ≤ m.steps then giveUp _ else _ : Script Unit) m.step = _
  rw [if_pos h]
  rfl

theorem tick_ok {u : Unit} (h : tick m = .ok u m') : m' = m.step := by
  rcases Nat.lt_or_ge m.steps m.budget.maxSteps with hlt | hge
  · rw [tick_of_lt hlt] at h
    cases h
    rfl
  · rw [tick_of_le hge] at h
    cases h

theorem steps_of_tick {u : Unit} (h : tick m = .ok u m') : m'.steps = m.steps + 1 := by
  rw [tick_ok h]
  rfl

/-! ### Calls and handlers -/

/-- A call that goes well comes back to the depth before. -/
theorem callingDeeper_of_ok (h : m.depth < m.budget.maxCallDepth) {a : α}
    (hx : x m.deeper = .ok a m') : callingDeeper x m = .ok a m'.returned := by
  unfold callingDeeper
  dsimp only
  rw [if_neg (Nat.not_lt_of_le h), show x { m with depth := m.depth + 1 } = _ from hx]
  rfl

/-- So does one that fails. -/
theorem callingDeeper_of_error (h : m.depth < m.budget.maxCallDepth) {e : Failure}
    (hx : x m.deeper = .error e m') : callingDeeper x m = .error e m'.returned := by
  unfold callingDeeper
  dsimp only
  rw [if_neg (Nat.not_lt_of_le h), show x { m with depth := m.depth + 1 } = _ from hx]
  rfl

/-- Beyond the depth allowed no call is made. -/
theorem callingDeeper_of_le (x : Script α) (h : m.budget.maxCallDepth ≤ m.depth) :
    callingDeeper x m =
      .error (.exhausted .callDepth) (m.deeper.enter (.exhausted .callDepth)).returned := by
  unfold callingDeeper
  dsimp only
  rw [if_pos (Nat.lt_succ_of_le h)]
  rfl

/-- An operation that has been carried out one call deeper, and has ended well. -/
theorem callingDeeper_ok {a : α} (h : callingDeeper x m = .ok a m') :
    ∃ m₁, x m.deeper = .ok a m₁ ∧ m' = m₁.returned := by
  unfold callingDeeper at h
  dsimp only at h
  split at h
  · next b m₁ hx =>
    split at hx
    · cases hx
    · cases h
      exact ⟨m₁, hx, rfl⟩
  · cases h

theorem catching_of_ok {handler : Failure → Script α} {a : α} (hx : x m = .ok a m') :
    catching x handler m = .ok a m' := by
  unfold catching
  rw [hx]

/-- A handler gets a failure that can be caught; any other one passes. -/
theorem catching_of_error {handler : Failure → Script α} {e : Failure} (hx : x m = .error e m') :
    catching x handler m = if e.isCatchable then handler e m' else .error e m' := by
  unfold catching
  rw [hx]

/-! ### What is done at last -/

theorem outcome_of_ok {a : α} (hx : x m = .ok a m') : outcome x m = .ok (.ok a) m' := by
  unfold outcome
  rw [hx]

theorem outcome_of_aborted (hx : x m = .error .aborted m') :
    outcome x m = .error .aborted m' := by
  unfold outcome
  rw [hx]

/-- A failure is an outcome, unless the run was aborted. -/
theorem outcome_of_error {e : Failure} (hx : x m = .error e m') (he : e ≠ .aborted) :
    outcome x m = .ok (.error e) m' := by
  unfold outcome
  rw [hx]
  cases e <;> first | rfl | exact absurd rfl he

variable {last : Script Completion} (pending : Except Failure Completion)

/-- A finalizer that ends normally leaves what was pending. -/
theorem concluding_of_normal (h : last m = .ok .normal m') :
    concluding pending last m = resume pending m' := by
  unfold concluding
  rw [h]

/-- One that jumps takes its place, and the failure is noted as overruled. -/
theorem concluding_of_ok {c : Completion} (h : last m = .ok c m') (hc : c ≠ .normal) :
    concluding pending last m = .ok c (m'.overrule pending) := by
  unfold concluding
  rw [h]
  cases c <;> first | rfl | exact absurd rfl hc

/-- One that fails does, too. -/
theorem concluding_of_error {e : Failure} (h : last m = .error e m') :
    concluding pending last m = .error e (m'.overrule pending) := by
  unfold concluding
  rw [h]

end Espalier.Script
