import Espalier.Proofs.Script.Primitive
import Espalier.Proofs.Script.Unwinding

/-!
# Runs side by side

A `Comparison` sets a run beside another one that may take at least as many steps. As long as the
first run has steps left, the second one does the same: the ends of their operations are equal, but
for the number of steps that are allowed. When the first run has used up its steps, it is on its way
out; what is known then of the second run is up to the comparison, and has to outlast the ways in
which operations are made of each other.

So every comparison is a `Congruence`. Statements with a finalizer, which no congruence speaks of,
are related if what is known outlasts them, too.
-/

namespace Espalier.Script

open Relation (ReflTransGen)

/-- The machine with another number of steps allowed. -/
def Machine.withMaxSteps (m : Machine) (n : Nat) : Machine :=
  m.withLedger { m.ledger with maxSteps := n }

/-- A run and a second one that may take at least as many steps. -/
structure Comparison where
  /-- The steps of the first run. -/
  max : Nat
  /-- The steps of the second run. -/
  larger : Nat
  max_le : max ≤ larger
  /-- What is known when the first run has used up its steps: of the machine that an operation of it
  leaves, and of the end of the operation in the second run. -/
  Stopped : {α : Type} → Machine → EStateM.Result Failure Machine α → Prop
  of_tick : ∀ {m : Machine}, m.budget.maxSteps = max → m.steps = max →
    Stopped (m.step.enter (.exhausted (.steps max))) (tick (m.withMaxSteps larger))
  of_bind : ∀ {α β : Type} {x : Script α} {m m' : Machine}, Stopped m' (x m) →
    ∀ f : α → Script β, Stopped m' ((x >>= f) m)
  of_callingDeeper : ∀ {α : Type} {x : Script α} {m m' : Machine}, Stopped m' (x m.deeper) →
    m.depth < m.budget.maxCallDepth → Stopped m'.returned (callingDeeper x m)
  of_catching : ∀ {α : Type} {x : Script α} {m m' : Machine}, Stopped m' (x m) →
    ∀ handler, Stopped m' (catching x handler m)
  of_concluding : ∀ {last : Script Completion} {m m' : Machine}, Stopped m' (last m) →
    ∀ pending, Stopped (m'.overrule pending) (concluding pending last m)

namespace Comparison

variable (c : Comparison) {α β : Type} {m m' : Machine}

/-- The first run has not used up its steps. -/
structure Allows (m : Machine) : Prop where
  maxSteps_eq : m.budget.maxSteps = c.max
  steps_le : m.steps ≤ c.max

/-- The first run has used up its steps. -/
structure Exceeds (m : Machine) : Prop where
  maxSteps_eq : m.budget.maxSteps = c.max
  lt_steps : c.max < m.steps

/-- How an operation ends in both runs, when they start it at `m`. -/
inductive Ends (m : Machine) :
    EStateM.Result Failure Machine α → EStateM.Result Failure Machine α → Prop
  | ok (a : α) (m' : Machine) : c.Allows m' → m.steps ≤ m'.steps →
      Ends m (.ok a m') (.ok a (m'.withMaxSteps c.larger))
  | error (e : Failure) (m' : Machine) : c.Allows m' → m.steps ≤ m'.steps →
      (∀ n, e ≠ .exhausted (.steps n)) → Ends m (.error e m') (.error e (m'.withMaxSteps c.larger))
  | stopped (m' : Machine) (r : EStateM.Result Failure Machine α) : c.Exceeds m' → c.Stopped m' r →
      Ends m (.error (.exhausted (.steps c.max)) m') r

/-- An operation of the first run and one of the second run end alike. -/
def Relates (x y : Script α) : Prop :=
  ∀ m, c.Allows m → c.Ends m (x m) (y (m.withMaxSteps c.larger))

variable {c}

/-- Steps may have been spent before. -/
theorem Ends.of_le {r s : EStateM.Result Failure Machine α} (h : c.Ends m' r s)
    (hle : m.steps ≤ m'.steps) : c.Ends m r s := by
  cases h with
  | ok a m'' hm'' hle' => exact .ok a m'' hm'' (Nat.le_trans hle hle')
  | error e m'' hm'' hle' hne => exact .error e m'' hm'' (Nat.le_trans hle hle') hne
  | stopped m'' _ hm'' hs => exact .stopped m'' s hm'' hs

/-! ### Operations of the machine -/

/-- A step counts in both runs, or is the last one of the smaller budget. -/
theorem relates_tick : c.Relates tick tick := by
  intro m hm
  obtain ⟨hmax, hle⟩ := hm
  rcases Nat.lt_or_eq_of_le hle with hlt | heq
  · rw [tick_of_lt (hmax ▸ hlt),
      tick_of_lt (m := m.withMaxSteps c.larger) (Nat.lt_of_lt_of_le hlt c.max_le)]
    exact .ok () m.step ⟨hmax, hlt⟩ (Nat.le_succ _)
  · rw [tick_of_le (Nat.le_of_eq (hmax.trans heq.symm)), hmax]
    exact .stopped _ _ ⟨hmax, Nat.lt_succ_of_le (Nat.le_of_eq heq.symm)⟩ (c.of_tick hmax heq)

theorem relates_giveUp {e : Failure} (hne : ∀ n, e ≠ .exhausted (.steps n)) :
    c.Relates (giveUp e : Script α) (giveUp e) :=
  fun m hm => .error e (m.enter e) ⟨hm.maxSteps_eq, hm.steps_le⟩ (Nat.le_refl _) hne

/-- Two runs compare step by step. -/
theorem ends_bind {x y : Script α} {f g : α → Script β}
    (hx : c.Ends m (x m) (y (m.withMaxSteps c.larger)))
    (hf : ∀ a m', x m = .ok a m' → c.Allows m' → m.steps ≤ m'.steps →
      c.Ends m' (f a m') (g a (m'.withMaxSteps c.larger))) :
    c.Ends m ((x >>= f) m) ((y >>= g) (m.withMaxSteps c.larger)) := by
  generalize hr : x m = r, hs : y (m.withMaxSteps c.larger) = s at hx
  cases hx with
  | ok a m' hm' hle =>
    rw [bind_eq_of_ok hr, bind_eq_of_ok hs]
    exact (hf a m' hr hm' hle).of_le hle
  | error e m' hm' hle hne =>
    rw [bind_eq_error hr, bind_eq_error hs]
    exact .error e m' hm' hle hne
  | stopped m' _ hm' hstop =>
    rw [bind_eq_error hr]
    exact .stopped m' _ hm' (c.of_bind (hs ▸ hstop) g)

theorem relates_bind {x y : Script α} {f g : α → Script β} (hx : c.Relates x y)
    (hf : ∀ a, c.Relates (f a) (g a)) : c.Relates (x >>= f) (y >>= g) :=
  fun m hm => ends_bind (hx m hm) fun a m' _ hm' _ => hf a m' hm'

/-- Going one call deeper compares, as both sides have the same depth left. -/
theorem relates_callingDeeper {x y : Script α} (h : c.Relates x y) :
    c.Relates (callingDeeper x) (callingDeeper y) := by
  intro m hm
  rcases Nat.lt_or_ge m.depth m.budget.maxCallDepth with hlt | hge
  · have hinner := h m.deeper ⟨hm.maxSteps_eq, hm.steps_le⟩
    have hltr : (m.withMaxSteps c.larger).depth < (m.withMaxSteps c.larger).budget.maxCallDepth :=
      hlt
    generalize hr : x m.deeper = r, hs : y (m.deeper.withMaxSteps c.larger) = s at hinner
    cases hinner with
    | ok a m' hm' hle =>
      rw [callingDeeper_of_ok hlt hr, callingDeeper_of_ok hltr hs]
      exact .ok a m'.returned ⟨hm'.maxSteps_eq, hm'.steps_le⟩ hle
    | error e m' hm' hle hne =>
      rw [callingDeeper_of_error hlt hr, callingDeeper_of_error hltr hs]
      exact .error e m'.returned ⟨hm'.maxSteps_eq, hm'.steps_le⟩ hle hne
    -- the smaller budget was used up inside, the larger one may have been as well
    | stopped m' _ hm' hstop =>
      rw [callingDeeper_of_error hlt hr]
      exact .stopped m'.returned _ ⟨hm'.maxSteps_eq, hm'.lt_steps⟩
        (c.of_callingDeeper (hs ▸ hstop) hltr)
  · -- both are too deep, and fail in the same way
    rw [callingDeeper_of_le x hge, callingDeeper_of_le (m := m.withMaxSteps c.larger) y hge]
    exact .error _ (m.deeper.enter _).returned ⟨hm.maxSteps_eq, hm.steps_le⟩ (Nat.le_refl _) nofun

/-- A failure that can be caught is caught in both. -/
theorem relates_catching {x y : Script α} {f g : Failure → Script α} (hx : c.Relates x y)
    (hf : ∀ e, e.isCatchable = true → c.Relates (f e) (g e)) :
    c.Relates (catching x f) (catching y g) := by
  intro m hm
  have h := hx m hm
  generalize hr : x m = r, hs : y (m.withMaxSteps c.larger) = s at h
  cases h with
  | ok a m' hm' hle =>
    rw [catching_of_ok hr, catching_of_ok hs]
    exact .ok a m' hm' hle
  | error e m' hm' hle hne =>
    rw [catching_of_error hr, catching_of_error hs]
    split
    · next he => exact (hf e he m' hm').of_le hle
    · exact .error e m' hm' hle hne
  | stopped m' _ hm' hstop =>
    rw [catching_of_error hr]
    exact .stopped m' _ hm' (c.of_catching (hs ▸ hstop) g)

/-- There is room in both runs for all the rounds that the first one can take. -/
theorem ends_rounds {σ : Type} {f g : σ → Script (σ ⊕ α)} (h : ∀ s, c.Relates (f s) (g s))
    {room room' : Nat} (s : σ) (hm : c.Allows m) (hroom : c.max < m.steps + room)
    (hle : room ≤ room') :
    c.Ends m (rounds f room s m) (rounds g room' s (m.withMaxSteps c.larger)) := by
  -- Each round takes a step, so the steps that are left go down with the room.
  induction room generalizing room' s m with
  | zero => exact absurd hm.steps_le (Nat.not_le_of_lt hroom)
  | succ room ih =>
    obtain ⟨room', rfl⟩ : ∃ n, room' = n + 1 := ⟨room' - 1, by omega⟩
    refine ends_bind (relates_tick m hm) fun _ m₁ htick hm₁ _ => ?_
    have hstep := steps_of_tick htick
    refine ends_bind (h s m₁ hm₁) fun next m₂ _ hm₂ hle₂ => ?_
    cases next with
    | inl s => exact ih s hm₂ (by omega) (Nat.le_of_succ_le_succ hle)
    | inr a => exact .ok a m₂ hm₂ (Nat.le_refl _)

/-! ### The congruence -/

/-- What does not touch the ledger does the same whatever number of steps is allowed. -/
theorem relates_modifyGet {f : Machine → α × Machine}
    (h : ∀ m l, f (m.withLedger l) = ((f m).1, (f m).2.withLedger l)) :
    c.Relates (modifyGet f : Script α) (modifyGet f) := by
  intro m hm
  -- With the ledger that the machine has, the law says that the change leaves it alone.
  have hledger : (f m).2.ledger = m.ledger := congrArg (·.2.ledger) (h m m.ledger)
  have hother : f (m.withMaxSteps c.larger) = ((f m).1, (f m).2.withMaxSteps c.larger) := by
    rw [Machine.withMaxSteps, h, Machine.withMaxSteps, hledger]
  have hmax : (f m).2.budget.maxSteps = m.budget.maxSteps := congrArg Ledger.maxSteps hledger
  have hsteps : (f m).2.steps = m.steps := congrArg Ledger.steps hledger
  show c.Ends m (.ok (f m).1 (f m).2)
    (.ok (f (m.withMaxSteps c.larger)).1 (f (m.withMaxSteps c.larger)).2)
  rw [hother]
  exact .ok _ _ ⟨hmax.trans hm.maxSteps_eq, hsteps ▸ hm.steps_le⟩ (Nat.le_of_eq hsteps.symm)

/-- Two runs side by side agree with the ways in which operations are made. -/
def compatibility (c : Comparison) : Compatibility where
  Relates := c.Relates
  of_pure a m hm := .ok a m hm (Nat.le_refl _)
  of_bind := relates_bind
  of_read hg h m hm := by
    have hread := h m m hm
    rw [← hg m { m.ledger with maxSteps := c.larger }] at hread
    exact hread
  of_modifyGet h _ := relates_modifyGet h
  of_throw he m hm := .error _ m hm (Nat.le_refl _) fun n hn => by subst hn; cases he
  of_giveUp _ hne := relates_giveUp hne
  of_tick := relates_tick
  of_callingDeeper := relates_callingDeeper
  of_catching := relates_catching
  of_repeating h s m hm := by
    have hmax := hm.maxSteps_eq
    have hle := c.max_le
    refine ends_rounds h s hm (by omega) ?_
    show m.budget.maxSteps - m.steps + 1 ≤ c.larger - m.steps + 1
    omega

/-- The work of the interpreter compares under two budgets. -/
theorem relatesWork (c : Comparison) : c.compatibility.RelatesWork where
  target _ := relates_modifyGet fun _ _ => rfl
  edits _ := relates_modifyGet fun _ _ => rfl

/-- The program under work is the same in both runs. -/
def congruence (c : Comparison) : Congruence := c.compatibility.congruence c.relatesWork

/-! ### Statements with a finalizer -/

/-- What overrules a failure spends no steps. -/
theorem Allows.overrule (h : c.Allows m) (pending : Except Failure Completion) :
    c.Allows (m.overrule pending) := by
  rw [Machine.overrule_eq]
  exact ⟨h.maxSteps_eq, h.steps_le⟩

theorem Exceeds.unwinds (h : c.Exceeds m) (hm : ReflTransGen Machine.Unwinds m m') :
    c.Exceeds m' where
  maxSteps_eq := Machine.budget_eq_of_unwinds hm ▸ h.maxSteps_eq
  lt_steps := Nat.lt_of_lt_of_le h.lt_steps (Machine.steps_le_of_unwinds hm)

/-- When the steps are used up, what is done at last changes nothing about that. -/
theorem Exceeds.concluding (h : c.Exceeds m) {self : Evaluator} (hself : self.Counts)
    (finalizer : Block) (env : Env) :
    ∃ m', concluding (.error (.exhausted (.steps c.max))) (self.execBlock finalizer env) m =
        .error (.exhausted (.steps c.max)) m' ∧
      c.Exceeds m' ∧ ReflTransGen Machine.Unwinds m m' := by
  have hle : m.budget.maxSteps ≤ m.steps := h.maxSteps_eq ▸ Nat.le_of_lt h.lt_steps
  obtain ⟨m', hm', hr⟩ := Evaluator.concluding_of_le hself finalizer env hle
  rw [h.maxSteps_eq] at hr
  exact ⟨m', hr, h.unwinds hm', hm'⟩

theorem overrule_withMaxSteps (m : Machine) (n : Nat) (pending : Except Failure Completion) :
    (m.withMaxSteps n).overrule pending = (m.overrule pending).withMaxSteps n := by
  cases pending with
  | ok c => rfl
  | error e => cases e <;> rfl

/-- What is done at last, if the block before has not failed for want of steps. -/
theorem ends_concluding {last last' : Script Completion} {pending : Except Failure Completion}
    (hpending : ∀ n, pending ≠ .error (.exhausted (.steps n)))
    (h : c.Ends m (last m) (last' (m.withMaxSteps c.larger))) :
    c.Ends m (concluding pending last m)
      (concluding pending last' (m.withMaxSteps c.larger)) := by
  generalize hr : last m = r, hs : last' (m.withMaxSteps c.larger) = s at h
  cases h with
  | ok d m' hm' hle =>
    -- a finalizer that ends normally leaves what was pending
    by_cases hd : d = .normal
    · subst hd
      rw [concluding_of_normal pending hr, concluding_of_normal pending hs]
      cases pending with
      | ok d => exact .ok d m' hm' hle
      | error e => exact .error e m' hm' hle fun n hn => hpending n (congrArg _ hn)
    · rw [concluding_of_ok pending hr hd, concluding_of_ok pending hs hd, overrule_withMaxSteps]
      exact .ok d _ (hm'.overrule pending) (m'.steps_overrule pending ▸ hle)
  | error e m' hm' hle hne =>
    rw [concluding_of_error pending hr, concluding_of_error pending hs, overrule_withMaxSteps]
    exact .error e _ (hm'.overrule pending) (m'.steps_overrule pending ▸ hle) hne
  | stopped m' _ hm' hstop =>
    rw [concluding_of_error pending hr]
    exact .stopped _ _ (hm'.unwinds (.single (m'.unwinds_overrule_self pending)))
      (c.of_concluding (hs ▸ hstop) pending)

/-- Two operations of which the second is done at last. The second run may conclude in another way
when the steps are used up. -/
theorem relates_concluding {block block' last last' : Script Completion}
    {conclude : Except Failure Completion → Script Completion} (hblock : c.Relates block block')
    (hlast : c.Relates last last')
    (hconclude : ∀ pending, (∀ n, pending ≠ .error (.exhausted (.steps n))) →
      conclude pending = concluding pending last')
    (hstopped : ∀ m m', c.Exceeds m' → c.Stopped m' (block' m) →
      ∃ m'', concluding (.error (.exhausted (.steps c.max))) last m' =
          .error (.exhausted (.steps c.max)) m'' ∧
        c.Exceeds m'' ∧ c.Stopped m'' ((outcome block' >>= conclude) m)) :
    c.Relates (outcome block >>= fun pending => concluding pending last)
      (outcome block' >>= conclude) := by
  intro m hm
  have h := hblock m hm
  have hstopped := hstopped (m.withMaxSteps c.larger)
  generalize hr : block m = r, hs : block' (m.withMaxSteps c.larger) = s at h
  cases h with
  | ok d m' hm' hle =>
    have hpending : ∀ n, Except.ok d ≠ .error (Failure.exhausted (.steps n)) := nofun
    rw [bind_eq_of_ok (outcome_of_ok hr), bind_eq_of_ok (outcome_of_ok hs), hconclude _ hpending]
    exact (ends_concluding hpending (hlast m' hm')).of_le hle
  | error e m' hm' hle hne =>
    -- The only failure that is not held back is that of an operation that cannot be carried out.
    by_cases he : e = .aborted
    · subst he
      rw [bind_eq_error (outcome_of_aborted hr), bind_eq_error (outcome_of_aborted hs)]
      exact .error _ m' hm' hle hne
    · have hpending : ∀ n, Except.error e ≠ .error (.exhausted (.steps n)) (α := Completion) :=
        fun n hn => hne n (Except.error.inj hn)
      rw [bind_eq_of_ok (outcome_of_error hr he), bind_eq_of_ok (outcome_of_error hs he),
        hconclude _ hpending]
      exact (ends_concluding hpending (hlast m' hm')).of_le hle
  | stopped m' _ hm' hstop =>
    obtain ⟨m'', hrun, hm'', hstop''⟩ := hstopped m' hm' (hs ▸ hstop)
    rw [bind_eq_of_ok (outcome_of_error hr nofun), hrun]
    exact .stopped m'' _ hm'' hstop''

end Comparison

end Espalier.Script
