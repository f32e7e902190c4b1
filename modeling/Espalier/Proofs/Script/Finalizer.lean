import Espalier.Proofs.Script.Evaluation
import Espalier.Proofs.Script.Operation
import Espalier.Proofs.Script.Primitive
import Espalier.Proofs.Script.Unwinding

/-!
# The ledger of a run

A `Ledger.Rule` is a condition on the ledger of a machine that is handed on: it says what holds
while a script runs, and what holds from a failure on that the script cannot catch. `Rule.Keeps`
says that an operation hands the condition on. That both of two operations do is a `Congruence`,
whatever the second one is: the rule has to be checked for the few operations only that make
entries.
-/

namespace Espalier.Script

namespace Ledger

/-- One more step. -/
def step (l : Ledger) : Ledger := { l with steps := l.steps + 1 }

/-- One more failure that cannot be caught. -/
def enter (l : Ledger) (e : Failure) : Ledger := { l with raised := e :: l.raised }

/-- A condition on the ledger that operations hand on. -/
structure Rule where
  /-- What holds while a script runs. -/
  during : Ledger → Prop
  /-- What holds after a failure that the script cannot catch. -/
  after : Failure → Ledger → Prop
  /-- A step within the budget. -/
  of_step : ∀ {l}, during l → l.steps < l.maxSteps → during l.step
  /-- A step beyond the budget. -/
  of_last_step : ∀ {l}, during l → l.maxSteps ≤ l.steps →
    after (.exhausted (.steps l.maxSteps)) (l.step.enter (.exhausted (.steps l.maxSteps)))
  /-- Any other failure that cannot be caught. -/
  of_failure : ∀ {l e}, during l → e.isCatchable = false → (∀ n, e ≠ .exhausted (.steps n)) →
    after e (l.enter e)

namespace Rule

/-- What a rule says about the end of an operation. -/
def Ends (R : Rule) {α : Type} : EStateM.Result Failure Machine α → Prop
  | .ok _ m => R.during m.ledger
  | .error e m => if e.isCatchable then R.during m.ledger else R.after e m.ledger

/-- An operation hands a rule on. -/
def Keeps (R : Rule) {α : Type} (x : Script α) : Prop := ∀ m, R.during m.ledger → R.Ends (x m)

end Rule

variable {R : Rule} {α β : Type}

namespace Rule.Keeps

/-! ### Entries -/

theorem pure (a : α) : R.Keeps (pure a : Script α) := by
  intro m h
  exact h

theorem get : R.Keeps get := by
  intro m h
  exact h

/-- A change of the machine that leaves the ledger as it is. -/
theorem modifyGet {f : Machine → α × Machine} (h : ∀ m, (f m).2.ledger = m.ledger) :
    R.Keeps (modifyGet f : Script α) := by
  intro m hm
  show R.during (f m).2.ledger
  rw [h m]
  exact hm

/-- A failure that the script can catch makes no entry. -/
theorem throw {e : Failure} (he : e.isCatchable = true) : R.Keeps (throw e : Script α) := by
  intro m h
  show if e.isCatchable then _ else _
  rw [if_pos he]
  exact h

/-- A failure that the script cannot catch is entered. That the steps are used up is found out by
`tick` only. -/
theorem giveUp {e : Failure} (he : e.isCatchable = false) (hs : ∀ n, e ≠ .exhausted (.steps n)) :
    R.Keeps (giveUp e : Script α) := by
  intro m h
  show if e.isCatchable then _ else R.after e (m.ledger.enter e)
  rw [he]
  exact R.of_failure h he hs

theorem tick : R.Keeps tick := by
  intro m h
  by_cases hsteps : m.budget.maxSteps ≤ m.steps
  · rw [tick_of_le hsteps]
    exact R.of_last_step h hsteps
  · rw [tick_of_lt (Nat.lt_of_not_le hsteps)]
    exact R.of_step h (Nat.lt_of_not_le hsteps)

/-! ### Operations made of operations -/

/-- Two steps keep to a rule if each does. -/
theorem bind {x : Script α} {f : α → Script β} (hx : R.Keeps x) (hf : ∀ a, R.Keeps (f a)) :
    R.Keeps (x >>= f) := by
  intro m h
  have hm := hx m h
  cases hr : x m with
  | ok a m' =>
    rw [hr] at hm
    rw [bind_eq_of_ok hr]
    exact hf a m' hm
  | error e m' =>
    rw [hr] at hm
    rw [bind_eq_error hr]
    exact hm

/-- The depth of calls is not in the ledger. -/
theorem callingDeeper {x : Script α} (hx : R.Keeps x) : R.Keeps (callingDeeper x) := by
  intro m h
  rcases Nat.lt_or_ge m.depth m.budget.maxCallDepth with hlt | hge
  · have hm := hx m.deeper h
    cases hr : x m.deeper with
    | ok a m' =>
      rw [hr] at hm
      rw [callingDeeper_of_ok hlt hr]
      exact hm
    | error e m' =>
      rw [hr] at hm
      rw [callingDeeper_of_error hlt hr]
      exact hm
  · rw [callingDeeper_of_le x hge]
    exact R.of_failure h rfl (by simp)

/-- A handler gets only failures that it can catch. -/
theorem catching {x : Script α} {handler : Failure → Script α} (hx : R.Keeps x)
    (hh : ∀ e, e.isCatchable = true → R.Keeps (handler e)) : R.Keeps (catching x handler) := by
  intro m h
  have hm := hx m h
  cases hr : x m with
  | ok a m' =>
    rw [hr] at hm
    rw [catching_of_ok hr]
    exact hm
  | error e m' =>
    rw [hr] at hm
    rw [catching_of_error hr]
    by_cases he : e.isCatchable = true
    · rw [if_pos he]
      exact hh e he m' (by rwa [Ends, if_pos he] at hm)
    · rw [if_neg he]
      exact hm

/-- A loop keeps to a rule if its rounds do. -/
theorem rounds {σ : Type} {round : σ → Script (σ ⊕ α)} (h : ∀ s, R.Keeps (round s)) (room : Nat)
    (s : σ) : R.Keeps (rounds round room s) := by
  induction room generalizing s with
  | zero => exact giveUp rfl nofun
  | succ room ih =>
    refine bind tick fun _ => bind (h s) fun next => ?_
    cases next with
    | inl s => exact ih s
    | inr a => exact pure a

end Rule.Keeps

/-- That the first of two operations hands a rule on. -/
def Rule.compatibility (R : Rule) : Compatibility where
  Relates x _ := R.Keeps x
  of_pure := Keeps.pure
  of_bind := Keeps.bind
  of_read _ h := Keeps.bind Keeps.get h
  of_modifyGet h _ := Keeps.modifyGet fun m => congrArg (fun p => p.2.ledger) (h m m.ledger)
  of_throw := Keeps.throw
  of_giveUp := Keeps.giveUp
  of_tick := Keeps.tick
  of_callingDeeper := Keeps.callingDeeper
  of_catching := Keeps.catching
  of_repeating h s := Keeps.bind Keeps.get fun _ => Keeps.rounds h _ s

/-- The work of the interpreter keeps to a rule that its steps keep to. -/
theorem Rule.relatesWork (R : Rule) : R.compatibility.RelatesWork where
  target _ := Keeps.modifyGet fun _ => rfl
  edits _ := Keeps.modifyGet fun _ => rfl

/-- The program under work is not in the ledger. -/
def Rule.congruence (R : Rule) : Congruence := R.compatibility.congruence R.relatesWork

end Ledger

end Espalier.Script

/-!
## What is done at last

A statement with a finalizer holds the end of its block back, carries the finalizer out, and then
ends as the block did, unless the finalizer itself ends otherwise than by reaching its end. In that
case the end of the block is forgotten, even if it was a failure that the script cannot catch: the
failure is overruled.

Two rules about the ledger say what becomes of such failures. By `Ledger.Rule.account` every failure
that is entered stays open until it is overruled. By `Ledger.Rule.withinBudget` a failure for want
of steps is never overruled: there is no step left for a finalizer to end otherwise.
-/

namespace Espalier.Script

open Ledger.Rule

/-- The entry that a failure was overruled. -/
def Ledger.overrule (l : Ledger) (e : Failure) : Ledger :=
  { l with overruled := e :: l.overruled }

/-- A failure that is overruled is noted in the ledger. -/
theorem Machine.ledger_overrule {m : Machine} {e : Failure} (he : e.isCatchable = false) :
    (m.overrule (.error e)).ledger = m.ledger.overrule e := by
  show Machine.ledger (if e.isCatchable then m else { m with overruled := e :: m.overruled }) = _
  rw [he]
  rfl

/-- Only a failure that cannot be caught is overruled. -/
theorem Machine.overrule_eq_self {m : Machine} {pending : Except Failure Completion}
    (h : ∀ e, pending = .error e → e.isCatchable = true) : m.overrule pending = m := by
  cases pending with
  | ok c => rfl
  | error e =>
    show (if e.isCatchable then m else _) = m
    rw [if_pos (h e rfl)]

namespace Ledger.Rule

variable {R : Ledger.Rule} {block last : Script Completion}

/-- What a rule has to say about an operation that is carried out while a failure is held back:
either it reaches its end, and the failure goes on, or the failure is overruled. -/
def Concludes (R : Ledger.Rule) (e : Failure) : EStateM.Result Failure Machine Completion → Prop
  | .ok .normal m => R.after e m.ledger
  | .ok _ m => R.during (m.ledger.overrule e)
  | .error e' m =>
    if e'.isCatchable then R.during (m.ledger.overrule e) else R.after e' (m.ledger.overrule e)

/-- A rule has something to say about an operation that keeps another rule, if it has about what
that other rule says. -/
theorem Concludes.of_ends {S : Ledger.Rule} {e : Failure}
    {r : EStateM.Result Failure Machine Completion} (h : S.Ends r)
    (hnormal : ∀ l, S.during l → R.after e l)
    (hduring : ∀ l, S.during l → R.during (l.overrule e))
    (hafter : ∀ e' l, S.after e' l → R.after e' (l.overrule e)) : R.Concludes e r := by
  cases r with
  | ok c m =>
    cases c with
    | normal => exact hnormal _ h
    | returned v | broken l | continued l => exact hduring _ h
  | error e' m =>
    -- a second failure that cannot be caught takes the place of the first one
    cases he' : e'.isCatchable with
    | true =>
      rw [Ends, if_pos he'] at h
      rw [Concludes, if_pos he']
      exact hduring _ h
    | false =>
      rw [Ends, he'] at h
      rw [Concludes, he']
      exact hafter _ _ h

/-- A failure that cannot be caught, and what is done at last. -/
theorem ends_concluding {e : Failure} (he : e.isCatchable = false) {m : Machine}
    (h : R.Concludes e (last m)) : R.Ends (concluding (.error e) last m) := by
  -- a jump of the finalizer overrules the failure, its plain end passes it on
  cases hlast : last m with
  | ok c m' =>
    rw [hlast] at h
    cases c with
    | normal =>
      rw [concluding_of_normal _ hlast]
      show if e.isCatchable then _ else R.after e m'.ledger
      rw [he]
      exact h
    | returned v | broken l | continued l =>
      rw [concluding_of_ok _ hlast nofun]
      show R.during (m'.overrule (.error e)).ledger
      rw [Machine.ledger_overrule he]
      exact h
  | error e' m' =>
    rw [hlast] at h
    rw [concluding_of_error _ hlast]
    show if e'.isCatchable then R.during (m'.overrule (.error e)).ledger
      else R.after e' (m'.overrule (.error e)).ledger
    rw [Machine.ledger_overrule he]
    exact h

/-- An end that is no such failure, and what is done at last. -/
theorem ends_concluding_of_keeps (h : R.Keeps last) {pending : Except Failure Completion}
    (hpending : ∀ e, pending = .error e → e.isCatchable = true) {m : Machine}
    (hm : R.during m.ledger) : R.Ends (concluding pending last m) := by
  have hlast := h m hm
  cases hr : last m with
  | ok c m' =>
    rw [hr] at hlast
    cases c with
    | normal =>
      rw [concluding_of_normal _ hr]
      cases pending with
      | ok c => exact hlast
      | error e =>
        show if e.isCatchable then R.during m'.ledger else _
        rw [if_pos (hpending e rfl)]
        exact hlast
    -- leaving the finalizer drops what was pending, which can be caught here
    | returned v | broken l | continued l =>
      rw [concluding_of_ok _ hr nofun, Machine.overrule_eq_self hpending]
      exact hlast
  | error e m' =>
    rw [hr] at hlast
    rw [concluding_of_error _ hr, Machine.overrule_eq_self hpending]
    exact hlast

/-- Two operations of which the second is done at last keep a rule that both keep, if the rule has
an answer to a failure that is held back. -/
theorem Keeps.concluding (hblock : R.Keeps block) (hlast : R.Keeps last)
    (hfailure : ∀ e m, e.isCatchable = false → R.after e m.ledger → R.Concludes e (last m)) :
    R.Keeps (do
      let pending ← outcome block
      concluding pending last) := by
  intro m hm
  have h := hblock m hm
  cases hr : block m with
  | ok c m' =>
    rw [hr] at h
    rw [bind_eq_of_ok (outcome_of_ok hr)]
    exact ends_concluding_of_keeps hlast (by rintro _ ⟨⟩) h
  | error e m' =>
    rw [hr] at h
    -- nothing runs after an abort, not even the finalizer
    by_cases haborted : e = .aborted
    · subst haborted
      rw [bind_eq_error (outcome_of_aborted hr)]
      exact h
    · rw [bind_eq_of_ok (outcome_of_error hr haborted)]
      cases he : e.isCatchable with
      | true =>
        rw [Ends, if_pos he] at h
        exact ends_concluding_of_keeps hlast (by rintro _ ⟨⟩; exact he) h
      | false =>
        rw [Ends, he] at h
        exact ends_concluding he (hfailure e m' he h)

end Ledger.Rule

/-- A statement with a block that may fail keeps a rule if the rule has an answer to a failure that
is held back. -/
theorem Evaluator.keeps_execTry {R : Ledger.Rule} {self : Evaluator} (h : self.Keeps R.congruence)
    (hfailure : ∀ e m finalizer env, e.isCatchable = false → R.after e m.ledger →
      R.Concludes e (self.execBlock finalizer env m))
    (block : Block) (handler : Option CatchClause) (finalizer : Block) (env : Env) :
    R.Keeps (self.execTry block handler (some finalizer) env) :=
  Keeps.concluding (relates_guarded h block handler env) (relates_execBlock h finalizer env)
    fun e m he hm => hfailure e m finalizer env he hm

/-! ### Failures are accounted for -/

/-- The failures that have been entered are those that are open and those that were overruled. -/
def Ledger.Balances (l : Ledger) (opened : List Failure) : Prop :=
  l.raised.Perm (opened ++ l.overruled)

/-- Every failure that is entered is open until it is overruled. -/
def Ledger.Rule.account (opened : List Failure) : Ledger.Rule where
  during l := l.Balances opened
  after e l := l.Balances (e :: opened)
  of_step h _ := h
  of_last_step h _ := h.cons _
  of_failure h _ _ := h.cons _

/-- A failure that is overruled is open no longer. -/
theorem Ledger.Balances.overrule {l : Ledger} {e : Failure} {opened : List Failure}
    (h : l.Balances (e :: opened)) : (l.overrule e).Balances opened :=
  h.trans List.perm_middle.symm

/-- While a failure is held back it is one of those that are open. -/
theorem Ledger.Rule.account_concludes {opened : List Failure} {e : Failure}
    {last : Script Completion} (h : (account (e :: opened)).Keeps last) {m : Machine}
    (hm : (account opened).after e m.ledger) : (account opened).Concludes e (last m) := by
  refine .of_ends (h m hm) (fun _ h => h) (fun _ h => h.overrule) fun e' l h => ?_
  exact Ledger.Balances.overrule (h.trans (.append_right _ (.swap e e' opened)))

/-- Whatever failures are open, evaluation accounts for the others. -/
theorem Evaluator.keeps_account (fuel : Nat) (opened : List Failure) :
    (Evaluator.ofFuel fuel).Keeps (account opened).congruence := by
  induction fuel generalizing opened with
  | zero => exact keeps_none
  | succ fuel ih =>
    refine agrees_step (ih opened) (keeps_execTry (ih opened) fun e m finalizer env _ hm => ?_)
    exact account_concludes (relates_execBlock (ih (e :: opened)) finalizer env) hm

/-! ### Steps that are used up -/

/-- Whether a failure is one for want of steps. -/
def Failure.IsLastStep (e : Failure) : Prop := ∃ n, e = .exhausted (.steps n)

/-- No step beyond the budget has been tried. -/
structure Ledger.IsWithin (max : Nat) (l : Ledger) : Prop where
  maxSteps_eq : l.maxSteps = max
  steps_le : l.steps ≤ max
  not_mem_raised : ∀ e ∈ l.raised, ¬ e.IsLastStep

/-- A step beyond the budget has been tried. -/
structure Ledger.IsBeyond (max : Nat) (l : Ledger) : Prop where
  maxSteps_eq : l.maxSteps = max
  lt_steps : max < l.steps
  eq_of_mem : ∀ e ∈ l.raised, e.IsLastStep → e = .exhausted (.steps max)

/-- A run starts within its budget. -/
theorem Ledger.isWithin_start (max : Nat) : Ledger.IsWithin max ⟨max, 0, [], []⟩ :=
  ⟨rfl, Nat.zero_le max, fun _ he => absurd he List.not_mem_nil⟩

/-- A script goes on only as long as there are steps left, and when there is none left it fails for
that reason. -/
def Ledger.Rule.withinBudget (max : Nat) : Ledger.Rule where
  during l := l.IsWithin max
  after e l := l.IsWithin max ∨ e = .exhausted (.steps max) ∧ l.IsBeyond max
  of_step h hlt := ⟨h.maxSteps_eq, h.maxSteps_eq ▸ hlt, h.not_mem_raised⟩
  of_last_step {l} h hle := by
    obtain ⟨rfl, hsteps, hraised⟩ := h
    refine .inr ⟨rfl, rfl, Nat.lt_succ_of_le hle, fun e he hlast => ?_⟩
    rcases List.mem_cons.mp he with rfl | he
    · rfl
    · exact absurd hlast (hraised e he)
  of_failure {l e} h _ hne := by
    refine .inl ⟨h.maxSteps_eq, h.steps_le, fun e' he' => ?_⟩
    rcases List.mem_cons.mp he' with rfl | he'
    · exact fun ⟨n, hn⟩ => hne n hn
    · exact h.not_mem_raised e' he'

/-- Overruling a failure spends no steps. -/
theorem Ledger.IsWithin.overrule {max : Nat} {l : Ledger} (h : l.IsWithin max) (e : Failure) :
    (l.overrule e).IsWithin max :=
  ⟨h.maxSteps_eq, h.steps_le, h.not_mem_raised⟩

theorem Ledger.IsBeyond.overrule {max : Nat} {l : Ledger} (h : l.IsBeyond max) (e : Failure) :
    (l.overrule e).IsBeyond max :=
  ⟨h.maxSteps_eq, h.lt_steps, h.eq_of_mem⟩

/-- As long as there are steps left a finalizer is carried out like any other block. -/
theorem Ledger.Rule.withinBudget_concludes {max : Nat} {last : Script Completion}
    (h : (withinBudget max).Keeps last) {m : Machine} (hm : m.ledger.IsWithin max)
    (e : Failure) : (withinBudget max).Concludes e (last m) := by
  refine .of_ends (h m hm) (fun _ h => .inl h) (fun _ h => h.overrule e) fun e' l h => ?_
  rcases h with h | ⟨he', h⟩
  · exact .inl (h.overrule e)
  · exact .inr ⟨he', h.overrule e⟩

/-- On the way back no failure is entered but for want of steps. -/
theorem Ledger.IsBeyond.unwinds {max : Nat} {m m' : Machine} (hm : m.ledger.IsBeyond max)
    (h : Relation.ReflTransGen Machine.Unwinds m m') : m'.ledger.IsBeyond max := by
  induction h with
  | refl => exact hm
  | tail _ h ih =>
    cases h with
    | returned => exact ih
    | inBlock => exact ih
    | tried =>
      obtain ⟨rfl, hsteps, hraised⟩ := ih
      refine ⟨rfl, Nat.lt_succ_of_lt hsteps, fun e he hlast => ?_⟩
      rcases List.mem_cons.mp he with rfl | he
      · rfl
      · exact hraised e he hlast
    | overruled es => exact ⟨ih.maxSteps_eq, ih.lt_steps, ih.eq_of_mem⟩

/-- Evaluation keeps within the budget, whatever is done at last. -/
theorem Evaluator.keeps_withinBudget (fuel max : Nat) :
    (Evaluator.ofFuel fuel).Keeps (withinBudget max).congruence := by
  induction fuel with
  | zero => exact keeps_none
  | succ fuel ih =>
    refine agrees_step ih (keeps_execTry ih fun e m finalizer env _ hm => ?_)
    rcases hm with hm | ⟨rfl, hm⟩
    · exact withinBudget_concludes (relates_execBlock ih finalizer env) hm e
    · obtain ⟨rfl, hsteps, -⟩ := id hm
      obtain ⟨m', hm', hr | hr⟩ :=
        execBlock_of_le (counts_ofFuel fuel) finalizer env (Nat.le_of_lt hsteps)
      · rw [hr]
        exact .inr ⟨rfl, hm.unwinds hm'⟩
      · rw [hr]
        exact .inr ⟨rfl, (hm.unwinds hm').overrule _⟩

end Espalier.Script
