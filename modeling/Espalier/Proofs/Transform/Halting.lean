import Espalier.Proofs.Script.Comparison
import Espalier.Proofs.Transform.Failure

/-!
# Runs with more steps to spare

The number of steps that a run may take decides only whether the run is cut off. A run that is not
cut off ends in the same way, leaves the same machine and has written the same lines whatever larger
number of steps is allowed.
-/

namespace Espalier

open Script

namespace Script

/-- A run beside one that is allowed more steps. Nothing is known of the second one when the first
one has used up its steps. -/
def Comparison.allowing {max larger : Nat} (h : max ≤ larger) : Comparison where
  max := max
  larger := larger
  max_le := h
  Stopped _ _ := True
  of_tick _ _ := trivial
  of_bind _ _ := trivial
  of_callingDeeper _ _ := trivial
  of_catching _ _ := trivial
  of_concluding _ _ := trivial

/-- Evaluation does not depend on the number of steps that are allowed. -/
theorem Evaluator.keeps_allowing {max larger : Nat} (h : max ≤ larger) (fuel : Nat) :
    (Evaluator.ofFuel fuel).Keeps (Comparison.allowing h).congruence := by
  induction fuel with
  | zero => exact keeps_none
  | succ fuel ih =>
    refine agrees_step ih fun block handler finalizer env => ?_
    refine Comparison.relates_concluding (relates_guarded ih block handler env)
      (relates_execBlock ih finalizer env) (fun _ _ => rfl) fun _ m hm _ => ?_
    obtain ⟨m', hr, hm', -⟩ := hm.concluding (counts_ofFuel fuel) finalizer env
    exact ⟨m', hr, hm', trivial⟩

/-- The text of a failure does not turn on the budget that is left. -/
theorem Machine.failureText?_withMaxSteps (m : Machine) (n : Nat) (e : Failure) :
    (m.withMaxSteps n).failureText? e = m.failureText? e := by
  cases e with
  | thrown v => exact m.text?_withLedger _ _ none
  | _ => rfl

end Script

/-- The same circumstances with another number of steps. -/
def TransformOptions.withMaxSteps (options : TransformOptions) (n : Nat) : TransformOptions :=
  { options with budget := { options.budget with maxSteps := n } }

namespace Transform

variable {options : TransformOptions} {input code : String} {max : Nat}

/-- The endings under both budgets are compared step by step. -/
theorem ends_ending_withMaxSteps (hmax : options.budget.maxSteps ≤ max) (input code : String)
    (program : Program) :
    (Comparison.allowing hmax).Ends (.start options.budget options.engines)
      (ending options input code program)
      (ending (options.withMaxSteps max) input code program) :=
  relates_script (Comparison.relatesWork _).target (Evaluator.keeps_allowing hmax _) options
    input program (.start options.budget options.engines) ⟨rfl, Nat.zero_le _⟩

/-- **More steps change nothing about a run that is not cut off.** If a run does not end with the
message that its steps are used up, then with any larger number of steps it has the same result and
the same lines on the console, and it leaves the same machine: the program under work, and whatever
else the script has made. -/
theorem run_withMaxSteps (hmax : options.budget.maxSteps ≤ max)
    (h : (run options input code).result ≠
      .failure (Exhausted.steps options.budget.maxSteps).message) :
    run (options.withMaxSteps max) input code = run options input code ∧
      ∀ program, Program.parse code = .ok program →
        machineAfter (options.withMaxSteps max) input code program =
          (machineAfter options input code program).withMaxSteps max := by
  unfold run at h ⊢
  cases hcode : Program.parse code with
  | error cause => exact ⟨rfl, nofun⟩
  | ok program =>
    rw [hcode] at h
    dsimp only at h
    simp only [Except.ok.injEq, forall_eq', machineAfter]
    have hends := ends_ending_withMaxSteps hmax input code program
    generalize ending options input code program = r,
      ending (options.withMaxSteps max) input code program = s at hends h
    -- the ending is the same, or the smaller budget stopped it
    cases hends with
    | ok text m => exact ⟨rfl, rfl⟩
    | error e m =>
      dsimp only
      rw [m.failureText?_withMaxSteps]
      exact ⟨rfl, rfl⟩
    | stopped m s => exact absurd rfl h

/-- A function that writes a line and gives a text. -/
def twice : String := "export default (s) => \x7b console.log(s); return s + s; \x7d;"

/-- A run that takes exactly the steps that it may take. -/
theorem run_withMaxSteps_twice :
    let options : TransformOptions := { mode := .directCode, budget := { maxSteps := 3 } }
    (run options "x" twice).result = .output "xx" ∧
      run (options.withMaxSteps 1000000) "x" twice = run options "x" twice := by
  have hresult : (run { mode := .directCode, budget := { maxSteps := 3 } } "x" twice).result =
      .output "xx" := by
    decide +kernel
  refine ⟨hresult, (run_withMaxSteps (by decide) ?_).1⟩
  rw [hresult]
  exact nofun

end Transform

end Espalier

/-!
## The last step of a run

A run that has used up its steps is over: what control still passes through on its way out cannot be
seen, and the run reports that its steps are used up.

The run is set beside one that halts on the spot: there, a statement with a finalizer hands a
failure for want of steps on without carrying the finalizer out, so that nothing at all is done
after the step that was one too many. What the halting run leaves is the machine of that moment, and
the run itself gets from it to its end by unwinding only (`Machine.Unwinds`).
-/

namespace Espalier

open Relation (ReflTransGen)
open Script

namespace Script

/-! ### Runs that halt -/

namespace Evaluator

variable (self : Evaluator)

/-- Carries out a block and what is to be done at last, unless the steps are used up before that. -/
def haltTry (block : Block) (handler : Option CatchClause) (finalizer : Block) (env : Env) :
    Script Completion := do
  match ← outcome (self.execTry block handler .none env) with
  | .error (.exhausted (.steps n)) => throw (.exhausted (.steps n))
  | pending => concluding pending (self.execBlock finalizer env)

/-- Carries out a statement, unless the steps are used up before its end. -/
def haltStmt (s : Stmt) (env : Env) : Script Completion :=
  match s with
  | .tryCatch _ block handler (some finalizer) => do
    tick
    self.haltTry block handler finalizer env
  | s => self.execStmt s env

/-- The evaluator that does nothing any more when the steps are used up. -/
def halting : (fuel : Nat) → Evaluator
  | 0 => .none
  | fuel + 1 =>
    let inner := halting fuel
    { eval := inner.evalExpr
      chain := inner.chainValue
      bind := inner.bindPattern
      exec := inner.haltStmt
      call := inner.callValue }

end Evaluator

/-- Setting the budget to what it is changes nothing. -/
theorem Machine.withMaxSteps_of_eq {m : Machine} {n : Nat} (h : m.budget.maxSteps = n) :
    m.withMaxSteps n = m := by
  subst h
  rfl

/-- A run beside one that halts when its steps are used up. The first one is then on its way back
from the machine that the second one leaves. -/
def Comparison.halting (max : Nat) : Comparison where
  max := max
  larger := max
  max_le := Nat.le_refl max
  Stopped m' r :=
    ∃ m₀, r = .error (.exhausted (.steps max)) m₀ ∧ m₀.steps = max + 1 ∧
      ReflTransGen Machine.Unwinds m₀ m'
  of_tick {m} hmax hsteps := by
    rw [Machine.withMaxSteps_of_eq hmax, tick_of_le (Nat.le_of_eq (hmax.trans hsteps.symm)), hmax]
    exact ⟨_, rfl, congrArg Nat.succ hsteps, .refl⟩
  of_bind h f := by
    obtain ⟨m₀, hr, hsteps, hm⟩ := h
    exact ⟨m₀, bind_eq_error hr f, hsteps, hm⟩
  of_callingDeeper h hlt := by
    obtain ⟨m₀, hr, hsteps, hm⟩ := h
    exact ⟨m₀.returned, callingDeeper_of_error hlt hr, hsteps, Machine.unwinds_returned hm⟩
  of_catching h handler := by
    obtain ⟨m₀, hr, hsteps, hm⟩ := h
    exact ⟨m₀, catching_of_error hr, hsteps, hm⟩
  of_concluding h pending := by
    obtain ⟨m₀, hr, hsteps, hm⟩ := h
    exact ⟨m₀.overrule pending, concluding_of_error pending hr,
      (m₀.steps_overrule pending).trans hsteps, Machine.unwinds_overrule pending hm⟩

/-- A block and what is done at last are carried out as with halting, unless the steps are used up
in the block. Then what is done at last is a part of the way back. -/
theorem Evaluator.relates_haltTry {max : Nat} {self self' : Evaluator} (hself : self.Counts)
    (h : self.Agrees (Comparison.halting max).congruence self') (block : Block)
    (handler : Option CatchClause) (finalizer : Block) (env : Env) :
    (Comparison.halting max).Relates (self.execTry block handler (some finalizer) env)
      (self'.haltTry block handler finalizer env) := by
  refine Comparison.relates_concluding (relates_guarded h block handler env)
    (relates_execBlock h finalizer env) (fun pending hpending => ?_) ?_
  · -- Any other end of the block is concluded alike.
    split
    · next n => exact absurd rfl (hpending n)
    · rfl
  · -- The halting run has stopped at `m₀`; the other one goes on unwinding through the finalizer.
    rintro m m' hm ⟨m₀, hr, hsteps, hm₀⟩
    obtain ⟨m'', hlast, hm'', hback⟩ := hm.concluding hself finalizer env
    refine ⟨m'', hlast, hm'', m₀, ?_, hsteps, hm₀.trans hback⟩
    exact bind_eq_of_ok (outcome_of_error hr nofun) _

/-- Evaluation does what it does with halting, and then unwinds. -/
theorem Evaluator.agrees_halting (max fuel : Nat) :
    (Evaluator.ofFuel fuel).Agrees (Comparison.halting max).congruence
      (Evaluator.halting fuel) := by
  induction fuel with
  | zero => exact keeps_none
  | succ fuel ih =>
    refine ⟨relates_evalExpr ih, relates_chainValue ih, relates_bindPattern ih, fun s env => ?_,
      relates_callValue ih⟩
    show (Comparison.halting max).Relates (Evaluator.execStmt _ s env) (haltStmt _ s env)
    unfold haltStmt
    split
    · next span block handler finalizer =>
      exact Comparison.relates_bind Comparison.relates_tick fun _ =>
        relates_haltTry (counts_ofFuel fuel) ih block handler finalizer env
    · next hs =>
      refine relates_execStmt ih s env fun span block handler finalizer h => ?_
      exact absurd h (hs span block handler finalizer)

end Script

namespace Transform

variable (options : TransformOptions) (input code : String) (program : Program)

/-- How a transform ends that halts when its steps are used up. -/
def haltedEnding : EStateM.Result Failure Machine String :=
  let self := Evaluator.halting (Evaluator.fuelFor options.budget code.utf8ByteSize)
  script self options input program (.start options.budget options.engines)

theorem ends_haltedEnding :
    (Comparison.halting options.budget.maxSteps).Ends (.start options.budget options.engines)
      (ending options input code program) (haltedEnding options input code program) :=
  relates_script (Comparison.relatesWork _).target (Evaluator.agrees_halting _ _) options
    input program (.start options.budget options.engines) ⟨rfl, Nat.zero_le _⟩

variable {options input code program}

/-- **Nothing happens after the last step.** Either a run takes no more steps than it may, and ends
as it would with halting. Or it comes to a step that is one too many. With halting it would leave a
machine `m₀` then; from `m₀` the run only unwinds, and on this way the program under work, the
console, the arrays, objects, paths and variables stay as they are and no function is entered. The
run reports how many steps it was given, in these very words. -/
theorem nothing_after_last_step (hcode : Program.parse code = .ok program) :
    ((machineAfter options input code program).steps ≤ options.budget.maxSteps ∧
        haltedEnding options input code program = ending options input code program) ∨
      ∃ m₀, haltedEnding options input code program =
          .error (.exhausted (.steps options.budget.maxSteps)) m₀ ∧
        m₀.steps = options.budget.maxSteps + 1 ∧
        ReflTransGen Machine.Unwinds m₀ (machineAfter options input code program) ∧
        (∀ m, ReflTransGen Machine.Unwinds m₀ m → m₀.Stands m) ∧
        run options input code =
          ⟨.failure ("transform exceeded its execution budget of " ++
            toString options.budget.maxSteps ++ " steps"), m₀.console.toList⟩ := by
  have hends := ends_haltedEnding options input code program
  unfold run machineAfter
  rw [hcode]
  dsimp only
  generalize ending options input code program = r, haltedEnding options input code program = s
    at hends
  -- stopped is the last step, in both other cases the budget was enough
  cases hends with
  | ok text m hm hle =>
    exact .inl ⟨hm.steps_le, congrArg _ (Machine.withMaxSteps_of_eq hm.maxSteps_eq)⟩
  | error e m hm hle hne =>
    exact .inl ⟨hm.steps_le, congrArg _ (Machine.withMaxSteps_of_eq hm.maxSteps_eq)⟩
  | stopped m s hm hs =>
    obtain ⟨m₀, rfl, hsteps, hback⟩ := hs
    refine .inr ⟨m₀, rfl, hsteps, hback, fun _ => Machine.stands_of_unwinds, ?_⟩
    rw [← (Machine.stands_of_unwinds hback).console_eq]
    rfl

/-- A loop without end; the finalizer has something to say. -/
def lastWords : String :=
  "console.log('on'); try \x7b while (true); \x7d finally \x7b console.log('over'); \x7d"

/-- The finalizer is on the way out, and it does not come to its statement. -/
theorem nothing_after_last_step_lastWords :
    let options : TransformOptions := { mode := .directCode, budget := { maxSteps := 8 } }
    ∃ program m₀, Program.parse lastWords = .ok program ∧
      haltedEnding options "" lastWords program = .error (.exhausted (.steps 8)) m₀ ∧
      m₀.console = #[(.info, "on")] ∧
      ReflTransGen Machine.Unwinds m₀ (machineAfter options "" lastWords program) ∧
      run options "" lastWords =
        ⟨.failure "transform exceeded its execution budget of 8 steps", [(.info, "on")]⟩ := by
  intro options
  obtain ⟨program, hcode, h⟩ := exists_of_leaves options lastWords
    (fun m => decide (8 < m.steps) && decide (m.console = #[(.info, "on")])) (by decide +kernel)
  rw [Bool.and_eq_true, decide_eq_true_iff, decide_eq_true_iff] at h
  obtain ⟨hsteps, hconsole⟩ := h
  rcases @nothing_after_last_step options "" lastWords program hcode with
    ⟨hle, -⟩ | ⟨m₀, hhalted, -, hback, hstands, hrun⟩
  · exact absurd hle (Nat.not_le_of_lt hsteps)
  · have hm₀ : m₀.console = #[(.info, "on")] := (hstands _ hback).console_eq.symm.trans hconsole
    have height : "transform exceeded its execution budget of " ++ toString 8 ++ " steps" =
        "transform exceeded its execution budget of 8 steps" := by decide
    refine ⟨program, m₀, hcode, hhalted, hm₀, hback, ?_⟩
    rw [hrun, hm₀, height]

end Transform

end Espalier
