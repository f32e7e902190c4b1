import Espalier.Proofs.Script.Finalizer
import Espalier.Proofs.Transform.Congruence

/-!
# Failures that end a run

When a script uses up its budget, or turns out not to be a plugin, the run is to end with that
failure. Handlers and functions that call back into the script cannot prevent it, and a failure for
want of steps cannot be prevented at all. What can is a finalizer: if it ends otherwise than by
reaching its end, the failure that is held back is forgotten. This is the only way in which a
failure that the script cannot catch is lost.
-/

namespace Espalier.Transform

open Script Ledger.Rule

variable (options : TransformOptions) (input code : String) (program : Program)

/-- The machine as a run leaves it. -/
def machineAfter : Machine :=
  match ending options input code program with
  | .ok _ m => m
  | .error _ m => m

/-- The failure that the script could not catch with which a run ends, if it does. -/
def fatal? : Option Failure :=
  match ending options input code program with
  | .ok _ _ => none
  | .error e _ => if e.isCatchable then none else some e

theorem ledger_start (budget : Budget) (engines : Engines) :
    (Machine.start budget engines).ledger = ⟨budget.maxSteps, 0, [], []⟩ :=
  rfl

/-- A transform hands every rule on that evaluation keeps. -/
theorem ends_ending {R : Ledger.Rule} (h : ∀ fuel, (Evaluator.ofFuel fuel).Keeps R.congruence)
    (hstart : R.during ⟨options.budget.maxSteps, 0, [], []⟩) :
    R.Ends (ending options input code program) := by
  refine relates_script R.relatesWork.target (h _) options input program _ ?_
  rw [ledger_start]
  exact hstart

/-- The failures that were raised are the one with which the run ends and those that finalizers have
overruled. -/
theorem raised_perm :
    (machineAfter options input code program).raised.Perm
      ((fatal? options input code program).toList ++
        (machineAfter options input code program).overruled) := by
  have h := ends_ending options input code program (R := account [])
    (fun fuel => Evaluator.keeps_account fuel []) .nil
  unfold machineAfter fatal?
  cases hr : ending options input code program with
  | ok text m =>
    rw [hr] at h
    exact h
  | error e m =>
    rw [hr] at h
    show m.raised.Perm ((if e.isCatchable then none else some e).toList ++ m.overruled)
    by_cases he : e.isCatchable = true
    · rw [Ends, if_pos he] at h
      rw [if_pos he]
      exact h
    · rw [Ends, if_neg he] at h
      rw [if_neg he]
      exact h

variable {options input code program}

/-- A run that ends with a failure reports it. -/
theorem result_of_fatal? (hcode : Program.parse code = .ok program) {e : Failure}
    (he : fatal? options input code program = some e) :
    (run options input code).result =
      .failure
        (((machineAfter options input code program).failureText? e).getD abortedMessage) := by
  unfold run machineAfter
  rw [hcode]
  unfold fatal? at he
  dsimp only
  cases hr : ending options input code program with
  | ok text m =>
    rw [hr] at he
    cases he
  | error e' m =>
    rw [hr] at he
    dsimp only at he
    -- a failure that can be caught is not the one that ends the run
    split at he
    · cases he
    · cases he
      rfl

/-- A failure that was raised and not overruled is the one with which the run ends. -/
theorem fatal?_of_not_mem_overruled {e : Failure}
    (he : e ∈ (machineAfter options input code program).raised)
    (hne : e ∉ (machineAfter options input code program).overruled) :
    fatal? options input code program = some e := by
  have hmem := (raised_perm options input code program).mem_iff.mp he
  rcases List.mem_append.mp hmem with h | h
  · exact Option.mem_toList.mp h
  · exact absurd h hne

/-- When the steps are used up the run ends with that failure. -/
theorem fatal?_of_last_step {n : Nat}
    (he : .exhausted (.steps n) ∈ (machineAfter options input code program).raised) :
    fatal? options input code program = some (.exhausted (.steps options.budget.maxSteps)) := by
  have h := ends_ending options input code program (R := withinBudget options.budget.maxSteps)
    (fun fuel => Evaluator.keeps_withinBudget fuel _) (Ledger.isWithin_start _)
  unfold machineAfter at he
  unfold fatal?
  cases hr : ending options input code program with
  | ok text m =>
    rw [hr] at h he
    exact absurd ⟨n, rfl⟩ (h.not_mem_raised _ he)
  | error e m =>
    rw [hr] at h he
    -- a spent budget is raised by the ending alone
    have hbeyond : e = .exhausted (.steps options.budget.maxSteps) := by
      rw [Ends] at h
      split at h
      · exact absurd ⟨n, rfl⟩ (h.not_mem_raised _ he)
      · rcases h with h | ⟨h, -⟩
        · exact absurd ⟨n, rfl⟩ (h.not_mem_raised _ he)
        · exact h
    rw [hbeyond]
    rfl

/-- **What becomes of failures that a script cannot catch.** Those that were raised are the one with
which the run ends and those that finalizers have overruled. So an error about the budget or about
the plugin is what the run reports, whatever statements and functions are around the place where it
was raised, unless a finalizer has overruled it; and when the steps are used up the run reports that
in any case. -/
theorem raised_failures_are_reported (hcode : Program.parse code = .ok program) :
    (machineAfter options input code program).raised.Perm
        ((fatal? options input code program).toList ++
          (machineAfter options input code program).overruled) ∧
      (∀ what, .exhausted what ∈ (machineAfter options input code program).raised →
        .exhausted what ∉ (machineAfter options input code program).overruled →
        (run options input code).result = .failure what.message) ∧
      (∀ cause, .plugin cause ∈ (machineAfter options input code program).raised →
        .plugin cause ∉ (machineAfter options input code program).overruled →
        (run options input code).result = .failure cause.message) ∧
      ∀ n, .exhausted (.steps n) ∈ (machineAfter options input code program).raised →
        (run options input code).result =
          .failure (Exhausted.steps options.budget.maxSteps).message := by
  refine ⟨raised_perm options input code program, ?_, ?_, ?_⟩
  · intro what he hne
    rw [result_of_fatal? hcode (fatal?_of_not_mem_overruled he hne)]
    rfl
  · intro cause he hne
    rw [result_of_fatal? hcode (fatal?_of_not_mem_overruled he hne)]
    rfl
  · intro n he
    rw [result_of_fatal? hcode (fatal?_of_last_step he)]
    rfl

/-- Whether the code is read and the machine is left as it should be. -/
def leaves (options : TransformOptions) (code : String) (check : Machine → Bool) : Bool :=
  match Program.parse code with
  | .ok program => check (machineAfter options "" code program)
  | .error _ => false

/-- A test of the machine that a run leaves passes on a run. -/
theorem exists_of_leaves (options : TransformOptions) (code : String) (check : Machine → Bool)
    (h : leaves options code check = true) :
    ∃ program, Program.parse code = .ok program ∧
      check (machineAfter options "" code program) = true := by
  unfold leaves at h
  cases hcode : Program.parse code with
  | error cause =>
    rw [hcode] at h
    cases h
  | ok program =>
    rw [hcode] at h
    exact ⟨program, rfl, h⟩

/-- An import that is no item of the module. -/
def nestedImport : String :=
  "try \x7b import 'x'; \x7d catch (e) \x7b \x7d finally \x7b ; \x7d"

/-- A function that calls itself without end. -/
def endlessCalls : String :=
  "function f() \x7b try \x7b f(); \x7d catch (e) \x7b \x7d finally \x7b ; \x7d \x7d f();"

/-- A loop without end; the finalizer tries to leave the loop around it. -/
def endlessLoop : String :=
  "for (;;) \x7b try \x7b while (true); \x7d catch (e) \x7b \x7d finally \x7b break; \x7d \x7d"

/-- Handlers and finalizers are around the failures. -/
theorem raised_failures_are_reported_in_runs :
    (run { mode := .directCode } "" nestedImport).result =
        .failure PluginError.nestedModuleItem.message ∧
      (run { mode := .directCode, budget := { maxCallDepth := 2 } } "" endlessCalls).result =
        .failure Exhausted.callDepth.message ∧
      (run { mode := .directCode, budget := { maxSteps := 12 } } "" endlessLoop).result =
        .failure (Exhausted.steps 12).message := by
  refine ⟨?_, ?_, ?_⟩
  · obtain ⟨program, hcode, h⟩ := exists_of_leaves { mode := .directCode } nestedImport
      (fun m => m.raised.any (· matches .plugin .nestedModuleItem) && m.overruled.isEmpty)
      (by decide +kernel)
    rw [Bool.and_eq_true, List.any_eq_true, List.isEmpty_iff] at h
    -- a failure of that kind was raised and none was overruled
    obtain ⟨⟨e, he, hwanted⟩, hnone⟩ := h
    split at hwanted
    · exact (raised_failures_are_reported hcode).2.2.1 _ he (hnone ▸ List.not_mem_nil)
    · cases hwanted
  · obtain ⟨program, hcode, h⟩ := exists_of_leaves
      { mode := .directCode, budget := { maxCallDepth := 2 } } endlessCalls
      (fun m => m.raised.any (· matches .exhausted .callDepth) && m.overruled.isEmpty)
      (by decide +kernel)
    rw [Bool.and_eq_true, List.any_eq_true, List.isEmpty_iff] at h
    obtain ⟨⟨e, he, hwanted⟩, hnone⟩ := h
    split at hwanted
    · exact (raised_failures_are_reported hcode).2.1 _ he (hnone ▸ List.not_mem_nil)
    · cases hwanted
  · obtain ⟨program, hcode, h⟩ := exists_of_leaves
      { mode := .directCode, budget := { maxSteps := 12 } } endlessLoop
      (fun m => m.raised.any (· matches .exhausted (.steps _))) (by decide +kernel)
    obtain ⟨e, he, hwanted⟩ := List.any_eq_true.mp h
    split at hwanted
    · exact (raised_failures_are_reported hcode).2.2.2 _ he
    · cases hwanted

/-- A finalizer that returns overrules the failure, and the run goes on. -/
example :
    let code := "function f() \x7b try \x7b f(); \x7d finally \x7b return 'on'; \x7d \x7d f();"
    (run { mode := .directCode, budget := { maxCallDepth := 2 } } "" (code ++ "() => f()")).result =
      .output "on" := by
  decide +kernel

end Espalier.Transform
