import Espalier.Proofs.Script.Frame
import Espalier.Proofs.Transform.Failure

/-!
# Runs without edits

Of all that a script can do with the program under work, only an edit changes it: an assignment to a
property of a node, or a method of a path that removes its node or replaces it. Evaluation, the
hooks of a plugin and the traversal leave the program alone otherwise (`Frame.tracked`). So what a
run gives back in which no edit has succeeded is the text of its input.
-/

namespace Espalier.Transform

open Script Plugin

variable {options : TransformOptions} {input code text : String} {program p : Program}

/-- An operation that has ended well has been tracked. -/
theorem tracks_of_ok {α : Type} {x : Script α} (h : Frame.tracked.Keeps x) {m m' : Machine} {a : α}
    (hx : x m = .ok a m') : m.Tracks m' :=
  endOf_of_ok hx ▸ h m

section

variable {self : Evaluator} (h : self.Keeps Frame.trackedCongruence)

include h

/-- A plugin gets the input to work on before its first hook, and gives back the text of what it has
made of it. -/
theorem exists_of_mutate_ok {exports : Exports} {m m' : Machine}
    (hinput : Program.parse input options.parser = .ok p)
    (hend : mutate self options input exports m = .ok text m') :
    ∃ m₁ : Machine, m₁.target = some p ∧ m₁.Tracks m' ∧
      text = (m'.target.getD p).print options.unit := by
  unfold mutate at hend
  rw [hinput] at hend
  obtain ⟨plugin, m₁, -, hend⟩ := exists_of_bind_ok hend
  obtain ⟨handlers, m₂, -, hend⟩ := exists_of_bind_ok hend
  obtain ⟨state, m₃, -, hend⟩ := exists_of_bind_ok hend
  obtain ⟨_, m₄, hput, hend⟩ := exists_of_bind_ok hend
  cases hput
  refine ⟨{ m₃ with target := some p }, rfl, ?_⟩
  obtain ⟨_, m₅, hpre, hend⟩ := exists_of_bind_ok hend
  -- what comes after the traversal, if there is one
  have hpost {m₆ : Machine}
      (hend : (do
          callHook self plugin state "post"
          return ((← get).target.getD p).print options.unit : Script String) m₆ = .ok text m') :
      m₆.Tracks m' ∧ text = (m'.target.getD p).print options.unit := by
    obtain ⟨_, m₇, hpost, hend⟩ := exists_of_bind_ok hend
    cases hend
    exact ⟨tracks_of_ok (relates_callHook h plugin state "post") hpost, rfl⟩
  have hpre := tracks_of_ok (relates_callHook h plugin state "pre") hpre
  dsimp only at hend
  split at hend
  · obtain ⟨_, m₆, htraverse, hend⟩ := exists_of_bind_ok hend
    obtain ⟨htracks, htext⟩ := hpost hend
    have htraverse := tracks_of_ok (relates_traverse h.call handlers state) htraverse
    exact ⟨(hpre.trans htraverse).trans htracks, htext⟩
  · obtain ⟨htracks, htext⟩ := hpost hend
    exact ⟨hpre.trans htracks, htext⟩

end

/-- A run ends with an output if its transform ends well. -/
theorem ending_of_output (hcode : Program.parse code = .ok program)
    (hresult : (run options input code).result = .output text) :
    ending options input code program = .ok text (machineAfter options input code program) := by
  unfold machineAfter
  unfold run at hresult
  rw [hcode] at hresult
  dsimp only at hresult
  cases hend : ending options input code program with
  | ok t m =>
    rw [hend] at hresult
    cases hresult
    rfl
  | error e m =>
    rw [hend] at hresult
    cases hresult

/-- The program under work at the end of a run in which no edit has succeeded is the input. -/
theorem target_of_no_edits (hmode : options.mode = .astMutation)
    (hinput : Program.parse input options.parser = .ok p)
    (hend : ending options input code program = .ok text (machineAfter options input code program))
    (hedits : (machineAfter options input code program).edits = []) :
    (machineAfter options input code program).target = some p ∧ text = p.print options.unit := by
  have h := Evaluator.keeps_tracked (Evaluator.fuelFor options.budget code.utf8ByteSize)
  unfold ending script at hend
  obtain ⟨exports, m, -, hend⟩ := exists_of_bind_ok hend
  rw [hmode] at hend
  obtain ⟨m₁, hput, htracks, rfl⟩ := exists_of_mutate_ok h hinput hend
  have hnone : m₁.edits = [] := List.suffix_nil.mp (hedits ▸ htracks.edits_suffix)
  have htarget := htracks.target_eq (hedits.trans hnone.symm)
  rw [htarget, hput]
  exact ⟨rfl, rfl⟩

/-- **Only edits change the program under work.** A run of a plugin that ends with an output, and in
which no assignment to a property of a node, no removal and no replacement has succeeded, gives back
the text of its input. Nothing else changes the program: whatever is evaluated, bound, carried out
or called, every hook and the traversal enter edits at most, and where they enter none they leave
the program as it was, also when they fail. -/
theorem program_changes_by_edits_alone :
    (∀ (options : TransformOptions) (input code text : String) (program p : Program),
      options.mode = .astMutation → Program.parse input options.parser = .ok p →
        Program.parse code = .ok program → (run options input code).result = .output text →
          (machineAfter options input code program).edits = [] →
            (machineAfter options input code program).target = some p ∧
              text = p.print options.unit) ∧
      ∀ (fuel : Nat) (m : Machine),
        let self := Evaluator.ofFuel fuel
        (∀ e env, m.Tracks (endOf (self.eval e env) m)) ∧
          (∀ e env, m.Tracks (endOf (self.chain e env) m)) ∧
          (∀ pattern v env binder, m.Tracks (endOf (self.bind pattern v env binder) m)) ∧
          (∀ s env, m.Tracks (endOf (self.exec s env) m)) ∧
          (∀ f this args, m.Tracks (endOf (self.call f this args) m)) ∧
          (∀ plugin state hook, m.Tracks (endOf (callHook self plugin state hook) m)) ∧
          ∀ handlers state, m.Tracks (endOf (traverse self.call handlers state) m) := by
  refine ⟨?_, fun fuel m => ?_⟩
  · intro options input code text program p hmode hinput hcode hresult hedits
    exact target_of_no_edits hmode hinput (ending_of_output hcode hresult) hedits
  · -- one relation, kept by every entry of the evaluator
    have h := Evaluator.keeps_tracked fuel
    exact ⟨fun e env => h.eval e env m, fun e env => h.chain e env m,
      fun pattern v env binder => h.bind pattern v env binder m, fun s env => h.exec s env m,
      fun f this args => h.call f this args m,
      fun plugin state hook => relates_callHook h plugin state hook m,
      fun handlers state => relates_traverse h.call handlers state m⟩

/-- A visitor that tries to change the type of every name, which no node permits. -/
def retyping : String :=
  "export default \x7b visitor: \x7b Identifier(path) \x7b " ++
    "try \x7b path.node.type = 'Super'; \x7d catch (e) \x7b console.log(e.message); \x7d " ++
    "\x7d \x7d \x7d;"

/-- Two edits are tried and fail. -/
theorem program_changes_by_edits_alone_of_retyping :
    ∃ program p, Program.parse retyping = .ok program ∧ Program.parse "a  +b" = .ok p ∧
      (run {} "a  +b" retyping).result = .output "a + b;" ∧
      (machineAfter {} "a  +b" retyping program).console.size = 2 ∧
      (machineAfter {} "a  +b" retyping program).target = some p ∧ "a + b;" = p.print "  " := by
  obtain ⟨hresult, hafter⟩ : (run {} "a  +b" retyping).result = .output "a + b;" ∧
      (match Program.parse retyping, Program.parse "a  +b" with
      | .ok program, .ok _ =>
        let m := machineAfter {} "a  +b" retyping program
        m.edits.isEmpty && m.console.size == 2
      | _, _ => false) = true := by
    decide +kernel
  split at hafter
  · next program p hcode hinput =>
    rw [Bool.and_eq_true, List.isEmpty_iff, beq_iff_eq] at hafter
    obtain ⟨hedits, hconsole⟩ := hafter
    obtain ⟨htarget, htext⟩ := program_changes_by_edits_alone.1 {} "a  +b" retyping "a + b;"
      program p rfl hinput hcode hresult hedits
    exact ⟨program, p, hcode, hinput, hresult, hconsole, htarget, htext⟩
  · cases hafter

end Espalier.Transform
