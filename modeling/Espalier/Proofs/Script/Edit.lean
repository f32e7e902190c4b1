import Espalier.Proofs.Node.Replacement
import Espalier.Proofs.Script.Congruence
import Espalier.Proofs.Script.Conversion
import Espalier.Proofs.Script.Refusal

/-!
# Edits that fail

An edit looks at the node first, and then changes the program under work in place. What it leaves is
the program under work from then on, also if it is refused half-way, like a change of the operator
of what has none, which has been taken apart by then. It is put back, and what is read from a place
and written there again makes no difference, so a refused edit leaves the program that it began with
(`editProgram_error`). A replacement alone goes on after that, and asks for the node that now stands
where the old one stood: the node is there (`Program.isSome_nodeAt?_of_replaceAt?`).
-/

namespace Espalier.Script

variable {m m' : Machine} {e : Failure}

/-- A text that is given changes nothing. -/
theorem eq_of_toText_ok {v : Value} {s : String} (h : toText v m = .ok s m') : m' = m := by
  rw [toText, toTextLocking_eq] at h
  split at h <;> cases h
  rfl

/-- A conversion that cannot be carried out is entered as a failure, and that is all. -/
theorem work_of_toText_error {v : Value} (h : toText v m = .error e m') : m'.work = m.work := by
  rw [toText, toTextLocking_eq] at h
  split at h <;> cases h
  rfl

/-- An assignment to a property of a node that fails has changed nothing. -/
theorem setNodeProperty_error {steps : List Step} {key : String} {v : Value}
    (h : setNodeProperty steps key v m = .error e m') : m' = m := by
  unfold setNodeProperty at h
  rcases exists_of_bind_error h with hnode | ⟨n, m₁, hnode, hrest⟩
  · exact (nodeAt_error hnode).2
  obtain ⟨-, rfl⟩ := nodeAt_ok hnode
  dsimp only at hrest
  split at hrest
  · cases hrest
    rfl
  · cases v with
    | string s | number x | bool b =>
      exact (editProgram_error (·.setScalarIn?_eq steps key _) hrest).1
    | _ =>
      cases hrest
      rfl

/-- A replacement that fails has changed nothing: what has been put in place is there, so the
question for its type does not fail. -/
theorem replacePath_error {id : PathId} {source : String}
    (h : replacePath id source m = .error e m') : m' = m := by
  unfold replacePath at h
  rcases exists_of_bind_error h with hget | ⟨_, _, hget, hrest⟩
  · cases hget
  cases hget
  cases hparse : Expr.parse source with
  | error cause =>
    rw [hparse] at hrest
    dsimp only at hrest
    split at hrest <;> cases hrest <;> rfl
  | ok expr =>
    rw [hparse] at hrest
    dsimp only at hrest
    split at hrest
    · cases hrest
      rfl
    rcases exists_of_bind_error hrest with hfail | ⟨_, m₁, hdone, hlast⟩
    · exact (editProgram_error (·.replaceIn?_eq _ expr) hfail).1
    -- from here on the program under work is another one, and nothing may fail any more
    obtain ⟨p, p', -, hreplace, rfl⟩ := editProgram_ok (·.replaceIn?_eq _ expr) hdone
    rcases exists_of_bind_error hlast with hnode | ⟨n, m₂, -, hmark⟩
    · have hleads := Program.isSome_nodeAt?_of_replaceAt? hreplace
      rw [show p'.nodeAt? _ = none from (nodeAt_error hnode).1] at hleads
      cases hleads
    · cases hmark

/-- A method of a path that is to make an edit and fails has not changed the program under work. -/
theorem work_of_callPathMethod_error {method : PathMethod} {id : PathId} {args : Array Value}
    {edit : Edit} (hedit : method.edit? id = some edit)
    (h : callPathMethod method id args m = .error e m') : m'.work = m.work := by
  unfold callPathMethod at h
  cases method with
  | skip | stop => cases hedit
  | remove =>
    rcases exists_of_bind_error h with hremove | ⟨_, _, -, hreturn⟩
    · rw [removePath_error hremove]
    · cases hreturn
  | replaceWithSource =>
    -- the source is converted first, and a failure there has touched nothing
    have replaces {source : String}
        (h : (replacePath id source >>= fun _ => pure Value.undefined) m = .error e m') :
        m'.work = m.work := by
      rcases exists_of_bind_error h with hreplace | ⟨_, _, -, hreturn⟩
      · rw [replacePath_error hreplace]
      · cases hreturn
    cases hargs : args[0]? with
    | none =>
      rw [hargs] at h
      exact replaces h
    | some v =>
      rw [hargs] at h
      rcases exists_of_bind_error h with htext | ⟨source, m₁, htext, hrest⟩
      · exact work_of_toText_error htext
      · obtain rfl := eq_of_toText_ok htext
        exact replaces hrest

/-- An edit fails if what makes it fails. -/
theorem editing_error {α : Type} {edit : Edit} {run : Script α}
    (h : editing edit run m = .error e m') : run m = .error e m' := by
  rcases exists_of_bind_error h with hrun | ⟨a, m₁, -, hnote⟩
  · exact hrun
  · cases hnote

/-- **Edits that fail change nothing.** A script assigns to a property of a node, or calls a method
of a path to take its node out of the program or to put code in its place. If that fails, the
program under work is exactly the one before. -/
theorem failed_edits_keep_program :
    (∀ (m m' : Machine) (e : Failure) (steps : List Step) (key v : Value),
      setProperty (.node steps) key v m = .error e m' → m'.target = m.target) ∧
    ∀ (m m' : Machine) (e : Failure) (call : Caller) (id : Nat) (method : PathMethod)
      (path : PathId) (args : Array Value),
      callNative call (.bound id (.path method path)) args m = .error e m' →
        m'.target = m.target := by
  refine ⟨fun m m' e steps key v h => ?_, fun m m' e call id method path args h => ?_⟩
  · rcases exists_of_bind_error h with htext | ⟨name, m₁, htext, hedit⟩
    · exact congrArg Prod.fst (work_of_toText_error htext)
    · obtain rfl := eq_of_toText_ok htext
      rw [setNodeProperty_error (editing_error hedit)]
  · unfold callNative at h
    dsimp only at h
    cases hedit : method.edit? path with
    | some edit =>
      rw [hedit] at h
      exact congrArg Prod.fst (work_of_callPathMethod_error hedit (editing_error h))
    | none =>
      -- what makes no edit does not fail
      cases method with
      | skip | stop => cases h
      | remove | replaceWithSource => cases hedit

/-- Whether a run fails. -/
def fails {α : Type} : EStateM.Result Failure Machine α → Bool
  | .ok _ _ => false
  | .error _ _ => true

/-- A run that fails ends in an error. -/
theorem exists_of_fails {α : Type} {result : EStateM.Result Failure Machine α}
    (h : fails result = true) : ∃ e m', result = .error e m' := by
  cases result with
  | ok a m' => cases h
  | error e m' => exact ⟨e, m', rfl⟩

/-- An initial value cannot be removed, no declaration is of another kind, and no code that is not
an expression can take its place. -/
theorem failed_edits_keep_program_of_declaration :
    ∃ p, (Program.parse "var a = 1;").toOption = some p ∧
      let init : List Step := [⟨"body", some 0⟩, ⟨"declarations", some 0⟩, ⟨"init", none⟩]
      let m : Machine :=
        { budget := {}, target := some p, paths := #[{ steps := init, type := .numericLiteral }] }
      (∃ e m', setProperty (.node [⟨"body", some 0⟩]) (.string "kind") (.string "nope") m =
        .error e m' ∧ m'.target = some p) ∧
      (∃ e m', callNative (fun _ _ _ => giveUp .aborted) (.bound 0 (.path .remove ⟨0⟩)) #[] m =
        .error e m' ∧ m'.target = some p) ∧
      ∃ e m', callNative (fun _ _ _ => giveUp .aborted) (.bound 0 (.path .replaceWithSource ⟨0⟩))
        #[.string "1 +"] m = .error e m' ∧ m'.target = some p := by
  have h : ((Program.parse "var a = 1;").toOption.any fun p =>
      let init : List Step := [⟨"body", some 0⟩, ⟨"declarations", some 0⟩, ⟨"init", none⟩]
      let m : Machine :=
        { budget := {}, target := some p, paths := #[{ steps := init, type := .numericLiteral }] }
      fails (setProperty (.node [⟨"body", some 0⟩]) (.string "kind") (.string "nope") m) &&
      (fails (callNative (fun _ _ _ => giveUp .aborted) (.bound 0 (.path .remove ⟨0⟩)) #[] m) &&
      fails (callNative (fun _ _ _ => giveUp .aborted) (.bound 0 (.path .replaceWithSource ⟨0⟩))
        #[.string "1 +"] m))) = true := by decide +kernel
  obtain ⟨p, hp, hfail⟩ := (Option.any_eq_true _ _).mp h
  obtain ⟨hassign, hcalls⟩ := Bool.and_eq_true_iff.mp hfail
  obtain ⟨hremove, hreplace⟩ := Bool.and_eq_true_iff.mp hcalls
  obtain ⟨e₁, m₁, hassign⟩ := exists_of_fails hassign
  obtain ⟨e₂, m₂, hremove⟩ := exists_of_fails hremove
  obtain ⟨e₃, m₃, hreplace⟩ := exists_of_fails hreplace
  refine ⟨p, hp, ⟨e₁, m₁, hassign, ?_⟩, ⟨e₂, m₂, hremove, ?_⟩, e₃, m₃, hreplace, ?_⟩
  · exact failed_edits_keep_program.1 _ _ _ _ _ _ hassign
  · exact failed_edits_keep_program.2 _ _ _ _ _ _ _ _ hremove
  · exact failed_edits_keep_program.2 _ _ _ _ _ _ _ _ hreplace

end Espalier.Script
