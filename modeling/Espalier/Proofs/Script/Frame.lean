import Espalier.Proofs.Script.Edit
import Espalier.Proofs.Script.Evaluation
import Espalier.Proofs.Script.Operation

/-!
# What a script leaves alone

A `Frame` is a relation between the machine before an operation and the machine after it. It holds
of every operation that touches neither the program under work nor the list of its edits, and it
goes from one operation over to the next, whether an operation fails or not. So a frame that edits
keep as well is kept by everything that a script can do.

`Machine.Tracks` is such a frame: the list of edits only grows, and as long as it does not grow the
program under work is the same. An edit that succeeds is entered in the list, and one that fails has
changed nothing.
-/

namespace Espalier.Script

/-- A relation between the machines before and after operations that holds wherever the program
under work and the list of edits are left alone. -/
structure Frame where
  Holds : Machine → Machine → Prop
  of_work_eq : ∀ {m m'}, m'.work = m.work → Holds m m'
  trans : ∀ {m₁ m₂ m₃}, Holds m₁ m₂ → Holds m₂ m₃ → Holds m₁ m₃

namespace Frame

variable {F : Frame} {α β : Type}

/-- Wherever an operation starts, the frame holds between there and where it ends. -/
def Keeps (F : Frame) (x : Script α) : Prop := ∀ m, F.Holds m (endOf x m)

namespace Keeps

/-- An operation that leaves the program under work and the list of edits alone. -/
theorem of_work_eq {x : Script α} (h : ∀ m, (endOf x m).work = m.work) : F.Keeps x :=
  fun m => F.of_work_eq (h m)

theorem pure (a : α) : F.Keeps (pure a) := of_work_eq fun _ => rfl

theorem get : F.Keeps get := of_work_eq fun _ => rfl

theorem throw (e : Failure) : F.Keeps (throw e : Script α) := of_work_eq fun _ => rfl

theorem giveUp (e : Failure) : F.Keeps (giveUp e : Script α) := of_work_eq fun _ => rfl

theorem tick : F.Keeps tick := by
  refine of_work_eq fun m => ?_
  rcases Nat.lt_or_ge m.steps m.budget.maxSteps with hlt | hge
  · rw [endOf_of_ok (tick_of_lt hlt)]
    rfl
  · rw [endOf_of_error (tick_of_le hge)]
    rfl

/-- Two steps keep a frame if each does. -/
theorem bind {x : Script α} {f : α → Script β} (hx : F.Keeps x) (hf : ∀ a, F.Keeps (f a)) :
    F.Keeps (x >>= f) := by
  intro m
  have hm := hx m
  cases hr : x m with
  | ok a m₁ =>
    rw [endOf_of_ok hr] at hm
    rw [endOf_congr (bind_eq_of_ok hr f)]
    exact F.trans hm (hf a m₁)
  | error e m₁ =>
    rw [endOf_of_error hr] at hm
    rw [endOf_of_error (bind_eq_error hr f)]
    exact hm

/-- The depth of calls has nothing to do with the program under work. -/
theorem callingDeeper {x : Script α} (hx : F.Keeps x) : F.Keeps (callingDeeper x) := by
  intro m
  rcases Nat.lt_or_ge m.depth m.budget.maxCallDepth with hlt | hge
  · -- the operation starts one call deeper and is left again one call further out
    have hdeeper : F.Holds m m.deeper := F.of_work_eq rfl
    have hback : F.Holds m (endOf x m.deeper).returned :=
      F.trans (F.trans hdeeper (hx m.deeper)) (F.of_work_eq rfl)
    cases hr : x m.deeper with
    | ok a m₁ =>
      rw [endOf_of_ok hr] at hback
      rw [endOf_of_ok (callingDeeper_of_ok hlt hr)]
      exact hback
    | error e m₁ =>
      rw [endOf_of_error hr] at hback
      rw [endOf_of_error (callingDeeper_of_error hlt hr)]
      exact hback
  · rw [endOf_of_error (callingDeeper_of_le x hge)]
    exact F.of_work_eq rfl

/-- A handler keeps a frame when it does so for the failures it gets. -/
theorem catching {x : Script α} {handler : Failure → Script α} (hx : F.Keeps x)
    (hh : ∀ e, e.isCatchable = true → F.Keeps (handler e)) : F.Keeps (catching x handler) := by
  intro m
  have hm := hx m
  cases hr : x m with
  | ok a m₁ =>
    rw [endOf_of_ok hr] at hm
    rw [endOf_of_ok (catching_of_ok hr)]
    exact hm
  | error e m₁ =>
    rw [endOf_of_error hr] at hm
    by_cases he : e.isCatchable = true
    · rw [endOf_congr ((catching_of_error hr).trans (if_pos he))]
      exact F.trans hm (hh e he m₁)
    · rw [endOf_of_error ((catching_of_error hr).trans (if_neg he))]
      exact hm

/-- A loop keeps a frame if its rounds do, by induction on the room. -/
theorem rounds {σ : Type} {round : σ → Script (σ ⊕ α)} (h : ∀ s, F.Keeps (round s)) (room : Nat)
    (s : σ) : F.Keeps (rounds round room s) := by
  induction room generalizing s with
  | zero => exact giveUp _
  | succ room ih =>
    refine bind tick fun _ => bind (h s) fun next => ?_
    cases next with
    | inl s => exact ih s
    | inr a => exact pure a

/-! ### What is done at last -/

/-- To look at an outcome changes nothing more. -/
theorem outcome {x : Script α} (hx : F.Keeps x) : F.Keeps (outcome x) := by
  intro m
  have hm := hx m
  cases hr : x m with
  | ok a m₁ =>
    rw [endOf_of_ok hr] at hm
    rw [endOf_of_ok (outcome_of_ok hr)]
    exact hm
  | error e m₁ =>
    rw [endOf_of_error hr] at hm
    by_cases haborted : e = .aborted
    · subst haborted
      rw [endOf_of_error (outcome_of_aborted hr)]
      exact hm
    · rw [endOf_of_ok (outcome_of_error hr haborted)]
      exact hm

/-- That a failure is overruled does not touch the program under work. -/
theorem concluding {last : Script Completion} (h : F.Keeps last)
    (pending : Except Failure Completion) : F.Keeps (concluding pending last) := by
  intro m
  have hm := h m
  cases hr : last m with
  | ok c m₁ =>
    rw [endOf_of_ok hr] at hm
    by_cases hc : c = .normal
    · subst hc
      rw [endOf_congr (concluding_of_normal pending hr)]
      cases pending <;> exact hm
    · rw [endOf_of_ok (concluding_of_ok pending hr hc), Machine.overrule_eq]
      exact F.trans hm (F.of_work_eq rfl)
  | error e m₁ =>
    rw [endOf_of_error hr] at hm
    rw [endOf_of_error (concluding_of_error pending hr), Machine.overrule_eq]
    exact F.trans hm (F.of_work_eq rfl)

end Keeps

/-- That the first of two operations keeps a frame. -/
def compatibility (F : Frame) : Compatibility where
  Relates x _ := F.Keeps x
  of_pure := Keeps.pure
  of_bind := Keeps.bind
  of_read _ h := Keeps.bind Keeps.get h
  of_modifyGet _ hwork := Keeps.of_work_eq hwork
  of_throw _ := Keeps.throw _
  of_giveUp _ _ := Keeps.giveUp _
  of_tick := Keeps.tick
  of_callingDeeper := Keeps.callingDeeper
  of_catching := Keeps.catching
  of_repeating h s := Keeps.bind Keeps.get fun _ => Keeps.rounds h _ s

end Frame

/-! ### The list of edits -/

/-- The list of edits is the same. -/
def Frame.sameEdits : Frame where
  Holds m m' := m'.edits = m.edits
  of_work_eq h := congrArg Prod.snd h
  trans h h' := h'.trans h

/-- What an edit does to the program under work is not entered by the edit itself. -/
theorem Frame.relatesTarget_sameEdits : Frame.sameEdits.compatibility.RelatesTarget :=
  fun _ _ => rfl

namespace Machine

/-- The list of edits has only grown, and if it has not, the program under work is the same. -/
structure Tracks (m m' : Machine) : Prop where
  edits_suffix : m.edits <:+ m'.edits
  target_eq : m'.edits = m.edits → m'.target = m.target

/-- A machine with the same work has changed nothing. -/
theorem Tracks.of_work_eq {m m' : Machine} (h : m'.work = m.work) : m.Tracks m' := by
  obtain ⟨htarget, hedits⟩ := Prod.mk.inj h
  exact ⟨hedits ▸ List.suffix_rfl, fun _ => htarget⟩

/-- What is told of two stretches holds of both together. -/
theorem Tracks.trans {m₁ m₂ m₃ : Machine} (h : m₁.Tracks m₂) (h' : m₂.Tracks m₃) :
    m₁.Tracks m₃ where
  edits_suffix := h.edits_suffix.trans h'.edits_suffix
  target_eq heq := by
    -- a list that is the same in the end has not grown on the way
    have hlast : m₂.edits = m₃.edits :=
      h'.edits_suffix.eq_of_length_le (heq ▸ h.edits_suffix.length_le)
    rw [h'.target_eq hlast.symm, h.target_eq (hlast.trans heq)]

end Machine

/-- The program under work is the same unless an edit has been entered. -/
def Frame.tracked : Frame where
  Holds := Machine.Tracks
  of_work_eq := Machine.Tracks.of_work_eq
  trans := Machine.Tracks.trans

/-- An edit is tracked: if it succeeds it is entered, and if it fails it has changed nothing. -/
theorem Frame.keeps_editing {α : Type} {x : Script α} (edit : Edit)
    (hedits : Frame.sameEdits.Keeps x) (herror : ∀ {m e m'}, x m = .error e m' → m'.work = m.work) :
    Frame.tracked.Keeps (editing edit x) := by
  intro m
  have hm := hedits m
  cases hr : x m with
  | ok a m₁ =>
    rw [endOf_of_ok hr] at hm
    have hend : (endOf (editing edit x) m).edits = edit :: m.edits := by
      unfold editing
      rw [endOf_congr (bind_eq_of_ok hr _), ← show m₁.edits = m.edits from hm]
      rfl
    refine ⟨hend ▸ List.suffix_cons edit m.edits, fun hsame => ?_⟩
    -- nothing is said of the program under work, for the list has grown
    rw [hend] at hsame
    exact absurd hsame (List.cons_ne_self edit m.edits)
  | error e m₁ =>
    unfold editing
    rw [endOf_of_error (bind_eq_error hr _)]
    exact .of_work_eq (herror hr)

/-- Everything that a script can do is tracked. -/
def Frame.trackedCongruence : Congruence where
  toCompatibility := Frame.tracked.compatibility
  of_assignment steps key v :=
    Frame.keeps_editing _ (keeps_setNodeProperty Frame.relatesTarget_sameEdits steps key v)
      fun h => congrArg Machine.work (setNodeProperty_error h)
  of_pathEdit {method id _} args hedit :=
    Frame.keeps_editing _ (keeps_callPathMethod Frame.relatesTarget_sameEdits method id args)
      (work_of_callPathMethod_error hedit)

/-- Evaluation is tracked, whatever is evaluated. -/
theorem Evaluator.keeps_tracked (fuel : Nat) :
    (Evaluator.ofFuel fuel).Keeps Frame.trackedCongruence := by
  induction fuel with
  | zero => exact keeps_none
  | succ fuel ih =>
    refine agrees_step ih fun block handler finalizer env => ?_
    have hblock := Frame.Keeps.outcome (relates_guarded ih block handler env)
    have hlast := Frame.Keeps.concluding (relates_execBlock ih finalizer env)
    exact Frame.Keeps.bind hblock hlast

end Espalier.Script
