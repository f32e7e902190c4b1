import Espalier.Transform
import Espalier.Proofs.Script.Evaluation

/-!
# Relations between transforms

Loading a module, finding the functions of its visitor, walking over the program and carrying out a
whole transform are related, in the sense of a congruence, under evaluators that agree.
-/

namespace Espalier

open Script Plugin

variable {C : Congruence} {self self' : Evaluator}

namespace Plugin

/-! ### Modules -/

@[simp]
theorem keeps_typesObject : C.Keeps typesObject := keeps_newObject _

@[simp]
theorem keeps_importModule (specifiers : List ImportSpecifier) (source : Expr) (env : Env) :
    C.Keeps (importModule specifiers source env) := by
  unfold importModule
  split
  case' h_1 =>
    refine .bind keeps_typesObject fun _ => .bind (keeps_newObject _) fun _ => .forM (fun s => ?_) _
  case' h_2 => refine .bind keeps_typesObject fun _ => .forM (fun s => ?_) _
  case' h_3 => refine .bind (.raise _) fun _ => .forM (fun s => ?_) _
  all_goals
    split
    · exact keeps_declare _ _ _ _
    · exact keeps_declare _ _ _ _
    · exact .bind (keeps_getProperty _ _) fun _ => keeps_declare _ _ _ _

@[simp]
theorem keeps_exportNames (exports : Value) (env : Env) (names : List String) :
    C.Keeps (exportNames exports env names) :=
  .forM (fun _ => .bind (keeps_lookup _ _) fun _ => keeps_setProperty _ _ _) _

@[simp]
theorem keeps_exportSpecifier (exports : Value) (env : Env) (done : Exports)
    (s : ExportSpecifier) : C.Keeps (exportSpecifier exports env done s) :=
  .bind (keeps_lookup _ _) fun _ => .ite (.pure _)
    (.bind (keeps_setProperty _ _ _) fun _ => .pure _)

/-- An item of a module is executed alike by evaluators that agree. -/
theorem relates_execItem (h : self.Agrees C self') (exports : Value) (env : Env) (done : Exports)
    (s : Stmt) :
    C.Relates (execItem self exports env done s) (execItem self' exports env done s) := by
  unfold execItem
  split
  · exact .bind (keeps_importModule _ _ _) fun _ => .pure _
  · refine .bind (keeps_makeFunction _ _) fun v => ?_
    split
    · exact .bind (keeps_declare _ _ _ _) fun _ => .pure _
    · exact .pure _
  · exact .raise _
  · exact .bind (h.eval _ _) fun _ => .pure _
  · have specifies (specifiers : List ExportSpecifier) :
        C.Keeps (specifiers.foldlM (exportSpecifier exports env) done) :=
      .foldlM (keeps_exportSpecifier exports env) _ _
    dsimp only
    split
    -- the two forms of an exported declaration share what they specify
    case' h_1 => refine .bind (.raise _) fun _ => ?_
    all_goals
      split
      · exact .bind (h.exec _ _) fun _ => .bind (keeps_exportNames _ _ _) fun _ => specifies _
      · exact specifies _
  · exact .raise _
  · exact .bind .tick fun _ => .bind (h.eval _ _) fun _ => .pure _
  · exact .bind (h.exec _ _) fun _ => .pure _

@[simp]
theorem keeps_finishExports (done : Exports) (module exports : Value) :
    C.Keeps (finishExports done module exports) := by
  refine .bind (keeps_getProperty _ _) fun current => ?_
  split
  · refine .ite (.pure _) (.read (fun _ _ => rfl) fun m => ?_)
    dsimp only
    split <;> exact .pure _
  · exact .pure _

theorem relates_load (h : self.Agrees C self') (body : List Stmt) :
    C.Relates (load self body) (load self' body) :=
  .bind (keeps_newScope _ _) fun env => .bind (keeps_newObject _) fun exports =>
    .bind (keeps_newObject _) fun _ => .bind (keeps_declare _ _ _ _) fun _ =>
      .bind (keeps_declare _ _ _ _) fun _ => .bind (keeps_hoist _ _) fun _ =>
        .bind (.foldlM (relates_execItem h exports env) _ _) fun _ => keeps_finishExports _ _ _

/-! ### Visitors -/

@[simp]
theorem keeps_orNoPlugin {α : Type} (a : Except PluginError α) : C.Keeps (orNoPlugin a) := by
  cases a with
  | ok a => exact .pure a
  | error cause => exact .noPlugin cause

@[simp]
theorem keeps_handler (key : String) (types : List NodeType) (phase : Phase) (v : Value) :
    C.Keeps (handler key types phase v) :=
  .ite (.pure _) (.noPlugin _)

@[simp]
theorem keeps_handlersOf (key : String) (v : Value) : C.Keeps (handlersOf key v) := by
  refine .ite (.pure _) (.bind (keeps_orNoPlugin _) fun types => ?_)
  refine .ite (.bind (keeps_handler _ _ _ _) fun _ => .pure _) ?_
  refine .ite (.bind (keeps_handler _ _ _ _) fun _ => .pure _) (.ite (.pure _) ?_)
  split
  · refine .bind (.bind (keeps_getProperty _ _) fun f => ?_) fun _ =>
      .bind (.bind (keeps_getProperty _ _) fun f => ?_) fun _ => .pure _
    all_goals
      split
      · exact .pure _
      · exact .bind (keeps_handler _ _ _ _) fun _ => .pure _
  · exact .noPlugin _

@[simp]
theorem keeps_visitorHandlers (plugin : Value) : C.Keeps (visitorHandlers plugin) := by
  refine .bind (keeps_getProperty _ _) fun visitor => ?_
  split
  · exact .pure _
  · exact .read (fun _ _ => rfl) fun _ =>
      .bind (.mapM (fun _ => keeps_handlersOf _ _) _) fun _ => .pure _
  · exact .noPlugin _

@[simp]
theorem keeps_newApi : C.Keeps newApi := .bind keeps_typesObject fun _ => keeps_newObject _

theorem relates_resolve (h : self.Agrees C self') (exports : Exports) :
    C.Relates (resolve self exports) (resolve self' exports) := by
  unfold resolve
  split
  · refine .ite (.bind (keeps_newObject _) fun _ => .bind keeps_newApi fun _ =>
      .bind (h.call _ _ _) fun plugin => ?_) (.bind (.pure _) fun plugin => ?_)
    all_goals
      dsimp only
      split
      · exact .pure _
      · exact .noPlugin _
  · exact .noPlugin _

@[simp]
theorem keeps_newState (input : String) : C.Keeps (newState input) :=
  .bind (keeps_newObject _) fun _ => .bind (keeps_newObject _) fun _ => keeps_newObject _

theorem relates_callHook (h : self.Agrees C self') (plugin state : Value) (hook : String) :
    C.Relates (callHook self plugin state hook) (callHook self' plugin state hook) := by
  refine .bind (keeps_getProperty _ _) fun f => ?_
  split
  · exact .pure _
  · exact .ite (.bind (h.call _ _ _) fun _ => .pure _) (.noPlugin _)

/-! ### Traversal -/

section

variable {call call' : Caller}
  (hcall : ∀ f this args, C.Relates (call f this args) (call' f this args))

include hcall

theorem relates_callHandlers (id : PathId) (state : Value) (fs : List Value) :
    C.Relates (callHandlers call id state fs) (callHandlers call' id state fs) := by
  induction fs with
  | nil => exact .pure _
  | cons f fs ih =>
    refine .bind (hcall _ _ _) fun _ => .read (fun _ _ => rfl) fun m => .ite (.pure _) ?_
    split
    · exact .pure _
    · exact .ite (.pure _) ih

theorem relates_dispatch (handlers : Handlers) (phase : Phase) (id : PathId) (state : Value) :
    C.Relates (dispatch call handlers phase id state) (dispatch call' handlers phase id state) :=
  .read (fun _ _ => rfl) fun _ => relates_callHandlers hcall id state _

omit hcall in
theorem relates_visitItems {visit visit' : List Step → Script Flow}
    (h : ∀ steps, C.Relates (visit steps) (visit' steps))
    (steps : List Step) (field : String) (room i : Nat) :
    C.Relates (visitItems visit steps field room i) (visitItems visit' steps field room i) := by
  induction room generalizing i with
  | zero => exact .abort
  | succ room ih =>
    refine .read (fun _ _ => rfl) fun m => .ite (.pure _) (.bind (h _) fun flow => ?_)
    cases flow with
    | onward => exact ih _
    | removed depth => exact .ite (ih _) (.pure _)
    | stop => exact .pure _

omit hcall in
theorem relates_visitFields {visit visit' : List Step → Script Flow}
    (h : ∀ steps, C.Relates (visit steps) (visit' steps))
    (room : Nat) (steps : List Step) (fields : List (String × Bool)) :
    C.Relates (visitFields visit room steps fields) (visitFields visit' room steps fields) := by
  induction fields with
  | nil => exact .pure _
  | cons field fields ih =>
    refine .ite (.bind (relates_visitItems h _ _ _ _) fun flow => ?_) (.bind (h _) fun flow => ?_)
    all_goals
      cases flow with
      | onward => exact ih
      | removed depth => exact .ite ih (.pure _)
      | stop => exact .pure _

/-- So is a traversal by calls that agree. -/
theorem relates_visit (handlers : Handlers) (state : Value) (room fuel : Nat) (steps : List Step) :
    C.Relates (visit call handlers state room fuel steps)
      (visit call' handlers state room fuel steps) := by
  -- along the fuel, each level of the traversal by the one below it
  induction fuel generalizing steps with
  | zero => exact .abort
  | succ fuel ih =>
    refine .read (fun _ _ => rfl) fun m => ?_
    split
    · refine .bind (keeps_newPath _) fun id => ?_
      refine .bind (relates_dispatch hcall _ _ _ _) fun flow? => ?_
      split
      · exact .pure _
      · refine .read (fun _ _ => rfl) fun m =>
          .ite (.pure _) (.bind (keeps_modifyPath _ _) fun _ => ?_)
        refine .read (fun _ _ => rfl) fun m => ?_
        split
        · refine .bind (relates_visitFields ih _ _ _) fun flow => ?_
          split
          · exact .bind (relates_dispatch hcall _ _ _ _) fun _ => .pure _
          · exact .pure _
        · exact .pure _
    · exact .pure _

theorem relates_traverse (handlers : Handlers) (state : Value) :
    C.Relates (traverse call handlers state) (traverse call' handlers state) :=
  .bind (.modify (fun _ _ => rfl) fun _ => rfl) fun _ => .read (fun _ _ => rfl) fun _ =>
    .bind (relates_visit hcall _ _ _ _ _) fun _ => .pure _

end

end Plugin

/-! ### Whole transforms -/

namespace Transform

/-- At the start the input is put under work, which is no edit. -/
theorem relates_mutate (hC : C.RelatesTarget) (h : self.Agrees C self') (options : TransformOptions)
    (input : String) (exports : Exports) :
    C.Relates (mutate self options input exports) (mutate self' options input exports) := by
  unfold mutate
  split
  · exact .noInput _
  · refine .bind (relates_resolve h _) fun plugin => ?_
    refine .bind (keeps_visitorHandlers _) fun handlers => .bind (keeps_newState _) fun state => ?_
    refine .bind (hC _) fun _ => .bind (relates_callHook h _ _ _) fun _ => ?_
    exact .when (relates_traverse h.call _ _) fun _ => .bind (relates_callHook h _ _ _) fun _ =>
      .read (fun _ _ => rfl) fun _ => .pure _

theorem relates_apply (h : self.Agrees C self') (input : String) (exports : Exports) :
    C.Relates (apply self input exports) (apply self' input exports) := by
  unfold apply
  split
  · exact .ite (.bind (h.call _ _ _) fun _ => keeps_toText _) (.noPlugin _)
  · exact .noPlugin _

/-- Transforms are related if the evaluators of their scripts agree. -/
theorem relates_script (hC : C.RelatesTarget) (h : self.Agrees C self') (options : TransformOptions)
    (input : String) (code : Program) :
    C.Relates (script self options input code) (script self' options input code) := by
  refine .bind (relates_load h _) fun exports => ?_
  split
  · exact relates_mutate hC h _ _ _
  · exact relates_apply h _ _

end Transform

end Espalier
