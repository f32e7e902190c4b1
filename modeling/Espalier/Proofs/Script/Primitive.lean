import Espalier.Proofs.Script.Congruence

/-!
# Relations between operations on single values

Making and changing values, conversions, operators, nodes and paths: each operation on them that is
no edit is related to itself by whatever is compatible with the making of operations. A relation
that takes any change of the program under work, as long as it does not depend on the ledger,
relates the edits to themselves as well, and so is a congruence (`Compatibility.congruence`).
-/

namespace Espalier.Script

variable {C : Compatibility}

/-! ### Making and changing values -/

@[simp]
theorem keeps_newFunctionId : C.Keeps newFunctionId := .modifyGet (fun _ _ => rfl) fun _ => rfl

@[simp]
theorem keeps_newArray (items : Array Value) : C.Keeps (newArray items) :=
  .modifyGet (fun _ _ => rfl) fun _ => rfl

@[simp]
theorem keeps_newObject (o : ObjectData) : C.Keeps (newObject o) :=
  .modifyGet (fun _ _ => rfl) fun _ => rfl

@[simp]
theorem keeps_newError (kind : ErrorKind) (message : String) : C.Keeps (newError kind message) :=
  keeps_newObject _

@[simp]
theorem keeps_newScope (s : Scope) (env : Env) : C.Keeps (newScope s env) :=
  .modifyGet (fun _ _ => rfl) fun _ => rfl

@[simp]
theorem keeps_newBlock (env : Env) : C.Keeps (newBlock env) := keeps_newScope _ env

@[simp]
theorem keeps_forkScope (env : Env) : C.Keeps (forkScope env) := by
  cases env with
  | nil => exact .pure _
  | cons s env => exact .read (fun _ _ => rfl) fun m => keeps_newScope _ env

@[simp]
theorem keeps_newMethod (method : Method) : C.Keeps (newMethod method) :=
  .bind keeps_newFunctionId fun _ => .pure _

@[simp]
theorem keeps_newPath (p : PathData) : C.Keeps (newPath p) :=
  .modifyGet (fun _ _ => rfl) fun _ => rfl

@[simp]
theorem keeps_modifyItems (a : ArrayId) (f : Array Value → Array Value) :
    C.Keeps (modifyItems a f) :=
  .modify (fun _ _ => rfl) fun _ => rfl

@[simp]
theorem keeps_modifyObject (o : ObjectId) (f : ObjectData → ObjectData) :
    C.Keeps (modifyObject o f) :=
  .modify (fun _ _ => rfl) fun _ => rfl

@[simp]
theorem keeps_modifyScope (s : ScopeId) (f : Scope → Scope) : C.Keeps (modifyScope s f) :=
  .modify (fun _ _ => rfl) fun _ => rfl

@[simp]
theorem keeps_modifyPath (p : PathId) (f : PathData → PathData) : C.Keeps (modifyPath p f) :=
  .modify (fun _ _ => rfl) fun _ => rfl

@[simp]
theorem keeps_writeLine (level : Level) (text : String) : C.Keeps (writeLine level text) :=
  .modify (fun _ _ => rfl) fun _ => rfl

@[simp]
theorem keeps_declare (env : Env) (name : String) (v : Value) (isMutable : Bool) :
    C.Keeps (declare env name v isMutable) := by
  cases env with
  | nil => exact .pure _
  | cons s env => exact keeps_modifyScope s _

@[simp]
theorem keeps_lookup (name : String) (env : Env) : C.Keeps (lookup name env) := by
  refine .read (fun m l => by rw [m.lookup?_withLedger]) fun m => ?_
  split
  · exact .pure _
  · exact .raise _

@[simp]
theorem keeps_assign (name : String) (v : Value) (env : Env) : C.Keeps (assign name v env) := by
  refine .read (fun _ _ => rfl) fun m => ?_
  split
  · exact .raise _
  · exact .read (fun _ _ => rfl) fun m => .ite (keeps_modifyScope _ _) (.raise _)

@[simp]
theorem keeps_newClosure (span : Span) (name : String) (code : Code) (env : Env) :
    C.Keeps (newClosure span name code env) := by
  refine .bind keeps_newFunctionId fun id => .read (fun _ _ => rfl) fun m => ?_
  split
  · exact .pure _
  · exact .bind (.modify (fun _ _ => rfl) fun _ => rfl) fun _ => .pure _

/-! ### Conversions and operators -/

@[simp]
theorem keeps_toNumber (v : Value) : C.Keeps (toNumber v) := by
  unfold toNumber
  split
  · exact .pure _
  · refine .read (fun m l => by rw [m.number?_withLedger]) fun m => ?_
    split
    · exact .pure _
    · exact .abort

@[simp]
theorem keeps_toTextLocking (locked : Option Container) (v : Value) :
    C.Keeps (toTextLocking locked v) := by
  unfold toTextLocking
  split
  · exact .pure _
  · refine .read (fun m l => by rw [m.text?_withLedger]) fun m => ?_
    split
    · exact .pure _
    · exact .abort

@[simp]
theorem keeps_toText (v : Value) : C.Keeps (toText v) := keeps_toTextLocking none v

/-- A handler gets the value of a failure only if it can catch the failure. -/
theorem keeps_caughtValue {e : Failure} (he : e.isCatchable = true) :
    C.Keeps (caughtValue e) := by
  unfold caughtValue
  split
  · exact .pure _
  · exact keeps_newError _ _
  · next h₁ h₂ =>
    cases e with
    | thrown v => exact absurd rfl (h₁ v)
    | raised fault => exact absurd rfl (h₂ fault)
    | exhausted what => exact absurd he (by simp [Failure.isCatchable])
    | plugin cause => exact absurd he (by simp [Failure.isCatchable])
    | input cause => exact absurd he (by simp [Failure.isCatchable])
    | aborted => exact absurd he (by decide)

@[simp]
theorem keeps_boundedText (s : String) : C.Keeps (boundedText s) := by
  unfold boundedText
  exact .ite (.raise _) (.pure _)

@[simp]
theorem keeps_add (v w : Value) : C.Keeps (add v w) := by
  unfold add
  refine .ite ?_ ?_
  · exact .bind (keeps_toNumber v) fun x => .bind (keeps_toNumber w) fun y => .pure _
  · exact .bind (keeps_toText v) fun s => .bind (keeps_toText w) fun t => keeps_boundedText _

@[simp]
theorem keeps_compareWith (texts : String → String → Bool) (numbers : Float → Float → Bool)
    (v w : Value) : C.Keeps (compareWith texts numbers v w) := by
  unfold compareWith
  split <;> simp

@[simp]
theorem keeps_withNumbers (f : Float → Float → Float) (v w : Value) :
    C.Keeps (withNumbers f v w) := by
  simp [withNumbers]

@[simp]
theorem keeps_withWords (f : Int32 → Int32 → Int) (v w : Value) : C.Keeps (withWords f v w) := by
  simp [withWords]

@[simp]
theorem keeps_instanceOf (v type : Value) : C.Keeps (instanceOf v type) := by
  unfold instanceOf
  split
  · split
    · refine .read (fun _ _ => rfl) fun m => ?_
      refine .ite (.pure _) (.ite (.pure _) ?_)
      split
      · exact .bind (keeps_toText _) fun _ => .pure _
      · exact .pure _
    · exact .pure _
  all_goals simp

theorem keeps_binary (op : BinaryOp) {hasProperty : Value → Value → Script Bool}
    (h : ∀ v w, C.Keeps (hasProperty v w)) (v w : Value) : C.Keeps (binary op hasProperty v w) := by
  cases op <;> simp [binary, h]

@[simp]
theorem keeps_unary (op : UnaryOp) (v : Value) : C.Keeps (unary op v) := by
  cases op <;> simp [unary]

/-! ### Nodes and paths -/

@[simp]
theorem keeps_nodeAt (steps : List Step) (key : String) : C.Keeps (nodeAt steps key) :=
  .read (fun _ _ => rfl) fun _ => .orRaise _ _

@[simp]
theorem keeps_nodeProperty (steps : List Step) (key : String) :
    C.Keeps (nodeProperty steps key) := by
  refine .bind (keeps_nodeAt steps key) fun node => ?_
  split
  · exact .pure _
  · exact .pure _
  · exact .pure _
  · split
    · exact .pure _
    · exact keeps_newArray _
    · exact .pure _
    · exact .pure _
    · exact .pure _
    · exact .pure _

@[simp]
theorem keeps_nodeKeys (steps : List Step) : C.Keeps (nodeKeys steps) :=
  .bind (keeps_nodeAt steps "keys") fun _ => .pure _

@[simp]
theorem keeps_nodeIs (key : VisitorKey) (steps : List Step) (expected : Value) :
    C.Keeps (nodeIs key steps expected) := by
  refine .read (fun _ _ => rfl) fun m => .ite (.pure _) ?_
  split
  · exact .read (fun _ _ => rfl) fun m =>
      .allM (fun _ => .bind (keeps_nodeProperty _ _) fun _ => .pure _) _
  · exact .pure _

@[simp]
theorem keeps_pathProperty (id : PathId) (key : String) : C.Keeps (pathProperty id key) := by
  refine .read (fun _ _ => rfl) fun m => ?_
  dsimp only
  split
  · exact .pure _
  · exact .pure _
  · exact .pure _
  · split <;> exact .pure _
  · split <;> exact .pure _
  · exact .pure _
  · exact .pure _
  · exact .read (fun _ _ => rfl) fun m => .pure _
  · split
    · exact keeps_newMethod _
    · split
      · exact keeps_newMethod _
      · exact .pure _

@[simp]
theorem keeps_isOfType (key : VisitorKey) (this : Option PathId) (args : Array Value) :
    C.Keeps (isOfType key this args) := by
  unfold isOfType
  split
  · exact .read (fun _ _ => rfl) fun m => .ite (.pure _) (keeps_nodeIs _ _ _)
  · split
    · exact keeps_nodeIs _ _ _
    · exact .pure _

/-- A method of a path that makes no edit only notes what the traversal is to do. -/
theorem keeps_callPathMethod_of_edit? {method : PathMethod} {id : PathId}
    (h : method.edit? id = none) (args : Array Value) :
    C.Keeps (callPathMethod method id args) := by
  unfold callPathMethod
  cases method with
  | skip => exact .bind (keeps_modifyPath _ _) fun _ => .pure _
  | stop => exact .bind (.modify (fun _ _ => rfl) fun _ => rfl) fun _ => .pure _
  | remove | replaceWithSource => cases h

/-! ### Edits -/

/-- That another program is put under work is related to itself. -/
def Compatibility.RelatesTarget (C : Compatibility) : Prop :=
  ∀ p : Program, C.Keeps (modify fun m => { m with target := some p } : Script PUnit)

section

variable (hC : C.RelatesTarget)

include hC

theorem keeps_editProgram (fault : Fault)
    (edit : Program → Option (Except EditError Unit × Program)) :
    C.Keeps (editProgram fault edit) := by
  refine .read (fun _ _ => rfl) fun m => .bind (.orRaise _ _) fun (given, left) => ?_
  refine .bind (hC left) fun _ => ?_
  cases given with
  | ok => exact .pure _
  | error cause => exact .raise _

theorem keeps_setNodeProperty (steps : List Step) (key : String) (v : Value) :
    C.Keeps (setNodeProperty steps key v) := by
  unfold setNodeProperty
  refine .bind (keeps_nodeAt steps key) fun node => .when (.raise _) fun _ => ?_
  split
  · exact .bind (.pure _) fun _ => keeps_editProgram hC _ _
  · exact .bind (.pure _) fun _ => keeps_editProgram hC _ _
  · exact .bind (.pure _) fun _ => keeps_editProgram hC _ _
  · exact .bind (.raise _) fun _ => keeps_editProgram hC _ _

theorem keeps_removeNode (steps : List Step) : C.Keeps (removeNode steps) := by
  induction steps with
  | nil => exact .raise _
  | cons last above ih =>
    unfold removeNode
    refine .bind (keeps_nodeAt _ _) fun node => .bind (keeps_nodeAt _ _) fun parent => ?_
    dsimp only
    split
    · refine .bind (keeps_editProgram hC _ _) fun _ => .read (fun _ _ => rfl) fun m => ?_
      exact .ite ih (.pure _)
    · exact .ite ih (.raise _)

theorem keeps_removePath (id : PathId) : C.Keeps (removePath id) :=
  .read (fun _ _ => rfl) fun _ => .when (.raise _) fun _ =>
    .bind (keeps_removeNode hC _) fun _ => keeps_modifyPath _ _

theorem keeps_replacePath (id : PathId) (source : String) : C.Keeps (replacePath id source) := by
  refine .read (fun _ _ => rfl) fun m => .when (.raise _) fun _ => ?_
  split
  · exact .raise _
  · refine .bind (keeps_editProgram hC _ _) fun _ => ?_
    exact .bind (keeps_nodeAt _ _) fun node => keeps_modifyPath _ _

theorem keeps_callPathMethod (method : PathMethod) (id : PathId) (args : Array Value) :
    C.Keeps (callPathMethod method id args) := by
  cases method with
  | skip | stop => exact keeps_callPathMethod_of_edit? rfl args
  | remove => exact .bind (keeps_removePath hC id) fun _ => .pure _
  | replaceWithSource =>
    have replaces (source : String) :
        C.Keeps (replacePath id source >>= fun _ => pure Value.undefined) :=
      .bind (keeps_replacePath hC id source) fun _ => .pure _
    unfold callPathMethod
    dsimp only
    split
    · exact .bind (keeps_toText _) replaces
    · exact .bind (.pure _) replaces

end

/-- Changes of the program under work are related to themselves, and so are notes of edits. -/
structure Compatibility.RelatesWork (C : Compatibility) : Prop where
  target : C.RelatesTarget
  edits : ∀ edit, C.Keeps (modify fun m => { m with edits := edit :: m.edits } : Script PUnit)

/-- An edit relates when what it stands around does. -/
theorem Compatibility.RelatesWork.editing (hC : C.RelatesWork) {α : Type} (edit : Edit)
    {x : Script α} (h : C.Keeps x) : C.Keeps (editing edit x) :=
  .bind h fun _ => .bind (hC.edits edit) fun _ => .pure _

/-- A relation that takes changes of the program under work relates edits to themselves. -/
def Compatibility.congruence (C : Compatibility) (hC : C.RelatesWork) : Congruence where
  toCompatibility := C
  of_assignment steps key v := hC.editing _ (keeps_setNodeProperty hC.target steps key v)
  of_pathEdit args _ := hC.editing _ (keeps_callPathMethod hC.target _ _ args)

end Espalier.Script
