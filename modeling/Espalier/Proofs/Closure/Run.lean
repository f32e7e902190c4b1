import Espalier.Proofs.Closure.Call
import Espalier.Proofs.Closure.Place
import Espalier.Transform

/-!
# Every function of a run has its own code

The functions of an accepted module have texts that start apart (`Program.functions_apart`). A run
of the module starts without any function, and whatever it carries out stays with the functions of
the module. So every function is called as it was written, and it makes no difference how much of
the code the machine knows already (`Transform.functions_keep_their_code`).
-/

namespace Espalier

open Script Plugin

variable {L : List FunctionLiteral} {self : Evaluator}

namespace Plugin

/-! ### Modules -/

instance : Carries Exports where
  IsFrom L e := IsFrom L e.default ∧ IsFrom L e.replaced ∧ IsFrom L e.lastExpression

theorem stays_typesObject : Stays L typesObject := stays_newObject isFrom_nil

theorem stays_importModule (specifiers : List ImportSpecifier) (source : Expr) (env : Env) :
    Stays L (importModule specifiers source env) := by
  unfold importModule
  split
  case' h_1 =>
    refine .bind stays_typesObject fun types htypes => ?_
    have hnames : IsFrom L ([("types", types)] : List (String × Value)) :=
      isFrom_cons ⟨trivial, htypes⟩ isFrom_nil
    refine .bind (stays_newObject hnames) fun module hmodule => .forM fun s _ => ?_
  case' h_2 => refine .bind stays_typesObject fun module hmodule => .forM fun s _ => ?_
  case' h_3 => refine .bind (.raise _) fun module hmodule => .forM fun s _ => ?_
  all_goals
    cases s with
    | default | star => exact stays_declare _ _ hmodule _
    | named => exact .bind (stays_getProperty _ _) fun _ hv => stays_declare _ _ hv _

theorem stays_exportNames (exports : Value) (env : Env) (names : List String) :
    Stays L (exportNames exports env names) :=
  .forM fun _ _ => .bind (stays_lookup _ _) fun _ hv => stays_setProperty _ _ hv

theorem stays_exportSpecifier (exports : Value) (env : Env) {done : Exports} (hdone : IsFrom L done)
    (s : ExportSpecifier) : Stays L (exportSpecifier exports env done s) :=
  .bind (stays_lookup _ _) fun _ hv => .ite (.pure ⟨isFrom_some hv, hdone.2⟩)
    (.bind (stays_setProperty _ _ hv) fun _ _ => .pure hdone)

section

variable (hL : L.Pairwise fun f g => f.span ≠ g.span) (h : self.Stays L)

include hL h

/-- What a module exports are values that it has made. -/
theorem stays_execItem (exports : Value) (env : Env) {done : Exports} (hdone : IsFrom L done)
    {s : Stmt} (hs : functions s ⊆ L) : Stays L (execItem self exports env done s) := by
  obtain ⟨hdefault, hreplaced, hlast⟩ := hdone
  unfold execItem
  split
  · exact .bind (stays_importModule _ _ _) fun _ _ => .pure ⟨hdefault, hreplaced, hlast⟩
  · next f =>
    refine .bind (stays_makeFunction hL (isIn_ofFunction hs) env) fun v hv => ?_
    have hdone : Stays L (pure { done with default := some v } : Script Exports) :=
      .pure ⟨isFrom_some hv, hreplaced, hlast⟩
    split
    · exact .bind (stays_declare _ _ hv _) fun _ _ => hdone
    · exact hdone
  · exact .raise _
  · exact .bind (h.eval _ _ hs) fun _ hv => .pure ⟨isFrom_some hv, hreplaced, hlast⟩
  · next declaration specifiers source =>
    obtain ⟨hdeclaration, -⟩ : functions declaration ⊆ L ∧ functions source ⊆ L := by
      simpa using hs
    have hspecifiers : Stays L (specifiers.foldlM (exportSpecifier exports env) done) :=
      .foldlM (fun _ hdone s _ => stays_exportSpecifier exports env hdone s)
        ⟨hdefault, hreplaced, hlast⟩
    dsimp only
    split
    -- the two forms of an exported declaration share what they specify
    case' h_1 => refine .bind (.raise _) fun _ _ => ?_
    all_goals
      split
      · exact .bind (h.exec _ _ hdeclaration) fun _ _ => .bind (stays_exportNames _ _ _) fun _ _ =>
          hspecifiers
      · exact hspecifiers
  · exact .raise _
  · exact .bind .tick fun _ _ => .bind (h.eval _ _ hs) fun _ hv =>
      .pure ⟨hdefault, hreplaced, isFrom_some hv⟩
  · exact .bind (h.exec _ _ hs) fun _ _ => .pure ⟨hdefault, hreplaced, hlast⟩

omit hL h in
theorem stays_finishExports {done : Exports} (hdone : IsFrom L done) (module exports : Value) :
    Stays L (finishExports done module exports) := by
  obtain ⟨hdefault, hreplaced, hlast⟩ := hdone
  refine .bind (stays_getProperty _ _) fun current hcurrent => ?_
  have hends : Stays L (pure { done with replaced := some current } : Script Exports) :=
    .pure ⟨hdefault, isFrom_some hcurrent, hlast⟩
  split
  · refine .ite hends (.read (fun _ => rfl) fun m hm => ?_)
    dsimp only
    split
    · next v hv =>
      have hv := isFrom_get? (hm.object _) "default" v hv
      exact .pure ⟨isFrom_orElse hdefault (isFrom_some hv), hreplaced, hlast⟩
    · split
      · exact .pure ⟨hdefault, hreplaced, hlast⟩
      · exact hends
  · exact hends

/-- The items of a module are executed one after the other. -/
theorem stays_load {body : List Stmt} (hbody : functions body ⊆ L) :
    Stays L (load self body) := by
  refine .bind (stays_newScope ⟨isFrom_nil, isFrom_some (a := Value.undefined) trivial⟩ _)
    fun env _ => ?_
  refine .bind (stays_newObject isFrom_nil) fun exports hexports => ?_
  refine .bind (stays_newObject (isFrom_cons ⟨trivial, hexports⟩ isFrom_nil))
    fun module hmodule => ?_
  refine .bind (stays_declare _ _ hmodule _) fun _ _ => ?_
  refine .bind (stays_declare _ _ hexports _) fun _ _ => ?_
  refine .bind (stays_hoist hL hbody env) fun _ _ => ?_
  have hnone : IsFrom L ({} : Exports) := ⟨isFrom_none, isFrom_none, isFrom_none⟩
  refine .bind (.foldlM (fun done hdone s hs => ?_) hnone) fun done hdone =>
    stays_finishExports hdone _ _
  exact stays_execItem hL h exports env hdone (functionsOfAll_subset.mp hbody s hs)

end

/-! ### Visitors -/

instance : Carries Handler := ⟨fun L handler => IsFrom L handler.function⟩

theorem stays_orNoPlugin {α : Type} [Carries α] {a : Except PluginError α}
    (ha : ∀ b, a = .ok b → IsFrom L b) : Stays L (orNoPlugin a) := by
  cases a with
  | ok a => exact .pure (ha a rfl)
  | error cause => exact .giveUp trivial

theorem stays_handler (key : String) (types : List NodeType) (phase : Phase) {v : Value}
    (hv : IsFrom L v) : Stays L (handler key types phase v) :=
  .ite (.pure hv) (.giveUp trivial)

theorem stays_handlersOf (key : String) {v : Value} (hv : IsFrom L v) :
    Stays L (handlersOf key v) := by
  have hone {handler : Handler} (h : IsFrom L handler) :
      Stays L (pure [handler] : Script Handlers) :=
    .pure (isFrom_cons h isFrom_nil)
  refine .ite (.pure isFrom_nil) (.bind (stays_orNoPlugin fun _ _ _ _ => trivial) fun types _ => ?_)
  refine .ite (.bind (stays_handler _ _ _ hv) fun _ => hone) ?_
  refine .ite (.bind (stays_handler _ _ _ hv) fun _ => hone) (.ite (hone hv) ?_)
  split
  · extract_lets inPhase
    have hinPhase (phase : Phase) : Stays L (inPhase phase) := by
      refine .bind (stays_getProperty _ _) fun f hf => ?_
      split
      · exact .pure isFrom_nil
      · exact .bind (stays_handler _ _ _ hf) fun _ => hone
    exact .bind (hinPhase .enter) fun _ henter => .bind (hinPhase .exit) fun _ hexit =>
      .pure (List.forall_mem_append.mpr ⟨henter, hexit⟩)
  · exact .giveUp trivial

theorem stays_visitorHandlers (plugin : Value) : Stays L (visitorHandlers plugin) := by
  refine .bind (stays_getProperty _ _) fun visitor _ => ?_
  split
  · exact .pure isFrom_nil
  · refine .read (fun _ => rfl) fun m hm => ?_
    refine .bind (.mapM fun p hp => stays_handlersOf p.1 (hm.object _ p hp).2) fun hss hall => ?_
    refine .pure fun handler hmem => ?_
    obtain ⟨hs, hhs, hmem⟩ := List.mem_flatten.mp hmem
    exact hall hs hhs handler hmem
  · exact .giveUp trivial

theorem stays_newApi : Stays L newApi :=
  .bind stays_typesObject fun _ htypes => stays_newObject
    (isFrom_cons ⟨trivial, htypes⟩ (isFrom_cons ⟨trivial, trivial⟩
      (isFrom_cons ⟨trivial, trivial⟩ isFrom_nil)))

/-- The plugin is the exported value, or what the exported factory returns. -/
theorem stays_resolve (hcall : self.call.Stays L) {exports : Exports}
    (hexports : IsFrom L exports) : Stays L (resolve self exports) := by
  have hentry : IsFrom L exports.entry? := isFrom_orElse hexports.1 hexports.2.1
  unfold resolve
  split
  · next entry heq =>
    refine .ite (.bind (stays_newObject isFrom_nil) fun options hoptions => ?_)
      (.bind (.pure (hentry entry heq)) fun plugin _ => ?_)
    case' refine_1 =>
      refine .bind stays_newApi fun api hapi => ?_
      have hargs : IsFrom L #[api, options, .string "/"] :=
        isFrom_toArray (isFrom_cons hapi (isFrom_cons hoptions (isFrom_cons trivial isFrom_nil)))
      refine .bind (hcall _ _ _ (hentry entry heq) trivial hargs) fun plugin _ => ?_
    all_goals
      dsimp only
      split
      · exact .pure trivial
      · exact .giveUp trivial
  · exact .giveUp trivial

theorem stays_newState (input : String) : Stays L (newState input) := by
  refine .bind (stays_newObject isFrom_nil) fun options hoptions => ?_
  refine .bind (stays_newObject (isFrom_cons ⟨trivial, trivial⟩ isFrom_nil)) fun file hfile => ?_
  exact stays_newObject (isFrom_cons ⟨trivial, hoptions⟩
    (isFrom_cons ⟨trivial, hfile⟩ (isFrom_cons ⟨trivial, trivial⟩ isFrom_nil)))

section

variable (hcall : self.call.Stays L)

include hcall

theorem stays_callHook (plugin : Value) {state : Value} (hstate : IsFrom L state) (hook : String) :
    Stays L (callHook self plugin state hook) := by
  refine .bind (stays_getProperty _ _) fun f hf => ?_
  split
  · exact .pure trivial
  · have hargs : IsFrom L #[state] := isFrom_toArray (isFrom_cons hstate isFrom_nil)
    exact .ite (.bind (hcall _ _ _ hf hstate hargs) fun _ _ => .pure trivial) (.giveUp trivial)

end

/-! ### Traversal -/

section

variable {call : Caller} (hcall : call.Stays L) {state : Value} (hstate : IsFrom L state)

include hcall hstate

theorem stays_callHandlers (id : PathId) {fs : List Value} (hfs : IsFrom L fs) :
    Stays L (callHandlers call id state fs) := by
  induction fs with
  | nil => exact .pure isFrom_none
  | cons f fs ih =>
    obtain ⟨hf, hfs⟩ := List.forall_mem_cons.mp hfs
    have hargs : IsFrom L #[.path id, state] :=
      isFrom_toArray (isFrom_cons trivial (isFrom_cons hstate isFrom_nil))
    refine .bind (hcall _ _ _ hf hstate hargs) fun _ _ => .read (fun _ => rfl) fun m _ => ?_
    refine .ite (.pure fun _ _ => trivial) ?_
    split
    · exact .pure fun _ _ => trivial
    · exact .ite (.pure isFrom_none) (ih hfs)

theorem stays_dispatch {handlers : Handlers} (hhandlers : IsFrom L handlers) (phase : Phase)
    (id : PathId) : Stays L (dispatch call handlers phase id state) := by
  refine .read (fun _ => rfl) fun m _ => stays_callHandlers hcall hstate id fun f hf => ?_
  obtain ⟨handler, hmem, rfl⟩ := List.mem_map.mp hf
  exact hhandlers handler (List.mem_of_mem_filter hmem)

omit hcall hstate in
/-- The items of a list are visited in turn, as long as the list lasts. -/
theorem stays_visitItems {visit : List Step → Script Flow} (h : ∀ steps, Stays L (visit steps))
    (steps : List Step) (field : String) (room i : Nat) :
    Stays L (visitItems visit steps field room i) := by
  induction room generalizing i with
  | zero => exact .abort
  | succ room ih =>
    refine .read (fun _ => rfl) fun m _ => .ite (.pure trivial) (.bind (h _) fun flow _ => ?_)
    cases flow with
    | onward => exact ih _
    | removed depth => exact .ite (ih _) (.pure trivial)
    | stop => exact .pure trivial

omit hcall hstate in
theorem stays_visitFields {visit : List Step → Script Flow} (h : ∀ steps, Stays L (visit steps))
    (room : Nat) (steps : List Step) (fields : List (String × Bool)) :
    Stays L (visitFields visit room steps fields) := by
  induction fields with
  | nil => exact .pure trivial
  | cons field fields ih =>
    refine .ite (.bind (stays_visitItems h _ _ _ _) fun flow _ => ?_) (.bind (h _) fun flow _ => ?_)
    all_goals
      cases flow with
      | onward => exact ih
      | removed depth => exact .ite ih (.pure trivial)
      | stop => exact .pure trivial

/-- A traversal calls the functions of the visitor, which are those of the script. -/
theorem stays_visit {handlers : Handlers} (hhandlers : IsFrom L handlers) (room fuel : Nat)
    (steps : List Step) : Stays L (visit call handlers state room fuel steps) := by
  -- Each level of the tree takes one unit of fuel; the last one is never reached.
  induction fuel generalizing steps with
  | zero => exact .abort
  | succ fuel ih =>
    refine .read (fun _ => rfl) fun m _ => ?_
    split
    · refine .bind (stays_newPath _) fun id _ => ?_
      refine .bind (stays_dispatch hcall hstate hhandlers _ id) fun flow? _ => ?_
      split
      · exact .pure trivial
      · refine .read (fun _ => rfl) fun m _ =>
          .ite (.pure trivial) (.bind (stays_modifyPath _ _) fun _ _ => ?_)
        refine .read (fun _ => rfl) fun m _ => ?_
        split
        · refine .bind (stays_visitFields ih _ _ _) fun flow _ => ?_
          split
          · exact .bind (stays_dispatch hcall hstate hhandlers _ id) fun _ _ => .pure trivial
          · exact .pure trivial
        · exact .pure trivial
    · exact .pure trivial

theorem stays_traverse {handlers : Handlers} (hhandlers : IsFrom L handlers) :
    Stays L (traverse call handlers state) :=
  .bind (.alter (fun _ => rfl) fun _ => rfl) fun _ _ => .read (fun _ => rfl) fun _ _ =>
    .bind (stays_visit hcall hstate hhandlers _ _ _) fun _ _ => .pure trivial

end

end Plugin

/-! ### Whole transforms -/

namespace Transform

theorem stays_mutate (h : self.Stays L) (options : TransformOptions) (input : String)
    {exports : Exports} (hexports : IsFrom L exports) :
    Stays L (mutate self options input exports) := by
  unfold mutate
  split
  · exact .giveUp trivial
  · refine .bind (stays_resolve h.call hexports) fun plugin _ => ?_
    refine .bind (stays_visitorHandlers _) fun handlers hhandlers => ?_
    refine .bind (stays_newState _) fun state hstate => ?_
    refine .bind (.alter (fun _ => rfl) fun _ => rfl) fun _ _ => ?_
    refine .bind (stays_callHook h.call _ hstate _) fun _ _ => ?_
    refine .when (stays_traverse h.call hstate hhandlers) fun _ => ?_
    exact .bind (stays_callHook h.call _ hstate _) fun _ _ =>
      .read (fun _ => rfl) fun _ _ => .pure trivial

theorem stays_apply (h : self.Stays L) (input : String) {exports : Exports}
    (hexports : IsFrom L exports) : Stays L (apply self input exports) := by
  have hf := isFrom_orElse (isFrom_orElse hexports.1 hexports.2.1) hexports.2.2
  have hargs : IsFrom L #[Value.string input] := isFrom_toArray (isFrom_cons trivial isFrom_nil)
  unfold apply
  split
  · next f heq =>
    exact .ite (.bind (h.call _ _ _ (hf f heq) trivial hargs) fun _ _ => stays_toText _)
      (.giveUp trivial)
  · exact .giveUp trivial

/-- Every closure of a run comes from a function written in the script. -/
theorem stays_script (hL : L.Pairwise fun f g => f.span ≠ g.span) (h : self.Stays L)
    (options : TransformOptions) (input : String) {p : Program} (hp : p.functions ⊆ L) :
    Stays L (script self options input p) := by
  have hbody : functions p.body ⊆ L := by
    rw [Program.functions, stmtsFunctions_eq] at hp
    exact hp
  refine .bind (stays_load hL h hbody) fun exports hexports => ?_
  split
  · exact stays_mutate h options input hexports
  · exact stays_apply h input hexports

theorem isFrom_constants : IsFrom L constants := by
  refine List.forall_mem_append.mpr ⟨?_, isFrom_map fun _ => ⟨trivial, trivial⟩⟩
  exact isFrom_cons ⟨trivial, trivial⟩ (isFrom_cons ⟨trivial, trivial⟩
    (isFrom_cons ⟨trivial, trivial⟩ isFrom_nil))

/-- At the start there is no code of the script. -/
theorem isFrom_start (budget : Budget) (engines : Engines) :
    IsFrom L (Machine.start budget engines) where
  arrays := isFrom_toArray isFrom_nil
  objects := by
    refine isFrom_toArray (isFrom_map fun space => isFrom_ofList ?_)
    refine List.forall_mem_append.mpr ⟨isFrom_map fun _ => ⟨trivial, trivial⟩, ?_⟩
    unfold namespaceConstants
    split
    · exact isFrom_cons ⟨trivial, trivial⟩ (isFrom_cons ⟨trivial, trivial⟩ isFrom_nil)
    · exact isFrom_nil
  scopes := by
    refine isFrom_toArray (isFrom_cons ⟨?_, isFrom_some (a := Value.undefined) trivial⟩ isFrom_nil)
    refine List.forall_mem_map.mpr fun p hp => ⟨trivial, ?_⟩
    rcases List.mem_append.mp hp with hp | hp
    · exact (isFrom_constants p hp).2
    · obtain ⟨space, -, rfl⟩ := List.mem_map.mp hp
      exact trivial
  code := nofun

/-- A run stays with the functions of the module that it runs. -/
theorem stays_ending {source : String} {parserOptions : ParserOptions} {p : Program}
    (h : Program.parse source parserOptions = .ok p) (options : TransformOptions)
    (input code : String) :
    IsFrom p.functions (ending options input code p) ∧
      script (Evaluator.ofFuel (Evaluator.fuelFor options.budget code.utf8ByteSize)) options input p
          ((Machine.start options.budget options.engines).informed p.functions) =
        informedEnd p.functions (ending options input code p) := by
  have hspans := p.spans_apart h
  have hself := Evaluator.stays_ofFuel hspans
    (Evaluator.fuelFor options.budget code.utf8ByteSize)
  exact stays_script hspans hself options input (List.Subset.refl _) _
    (isFrom_start options.budget options.engines)

end Transform

end Espalier
