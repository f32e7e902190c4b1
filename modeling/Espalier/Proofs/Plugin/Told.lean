import Espalier.Plugin.Traversal
import Espalier.Proofs.Script.Refusal

/-!
# Traversals that tell what they do

The traversal of a program, told event by event: which phases of which visits begin, and which
functions are called in them. Apart from the telling it is the traversal that plugins go through
(`tells_traverse`). What is proved about a told operation is proved under a condition on the calls
that it makes (`Told.Yields`).
-/

namespace Espalier.Plugin

open Script

/-- A call of a function of a visitor for a path, in a phase of the visit of its node. -/
structure Call where
  phase : Phase
  id : PathId
  before : Machine
  result : EStateM.Result Failure Machine Value

/-- What a traversal goes through. -/
inductive Event
  | begins (phase : Phase) (id : PathId)
  | calls (call : Call)

/-- The phase that begins. -/
def Event.begun? : Event → Option (Phase × PathId)
  | begins phase id => some (phase, id)
  | calls _ => none

/-- An operation that tells the events that it goes through. -/
def Told (α : Type) : Type := Machine → EStateM.Result Failure Machine α × List Event

namespace Told

variable {α β : Type}

/-- An operation without events. -/
def silently (x : Script α) : Told α := fun m => (x m, [])

/-- One event. -/
def event (e : Event) : Told Unit := fun m => (.ok () m, [e])

instance : Monad Told where
  pure a := silently (pure a)
  bind x f := fun m =>
    match x m with
    | (.ok a m', es) => ((f a m').1, es ++ (f a m').2)
    | (.error e m', es) => (.error e m', es)

/-- What is told by two steps is told one after the other. -/
theorem bind_eq (x : Told α) (f : α → Told β) (m : Machine) :
    (x >>= f) m =
      match x m with
      | (.ok a m', es) => ((f a m').1, es ++ (f a m').2)
      | (.error e m', es) => (.error e m', es) :=
  rfl

/-! ### The traversal -/

/-- Calls one function. -/
def callFunction (call : Caller) (phase : Phase) (id : PathId) (state f : Value) : Told Value :=
  fun m =>
    let result := call f state #[.path id, state] m
    (result, [.calls ⟨phase, id, m, result⟩])

/-- Calls functions for a path, up to the first that settles how the visit goes on. -/
def callHandlers (call : Caller) (phase : Phase) (id : PathId) (state : Value) :
    List Value → Told (Option Flow)
  | [] => return none
  | f :: fs => do
    let _ ← callFunction call phase id state f
    let m ← silently get
    let p := m.path id
    if m.isStopped then return some .stop
    else
      match p.removedAt with
      | some depth => return some (.removed depth)
      | none => if p.isReplaced then return none else callHandlers call phase id state fs

/-- Begins a phase of the visit of a node and calls the functions for it. -/
def dispatch (call : Caller) (handlers : Handlers) (phase : Phase) (id : PathId) (state : Value) :
    Told (Option Flow) := do
  event (.begins phase id)
  let type := ((← silently get).path id).type
  callHandlers call phase id state (handlers.find phase type)

/-- Visits the items of a list from place `i` on. -/
def visitItems (visit : List Step → Told Flow) (steps : List Step) (field : String) :
    (room : Nat) → (i : Nat) → Told Flow
  | 0, _ => silently (giveUp .aborted)
  | room + 1, i => do
    if (← silently get).itemCount steps field ≤ i then return .onward
    match ← visit (steps ++ [⟨field, some i⟩]) with
    | .onward => visitItems visit steps field room (i + 1)
    | .removed depth =>
      if depth = steps.length + 1 then visitItems visit steps field room i
      else return .removed depth
    | .stop => return .stop

/-- Visits the children in some fields; `true` marks a list. -/
def visitFields (visit : List Step → Told Flow) (room : Nat) (steps : List Step) :
    List (String × Bool) → Told Flow
  | [] => return .onward
  | (field, isList) :: rest => do
    let flow ←
      if isList then visitItems visit steps field room 0 else visit (steps ++ [⟨field, none⟩])
    match flow with
    | .onward => visitFields visit room steps rest
    | .removed depth =>
      if depth = steps.length + 1 then visitFields visit room steps rest else return .removed depth
    | .stop => return .stop

/-- Visits the nodes below a node that has been entered, and leaves it. -/
def visitBelow (call : Caller) (handlers : Handlers) (state : Value)
    (visit : List Step → Told Flow) (room : Nat) (id : PathId) (steps : List Step) : Told Flow := do
  if ((← silently get).path id).isSkipped then return .onward
  silently (modifyPath id ({ · with isReplaced := false }))
  let some node := (← silently get).nodeAt? steps | return .onward
  match ← visitFields visit room steps (childFields node) with
  | .onward => return (← dispatch call handlers .exit id state).getD .onward
  | flow => return flow

/-- Visits a node and the nodes below it. -/
def visit (call : Caller) (handlers : Handlers) (state : Value) (room : Nat) :
    (fuel : Nat) → List Step → Told Flow
  | 0, _ => silently (giveUp .aborted)
  | fuel + 1, steps => do
    let some type := (← silently get).typeAt? steps | return .onward
    let id ← silently (newPath { steps, type })
    if let some flow ← dispatch call handlers .enter id state then return flow
    visitBelow call handlers state (visit call handlers state room fuel) room id steps

/-- Walks over the program under work. -/
def traverse (call : Caller) (handlers : Handlers) (state : Value) : Told Unit := do
  silently (modify ({ · with isStopped := false }))
  let room := (← silently get).target.elim 0 traversalRoom
  let _ ← visit call handlers state room room []

/-! ### What is told -/

/-- An operation does the same as another one, and tells it. -/
def Tells (x : Told α) (y : Script α) : Prop := ∀ m, (x m).1 = y m

theorem tells_silently (x : Script α) : Tells (silently x) x := fun _ => rfl

/-- Two steps tell what the two programs do. -/
theorem Tells.bind {x : Told α} {y : Script α} {f : α → Told β} {g : α → Script β}
    (h : Tells x y) (hf : ∀ a, Tells (f a) (g a)) : Tells (x >>= f) (y >>= g) := by
  intro m
  have hx := h m
  rw [bind_eq]
  show _ = EStateM.bind y g m
  unfold EStateM.bind
  rw [← hx]
  obtain ⟨result, es⟩ := x m
  cases result with
  | ok a m' => exact hf a m'
  | error e m' => rfl

theorem tells_pure (a : α) : Tells (pure a) (pure a) := fun _ => rfl

theorem Tells.ite {p : Prop} [Decidable p] {x x' : Told α} {y y' : Script α} (h : Tells x y)
    (h' : Tells x' y') : Tells (if p then x else x') (if p then y else y') := by
  split
  · exact h
  · exact h'

/-- An event does nothing but tell. -/
theorem Tells.after {x : Told α} {y : Script α} (h : Tells x y) (e : Event) :
    Tells (event e >>= fun _ => x) y :=
  h

theorem tells_callFunction (call : Caller) (phase : Phase) (id : PathId) (state f : Value) :
    Tells (callFunction call phase id state f) (call f state #[.path id, state]) :=
  fun _ => rfl

/-- Calling several handlers, up to the one that removes the node or stops. -/
theorem tells_callHandlers (call : Caller) (phase : Phase) (id : PathId) (state : Value)
    (fs : List Value) :
    Tells (callHandlers call phase id state fs) (Plugin.callHandlers call id state fs) := by
  induction fs with
  | nil => exact tells_pure none
  | cons f fs ih =>
    refine .bind (tells_callFunction call phase id state f) fun _ =>
      .bind (tells_silently get) fun m => ?_
    refine .ite (tells_pure _) ?_
    cases (m.path id).removedAt with
    | some depth => exact tells_pure _
    | none => exact .ite (tells_pure _) ih

/-- Dispatching tells each call. -/
theorem tells_dispatch (call : Caller) (handlers : Handlers) (phase : Phase) (id : PathId)
    (state : Value) :
    Tells (dispatch call handlers phase id state)
      (Plugin.dispatch call handlers phase id state) :=
  .after (.bind (tells_silently get) fun _ => tells_callHandlers call phase id state _) _

section

variable {visit : List Step → Told Flow} {visit' : List Step → Script Flow}
  (h : ∀ steps, Tells (visit steps) (visit' steps))

include h

/-- The visit of a list, item by item. -/
theorem tells_visitItems (steps : List Step) (field : String) (room i : Nat) :
    Tells (visitItems visit steps field room i)
      (Plugin.visitItems visit' steps field room i) := by
  induction room generalizing i with
  | zero => exact tells_silently _
  | succ room ih =>
    refine .bind (tells_silently get) fun m => .ite (tells_pure _) (.bind (h _) fun flow => ?_)
    cases flow with
    | onward => exact ih _
    | removed depth => exact .ite (ih _) (tells_pure _)
    | stop => exact tells_pure _

/-- The visit of the fields, one after the other. -/
theorem tells_visitFields (room : Nat) (steps : List Step) (fields : List (String × Bool)) :
    Tells (visitFields visit room steps fields)
      (Plugin.visitFields visit' room steps fields) := by
  induction fields with
  | nil => exact tells_pure _
  | cons field fields ih =>
    obtain ⟨name, isList⟩ := field
    -- a removed child leads on to the next field, anything removed above leads out
    have hrest (flow : Flow) :
        Tells
          (match flow with
            | .onward => visitFields visit room steps fields
            | .removed depth =>
              if depth = steps.length + 1 then visitFields visit room steps fields
              else return .removed depth
            | .stop => return .stop)
          (match flow with
            | .onward => Plugin.visitFields visit' room steps fields
            | .removed depth =>
              if depth = steps.length + 1 then Plugin.visitFields visit' room steps fields
              else return .removed depth
            | .stop => return .stop) := by
      cases flow with
      | onward => exact ih
      | removed depth => exact .ite ih (tells_pure _)
      | stop => exact tells_pure _
    exact .ite (.bind (tells_visitItems h _ _ _ _) hrest) (.bind (h _) hrest)

end

/-- The visit of a node and all below it, by induction on the fuel. -/
theorem tells_visit (call : Caller) (handlers : Handlers) (state : Value) (room fuel : Nat)
    (steps : List Step) :
    Tells (visit call handlers state room fuel steps)
      (Plugin.visit call handlers state room fuel steps) := by
  -- both traversals take the same steps, and only the calls are told
  induction fuel generalizing steps with
  | zero => exact tells_silently _
  | succ fuel ih =>
    refine .bind (tells_silently get) fun m => ?_
    cases m.typeAt? steps with
    | none => exact tells_pure _
    | some type =>
      refine .bind (tells_silently _) fun id => .bind (tells_dispatch _ _ _ _ _) fun flow? => ?_
      cases flow? with
      | some flow => exact tells_pure _
      | none =>
        refine .bind (tells_silently get) fun m => .ite (tells_pure _) ?_
        refine .bind (tells_silently _) fun _ => .bind (tells_silently get) fun m => ?_
        cases m.nodeAt? steps with
        | none => exact tells_pure _
        | some node =>
          refine .bind (tells_visitFields ih _ _ _) fun flow => ?_
          cases flow with
          | onward => exact .bind (tells_dispatch _ _ _ _ _) fun _ => tells_pure _
          | removed | stop => exact tells_pure _

/-- The traversal that is told is the traversal. -/
theorem tells_traverse (call : Caller) (handlers : Handlers) (state : Value) :
    Tells (traverse call handlers state) (Plugin.traverse call handlers state) :=
  .bind (tells_silently _) fun _ => .bind (tells_silently get) fun _ =>
    .bind (tells_visit _ _ _ _ _ _) fun _ => tells_pure _

/-! ### Which functions are called -/

/-- All events of an operation are of a kind. -/
def Says (kind : Event → Prop) (x : Told α) : Prop := ∀ m, ∀ e ∈ (x m).2, kind e

section

variable {kind : Event → Prop}

/-- What runs silently tells nothing. -/
theorem says_silently (x : Script α) : Says kind (silently x) :=
  fun _ _ he => absurd he List.not_mem_nil

/-- One event is told, of the kind there is. -/
theorem says_event {e : Event} (h : kind e) : Says kind (event e) := by
  intro m e' he
  rwa [List.mem_singleton.mp he]

/-- Each of two steps tells only events of the kind. -/
theorem Says.bind {x : Told α} {f : α → Told β} (h : Says kind x) (hf : ∀ a, Says kind (f a)) :
    Says kind (x >>= f) := by
  intro m e he
  have hfirst := h m
  rw [bind_eq] at he
  generalize x m = told at hfirst he
  obtain ⟨result, es⟩ := told
  cases result with
  | error => exact hfirst e he
  | ok a m' =>
    rcases List.mem_append.mp he with he | he
    · exact hfirst e he
    · exact hf a m' e he

theorem Says.ite {p : Prop} [Decidable p] {x y : Told α} (h : Says kind x) (h' : Says kind y) :
    Says kind (if p then x else y) := by
  split
  · exact h
  · exact h'

variable {call : Caller} {handlers : Handlers} {state : Value}

/-- The functions that are called are those of the visitor for the phase, and they are called with
the path and the state. -/
def IsOf (call : Caller) (handlers : Handlers) (state : Value) : Event → Prop
  | .begins _ _ => True
  | .calls c => ∃ k ∈ handlers, k.phase = c.phase ∧
      c.result = call k.function state #[.path c.id, state] c.before

theorem says_callHandlers {phase : Phase} {id : PathId} {fs : List Value}
    (h : ∀ f ∈ fs, ∃ k ∈ handlers, k.phase = phase ∧ k.function = f) :
    Says (IsOf call handlers state) (callHandlers call phase id state fs) := by
  induction fs with
  | nil => exact says_silently _
  | cons f fs ih =>
    obtain ⟨hf, hfs⟩ := List.forall_mem_cons.mp h
    refine .bind ?_ fun _ => .bind (says_silently get) fun m => .ite (says_silently _) ?_
    · intro m e he
      obtain rfl := List.mem_singleton.mp he
      obtain ⟨k, hk, hphase, rfl⟩ := hf
      exact ⟨k, hk, hphase, rfl⟩
    · cases (m.path id).removedAt with
      | some depth => exact says_silently _
      | none => exact .ite (says_silently _) (ih hfs)

theorem says_dispatch (phase : Phase) (id : PathId) :
    Says (IsOf call handlers state) (dispatch call handlers phase id state) := by
  refine .bind (says_event trivial) fun _ => .bind (says_silently get) fun m =>
    says_callHandlers fun f hf => ?_
  obtain ⟨k, hk, rfl⟩ := List.mem_map.mp hf
  obtain ⟨hmem, hfind⟩ := List.mem_filter.mp hk
  rw [Bool.and_eq_true, beq_iff_eq] at hfind
  exact ⟨k, hmem, hfind.1, rfl⟩

/-- The items of a list tell no more than their visits. -/
theorem says_visitItems {visit : List Step → Told Flow} (h : ∀ steps, Says kind (visit steps))
    (steps : List Step) (field : String) (room i : Nat) :
    Says kind (visitItems visit steps field room i) := by
  induction room generalizing i with
  | zero => exact says_silently _
  | succ room ih =>
    refine .bind (says_silently get) fun m => .ite (says_silently _) (.bind (h _) fun flow => ?_)
    cases flow with
    | onward => exact ih _
    | removed depth => exact .ite (ih _) (says_silently _)
    | stop => exact says_silently _

/-- Nor do the fields. -/
theorem says_visitFields {visit : List Step → Told Flow} (h : ∀ steps, Says kind (visit steps))
    (room : Nat) (steps : List Step) (fields : List (String × Bool)) :
    Says kind (visitFields visit room steps fields) := by
  induction fields with
  | nil => exact says_silently _
  | cons field fields ih =>
    obtain ⟨name, isList⟩ := field
    have hrest (flow : Flow) : Says kind
        (match flow with
          | .onward => visitFields visit room steps fields
          | .removed depth =>
            if depth = steps.length + 1 then visitFields visit room steps fields
            else return .removed depth
          | .stop => return .stop) := by
      cases flow with
      | onward => exact ih
      | removed depth => exact .ite ih (says_silently _)
      | stop => exact says_silently _
    exact .ite (.bind (says_visitItems h _ _ _ _) hrest) (.bind (h _) hrest)

/-- What is told below a node are calls of the handlers. -/
theorem says_visitBelow {visit : List Step → Told Flow}
    (h : ∀ steps, Says (IsOf call handlers state) (visit steps)) (room : Nat) (id : PathId)
    (steps : List Step) :
    Says (IsOf call handlers state) (visitBelow call handlers state visit room id steps) := by
  refine .bind (says_silently get) fun m => .ite (says_silently _) ?_
  refine .bind (says_silently _) fun _ => .bind (says_silently get) fun m => ?_
  cases m.nodeAt? steps with
  | none => exact says_silently _
  | some node =>
    refine .bind (says_visitFields h _ _ _) fun flow => ?_
    cases flow with
    | onward => exact .bind (says_dispatch _ _) fun _ => says_silently _
    | removed | stop => exact says_silently _

/-- A visit tells only calls of the handlers, by induction on the fuel. -/
theorem says_visit (room fuel : Nat) (steps : List Step) :
    Says (IsOf call handlers state) (visit call handlers state room fuel steps) := by
  induction fuel generalizing steps with
  | zero => exact says_silently _
  | succ fuel ih =>
    refine .bind (says_silently get) fun m => ?_
    cases m.typeAt? steps with
    | none => exact says_silently _
    | some type =>
      refine .bind (says_silently _) fun id => .bind (says_dispatch _ _) fun flow? => ?_
      cases flow? with
      | some flow => exact says_silently _
      | none => exact says_visitBelow ih _ _ _

/-- A traversal calls the functions of its visitor only. -/
theorem says_traverse : Says (IsOf call handlers state) (traverse call handlers state) :=
  .bind (says_silently _) fun _ => .bind (says_silently get) fun _ =>
    .bind (says_visit _ _ _) fun _ => says_silently _

end

/-! ### What is true of what is told -/

/-- If all calls of an operation are such as they should be, then its result and its events are so,
unless one of the calls has failed: the operation has then failed with it. -/
def Yields (should : Call → Prop) (x : Told α) (m : Machine)
    (post : α → Machine → List Event → Prop) : Prop :=
  (∀ c, .calls c ∈ (x m).2 → should c) →
    match (x m).1 with
    | .ok a m' => post a m' (x m).2
    | .error e m' => ∃ c, .calls c ∈ (x m).2 ∧ c.result = .error e m'

section

variable {should : Call → Prop} {m : Machine}

/-- A silent step with a result. -/
theorem Yields.silently {x : Script α} {a : α} {m' : Machine}
    {post : α → Machine → List Event → Prop} (hx : x m = .ok a m') (h : post a m' []) :
    Yields should (silently x) m post := by
  intro _
  show match x m with | .ok a m' => post a m' [] | .error e m' => _
  rw [hx]
  exact h

theorem Yields.pure {a : α} {post : α → Machine → List Event → Prop} (h : post a m []) :
    Yields should (pure a) m post :=
  Yields.silently rfl h

/-- What is yielded may be told more loosely. -/
theorem Yields.mono {x : Told α} {post post' : α → Machine → List Event → Prop}
    (h : Yields should x m post) (hpost : ∀ a m' es, post a m' es → post' a m' es) :
    Yields should x m post' := by
  unfold Yields at h ⊢
  intro hcalls
  have hresult := h hcalls
  generalize x m = told at hresult ⊢
  obtain ⟨result, es⟩ := told
  cases result with
  | ok a m' => exact hpost a m' es hresult
  | error e m' => exact hresult

/-- One operation after another one. -/
theorem Yields.bind {x : Told α} {f : α → Told β} {post : β → Machine → List Event → Prop}
    (h : Yields should x m fun a m' es =>
      Yields should (f a) m' fun b m'' es' => post b m'' (es ++ es')) :
    Yields should (x >>= f) m post := by
  unfold Yields at h
  intro hcalls
  rw [bind_eq] at hcalls ⊢
  generalize x m = told at h hcalls ⊢
  obtain ⟨result, es⟩ := told
  cases result with
  | error e m' => exact h hcalls
  | ok a m' =>
    -- the calls of both steps do as they should, so those of each do
    have hfirst := h fun c hc => hcalls c (List.mem_append_left _ hc)
    have hsecond := hfirst fun c hc => hcalls c (List.mem_append_right _ hc)
    dsimp only at hsecond ⊢
    cases hlast : (f a m').1 with
    | ok b m'' =>
      rw [hlast] at hsecond
      exact hsecond
    | error e m'' =>
      rw [hlast] at hsecond
      obtain ⟨c, hc, hresult⟩ := hsecond
      exact ⟨c, List.mem_append_right _ hc, hresult⟩

/-- The state is looked at. -/
theorem Yields.get {f : Machine → Told β} {post : β → Machine → List Event → Prop}
    (h : Yields should (f m) m post) : Yields should (Told.silently get >>= f) m post :=
  .bind (.silently rfl h)

/-- A function is called. -/
theorem Yields.callFunction {call : Caller} {phase : Phase} {id : PathId} {state f : Value}
    {post : Value → Machine → List Event → Prop}
    (h : ∀ v m', call f state #[.path id, state] m = .ok v m' →
      should ⟨phase, id, m, .ok v m'⟩ → post v m' [.calls ⟨phase, id, m, .ok v m'⟩]) :
    Yields should (callFunction call phase id state f) m post := by
  intro hcalls
  have hcall := hcalls _ List.mem_cons_self
  unfold Told.callFunction
  cases hresult : call f state #[.path id, state] m with
  | ok v m' =>
    rw [hresult] at hcall
    exact h v m' hresult hcall
  | error e m' => exact ⟨_, List.mem_cons_self, rfl⟩

/-- An event is told. -/
theorem Yields.event {e : Event} {f : Unit → Told β} {post : β → Machine → List Event → Prop}
    (h : Yields should (f ()) m fun b m' es => post b m' (e :: es)) :
    Yields should (Told.event e >>= f) m post := by
  refine .bind fun hcalls => ?_
  exact h

end

end Told

end Espalier.Plugin

/-!
## Functions of a visitor that remove nodes

A visitor may remove the nodes that it enters. What one call does then is told by
`Call.OnlyRemoves`, and what the calls of one phase do together by `Told.yields_dispatch`: nothing
to the program, or just one item has left it, and the visit goes no further.
-/

namespace Espalier.Plugin

open Script Step

variable {m m' m'' : Machine} {id : PathId}

/-! ### Calls -/

/-- Nothing differs that a traversal looks at: the program, the paths, and whether it is stopped. -/
structure Agrees (m m' : Machine) : Prop where
  target_eq : m'.target = m.target
  paths_eq : m'.paths = m.paths
  isStopped_eq : m'.isStopped = m.isStopped

theorem Agrees.refl (m : Machine) : Agrees m m := ⟨rfl, rfl, rfl⟩

/-- Machines agree across two steps. -/
theorem Agrees.trans (h : Agrees m m') (h' : Agrees m' m'') : Agrees m m'' :=
  ⟨h'.target_eq.trans h.target_eq, h'.paths_eq.trans h.paths_eq,
    h'.isStopped_eq.trans h.isStopped_eq⟩

/-- A path is told alike by machines that agree. -/
theorem Agrees.path_eq (h : Agrees m m') (id : PathId) : m'.path id = m.path id := by
  unfold Machine.path
  rw [h.paths_eq]

/-- The node of a path is removed, and apart from that nothing is done that a traversal looks at. -/
def Removes (id : PathId) (m m' : Machine) : Prop :=
  ∃ m₁ m₂, Agrees m m₁ ∧ removePath id m₁ = .ok () m₂ ∧ Agrees m₂ m'

/-- A call that does nothing to the program and asks nothing of the traversal, or on entering a node
removes it by its path; unless it fails. A function that tries to remove a node and catches the
failure has done nothing (`removePath_error`). -/
def Call.OnlyRemoves (c : Call) : Prop :=
  ∀ v m', c.result = .ok v m' →
    Agrees c.before m' ∨ (c.phase = .enter ∧ Removes c.id c.before m')

theorem Removes.of_agrees (h : Agrees m m') (h' : Removes id m' m'') : Removes id m m'' := by
  obtain ⟨m₁, m₂, hbefore, hremove, hafter⟩ := h'
  exact ⟨m₁, m₂, h.trans hbefore, hremove, hafter⟩

/-- What leaves with the node of a path is taken out of the program, and the path is marked. -/
theorem Removes.exists_item (h : Removes id m m') :
    ∃ p p' owner field i, m.target = some p ∧
      p.tree.leavesWith [] (m.path id).steps = item owner field i ∧
      m'.target = some p' ∧ p'.tree = p.tree.eraseAt owner field i ∧
      m'.paths = m.paths.modify id.place
        (fun p => { p with removedAt := some (item owner field i).length }) ∧
      m'.isStopped = m.isStopped := by
  obtain ⟨m₁, m₂, hbefore, hremove, hafter⟩ := h
  obtain ⟨depth, m₃, hnode, rfl⟩ := removePath_ok hremove
  obtain ⟨p, owner, field, i, hp, hplace, ⟨q, p', hq, rfl, htree⟩, rfl⟩ :=
    removeNode_leavesWith hnode
  obtain rfl : p = q := Option.some.inj (hp.symm.trans hq)
  refine ⟨p, p', owner, field, i, ?_, ?_, ?_, htree, ?_, ?_⟩
  · rw [← hbefore.target_eq, hp]
  · rw [← hbefore.path_eq, hplace]
  · rw [hafter.target_eq]
  · rw [hafter.paths_eq, hbefore.paths_eq]
  · rw [hafter.isStopped_eq, hbefore.isStopped_eq]

/-! ### The calls of a phase -/

theorem path_eq_of_lt (h : id.place < m.paths.size) : m.path id = m.paths[id.place] := by
  unfold Machine.path
  rw [Array.getD_eq_getD_getElem?, Array.getElem?_eq_getElem h, Option.getD_some]

/-- A path whose node was removed knows at which depth. -/
theorem Removes.removedAt_eq (h : Removes id m m') (hid : id.place < m.paths.size) :
    ∃ depth, (m'.path id).removedAt = some depth := by
  obtain ⟨p, p', owner, field, i, -, -, -, -, hpaths, -⟩ := h.exists_item
  have hid' : id.place < m'.paths.size := by rwa [hpaths, Array.size_modify]
  refine ⟨(item owner field i).length, ?_⟩
  rw [path_eq_of_lt hid']
  simp only [hpaths, Array.getElem_modify_self]

namespace Told

variable {call : Caller} {handlers : Handlers} {state : Value} {phase : Phase}

/-- The calls of functions for a path: nothing is done to the program, or on entering the node of
the path is removed. -/
theorem yields_callHandlers (hid : id.place < m.paths.size) (hstopped : m.isStopped = false)
    (hremoved : (m.path id).removedAt = none) (hreplaced : (m.path id).isReplaced = false)
    (fs : List Value) :
    Yields Call.OnlyRemoves (callHandlers call phase id state fs) m fun flow? m' es =>
      es.filterMap Event.begun? = [] ∧
        ((flow? = none ∧ Agrees m m') ∨
          (phase = .enter ∧ Removes id m m' ∧
            flow? = (m'.path id).removedAt.map Flow.removed)) := by
  induction fs generalizing m with
  | nil => exact .pure ⟨rfl, .inl ⟨rfl, .refl m⟩⟩
  | cons f fs ih =>
    refine .bind (.callFunction fun v m₁ _ hcall => .get ?_)
    rcases hcall v m₁ rfl with hagrees | ⟨rfl, hremoves⟩
    · -- nothing has been done, and the other functions are called
      have hpath := hagrees.path_eq id
      have hid₁ : id.place < m₁.paths.size := by rwa [hagrees.paths_eq]
      have hstopped₁ : m₁.isStopped = false := by rw [hagrees.isStopped_eq, hstopped]
      dsimp only
      rw [hpath, hremoved, hreplaced, hstopped₁, if_neg Bool.false_ne_true]
      dsimp only
      rw [if_neg Bool.false_ne_true]
      refine (ih hid₁ hstopped₁ (by rw [hpath, hremoved]) (by rw [hpath, hreplaced])).mono ?_
      rintro flow? m₂ es ⟨hes, ⟨hnone, hagrees'⟩ | ⟨hphase, hremoves, hflow⟩⟩
      · exact ⟨hes, .inl ⟨hnone, hagrees.trans hagrees'⟩⟩
      · exact ⟨hes, .inr ⟨hphase, .of_agrees hagrees hremoves, hflow⟩⟩
    · -- the node has been removed, and no other function is called
      obtain ⟨p, p', owner, field, i, -, -, -, -, -, hstopped₁⟩ := hremoves.exists_item
      obtain ⟨depth, hdepth⟩ := hremoves.removedAt_eq hid
      dsimp only
      rw [hdepth, hstopped₁, hstopped, if_neg Bool.false_ne_true]
      refine .pure ⟨rfl, .inr ⟨rfl, hremoves, ?_⟩⟩
      rw [hdepth]
      rfl

/-- A phase of a visit. -/
theorem yields_dispatch (hid : id.place < m.paths.size) (hstopped : m.isStopped = false)
    (hremoved : (m.path id).removedAt = none) (hreplaced : (m.path id).isReplaced = false) :
    Yields Call.OnlyRemoves (dispatch call handlers phase id state) m fun flow? m' es =>
      es.filterMap Event.begun? = [(phase, id)] ∧
        ((flow? = none ∧ Agrees m m') ∨
          (phase = .enter ∧ Removes id m m' ∧
            flow? = (m'.path id).removedAt.map Flow.removed)) := by
  refine .event (.get ?_)
  refine (yields_callHandlers hid hstopped hremoved hreplaced _).mono ?_
  rintro flow? m' es ⟨hes, hcases⟩
  refine ⟨?_, hcases⟩
  rw [List.filterMap_cons, hes]
  rfl

end Told

end Espalier.Plugin
