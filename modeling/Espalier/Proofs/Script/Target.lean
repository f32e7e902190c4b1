import Espalier.Proofs.Script.Conversion
import Espalier.Proofs.Script.Operation
import Espalier.Script.Interpreter

/-!
# Members that are changed

An update, or an assignment with an operator, reads a member and then writes it. The two are told
apart here (`ReadsMember`, `WritesMember`): each evaluates the object and the key, once, for itself.
So what is written is the member that the object and the key denote when all else has been
evaluated (`changed_members_are_found_anew`). It is the one that was read if both are mere names or
constants, and nothing in between has changed a variable.
-/

namespace Espalier

/-- A name or a constant. -/
def Expr.isPlain : Expr → Bool
  | .ident _ | .this _ | .null _ | .bool _ _ | .number _ _ | .string _ _ => true
  | _ => false

/-- A name, or a name or a constant between brackets. -/
def MemberName.isPlain : MemberName → Bool
  | .ident _ => true
  | .computed e => e.isPlain

/-- The number that an update makes of a number. -/
def UpdateOp.next (op : UpdateOp) (x : Float) : Float :=
  match op with
  | .increment => x + 1
  | .decrement => x - 1

namespace Script

variable {α β : Type} {m m' : Machine} {env : Env}

/-! ### Evaluation, however much fuel it takes -/

/-- An expression is evaluated to a value. -/
def Evaluates (e : Expr) (env : Env) (m : Machine) (v : Value) (m' : Machine) : Prop :=
  ∃ fuel, (Evaluator.ofFuel fuel).eval e env m = .ok v m'

/-- The key of a member is evaluated. -/
def EvaluatesKey (k : MemberName) (env : Env) (m : Machine) (v : Value) (m' : Machine) : Prop :=
  ∃ fuel, (Evaluator.ofFuel fuel).memberKey env k m = .ok v m'

/-- The object and then the key of a member are evaluated, each once. -/
def FindsMember (o : Expr) (k : MemberName) (env : Env) (m : Machine) (object key : Value)
    (m' : Machine) : Prop :=
  ∃ m₁, Evaluates o env m object m₁ ∧ EvaluatesKey k env m₁ key m'

/-- A member is found and read. -/
def ReadsMember (o : Expr) (k : MemberName) (env : Env) (m : Machine) (object key v : Value)
    (m' : Machine) : Prop :=
  ∃ m₁, FindsMember o k env m object key m₁ ∧ getProperty object key m₁ = .ok v m'

/-- A member is found and written. -/
def WritesMember (o : Expr) (k : MemberName) (env : Env) (m : Machine) (object key v : Value)
    (m' : Machine) : Prop :=
  ∃ m₁, FindsMember o k env m object key m₁ ∧ setProperty object key v m₁ = .ok () m'

theorem eval_ofFuel_succ (fuel : Nat) (e : Expr) :
    (Evaluator.ofFuel (fuel + 1)).eval e env = (Evaluator.ofFuel fuel).evalExpr e env := rfl

theorem chain_ofFuel_succ (fuel : Nat) (e : Expr) :
    (Evaluator.ofFuel (fuel + 1)).chain e env = (Evaluator.ofFuel fuel).chainValue e env := rfl

/-- Without fuel nothing is evaluated. -/
theorem exists_succ_of_eval_ok {fuel : Nat} {e : Expr} {v : Value}
    (h : (Evaluator.ofFuel fuel).eval e env m = .ok v m') :
    ∃ fuel', (Evaluator.ofFuel fuel').evalExpr e env m = .ok v m' := by
  cases fuel with
  | zero => cases h
  | succ fuel => exact ⟨fuel, h⟩

/-- A chain ends early only at a link that is optional. -/
theorem ne_none_of_chain {fuel : Nat} {e : Expr} {v? : Option Value}
    (hchain : e.isOptionalChain = false)
    (h : (Evaluator.ofFuel fuel).chain e env m = .ok v? m') : v? ≠ none := by
  rintro rfl
  -- a chain breaks off at an optional link only, and there is none
  induction fuel generalizing e m m' with
  | zero => cases h
  | succ fuel ih =>
    rw [chain_ofFuel_succ] at h
    cases e with
    | member s o k optional =>
      obtain ⟨rfl, ho⟩ := Bool.or_eq_false_iff.mp hchain
      obtain ⟨object?, m₁, hobject, hrest⟩ := exists_of_bind_ok h
      cases object? with
      | none => exact ih ho hobject
      | some object =>
        obtain ⟨key, m₂, -, hproperty⟩ := exists_of_bind_ok hrest
        obtain ⟨v, m₃, -, hreturn⟩ := exists_of_bind_ok hproperty
        cases hreturn
    | call s f args optional =>
      obtain ⟨rfl, hf⟩ := Bool.or_eq_false_iff.mp hchain
      obtain ⟨callee?, m₁, hcallee, hrest⟩ := exists_of_bind_ok h
      cases callee? with
      | some callee =>
        obtain ⟨args, m₂, -, hcall⟩ := exists_of_bind_ok hrest
        obtain ⟨v, m₃, -, hreturn⟩ := exists_of_bind_ok hcall
        cases hreturn
      | none =>
        cases f with
        | member s o k optional =>
          obtain ⟨rfl, ho⟩ := Bool.or_eq_false_iff.mp hf
          obtain ⟨object?, m₂, hobject, hrest⟩ := exists_of_bind_ok hcallee
          cases object? with
          | none => exact ih ho hobject
          | some object =>
            obtain ⟨key, m₃, -, hproperty⟩ := exists_of_bind_ok hrest
            obtain ⟨v, m₄, -, hreturn⟩ := exists_of_bind_ok hproperty
            cases hreturn
        | _ =>
          obtain ⟨f?, m₂, hf?, hreturn⟩ := exists_of_bind_ok hcallee
          cases f? with
          | none => exact ih hf hf?
          | some f => cases hreturn
    | _ =>
      obtain ⟨v, m₁, -, hreturn⟩ := exists_of_bind_ok h
      cases hreturn

/-- Where no link is optional, a chain has the value of the expression. -/
theorem evaluates_of_chain {fuel : Nat} {e : Expr} {v : Value}
    (h : (Evaluator.ofFuel fuel).chain e env m = .ok (some v) m') : Evaluates e env m v m' := by
  cases fuel with
  | zero => cases h
  | succ fuel =>
    rw [chain_ofFuel_succ] at h
    cases e with
    | member | call =>
      refine ⟨fuel + 1, ?_⟩
      rw [eval_ofFuel_succ]
      show ((Evaluator.ofFuel fuel).chainValue _ env >>= fun v? => pure (v?.getD .undefined)) m = _
      rw [bind_eq_of_ok h]
      rfl
    | _ =>
      obtain ⟨w, m₁, heval, hreturn⟩ := exists_of_bind_ok h
      cases hreturn
      exact ⟨fuel, heval⟩

/-- A member without an optional link is read. -/
theorem readsMember_of_eval {fuel : Nat} {s : Span} {o : Expr} {k : MemberName} {optional : Bool}
    {v : Value} (hchain : (Expr.member s o k optional).isOptionalChain = false)
    (h : (Evaluator.ofFuel fuel).eval (.member s o k optional) env m = .ok v m') :
    ∃ object key, ReadsMember o k env m object key v m' := by
  obtain ⟨rfl, ho⟩ := Bool.or_eq_false_iff.mp hchain
  obtain ⟨fuel, h⟩ := exists_succ_of_eval_ok h
  obtain ⟨v?, m₁, hvalue, hreturn⟩ := exists_of_bind_ok h
  obtain ⟨object?, m₂, hobject, hrest⟩ := exists_of_bind_ok hvalue
  cases object? with
  | none => exact absurd rfl (ne_none_of_chain ho hobject)
  | some object =>
    obtain ⟨key, m₃, hkey, hproperty⟩ := exists_of_bind_ok hrest
    obtain ⟨w, m₄, hget, hsome⟩ := exists_of_bind_ok hproperty
    cases hsome
    cases hreturn
    exact ⟨object, key, m₃, ⟨m₂, evaluates_of_chain hobject, fuel, hkey⟩, hget⟩

/-- A value is assigned to a member. -/
theorem writesMember_of_assignTo {fuel : Nat} {s : Span} {o : Expr} {k : MemberName}
    {optional : Bool} {v : Value}
    (h : (Evaluator.ofFuel fuel).assignTo (.member s o k optional) v env m = .ok () m') :
    ∃ object key, WritesMember o k env m object key v m' := by
  obtain ⟨object, m₁, hobject, hrest⟩ := exists_of_bind_ok h
  obtain ⟨key, m₂, hkey, hset⟩ := exists_of_bind_ok hrest
  exact ⟨object, key, m₂, ⟨m₁, ⟨fuel, hobject⟩, fuel, hkey⟩, hset⟩

/-- A member is the target of a pattern. -/
theorem writesMember_of_bind {fuel : Nat} {s : Span} {o : Expr} {k : MemberName}
    {optional : Bool} {v : Value}
    (h : (Evaluator.ofFuel fuel).bind (.target (.member s o k optional)) v env .existing m =
      .ok () m') :
    ∃ object key, WritesMember o k env m object key v m' := by
  cases fuel with
  | zero => cases h
  | succ fuel =>
    change (Evaluator.ofFuel fuel).assignTo (.member s o k optional) v env m = .ok () m' at h
    exact writesMember_of_assignTo h

/-! ### Names and constants -/

/-- What a name stands for depends on the scopes alone. -/
theorem lookup?_of_scopes_eq {m₁ : Machine} (h : m₁.scopes = m.scopes) (name : String)
    (env : Env) : m₁.lookup? name env = m.lookup? name env := by
  induction env with
  | nil => rfl
  | cons s env ih => rw [Machine.lookup?, Machine.lookup?, h, ih]

theorem this_of_scopes_eq {m₁ : Machine} (h : m₁.scopes = m.scopes) (env : Env) :
    m₁.this env = m.this env := by
  induction env with
  | nil => rfl
  | cons s env ih => rw [Machine.this, Machine.this, h, ih]

/-- A variable declared in a scope that is new has the value that it was declared with. -/
theorem lookup?_of_declared {scopes : Array Scope} {name : String} {v : Value} {isMutable : Bool}
    {env : Env} (h : m.scopes = (scopes.push { isFunction := true }).modify scopes.size
      (·.declare name ⟨v, isMutable⟩)) :
    m.lookup? name (⟨scopes.size⟩ :: env) = some v := by
  have hscope : m.scopes[scopes.size]? =
      some (Scope.declare { isFunction := true } name ⟨v, isMutable⟩) := by
    rw [h, Array.getElem?_modify, if_pos rfl, Array.getElem?_push_size]
    rfl
  unfold Machine.lookup?
  rw [hscope]
  simp [Scope.declare, Scope.declareIn, Scope.get?]

/-- Looking up a name changes nothing. -/
theorem lookup_ok {name : String} {v : Value} (h : lookup name env m = .ok v m') :
    m.lookup? name env = some v ∧ m' = m := by
  obtain ⟨m₁, m₂, hget, hrest⟩ := exists_of_bind_ok h
  cases hget
  cases hv : m.lookup? name env with
  | none =>
    rw [hv] at hrest
    cases hrest
  | some w =>
    rw [hv] at hrest
    cases hrest
    exact ⟨rfl, rfl⟩

/-- A name or a constant is evaluated without any effect, and has the same value wherever the
variables have the same values. -/
theorem evaluates_plain {e : Expr} (hplain : e.isPlain = true) {v : Value}
    (h : Evaluates e env m v m') :
    m' = m ∧ ∀ {m₁ m₂ : Machine} {w : Value}, m₁.scopes = m.scopes →
      Evaluates e env m₁ w m₂ → w = v := by
  obtain ⟨fuel, h⟩ := h
  obtain ⟨fuel, h⟩ := exists_succ_of_eval_ok h
  -- a name and `this` depend on the scopes, a literal on nothing
  cases e with
  | ident i =>
    obtain ⟨hv, rfl⟩ := lookup_ok h
    refine ⟨rfl, fun {m₁ m₂ w} hscopes ⟨fuel', h'⟩ => ?_⟩
    obtain ⟨fuel', h'⟩ := exists_succ_of_eval_ok h'
    obtain ⟨hw, -⟩ := lookup_ok h'
    rw [lookup?_of_scopes_eq hscopes, hv] at hw
    exact (Option.some.inj hw).symm
  | this =>
    cases h
    refine ⟨rfl, fun {m₁ m₂ w} hscopes ⟨fuel', h'⟩ => ?_⟩
    obtain ⟨fuel', h'⟩ := exists_succ_of_eval_ok h'
    cases h'
    exact this_of_scopes_eq hscopes env
  | null | bool | number | string =>
    cases h
    refine ⟨rfl, fun {m₁ m₂ w} _ ⟨fuel', h'⟩ => ?_⟩
    obtain ⟨fuel', h'⟩ := exists_succ_of_eval_ok h'
    cases h'
    rfl
  | _ => cases hplain

/-- The same of a key. -/
theorem evaluatesKey_plain {k : MemberName} (hplain : k.isPlain = true) {v : Value}
    (h : EvaluatesKey k env m v m') :
    m' = m ∧ ∀ {m₁ m₂ : Machine} {w : Value}, m₁.scopes = m.scopes →
      EvaluatesKey k env m₁ w m₂ → w = v := by
  cases k with
  | ident i =>
    obtain ⟨fuel, h⟩ := h
    cases h
    refine ⟨rfl, fun {m₁ m₂ w} _ ⟨fuel', h'⟩ => ?_⟩
    cases h'
    rfl
  | computed e => exact evaluates_plain hplain h

/-- A member of a name or a constant by a plain key is found without any effect, and is the same
one wherever the variables have the same values. -/
theorem findsMember_plain {o : Expr} {k : MemberName} (ho : o.isPlain = true)
    (hk : k.isPlain = true) {object key : Value} (h : FindsMember o k env m object key m') :
    m' = m ∧ ∀ {m₁ m₂ : Machine} {object' key' : Value}, m₁.scopes = m.scopes →
      FindsMember o k env m₁ object' key' m₂ → object' = object ∧ key' = key := by
  obtain ⟨m₃, hobject, hkey⟩ := h
  obtain ⟨rfl, hsame⟩ := evaluates_plain ho hobject
  obtain ⟨rfl, hsameKey⟩ := evaluatesKey_plain hk hkey
  refine ⟨rfl, fun {m₁ m₂ object' key'} hscopes ⟨m₄, hobject', hkey'⟩ => ?_⟩
  obtain ⟨rfl, -⟩ := evaluates_plain ho hobject'
  exact ⟨hsame hscopes hobject', hsameKey hscopes hkey'⟩

/-! ### Reading leaves the variables alone -/

/-- Wherever an operation ends, all variables have the values that they had. -/
def KeepsScopes (x : Script α) : Prop := ∀ m, (endOf x m).scopes = m.scopes

namespace KeepsScopes

theorem pure (a : α) : KeepsScopes (pure a) := fun _ => rfl

theorem get : KeepsScopes get := fun _ => rfl

theorem raise (fault : Fault) : KeepsScopes (raise fault : Script α) := fun _ => rfl

/-- Two steps keep the scopes if each does. -/
theorem bind {x : Script α} {f : α → Script β} (hx : KeepsScopes x)
    (hf : ∀ a, KeepsScopes (f a)) : KeepsScopes (x >>= f) := by
  intro m
  have hm := hx m
  cases hr : x m with
  | ok a m₁ =>
    rw [endOf_of_ok hr] at hm
    rw [endOf_congr (bind_eq_of_ok hr f), hf a m₁, hm]
  | error e m₁ =>
    rw [endOf_of_error hr] at hm
    rw [endOf_of_error (bind_eq_error hr f), hm]

theorem orRaise (fault : Fault) (a? : Option α) : KeepsScopes (orRaise fault a?) := by
  cases a? with
  | none => exact raise fault
  | some a => exact pure a

theorem toText (v : Value) : KeepsScopes (toText v) := by
  intro m
  cases hr : Script.toText v m with
  | ok s m₁ =>
    rw [endOf_of_ok hr]
    rw [Script.toText, toTextLocking_eq] at hr
    split at hr <;> cases hr
    rfl
  | error e m₁ =>
    rw [endOf_of_error hr]
    rw [Script.toText, toTextLocking_eq] at hr
    split at hr <;> cases hr
    rfl

theorem newArray (items : Array Value) : KeepsScopes (newArray items) := fun _ => rfl

theorem newMethod (method : Method) : KeepsScopes (newMethod method) := fun _ => rfl

theorem methodOr (method : Option Method) : KeepsScopes (methodOr method) := by
  cases method with
  | none => exact pure _
  | some method => exact newMethod method

theorem objectProperty (o : ObjectId) (name : String) : KeepsScopes (objectProperty o name) := by
  refine get.bind fun m => ?_
  dsimp only
  split
  · exact pure _
  · exact methodOr _
  · exact pure _

theorem nodeProperty (steps : List Step) (key : String) :
    KeepsScopes (nodeProperty steps key) := by
  refine bind (get.bind fun m => orRaise _ _) fun node => ?_
  split
  · exact pure _
  · exact pure _
  · exact pure _
  · split
    · exact pure _
    · exact newArray _
    · exact pure _
    · exact pure _
    · exact pure _
    · exact pure _

theorem pathProperty (id : PathId) (key : String) : KeepsScopes (pathProperty id key) := by
  refine get.bind fun m => ?_
  dsimp only
  split
  · exact pure _
  · exact pure _
  · exact pure _
  · split <;> exact pure _
  · split <;> exact pure _
  · exact pure _
  · exact pure _
  · exact get.bind fun _ => pure _
  · split
    · exact newMethod _
    · split
      · exact newMethod _
      · exact pure _

/-- Reading a property opens no scope and declares nothing. -/
theorem getProperty (v key : Value) : KeepsScopes (getProperty v key) := by
  unfold Script.getProperty
  cases v with
  | undefined | null => exact (toText key).bind fun _ => raise _
  | bool => exact (toText key).bind fun _ => pure _
  | number => exact (toText key).bind fun _ => methodOr _
  | object o => exact (toText key).bind fun _ => objectProperty o _
  | native f => exact (toText key).bind fun _ => pure _
  | node steps => exact (toText key).bind fun _ => nodeProperty steps _
  | path id => exact (toText key).bind fun _ => pathProperty id _
  | string s =>
    dsimp only
    split
    · exact pure _
    · refine (toText key).bind fun _ => ?_
      split
      · exact pure _
      · exact methodOr _
  | array a =>
    dsimp only
    split
    · exact get.bind fun _ => pure _
    · refine (toText key).bind fun _ => ?_
      split
      · exact get.bind fun _ => pure _
      · exact methodOr _
  | function f =>
    refine (toText key).bind fun name => ?_
    split <;> exact pure _
  | regex r =>
    refine (toText key).bind fun name => ?_
    split
    · exact pure _
    · exact pure _
    · exact pure _
    · exact bind (get.bind fun _ => pure _) fun _ => pure _
    · exact methodOr _

end KeepsScopes

/-- A member that is read and found again while the variables have the values that they had. -/
theorem ReadsMember.found_again {o : Expr} {k : MemberName} {object key v : Value}
    (h : ReadsMember o k env m object key v m') (ho : o.isPlain = true) (hk : k.isPlain = true) :
    m'.scopes = m.scopes ∧ ∀ {m₁ m₂ : Machine} {object' key' w : Value}, m₁.scopes = m.scopes →
      WritesMember o k env m₁ object' key' w m₂ → object' = object ∧ key' = key := by
  obtain ⟨m₃, hfind, hget⟩ := h
  obtain ⟨rfl, hsame⟩ := findsMember_plain ho hk hfind
  refine ⟨?_, fun hscopes ⟨m₄, hfind', _⟩ => hsame hscopes hfind'⟩
  rw [← KeepsScopes.getProperty object key m₃, endOf_of_ok hget]

/-! ### Updates and assignments -/

/-- A member is read, and then written with the number next to its own. -/
theorem update_member {s t : Span} {op : UpdateOp} {isPrefix optional : Bool} {o : Expr}
    {k : MemberName} {v : Value}
    (hchain : (Expr.member t o k optional).isOptionalChain = false)
    (h : Evaluates (.update s op isPrefix (.member t o k optional)) env m v m') :
    ∃ object key old m₁ x object' key',
      ReadsMember o k env m object key old m₁ ∧ m₁.number? old = some x ∧
      WritesMember o k env m₁ object' key' (.number (op.next x)) m' ∧
      v = .number (if isPrefix then op.next x else x) := by
  obtain ⟨fuel, h⟩ := h
  obtain ⟨fuel, h⟩ := exists_succ_of_eval_ok h
  obtain ⟨old, m₁, hread, hrest⟩ := exists_of_bind_ok h
  obtain ⟨object, key, hread⟩ := readsMember_of_eval hchain hread
  obtain ⟨x, m₂, hnumber, hwrite⟩ := exists_of_bind_ok hrest
  -- the value read is made a number before the target is evaluated again
  rw [toNumber_eq] at hnumber
  split at hnumber
  · next y hy =>
    cases hnumber
    obtain ⟨_, m₃, hassign, hreturn⟩ := exists_of_bind_ok hwrite
    obtain ⟨object', key', hwrite⟩ := writesMember_of_assignTo hassign
    cases hreturn
    exact ⟨object, key, old, m₁, x, object', key', hread, hy, hwrite, rfl⟩
  · cases hnumber

/-- A member is read, the right side is evaluated, and the member is written with what the operator
makes of the two. -/
theorem compound_member {s t : Span} {op : BinaryOp} {optional : Bool} {o right : Expr}
    {k : MemberName} {v : Value}
    (hchain : (Expr.member t o k optional).isOptionalChain = false)
    (h : Evaluates (.assign s (.compound (.binary op)) (.target (.member t o k optional)) right)
      env m v m') :
    ∃ object key current m₁ w m₂ m₃ object' key',
      ReadsMember o k env m object key current m₁ ∧ Evaluates right env m₁ w m₂ ∧
      binary op hasProperty current w m₂ = .ok v m₃ ∧
      WritesMember o k env m₃ object' key' v m' := by
  obtain ⟨fuel, h⟩ := h
  obtain ⟨fuel, h⟩ := exists_succ_of_eval_ok h
  obtain ⟨current, m₁, hread, hrest⟩ := exists_of_bind_ok h
  obtain ⟨object, key, hread⟩ := readsMember_of_eval hchain hread
  obtain ⟨w, m₂, hright, hrest⟩ := exists_of_bind_ok hrest
  obtain ⟨u, m₃, hbinary, hrest⟩ := exists_of_bind_ok hrest
  obtain ⟨_, m₄, hbind, hreturn⟩ := exists_of_bind_ok hrest
  obtain ⟨object', key', hwrite⟩ := writesMember_of_bind hbind
  cases hreturn
  exact ⟨object, key, current, m₁, w, m₂, m₃, object', key', hread, ⟨fuel, hright⟩, hbinary,
    hwrite⟩

/-- A member is read. If that settles the result nothing is written, and otherwise the right side is
evaluated and the member is written with it. -/
theorem logical_member {s t : Span} {op : LogicalOp} {optional : Bool} {o right : Expr}
    {k : MemberName} {v : Value}
    (hchain : (Expr.member t o k optional).isOptionalChain = false)
    (h : Evaluates (.assign s (.compound (.logical op)) (.target (.member t o k optional)) right)
      env m v m') :
    ∃ object key current m₁, ReadsMember o k env m object key current m₁ ∧
      ((Evaluator.settles op current = true ∧ v = current ∧ m' = m₁) ∨
        (Evaluator.settles op current = false ∧ ∃ m₂ object' key',
          Evaluates right env m₁ v m₂ ∧ WritesMember o k env m₂ object' key' v m')) := by
  obtain ⟨fuel, h⟩ := h
  obtain ⟨fuel, h⟩ := exists_succ_of_eval_ok h
  obtain ⟨current, m₁, hread, hrest⟩ := exists_of_bind_ok h
  obtain ⟨object, key, hread⟩ := readsMember_of_eval hchain hread
  refine ⟨object, key, current, m₁, hread, ?_⟩
  -- a value that settles the operator is the result, and nothing is written
  cases hsettles : Evaluator.settles op current with
  | true =>
    rw [hsettles] at hrest
    cases hrest
    exact .inl ⟨rfl, rfl, rfl⟩
  | false =>
    rw [hsettles] at hrest
    obtain ⟨w, m₂, hright, hrest⟩ := exists_of_bind_ok hrest
    obtain ⟨_, m₃, hbind, hreturn⟩ := exists_of_bind_ok hrest
    obtain ⟨object', key', hwrite⟩ := writesMember_of_bind hbind
    cases hreturn
    exact .inr ⟨rfl, m₂, object', key', ⟨fuel, hright⟩, hwrite⟩

/-- **A member that is changed is found twice.** An update and an assignment with an operator read
the member first, which evaluates the object and the key once, and find it again to write it, which
evaluates them once more, after the right side. A logical assignment that is settled by what it
reads writes nothing. If the object is a name or a constant, and so is the key, the member that is
written is the one that was read, unless what was evaluated in between has changed a variable. -/
theorem changed_members_are_found_anew {s t : Span} {optional : Bool} {o : Expr} {k : MemberName}
    (hchain : (Expr.member t o k optional).isOptionalChain = false) :
    (∀ op isPrefix v, Evaluates (.update s op isPrefix (.member t o k optional)) env m v m' →
      ∃ object key old m₁ x object' key',
        ReadsMember o k env m object key old m₁ ∧ m₁.number? old = some x ∧
        WritesMember o k env m₁ object' key' (.number (op.next x)) m' ∧
        v = .number (if isPrefix then op.next x else x) ∧
        (o.isPlain = true → k.isPlain = true → object' = object ∧ key' = key)) ∧
    (∀ op right v,
      Evaluates (.assign s (.compound (.binary op)) (.target (.member t o k optional)) right)
        env m v m' →
      ∃ object key current m₁ w m₂ m₃ object' key',
        ReadsMember o k env m object key current m₁ ∧ Evaluates right env m₁ w m₂ ∧
        binary op hasProperty current w m₂ = .ok v m₃ ∧
        WritesMember o k env m₃ object' key' v m' ∧
        (o.isPlain = true → k.isPlain = true → m₃.scopes = m.scopes →
          object' = object ∧ key' = key)) ∧
    ∀ op right v,
      Evaluates (.assign s (.compound (.logical op)) (.target (.member t o k optional)) right)
        env m v m' →
      ∃ object key current m₁, ReadsMember o k env m object key current m₁ ∧
        ((Evaluator.settles op current = true ∧ v = current ∧ m' = m₁) ∨
          (Evaluator.settles op current = false ∧ ∃ m₂ object' key',
            Evaluates right env m₁ v m₂ ∧ WritesMember o k env m₂ object' key' v m' ∧
            (o.isPlain = true → k.isPlain = true → m₂.scopes = m.scopes →
              object' = object ∧ key' = key))) := by
  refine ⟨fun op isPrefix v h => ?_, fun op right v h => ?_, fun op right v h => ?_⟩
  · obtain ⟨object, key, old, m₁, x, object', key', hread, hx, hwrite, hv⟩ :=
      update_member hchain h
    refine ⟨object, key, old, m₁, x, object', key', hread, hx, hwrite, hv, fun ho hk => ?_⟩
    obtain ⟨hscopes, hagain⟩ := hread.found_again ho hk
    -- nothing runs between the reading and the writing, so the scopes are the same
    exact hagain hscopes hwrite
  · obtain ⟨object, key, current, m₁, w, m₂, m₃, object', key', hread, hright, hbinary, hwrite⟩ :=
      compound_member hchain h
    refine ⟨object, key, current, m₁, w, m₂, m₃, object', key', hread, hright, hbinary, hwrite,
      fun ho hk hscopes => ?_⟩
    exact (hread.found_again ho hk).2 hscopes hwrite
  · obtain ⟨object, key, current, m₁, hread, hsettled | hopen⟩ := logical_member hchain h
    · exact ⟨object, key, current, m₁, hread, .inl hsettled⟩
    · obtain ⟨hsettles, m₂, object', key', hright, hwrite⟩ := hopen
      refine ⟨object, key, current, m₁, hread,
        .inr ⟨hsettles, m₂, object', key', hright, hwrite, fun ho hk hscopes => ?_⟩⟩
      exact (hread.found_again ho hk).2 hscopes hwrite

/-- An item of an array at a place that a variable tells: counted up, it is found twice, at the same
place; lowered by a number, or given one if there is none, it is found again after that. -/
theorem changed_members_are_found_anew_of_item :
    let a : Expr := .ident ⟨"a", ⟨0, 1⟩⟩
    let i : MemberName := .computed (.ident ⟨"i", ⟨2, 3⟩⟩)
    let item : Expr := .member ⟨0, 4⟩ a i false
    let one : Expr := .number ⟨8, 9⟩ 1
    let env : Env := [⟨0⟩]
    let m : Machine :=
      { budget := {}, arrays := #[#[.number 1, .number 2]]
        scopes := #[{ bindings := [("a", ⟨.array ⟨0⟩, false⟩), ("i", ⟨.number 1, true⟩)]
                      isFunction := true }] }
    item.isOptionalChain = false ∧
    (∃ v m', Evaluates (.update ⟨0, 6⟩ .increment false item) env m v m' ∧
      ∃ object key old m₁ x, ReadsMember a i env m object key old m₁ ∧
        WritesMember a i env m₁ object key (.number (UpdateOp.increment.next x)) m') ∧
    (∃ v m', Evaluates (.assign ⟨0, 9⟩ (.compound (.binary .sub)) (.target item) one) env m v m' ∧
      ∃ m₁ w m₂ m₃ object key, Evaluates one env m₁ w m₂ ∧
        WritesMember a i env m₃ object key v m') ∧
    ∃ v m', Evaluates (.assign ⟨0, 9⟩ (.compound (.logical .coalesce)) (.target item) one)
        env m v m' ∧
      ∃ object key current m₁, ReadsMember a i env m object key current m₁ ∧
        (m' = m₁ ∨ ∃ m₂ object' key', WritesMember a i env m₂ object' key' v m') := by
  intro a i item one env m
  have hchain : item.isOptionalChain = false := rfl
  have hupdate : ∃ v m', Evaluates (.update ⟨0, 6⟩ .increment false item) env m v m' :=
    ⟨_, _, 5, rfl⟩
  have hcompound : ∃ v m', Evaluates (.assign ⟨0, 9⟩ (.compound (.binary .sub)) (.target item) one)
      env m v m' := ⟨_, _, 5, rfl⟩
  have hlogical : ∃ v m', Evaluates
      (.assign ⟨0, 9⟩ (.compound (.logical .coalesce)) (.target item) one) env m v m' :=
    ⟨_, _, 5, rfl⟩
  obtain ⟨v, m₁, hupdate⟩ := hupdate
  obtain ⟨w, m₂, hcompound⟩ := hcompound
  obtain ⟨u, m₃, hlogical⟩ := hlogical
  refine ⟨hchain, ⟨v, m₁, hupdate, ?_⟩, ⟨w, m₂, hcompound, ?_⟩, u, m₃, hlogical, ?_⟩
  · obtain ⟨object, key, old, m₄, x, object', key', hread, -, hwrite, -, hsame⟩ :=
      (changed_members_are_found_anew hchain).1 _ _ _ hupdate
    -- both are names, which are found the same twice
    obtain ⟨rfl, rfl⟩ := hsame rfl rfl
    exact ⟨object', key', old, m₄, x, hread, hwrite⟩
  · obtain ⟨_, _, _, m₄, u, m₅, m₆, object, key, -, hright, -, hwrite, -⟩ :=
      (changed_members_are_found_anew hchain).2.1 _ _ _ hcompound
    exact ⟨m₄, u, m₅, m₆, object, key, hright, hwrite⟩
  · obtain ⟨object, key, current, m₄, hread, hsettled | hopen⟩ :=
      (changed_members_are_found_anew hchain).2.2 _ _ _ hlogical
    · exact ⟨object, key, current, m₄, hread, .inl hsettled.2.2⟩
    · obtain ⟨-, m₅, object', key', -, hwrite, -⟩ := hopen
      exact ⟨object, key, current, m₄, hread, .inr ⟨m₅, object', key', hwrite⟩⟩

end Script

end Espalier
