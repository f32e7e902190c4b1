import Espalier.Proofs.Script.Operation

/-!
# Loops round by round

The five loops of the script differ in what they do around their bodies, and all of them are read
here in one way. A loop starts (`startLoop`), which gives what is left of it in front of its first
round (`LoopRest`). In front of a round it either ends or opens the scope of the body (`enter`);
then the body is carried out, and if its end does not end the loop, what stands behind the body
follows (`next`), after which the loop stands in front of another round. `execLoop_eq` says that
this is how loops are carried out, and `run_of_comes` that rounds that let a loop go on lead to what
is left of it.
-/

namespace Espalier.Script

open EStateM (Result)

/-- What is left of a loop in front of one of its rounds. -/
inductive LoopRest
  /-- A loop with a test and an update, whose rounds have variables of their own or not. -/
  | counting (ownVariables : Bool) (test update : Option Expr) (body : Stmt) (env : Env)
      (room : Nat)
  /-- A loop over some values. -/
  | each (head : ForHead) (body : Stmt) (env : Env) (values : List Value)
  | testingFirst (test : Expr) (body : Stmt) (env : Env) (room : Nat)
  | testingLast (body : Stmt) (test : Expr) (env : Env) (room : Nat)

namespace LoopRest

/-- The body of the loop. -/
def body : LoopRest → Stmt
  | counting _ _ _ body _ _ | each _ body _ _ | testingFirst _ body _ _
  | testingLast body _ _ _ => body

/-- How many rounds there may be. -/
def size : LoopRest → Nat
  | counting _ _ _ _ _ room | testingFirst _ _ _ room | testingLast _ _ _ room => room
  | each _ _ _ values => values.length

end LoopRest

namespace Evaluator

variable (self : Evaluator)

/-- Starts a round of a loop: the scope of its body, unless the loop ends here. -/
def enter : LoopRest → Script (Option Env)
  | .counting _ _ _ _ _ 0 | .testingFirst _ _ _ 0 | .testingLast _ _ _ 0 => giveUp .aborted
  | .counting _ test _ _ env (_ + 1) => do
    tick
    return if ← self.holds test env then some env else .none
  | .each _ _ _ [] => return .none
  | .each head _ env (v :: _) => do
    tick
    let inner ← newBlock env
    match head with
    | .decl decl =>
      (decl.declarations.take 1).forM fun d => self.bind d.id v inner (.ofKind decl.kind)
    | .pattern p => self.bind p v inner .existing
    return some inner
  | .testingFirst test _ env (_ + 1) => do
    tick
    return if ← self.holds (some test) env then some env else .none
  | .testingLast _ _ env (_ + 1) => do
    tick
    return some env

/-- What follows the body of a loop that goes on: the rest of the loop, unless it ends here. -/
def next : LoopRest → Script (Option LoopRest)
  | .counting ownVariables test update body env room => do
    let env ← if ownVariables then forkScope env else pure env
    update.forM fun e => do let _ ← self.eval e env
    return some (.counting ownVariables test update body env (room - 1))
  | .each head body env values => return some (.each head body env values.tail)
  | .testingFirst test body env room => return some (.testingFirst test body env (room - 1))
  | .testingLast body test env room =>
    return if ← self.holds (some test) env then some (.testingLast body test env (room - 1))
      else .none

/-- Carries out what is left of a loop. -/
def run (label : Option String) : LoopRest → Script Completion
  | .counting ownVariables test update body env room =>
    rounds (fun env => do
      if !(← self.holds test env) then return .inr .normal
      match (← self.exec body env).leaving? label with
      | some c => return .inr c
      | .none =>
        let env ← if ownVariables then forkScope env else pure env
        update.forM fun e => do let _ ← self.eval e env
        return .inl env) room env
  | .each head body env values => self.forEach head body env label values
  | .testingFirst test body env room =>
    rounds (fun () => do
      if !(← self.holds (some test) env) then return .inr .normal
      match (← self.exec body env).leaving? label with
      | some c => return .inr c
      | .none => return .inl ()) room ()
  | .testingLast body test env room =>
    rounds (fun () => do
      match (← self.exec body env).leaving? label with
      | some c => return .inr c
      | .none => return if ← self.holds (some test) env then .inl () else .inr .normal) room ()

/-- What is left of a loop that goes on behind its body. -/
def goOn (label : Option String) (rest : LoopRest) : Script Completion := do
  match ← self.next rest with
  | some rest => self.run label rest
  | .none => return .normal

/-- What is left of a loop behind its body, which has ended in some way. -/
def conclude (label : Option String) (rest : LoopRest) (c : Completion) : Script Completion :=
  match c.leaving? label with
  | some c => return c
  | .none => self.goOn label rest

/-- What is left of a loop is its next round and what follows. -/
theorem run_eq (label : Option String) (rest : LoopRest) :
    self.run label rest = do
      match ← self.enter rest with
      | some env => self.conclude label rest (← self.exec rest.body env)
      | .none => return .normal := by
  cases rest with
  | counting ownVariables test update body env room =>
    cases room with
    | zero => rfl
    | succ room =>
      simp only [run, rounds, enter, bind_assoc, pure_bind]
      refine bind_congr fun _ => bind_congr fun holds => ?_
      cases holds with
      | false => rfl
      | true =>
        simp only [Bool.not_true, Bool.false_eq_true, if_false, if_true, bind_assoc]
        -- the round ends the loop, or it leads on to the next one
        refine bind_congr fun c => ?_
        unfold conclude goOn next
        cases c.leaving? label with
        | some c => rfl
        | none =>
          cases ownVariables with
          | false => simp [run]
          | true => simp [run]
  | each head body env values =>
    cases values with
    | nil => rfl
    | cons v vs =>
      simp only [run, forEach, enter, bind_assoc]
      refine bind_congr fun _ => bind_congr fun inner => ?_
      cases head with
      | decl decl =>
        simp only [bind_assoc, pure_bind]
        rfl
      | pattern p =>
        simp only [bind_assoc, pure_bind]
        rfl
  | testingFirst test body env room =>
    cases room with
    | zero => rfl
    | succ room =>
      simp only [run, rounds, enter, bind_assoc, pure_bind]
      refine bind_congr fun _ => bind_congr fun holds => ?_
      cases holds with
      | false => rfl
      | true =>
        simp only [Bool.not_true, Bool.false_eq_true, if_false, if_true, bind_assoc]
        refine bind_congr fun c => ?_
        unfold conclude goOn next
        cases c.leaving? label with
        | some c => rfl
        | none => rfl
  | testingLast body test env room =>
    cases room with
    | zero => rfl
    | succ room =>
      simp only [run, rounds, enter, bind_assoc, pure_bind]
      refine bind_congr fun _ => bind_congr fun c => ?_
      unfold conclude goOn next
      cases c.leaving? label with
      | some c => rfl
      | none =>
        simp only [bind_assoc, pure_bind]
        refine bind_congr fun holds => ?_
        cases holds <;> rfl

/-- The number of rounds that a run has steps for. -/
def roundsLeft : Script Nat := do
  let m ← get
  return m.budget.maxSteps - m.steps + 1

/-- Starts a loop: all of it is left, in front of its first round. -/
def startLoop (loop : Stmt) (env : Env) : Script LoopRest := do
  match loop with
  | .forLoop _ init test update body =>
    let env ← newBlock env
    let (ownVariables : Bool) ←
      match init with
      | some (.decl decl) => do
        self.declareAll decl env
        pure (decl.kind != .varKind)
      | some (.expr e) => do
        let _ ← self.eval e env
        pure false
      | .none => pure false
    return .counting ownVariables test update body env (← roundsLeft)
  | .forIn _ head right body =>
    let keys ← ownKeys (← self.eval right env)
    return .each head body env (keys.map .string)
  | .forOf _ head right body isAwait =>
    if isAwait then raise (.unsupported "for await loops")
    let items ← iterate (← self.eval right env)
    return .each head body env items.toList
  | .whileLoop _ test body => return .testingFirst test body env (← roundsLeft)
  | .doWhile _ body test => return .testingLast body test env (← roundsLeft)
  | _ => giveUp .aborted

/-- A loop is carried out round by round. -/
theorem execLoop_eq {loop : Stmt} (h : isLoop loop = true) (env : Env) (label : Option String) :
    self.execLoop loop env label = self.startLoop loop env >>= self.run label := by
  -- both sides take the same steps, grouped in another way
  cases loop with
  | forLoop span init test update body =>
    simp only [execLoop, startLoop, bind_assoc]
    refine bind_congr fun env => ?_
    cases init with
    | none => rfl
    | some init =>
      cases init with
      | decl decl =>
        simp only [roundsLeft, bind_assoc, pure_bind]
        rfl
      | expr e =>
        simp only [roundsLeft, bind_assoc, pure_bind]
        rfl
  | forIn span head right body =>
    simp only [execLoop, startLoop, bind_assoc, pure_bind]
    rfl
  | forOf span head right body isAwait =>
    cases isAwait with
    | false =>
      simp only [execLoop, startLoop, Bool.false_eq_true, if_false, bind_assoc, pure_bind]
      rfl
    | true => rfl
  | whileLoop span test body => rfl
  | doWhile span body test => rfl
  | _ => cases h

/-! ### From round to round -/

variable {label : Option String} {m m' : Machine}

/-- What is left of a loop comes, after some rounds whose bodies let it go on, to stand in front of
another round. -/
inductive Comes (label : Option String) : LoopRest → Machine → LoopRest → Machine → Prop
  | refl (rest : LoopRest) (m : Machine) : Comes label rest m rest m
  | round {rest later last : LoopRest} {inner : Env} {c : Completion} {m m₁ m₂ m₃ m' : Machine}
    (hopens : self.enter rest m = .ok (some inner) m₁)
    (hbody : self.exec rest.body inner m₁ = .ok c m₂) (hstays : c.leaving? label = .none)
    (hnext : self.next rest m₂ = .ok (some later) m₃) (hlater : Comes label later m₃ last m') :
    Comes label rest m last m'

variable {self} {rest last : LoopRest} {inner : Env} {c : Completion}

/-- A round in which the body has ended in some way. -/
theorem run_of_body (hopens : self.enter rest m = .ok (some inner) m₁)
    (hbody : self.exec rest.body inner m₁ = .ok c m₂) :
    self.run label rest m = self.conclude label rest c m₂ := by
  rw [run_eq, bind_eq_of_ok hopens]
  exact bind_eq_of_ok hbody _

/-- A jump that does not leave the loop goes on with it. -/
theorem conclude_of_stays (h : c.leaving? label = .none) :
    self.conclude label rest c = self.goOn label rest := by
  unfold conclude
  rw [h]

/-- A jump that leaves the loop is its end. -/
theorem conclude_of_leaves {d : Completion} (h : c.leaving? label = some d) :
    self.conclude label rest c = pure d := by
  unfold conclude
  rw [h]

/-- Rounds whose bodies let the loop go on lead to what is left of it. -/
theorem run_of_comes (h : self.Comes label rest m last m') :
    self.run label rest m = self.run label last m' := by
  induction h with
  | refl rest m => rfl
  | round hopens hbody hstays hnext hlater ih =>
    rw [run_of_body hopens hbody, conclude_of_stays hstays, goOn, bind_eq_of_ok hnext]
    exact ih

/-- A loop that is entered has a round left. -/
theorem size_of_enter (h : self.enter rest m = .ok (some inner) m₁) : 0 < rest.size := by
  rw [Nat.pos_iff_ne_zero]
  intro hsize
  cases rest with
  | counting ownVariables test update body env room =>
    subst hsize
    cases h
  | each head body env values =>
    obtain rfl := List.length_eq_zero_iff.mp hsize
    cases h
  | testingFirst test body env room =>
    subst hsize
    cases h
  | testingLast body test env room =>
    subst hsize
    cases h

/-- Every round takes one from the rounds that are left. -/
theorem size_of_next (h : self.next rest m = .ok (some last) m') : last.size = rest.size - 1 := by
  cases rest with
  | counting ownVariables test update body env room =>
    -- a fresh copy of the variables or the old ones, one round less in either case
    cases ownVariables
    all_goals
      obtain ⟨scope, m₁, -, h⟩ := exists_of_bind_ok h
      obtain ⟨-, m₂, -, h⟩ := exists_of_bind_ok h
      cases h
      rfl
  | each head body env values =>
    cases h
    exact List.length_tail
  | testingFirst test body env room =>
    cases h
    rfl
  | testingLast body test env room =>
    obtain ⟨holds, m₁, -, h⟩ := exists_of_bind_ok h
    cases holds with
    | false => cases h
    | true =>
      cases h
      rfl

/-- A loop that ends otherwise than by reaching its end has come to a round whose body says so. -/
theorem comes_of_run (h : self.run label rest m = .ok c m') (hc : c ≠ .normal) :
    ∃ last inner d m₁ m₂, self.Comes label rest m last m₁ ∧
      self.enter last m₁ = .ok (some inner) m₂ ∧ self.exec last.body inner m₂ = .ok d m' ∧
      d.leaving? label = some c := by
  -- The induction is on the number of rounds that may follow.
  induction hsize : rest.size using Nat.strongRecOn generalizing rest m with
  | _ size ih =>
    rw [run_eq] at h
    obtain ⟨opened, m₁, hopens, h⟩ := exists_of_bind_ok h
    cases opened with
    | none =>
      cases h
      exact absurd rfl hc
    | some inner =>
      obtain ⟨d, m₂, hbody, h⟩ := exists_of_bind_ok h
      cases hd : d.leaving? label with
      | some e =>
        rw [conclude_of_leaves hd] at h
        cases h
        exact ⟨rest, inner, d, m, m₁, .refl rest m, hopens, hbody, hd⟩
      | none =>
        rw [conclude_of_stays hd] at h
        obtain ⟨later?, m₃, hnext, h⟩ := exists_of_bind_ok h
        cases later? with
        | none =>
          cases h
          exact absurd rfl hc
        | some later =>
          have hlt : later.size < size := by
            have hpos := size_of_enter hopens
            have hone := size_of_next hnext
            omega
          obtain ⟨last, inner', e, m₄, m₅, hcomes, hend⟩ := ih later.size hlt h rfl
          exact ⟨last, inner', e, m₄, m₅, .round hopens hbody hd hnext hcomes, hend⟩

/-! ### The rounds of a loop -/

variable (self) in
/-- Carrying out a loop comes to a round: the scope of the body is open, and `rest` is what was left
of the loop in front of the round. -/
def Opens (loop : Stmt) (env : Env) (label : Option String) (m : Machine) (rest : LoopRest)
    (inner : Env) (m' : Machine) : Prop :=
  ∃ start m₁ m₂, self.startLoop loop env m = .ok start m₁ ∧ self.Comes label start m₁ rest m₂ ∧
    self.enter rest m₂ = .ok (some inner) m'

variable {loop : Stmt} {env : Env}

/-- What becomes of a loop when the body of a round has ended in some way. -/
theorem execLoop_of_opens (hloop : isLoop loop = true)
    (hopens : self.Opens loop env label m rest inner m₁)
    (hbody : self.exec rest.body inner m₁ = .ok c m₂) :
    self.execLoop loop env label m = self.conclude label rest c m₂ := by
  obtain ⟨start, m₃, m₄, hstart, hcomes, henter⟩ := hopens
  rw [execLoop_eq self hloop, bind_eq_of_ok hstart, run_of_comes hcomes]
  exact run_of_body henter hbody

/-- A loop that ends otherwise than by reaching its end has come to a round whose body says so. -/
theorem opens_of_execLoop (hloop : isLoop loop = true)
    (h : self.execLoop loop env label m = .ok c m') (hc : c ≠ .normal) :
    ∃ rest inner d m₁, self.Opens loop env label m rest inner m₁ ∧
      self.exec rest.body inner m₁ = .ok d m' ∧ d.leaving? label = some c := by
  rw [execLoop_eq self hloop] at h
  obtain ⟨start, m₁, hstart, h⟩ := exists_of_bind_ok h
  obtain ⟨rest, inner, d, m₂, m₃, hcomes, henter, hbody, hd⟩ := comes_of_run h hc
  exact ⟨rest, inner, d, m₃, ⟨start, m₁, m₂, hstart, hcomes, henter⟩, hbody, hd⟩

end Evaluator

end Espalier.Script
