import Espalier.Proofs.Script.Loop
import Espalier.Script.Interpreter

/-!
# Jumps and the loops that they are about

Where a statement ends with a jump, it has come to a statement `break` or `continue` inside it, and
nothing that stands in between has taken the jump: no loop or switch that it is about, no label, and
nothing that is done at last. `Jumps` says so form by form, and `exec_eq_ok_iff_jumps` that it is
the case exactly if the statement ends with that jump. So neither is a jump lost on its way out nor
does one come from anywhere else.

**Main result**: `jumps_to_labels`, about a loop with several labels. A `break` to any of them ends
exactly this loop. A `continue` to the innermost label goes on with the loop as if its body had
reached its end. The other labels are not handed to the loop: a `continue` to one of them ends the
loop, and is left for the statements around it.
-/

namespace Espalier.Script

open EStateM (Result)

/-- An end that is a jump to a place around the statement. -/
def Completion.isJump : Completion → Bool
  | .broken _ | .continued _ => true
  | .normal | .returned _ => false

/-- An end behind a label, which takes the breaks to it. -/
def Completion.unlabel (label : String) : Completion → Completion
  | .broken (some l) => if l == label then .normal else .broken (some l)
  | c => c

/-- What carrying out a statement in a scope may lead to, from one machine to another. -/
abbrev Way := Stmt → Env → Machine → Machine → Prop

namespace Evaluator

variable (self : Evaluator) (way : Way)

/-- Of some statements, those before one of them reach their ends, and that one goes the way. -/
def InList (env : Env) (stmts : List Stmt) (m m' : Machine) : Prop :=
  ∃ before s after m₁, stmts = before ++ s :: after ∧ self.execList env before m = .ok .normal m₁ ∧
    way s env m₁ m'

/-- The same for the statements of a body, whose functions are made first. -/
def InBody (stmts : List Stmt) (env : Env) (m m' : Machine) : Prop :=
  ∃ m₁, hoist stmts env m = .ok () m₁ ∧ self.InList way env stmts m₁ m'

/-- A way through the statements of a block, in a scope of their own. -/
def InBlock (b : Block) (env : Env) (m m' : Machine) : Prop :=
  ∃ inner m₁, newBlock env m = .ok inner m₁ ∧ self.InBody way b.body inner m₁ m'

/-- The same for the cases of a switch that apply. -/
def InSwitch (v : Value) (cases : List SwitchCase) (env : Env) (m m' : Machine) : Prop :=
  ∃ m₁ chosen m₂, (cases.forM fun c => hoist c.consequent env) m = .ok () m₁ ∧
    self.casesFrom? v env cases m₁ = .ok chosen m₂ ∧
    self.InList way env ((chosen.getD (cases.dropWhile (·.test.isSome))).flatMap (·.consequent))
      m₂ m'

/-- The body of a round of a loop goes the way, and its end `c` is left by the loop as it is. -/
def InLoop (c : Completion) (loop : Stmt) (env : Env) (label : Option String) (m m' : Machine) :
    Prop :=
  ∃ rest inner m₁, self.Opens loop env label m rest inner m₁ ∧ way rest.body inner m₁ m' ∧
    c.leaving? label = some c

/-- The scope of a handler, with the failure bound to its parameter. -/
def openHandler (handler : CatchClause) (failure : Failure) (env : Env) : Script Env := do
  let env ← newBlock env
  match handler.param with
  | some p => self.bind p (← caughtValue failure) env .blockVariable
  | .none => pure ()
  return env

/-- A block with its handler. -/
def guarded (block : Block) (handler : Option CatchClause) (env : Env) : Script Completion :=
  match handler with
  | some handler => catching (self.execBlock block env) (self.handle handler · env)
  | .none => self.execBlock block env

/-- The block of a statement goes the way, or it fails and its handler does. -/
def InGuarded (block : Block) (handler : Option CatchClause) (env : Env) (m m' : Machine) : Prop :=
  self.InBlock way block env m m' ∨
    ∃ clause e m₁ inner m₂, handler = some clause ∧ self.execBlock block env m = .error e m₁ ∧
      e.isCatchable = true ∧ self.openHandler clause e env m₁ = .ok inner m₂ ∧
      self.InBody way clause.body.body inner m₂ m'

/-- The same for a statement with a finalizer, which reaches its end after the block or the handler
has gone the way, or goes the way itself. -/
def InTry (block : Block) (handler : Option CatchClause) (finalizer : Option Block) (env : Env)
    (m m' : Machine) : Prop :=
  match finalizer with
  | .none => self.InGuarded way block handler env m m'
  | some finalizer =>
    (∃ m₁, self.InGuarded way block handler env m m₁ ∧
      self.execBlock finalizer env m₁ = .ok .normal m') ∨
    ∃ pending m₁ m₂, outcome (self.guarded block handler env) m = .ok pending m₁ ∧
      self.InBlock way finalizer env m₁ m₂ ∧ m' = m₂.overrule pending

/-- Carrying out a statement, after its step has been counted, is to jump there with the end `c`, or
comes to a part that goes the way while nothing around that part takes the jump. -/
def Leads (c : Completion) (s : Stmt) (env : Env) (m m' : Machine) : Prop :=
  match s with
  | .breakTo _ label => c = .broken (label.map (·.name)) ∧ m' = m
  | .continueTo _ label => c = .continued (label.map (·.name)) ∧ m' = m
  | .block b => self.InBlock way b env m m'
  | .ifThen _ test consequent alternate =>
    ∃ v m₁, self.eval test env m = .ok v m₁ ∧
      if v.truthy then way consequent env m₁ m' else ∃ s ∈ alternate, way s env m₁ m'
  | .switch _ e cases =>
    c ≠ .broken .none ∧ ∃ v m₁ inner m₂, self.eval e env m = .ok v m₁ ∧
      newBlock env m₁ = .ok inner m₂ ∧ self.InSwitch way v cases inner m₂ m'
  | .forLoop _ _ _ _ _ | .forIn _ _ _ _ | .forOf _ _ _ _ _ | .whileLoop _ _ _ | .doWhile _ _ _ =>
    self.InLoop way c s env .none m m'
  | .tryCatch _ block handler finalizer => self.InTry way block handler finalizer env m m'
  | .labeled _ label body =>
    c ≠ .broken (some label.name) ∧
      if isLoop body then self.InLoop way c body env (some label.name) m m' else way body env m m'
  | _ => False

/-- Carrying out a statement comes to a jump with the end `c`, which nothing takes inside. -/
def Jumps (c : Completion) : (fuel : Nat) → Way
  | 0 => fun _ _ _ _ => False
  | fuel + 1 => fun s env m m' =>
    ∃ m₁, tick m = .ok () m₁ ∧ (ofFuel fuel).Leads (Jumps c fuel) c s env m₁ m'

/-! ### Statements one after the other -/

variable {self way} {c : Completion} {env : Env} {m m' m₁ : Machine}

/-- Behind a statement that ends normally, the next one is executed. -/
theorem execList_cons_of_normal {s : Stmt} {ss : List Stmt}
    (h : self.exec s env m = .ok .normal m₁) :
    self.execList env (s :: ss) m = self.execList env ss m₁ :=
  bind_eq_of_ok h _

/-- Any other end is the end of the list. -/
theorem execList_cons_of_ne {s : Stmt} {ss : List Stmt} (h : self.exec s env m = .ok c m₁)
    (hc : c ≠ .normal) : self.execList env (s :: ss) m = .ok c m₁ := by
  rw [execList, bind_eq_of_ok h]
  cases c with
  | normal => exact absurd rfl hc
  | returned v => rfl
  | broken l => rfl
  | continued l => rfl

/-- Statements that all end normally lead on to those behind them. -/
theorem execList_append {before : List Stmt} (after : List Stmt)
    (h : self.execList env before m = .ok .normal m₁) :
    self.execList env (before ++ after) m = self.execList env after m₁ := by
  induction before generalizing m with
  | nil =>
    cases h
    rfl
  | cons s ss ih =>
    obtain ⟨d, m₂, hs, hss⟩ := exists_of_bind_ok h
    cases d with
    | normal =>
      rw [List.cons_append, execList_cons_of_normal hs]
      exact ih hss
    | returned v => cases hss
    | broken l => cases hss
    | continued l => cases hss

section Parts

variable (hc : c ≠ .normal)
  (hway : ∀ s env m m', self.exec s env m = .ok c m' ↔ way s env m m')

include hc hway

/-- A list ends with a jump exactly if one of its statements does, and all in front of it end
normally. -/
theorem execList_iff (stmts : List Stmt) :
    self.execList env stmts m = .ok c m' ↔ self.InList way env stmts m m' := by
  constructor
  · intro h
    induction stmts generalizing m with
    | nil =>
      cases h
      exact absurd rfl hc
    | cons s ss ih =>
      obtain ⟨d, m₁, hs, hss⟩ := exists_of_bind_ok h
      -- the jump comes from the first statement or from the rest
      by_cases hd : d = .normal
      · subst hd
        obtain ⟨before, t, after, m₂, rfl, hbefore, ht⟩ := ih hss
        refine ⟨s :: before, t, after, m₂, rfl, ?_, ht⟩
        rw [execList_cons_of_normal hs]
        exact hbefore
      · rw [execList_cons_of_ne hs hd] at h
        cases h
        exact ⟨[], s, ss, m, rfl, rfl, (hway s env m m').mp hs⟩
  · rintro ⟨before, s, after, m₁, rfl, hbefore, hs⟩
    rw [execList_append _ hbefore]
    exact execList_cons_of_ne ((hway s env m₁ m').mpr hs) hc

/-- A body declares its functions first. -/
theorem execBody_iff (stmts : List Stmt) :
    self.execBody stmts env m = .ok c m' ↔ self.InBody way stmts env m m' := by
  constructor
  · intro h
    obtain ⟨u, m₁, hhoist, h⟩ := exists_of_bind_ok h
    exact ⟨m₁, hhoist, (execList_iff hc hway stmts).mp h⟩
  · rintro ⟨m₁, hhoist, h⟩
    rw [execBody, bind_eq_of_ok hhoist]
    exact (execList_iff hc hway stmts).mpr h

/-- A block opens a scope first. -/
theorem execBlock_iff (b : Block) :
    self.execBlock b env m = .ok c m' ↔ self.InBlock way b env m m' := by
  constructor
  · intro h
    obtain ⟨inner, m₁, hblock, h⟩ := exists_of_bind_ok h
    exact ⟨inner, m₁, hblock, (execBody_iff hc hway b.body).mp h⟩
  · rintro ⟨inner, m₁, hblock, h⟩
    rw [execBlock, bind_eq_of_ok hblock]
    exact (execBody_iff hc hway b.body).mpr h

/-! ### Failures and what is done at last -/

omit hc hway in
/-- A handler binds what was thrown and executes its body. -/
theorem handle_eq (clause : CatchClause) (e : Failure) (env : Env) :
    self.handle clause e env =
      self.openHandler clause e env >>= self.execBody clause.body.body := by
  unfold handle openHandler
  cases clause.param with
  | none => simp only [bind_assoc, pure_bind]
  | some p => simp only [bind_assoc, pure_bind]

/-- A jump comes from the block, or from the handler of what was thrown in it. -/
theorem guarded_iff (block : Block) (handler : Option CatchClause) :
    self.guarded block handler env m = .ok c m' ↔ self.InGuarded way block handler env m m' := by
  have hblock : ∀ m₁, self.execBlock block env m = .ok c m₁ ↔ self.InBlock way block env m m₁ :=
    fun m₁ => execBlock_iff hc hway block
  cases handler with
  | none =>
    constructor
    · intro h
      exact .inl ((hblock m').mp h)
    · rintro (h | ⟨clause, e, m₁, inner, m₂, hclause, -⟩)
      · exact (hblock m').mpr h
      · cases hclause
  | some clause =>
    constructor
    · intro h
      cases hr : self.execBlock block env m with
      | ok d m₁ =>
        rw [guarded, catching_of_ok hr] at h
        cases h
        exact .inl ((hblock m').mp hr)
      | error e m₁ =>
        rw [guarded, catching_of_error hr] at h
        split at h
        · -- only a failure that can be caught reaches the handler
          next he =>
          rw [handle_eq] at h
          obtain ⟨inner, m₂, hopen, hbody⟩ := exists_of_bind_ok h
          have hgoes := (execBody_iff hc hway clause.body.body).mp hbody
          exact .inr ⟨clause, e, m₁, inner, m₂, rfl, hr, he, hopen, hgoes⟩
        · cases h
    · rintro (h | ⟨clause', e, m₁, inner, m₂, hclause, hr, he, hopen, hgoes⟩)
      · exact catching_of_ok ((hblock m').mpr h)
      · cases hclause
        rw [guarded, catching_of_error hr, if_pos he, handle_eq, bind_eq_of_ok hopen]
        exact (execBody_iff hc hway clause.body.body).mpr hgoes

omit hc hway in
/-- An outcome that is a completion was one. -/
theorem eq_of_outcome_ok {x : Script Completion} (h : outcome x m = .ok (.ok c) m') :
    x m = .ok c m' := by
  cases hx : x m with
  | ok d m₁ =>
    rw [outcome_of_ok hx] at h
    cases h
    rfl
  | error e m₁ =>
    by_cases he : e = .aborted
    · subst he
      rw [outcome_of_aborted hx] at h
      cases h
    · rw [outcome_of_error hx he] at h
      cases h

/-- A jump comes from what is guarded when the finalizer ends normally, otherwise from the
finalizer. -/
theorem execTry_iff (block : Block) (handler : Option CatchClause) (finalizer : Option Block) :
    self.execTry block handler finalizer env m = .ok c m' ↔
      self.InTry way block handler finalizer env m m' := by
  cases finalizer with
  | none => exact guarded_iff hc hway block handler
  | some finalizer =>
    have htry : self.execTry block handler (some finalizer) env =
        outcome (self.guarded block handler env) >>= fun pending =>
          concluding pending (self.execBlock finalizer env) := rfl
    rw [htry]
    constructor
    · intro h
      obtain ⟨pending, m₁, hpending, h⟩ := exists_of_bind_ok h
      cases hr : self.execBlock finalizer env m₁ with
      | error e m₂ =>
        rw [concluding_of_error _ hr] at h
        cases h
      | ok d m₂ =>
        by_cases hd : d = .normal
        · -- The finalizer has reached its end, and the end of the block goes on.
          subst hd
          rw [concluding_of_normal _ hr] at h
          cases pending with
          | error e => cases h
          | ok d =>
            cases h
            have hguarded := (guarded_iff hc hway block handler).mp (eq_of_outcome_ok hpending)
            exact .inl ⟨m₁, hguarded, hr⟩
        · -- The finalizer itself ends with the jump.
          rw [concluding_of_ok _ hr hd] at h
          cases h
          have hgoes := (execBlock_iff hc hway finalizer).mp hr
          exact .inr ⟨pending, m₁, m₂, hpending, hgoes, rfl⟩
    · rintro (⟨m₁, hguarded, hr⟩ | ⟨pending, m₁, m₂, hpending, hgoes, rfl⟩)
      · have hpending := outcome_of_ok ((guarded_iff hc hway block handler).mpr hguarded)
        rw [bind_eq_of_ok hpending, concluding_of_normal _ hr]
        rfl
      · rw [bind_eq_of_ok hpending]
        exact concluding_of_ok _ ((execBlock_iff hc hway finalizer).mpr hgoes) hc

/-! ### Choices and loops -/

/-- A `switch` passes on every jump but a plain `break`. -/
theorem execSwitch_iff (v : Value) (cases : List SwitchCase) :
    self.execSwitch v cases env m = .ok c m' ↔
      c ≠ .broken .none ∧ self.InSwitch way v cases env m m' := by
  constructor
  · intro h
    obtain ⟨u, m₁, hhoist, h⟩ := exists_of_bind_ok h
    obtain ⟨chosen, m₂, hchosen, h⟩ := exists_of_bind_ok h
    obtain ⟨d, m₃, hlist, h⟩ := exists_of_bind_ok h
    -- The end of the cases is that of the switch, unless it is a break without a label.
    have hd : d ≠ .broken .none ∧ d = c ∧ m₃ = m' := by
      cases d with
      | normal =>
        cases h
        exact absurd rfl hc
      | returned v =>
        cases h
        exact ⟨nofun, rfl, rfl⟩
      | broken label =>
        cases label with
        | none =>
          cases h
          exact absurd rfl hc
        | some l =>
          cases h
          exact ⟨nofun, rfl, rfl⟩
      | continued label =>
        cases h
        exact ⟨nofun, rfl, rfl⟩
    obtain ⟨hbreak, rfl, rfl⟩ := hd
    exact ⟨hbreak, m₁, chosen, m₂, hhoist, hchosen, (execList_iff hc hway _).mp hlist⟩
  · rintro ⟨hbreak, m₁, chosen, m₂, hhoist, hchosen, hlist⟩
    rw [execSwitch, bind_eq_of_ok hhoist, bind_eq_of_ok hchosen,
      bind_eq_of_ok ((execList_iff hc hway _).mpr hlist)]
    cases c with
    | normal => exact absurd rfl hc
    | returned v => rfl
    | broken label =>
      cases label with
      | none => exact absurd rfl hbreak
      | some l => rfl
    | continued label => rfl

end Parts

/-- The end of a body that a loop leaves as it is. -/
theorem eq_of_leaving? {d : Completion} {label : Option String} (h : d.leaving? label = some c)
    (hc : c ≠ .normal) : d = c := by
  unfold Completion.leaving? at h
  split at h
  · cases h
  · cases h
  · cases h
    exact absurd rfl hc
  · split at h
    · cases h
    · cases h
      rfl
  · split at h
    · cases h
      exact absurd rfl hc
    · cases h
      rfl
  · cases h
    rfl

/-- A loop passes on what leaves it, after some rounds that did not. -/
theorem execLoop_iff (hc : c ≠ .normal)
    (hway : ∀ s env m m', self.exec s env m = .ok c m' ↔ way s env m m') {loop : Stmt}
    (hloop : isLoop loop = true) (label : Option String) :
    self.execLoop loop env label m = .ok c m' ↔ self.InLoop way c loop env label m m' := by
  constructor
  · intro h
    obtain ⟨rest, inner, d, m₁, hopens, hbody, hd⟩ := opens_of_execLoop hloop h hc
    obtain rfl := eq_of_leaving? hd hc
    exact ⟨rest, inner, m₁, hopens, (hway ..).mp hbody, hd⟩
  · rintro ⟨rest, inner, m₁, hopens, hbody, hd⟩
    rw [execLoop_of_opens hloop hopens ((hway ..).mpr hbody), conclude_of_leaves hd]
    rfl

/-! ### Statements -/

/-- A sequence ends well exactly if both steps do. -/
theorem bind_eq_ok_iff {α β : Type} {x : Script α} {f : α → Script β} {b : β} :
    (x >>= f) m = .ok b m' ↔ ∃ a m₁, x m = .ok a m₁ ∧ f a m₁ = .ok b m' := by
  constructor
  · exact exists_of_bind_ok
  · rintro ⟨a, m₁, hx, hf⟩
    rw [bind_eq_of_ok hx]
    exact hf

/-- A label takes off only its own `break`. -/
theorem unlabel_of_ne {label : String} (h : c ≠ .broken (some label)) :
    c.unlabel label = c := by
  unfold Completion.unlabel
  split
  · next l =>
    have hl : (l == label) = false := beq_false_of_ne fun heq => h (by rw [heq])
    rw [hl]
    rfl
  · rfl

/-- What a label leaves was no break to it and is unchanged, unless it is normal. -/
theorem eq_of_unlabel {d : Completion} {label : String} (h : d.unlabel label = c)
    (hc : c ≠ .normal) : c ≠ .broken (some label) ∧ d = c := by
  by_cases hd : d = .broken (some label)
  · subst hd
    rw [Completion.unlabel, if_pos (by simp)] at h
    exact absurd h.symm hc
  · rw [unlabel_of_ne hd] at h
    subst h
    exact ⟨hd, rfl⟩

/-- A statement with a label takes the breaks to it. -/
theorem bind_unlabel (x : Script Completion) (label : String) :
    (x >>= fun d => match d with
      | .broken (some l) => return if l == label then .normal else .broken (some l)
      | d => return d) = x >>= fun d => pure (d.unlabel label) := by
  refine bind_congr fun d => ?_
  unfold Completion.unlabel
  split <;> rfl

/-- A labelled statement passes on every jump but its own `break`. -/
theorem unlabeled_iff {x : Script Completion} (hc : c ≠ .normal) (label : String) :
    (x >>= fun d => match d with
      | .broken (some l) => return if l == label then .normal else .broken (some l)
      | d => return d) m = .ok c m' ↔ c ≠ .broken (some label) ∧ x m = .ok c m' := by
  rw [bind_unlabel, bind_eq_ok_iff]
  constructor
  · rintro ⟨d, m₁, hx, h⟩
    cases h
    obtain ⟨hlabel, hd⟩ := eq_of_unlabel rfl hc
    rw [← hd]
    exact ⟨hd ▸ hlabel, hx⟩
  · rintro ⟨hlabel, hx⟩
    refine ⟨c, m', hx, ?_⟩
    rw [unlabel_of_ne hlabel]
    rfl

theorem ne_normal_of_isJump {c : Completion} (h : c.isJump = true) : c ≠ .normal := by
  rintro rfl
  cases h

/-- A statement, its step having been counted, ends with a jump just if it comes to one that nothing
in between takes. -/
theorem execStmt_iff (hc : c.isJump = true)
    (hway : ∀ s env m m', self.exec s env m = .ok c m' ↔ way s env m m') (s : Stmt)
    (htick : tick m = .ok () m₁) :
    self.execStmt s env m = .ok c m' ↔ self.Leads way c s env m₁ m' := by
  have hnormal := ne_normal_of_isJump hc
  -- no other statement ends with a jump
  have hother {x : Script Completion} (hx : ∀ d m', x m₁ = .ok d m' → d.isJump = false) :
      x m₁ = .ok c m' ↔ False := by
    refine iff_false_intro fun h => ?_
    rw [hx c m' h] at hc
    cases hc
  rw [execStmt.eq_def, bind_eq_of_ok htick]
  cases s with
  | var decl =>
    refine hother fun d m' h => ?_
    obtain ⟨u, m₂, -, h⟩ := exists_of_bind_ok h
    cases h
    rfl
  | block b => exact execBlock_iff hnormal hway b
  | ifThen span test consequent alternate =>
    rw [bind_eq_ok_iff]
    refine exists_congr fun v => exists_congr fun m₂ => and_congr_right fun _ => ?_
    split
    · exact hway ..
    · cases alternate with
      | none =>
        constructor
        · intro h
          cases h
          exact absurd rfl hnormal
        · rintro ⟨s, hs, -⟩
          cases hs
      | some alternate =>
        simp only [Option.mem_some_iff, exists_eq_left']
        exact hway ..
  | switch span e cases =>
    constructor
    · intro h
      obtain ⟨v, m₂, hv, h⟩ := exists_of_bind_ok h
      obtain ⟨inner, m₃, hinner, h⟩ := exists_of_bind_ok h
      obtain ⟨hbreak, hgoes⟩ := (execSwitch_iff hnormal hway v cases).mp h
      exact ⟨hbreak, v, m₂, inner, m₃, hv, hinner, hgoes⟩
    · rintro ⟨hbreak, v, m₂, inner, m₃, hv, hinner, hgoes⟩
      have hend := (execSwitch_iff hnormal hway v cases).mpr ⟨hbreak, hgoes⟩
      exact (bind_eq_of_ok hv _).trans ((bind_eq_of_ok hinner _).trans hend)
  | forLoop span init test update body => exact execLoop_iff hnormal hway rfl .none
  | forIn span head right body => exact execLoop_iff hnormal hway rfl .none
  | forOf span head right body isAwait => exact execLoop_iff hnormal hway rfl .none
  | whileLoop span test body => exact execLoop_iff hnormal hway rfl .none
  | doWhile span body test => exact execLoop_iff hnormal hway rfl .none
  | tryCatch span block handler finalizer => exact execTry_iff hnormal hway block handler finalizer
  | labeled span label body =>
    cases hloop : isLoop body with
    | false =>
      have hparts := and_congr_right fun _ : c ≠ .broken (some label.name) => hway body env m₁ m'
      simp only [hloop, Leads, Bool.false_eq_true, if_false]
      exact (unlabeled_iff hnormal label.name).trans hparts
    | true =>
      have hparts := and_congr_right fun _ : c ≠ .broken (some label.name) =>
        @execLoop_iff self way c env m₁ m' hnormal hway body hloop (some label.name)
      simp only [hloop, Leads, if_true]
      exact (unlabeled_iff hnormal label.name).trans hparts
  | breakTo span label =>
    constructor
    · intro h
      cases h
      exact ⟨rfl, rfl⟩
    · rintro ⟨rfl, rfl⟩
      rfl
  | continueTo span label =>
    constructor
    · intro h
      cases h
      exact ⟨rfl, rfl⟩
    · rintro ⟨rfl, rfl⟩
      rfl
  | expr span e =>
    refine hother fun d m' h => ?_
    obtain ⟨v, m₂, -, h⟩ := exists_of_bind_ok h
    cases h
    rfl
  | returns span e =>
    refine hother fun d m' h => ?_
    cases e with
    | none =>
      cases h
      rfl
    | some e =>
      obtain ⟨v, m₂, -, h⟩ := exists_of_bind_ok h
      cases h
      rfl
  | throws span e =>
    refine hother fun d m' h => ?_
    obtain ⟨v, m₂, -, h⟩ := exists_of_bind_ok h
    cases h
  | function | empty | debugger =>
    refine hother fun d m' h => ?_
    cases h
    rfl
  | classDecl | importDecl | exportNamed | exportDefault | exportAll =>
    refine hother fun d m' h => ?_
    cases h

end Evaluator

open Evaluator

/-- **Jumps are neither lost nor invented**: a statement ends with a jump just if it comes to one
that nothing in between takes. -/
theorem exec_eq_ok_iff_jumps {c : Completion} (hc : c.isJump = true) (fuel : Nat) (s : Stmt)
    (env : Env) (m m' : Machine) :
    (ofFuel fuel).exec s env m = .ok c m' ↔ Jumps c fuel s env m m' := by
  induction fuel generalizing s env m m' with
  | zero =>
    constructor
    · intro h
      obtain ⟨u, m₁, -, h⟩ := exists_of_bind_ok h
      cases h
    · exact False.elim
  | succ fuel ih =>
    constructor
    · intro h
      obtain ⟨u, m₁, htick, -⟩ := exists_of_bind_ok h
      exact ⟨m₁, htick, (execStmt_iff hc ih s htick).mp h⟩
    · rintro ⟨m₁, htick, h⟩
      exact (execStmt_iff hc ih s htick).mpr h

/-! ### Loops with labels -/

/-- A statement behind some labels, of which the first stands furthest out. -/
def labeledBy (labels : List (Span × Ident)) (s : Stmt) : Stmt :=
  labels.foldr (fun label s => .labeled label.1 label.2 s) s

/-- An end behind some labels. -/
def Completion.unlabelAll (labels : List String) (c : Completion) : Completion :=
  labels.foldr Completion.unlabel c

/-- The steps of some statements, one inside the other. -/
def ticks : Nat → Script Unit
  | 0 => return
  | n + 1 => do
    tick
    ticks n

namespace Completion

/-- Some labels take off only their own `break`. -/
theorem unlabelAll_of_ne {labels : List String} {c : Completion}
    (h : ∀ l ∈ labels, c ≠ .broken (some l)) : c.unlabelAll labels = c := by
  induction labels with
  | nil => rfl
  | cons l labels ih =>
    have hlater := ih fun k hk => h k (List.mem_cons_of_mem l hk)
    show (c.unlabelAll labels).unlabel l = c
    rw [hlater]
    exact unlabel_of_ne (h l List.mem_cons_self)

/-- A jump to one of the labels ends there. -/
theorem unlabelAll_broken {labels : List String} {l : String} (h : l ∈ labels) :
    (broken (some l)).unlabelAll labels = .normal := by
  induction labels with
  | nil => cases h
  | cons k labels ih =>
    show ((broken (some l)).unlabelAll labels).unlabel k = .normal
    by_cases hl : l ∈ labels
    · rw [ih hl]
      rfl
    · obtain rfl := (List.mem_cons.mp h).resolve_right hl
      have hlater : (broken (some l)).unlabelAll labels = .broken (some l) := by
        refine unlabelAll_of_ne fun k hk heq => ?_
        cases heq
        exact hl hk
      rw [hlater, unlabel, if_pos (beq_self_eq_true l)]

end Completion

/-- A labelled statement costs a step, and tells its label to a loop that stands directly behind
it. -/
theorem execStmt_labeled (self : Evaluator) (span : Span) (label : Ident) (body : Stmt)
    (env : Env) :
    self.execStmt (.labeled span label body) env = tick >>= fun _ =>
      (if isLoop body then self.execLoop body env (some label.name) else self.exec body env) >>=
        fun c => pure (c.unlabel label.name) := by
  rw [Evaluator.execStmt.eq_def]
  refine bind_congr fun _ => ?_
  dsimp only
  cases isLoop body with
  | false =>
    simp only [Bool.false_eq_true, if_false]
    exact bind_unlabel (self.exec body env) label.name
  | true =>
    simp only [if_true]
    exact bind_unlabel (self.execLoop body env (some label.name)) label.name

/-- Of several labels only the innermost one is handed to the loop. All of them take the breaks to
them. -/
theorem exec_labeledBy {loop : Stmt} (hloop : isLoop loop = true) (fuel : Nat)
    (outer : List (Span × Ident)) (span : Span) (label : Ident) (env : Env) :
    (ofFuel (fuel + 1 + outer.length)).exec (labeledBy outer (.labeled span label loop)) env = do
      ticks (outer.length + 1)
      let c ← (ofFuel fuel).execLoop loop env (some label.name)
      return c.unlabelAll (outer.map (·.2.name) ++ [label.name]) := by
  induction outer with
  | nil =>
    have hstep : (ofFuel (fuel + 1)).exec (.labeled span label loop) env =
        (ofFuel fuel).execStmt (.labeled span label loop) env := rfl
    show (ofFuel (fuel + 1)).exec (.labeled span label loop) env = _
    rw [hstep, execStmt_labeled, hloop]
    simp only [ticks, bind_assoc]
    rfl
  | cons l outer ih =>
    have hstep : (ofFuel (fuel + 1 + (l :: outer).length)).exec
        (labeledBy (l :: outer) (.labeled span label loop)) env =
          (ofFuel (fuel + 1 + outer.length)).execStmt
            (.labeled l.1 l.2 (labeledBy outer (.labeled span label loop))) env := rfl
    -- behind an outer label stands another label, so no loop is told of it
    have hlabel : isLoop (labeledBy outer (.labeled span label loop)) = false := by
      cases outer <;> rfl
    rw [hstep, execStmt_labeled, hlabel]
    simp only [Bool.false_eq_true, if_false, ih]
    simp only [List.length_cons, ticks, bind_assoc, pure_bind]
    rfl

/-- A loop leaves the jumps to other labels as they are. -/
theorem leaving?_of_ne {c : Completion} {l k : String} (h : l ≠ k)
    (hc : c = .broken (some l) ∨ c = .continued (some l)) : c.leaving? (some k) = some c := by
  have hk : (some k == some l) = false := beq_false_of_ne fun heq => h (Option.some.inj heq).symm
  rcases hc with rfl | rfl
  · rw [Completion.leaving?, hk]
    rfl
  · rw [Completion.leaving?, hk]
    rfl

theorem bind_eq_of_eq {α β : Type} {x y : Script α} {m m' : Machine} (h : x m = y m')
    (f : α → Script β) : (x >>= f) m = (y >>= f) m' := by
  show EStateM.bind x f m = EStateM.bind y f m'
  unfold EStateM.bind
  rw [h]

/-- **Jumps to the labels of a loop.** The loop has the labels `outer` and, directly in front of it,
`label`; in one of its rounds the body comes to a jump with the end `c`.

* If it is a `break` to any of the labels, the labelled loop reaches its end there.
* If it is a `continue` to the innermost label, the loop goes on behind its body.
* If it is a `continue` to another of the labels, the loop does not go on. It ends with that jump,
  which none of its labels takes.

A jump to anything else leaves the labelled loop as it is. -/
theorem jumps_to_labels {loop : Stmt} (hloop : isLoop loop = true) {fuel : Nat}
    {outer : List (Span × Ident)} {span : Span} {label : Ident} {env inner : Env}
    {m m₁ m₂ m₃ : Machine} {rest : LoopRest} {c : Completion}
    (hsteps : ticks (outer.length + 1) m = .ok () m₁)
    (hround : (ofFuel fuel).Opens loop env (some label.name) m₁ rest inner m₂)
    (hjump : Jumps c fuel rest.body inner m₂ m₃) (hc : c.isJump = true) :
    let labels := outer.map (·.2.name) ++ [label.name]
    let run :=
      (ofFuel (fuel + 1 + outer.length)).exec (labeledBy outer (.labeled span label loop)) env m
    (∀ l ∈ labels, c = .broken (some l) → run = .ok .normal m₃) ∧
      (c = .continued (some label.name) →
        run = ((ofFuel fuel).goOn (some label.name) rest >>= fun c =>
          pure (c.unlabelAll labels)) m₃) ∧
      (∀ l ∈ labels, l ≠ label.name → c = .continued (some l) → run = .ok c m₃) ∧
      (∀ l ∉ labels, c = .broken (some l) ∨ c = .continued (some l) → run = .ok c m₃) := by
  intro labels run
  have hbody := (exec_eq_ok_iff_jumps hc fuel rest.body inner m₂ m₃).mpr hjump
  -- a round ends with the jump; the labels around the loop are taken off behind it
  have hrun : run = ((ofFuel fuel).conclude (some label.name) rest c >>= fun c =>
      pure (c.unlabelAll labels)) m₃ := by
    show (ofFuel (fuel + 1 + outer.length)).exec _ env m = _
    rw [exec_labeledBy hloop, bind_eq_of_ok hsteps]
    exact bind_eq_of_eq (execLoop_of_opens hloop hround hbody) _
  have hleaves {d : Completion} (h : c.leaving? (some label.name) = some d) :
      run = .ok (d.unlabelAll labels) m₃ := by
    rw [hrun, conclude_of_leaves h]
    rfl
  refine ⟨?_, ?_, ?_, ?_⟩
  · rintro l hl rfl
    -- the loop ends its own label, any other one is taken off outside
    by_cases hlabel : l = label.name
    · have hends : (Completion.broken (some l)).leaving? (some label.name) = some .normal := by
        rw [Completion.leaving?, hlabel, if_pos (beq_self_eq_true _)]
      have hnone : ∀ k ∈ labels, Completion.normal ≠ .broken (some k) := fun _ _ => nofun
      rw [hleaves hends, Completion.unlabelAll_of_ne hnone]
    · rw [hleaves (leaving?_of_ne hlabel (.inl rfl)), Completion.unlabelAll_broken hl]
  · rintro rfl
    have hstays : (Completion.continued (some label.name)).leaving? (some label.name) = .none := by
      rw [Completion.leaving?, if_pos (beq_self_eq_true _)]
    -- only the innermost label goes on with the loop
    rw [hrun, conclude_of_stays hstays]
  · rintro l - hlabel rfl
    have hnone : ∀ k ∈ labels, Completion.continued (some l) ≠ .broken (some k) := fun _ _ => nofun
    rw [hleaves (leaving?_of_ne hlabel (.inr rfl)), Completion.unlabelAll_of_ne hnone]
  · intro l hl hc
    have hlabel : l ≠ label.name := by
      rintro rfl
      exact hl (List.mem_append_right _ List.mem_cons_self)
    have hstays : c.unlabelAll labels = c := by
      refine Completion.unlabelAll_of_ne fun k hk heq => ?_
      subst heq
      rcases hc with hc | hc
      · cases hc
        exact hl hk
      · cases hc
    rw [hleaves (leaving?_of_ne hlabel hc), hstays]

/-- A break to the outer one of two labels, from a block in the body of the loop. -/
theorem jumps_to_labels_of_break :
    let at_ : Span := ⟨0, 0⟩
    let jump : Stmt := .block ⟨[.breakTo at_ (some ⟨"a", at_⟩)], at_⟩
    let loop : Stmt := .whileLoop at_ (.bool at_ true) jump
    let m : Machine := { budget := { maxSteps := 10 } }
    isLoop loop = true ∧ ∃ m₁ m₂ m₃ rest inner,
      ticks 2 m = .ok () m₁ ∧ (ofFuel 2).Opens loop [] (some "b") m₁ rest inner m₂ ∧
      Jumps (.broken (some "a")) 2 rest.body inner m₂ m₃ ∧
      (ofFuel 4).exec (.labeled at_ ⟨"a", at_⟩ (.labeled at_ ⟨"b", at_⟩ loop)) [] m =
        .ok .normal m₃ := by
  intro at_ jump loop m
  have hround : (ofFuel 2).Opens loop [] (some "b") { m with steps := 2 }
      (.testingFirst (.bool at_ true) jump [] 9) [] { m with steps := 3 } :=
    ⟨_, _, _, rfl, .refl _ _, rfl⟩
  have hjump : Jumps (.broken (some "a")) 2 jump [] { m with steps := 3 }
      { m with steps := 5, scopes := #[{ isFunction := false }] } :=
    ⟨_, rfl, _, _, rfl, _, rfl, [], _, [], _, rfl, rfl, _, rfl, rfl, rfl⟩
  have hends := @jumps_to_labels loop rfl 2 [(at_, ⟨"a", at_⟩)] at_ ⟨"b", at_⟩ [] [] m _ _ _ _ _ rfl
    hround hjump rfl
  exact ⟨rfl, _, _, _, _, _, rfl, hround, hjump, hends.1 "a" (by decide) rfl⟩

end Espalier.Script
