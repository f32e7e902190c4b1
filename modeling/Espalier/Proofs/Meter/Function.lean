import Espalier.Proofs.Grammar.Function
import Espalier.Proofs.Meter.Rules

/-!
# Patterns, functions and classes tally

A grammar and the metered one are `Tallied` if each reader of the one tallies with that of the
other, from where a reading of its rank may be entered. Then so do the readers of patterns,
functions, methods and classes that are made of them.
-/

namespace Espalier

open Parse Token

/-- The readers of a grammar tally with those of another one, and move on. -/
structure Grammar.Tallied (cs : List Char) (g g' : Grammar) : Prop where
  statement : Moves cs 0 g.statement g'.statement
  pattern : Moves cs 2 g.pattern g'.pattern
  assignment : Moves cs 1 g.assignment g'.assignment
  power : Moves cs 1 g.power g'.power
  operand : Moves cs 1 g.operand g'.operand
  creation : Moves cs 1 g.creation g'.creation
  /-- A name is a pattern of its own. -/
  pattern_name {env : Env} {st : State} {word : String} (h : st.current.token.kind = .name word) :
    Gives g.pattern env st fun _ st' => st' = st.next

namespace Grammar

variable {cs : List Char} {k lo : Nat} {env : Env} {st : State} {ts : List Token} {g g' : Grammar}

/-! ### Patterns -/

theorem moves_propertyKey (hg : g.Tallied cs g') : Moves cs 3 (propertyKey g) (propertyKey g') := by
  intro env st ts lo h
  refine .token fun kind span newline htoken => ?_
  have hkind : st.current.token.kind = kind := congrArg Token.kind htoken
  dsimp only
  split
  · exact .advance h (hkind ▸ trivial) fun h₁ => .ret h₁
  · exact .advance h (hkind ▸ trivial) fun h₁ => .ret h₁
  · refine .advance h (hkind ▸ trivial) fun h₁ => ?_
    refine .next (hg.assignment.withIn true) h₁ fun key st₂ ts₂ h₂ => ?_
    exact .next (moves_expect _) h₂ fun _ st₃ ts₃ h₃ => .ret h₃
  · exact .first moves_identifierName h fun name st₁ ts₁ h₁ => .ret h₁

theorem moves_restPattern (hg : g.Tallied cs g') (start : Nat) :
    Moves cs 2 (restPattern g start) (restPattern g' start) := by
  intro env st ts lo h
  exact .first hg.pattern h fun argument st₁ ts₁ h₁ => .step rfl rfl (.ret h₁)

theorem moves_bindingElement (hg : g.Tallied cs g') :
    Moves cs 2 (bindingElement g) (bindingElement g') := by
  intro env st ts lo h
  refine .step rfl rfl (.first hg.pattern h fun pattern st₁ ts₁ h₁ => ?_)
  refine .eat (eatsAlong_eat _) h₁ (fun st₂ ts₂ h₂ => ?_) (.ret h₁)
  refine .next (hg.assignment.withIn true) h₂.back fun right st₃ ts₃ h₃ => ?_
  exact .step rfl rfl (.ret h₃)

theorem moves_arrayPattern (hg : g.Tallied cs g') :
    Moves cs 3 (arrayPattern g) (arrayPattern g') := by
  intro env st ts lo h
  refine .step rfl rfl (.first (moves_expect _) h fun _ st₁ ts₁ h₁ => ?_)
  refine .rounds h₁ (fun elements env st ts lo h => ?_) fun elements st₂ ts₂ h₂ => ?_
  · refine .ask rfl rfl (fun _ => .ret h) fun _ => ?_
    refine .eat (eatsAlong_eat _) h (fun st₁ ts₁ h₁ => .ret h₁) (.step rfl rfl ?_)
    refine .eat (eatsAlong_eat _) h (fun st₁ ts₁ h₁ => ?_) ?_
    · exact .next (moves_restPattern hg _) h₁.back fun p st₂ ts₂ h₂ => .ret h₂
    · refine .first (moves_bindingElement hg) (h.up 2) fun p st₁ ts₁ h₁ => ?_
      refine .ask rfl rfl (fun _ => .ret h₁) fun _ => ?_
      exact .next (moves_expect _) h₁ fun _ st₂ ts₂ h₂ => .ret h₂
  · exact .next (moves_expect _) h₂ fun _ st₃ ts₃ h₃ => .step rfl rfl (.ret h₃)

theorem moves_patternProperty (hg : g.Tallied cs g') :
    Moves cs 2 (patternProperty g) (patternProperty g') := by
  intro env st ts lo h
  refine .step rfl rfl (.eat (eatsAlong_eat _) h (fun st₁ ts₁ h₁ => ?_) ?_)
  · exact .next hg.pattern h₁ fun argument st₂ ts₂ h₂ => .step rfl rfl (.ret h₂)
  refine .first (moves_propertyKey hg) h.top fun key st₁ ts₁ h₁ => ?_
  refine .eat (eatsAlong_eat _) h₁ (fun st₂ ts₂ h₂ => ?_) ?_
  · refine .next (moves_bindingElement hg) h₂.back fun value st₃ ts₃ h₃ => ?_
    exact .step rfl rfl (.ret h₃)
  split
  · refine .ite (fun _ => .fail (by simp)) fun _ => ?_
    refine .eat (eatsAlong_eat _) h₁ (fun st₂ ts₂ h₂ => ?_) (.step rfl rfl (.ret h₁))
    refine .next (hg.assignment.withIn true) h₂.back fun right st₃ ts₃ h₃ => ?_
    exact .step rfl rfl (.ret h₃)
  · exact .unexpected

theorem moves_objectPattern (hg : g.Tallied cs g') :
    Moves cs 3 (objectPattern g) (objectPattern g') := by
  intro env st ts lo h
  refine .step rfl rfl (.first (moves_expect _) h fun _ st₁ ts₁ h₁ => ?_)
  refine .pass (passes_itemsBefore _ (moves_patternProperty hg)) h₁ fun ps st₂ ts₂ h₂ => ?_
  exact .next (moves_expect _) h₂ fun _ st₃ ts₃ h₃ => .step rfl rfl (.ret h₃)

theorem moves_bindingPattern (hg : g.Tallied cs g') :
    Moves cs 3 (bindingPattern g) (bindingPattern g') := by
  intro env st ts lo h
  refine .kind fun kind _ => ?_
  split
  · exact moves_arrayPattern hg env st ts lo h
  · exact moves_objectPattern hg env st ts lo h
  · exact .first moves_bindingName h fun name st₁ ts₁ h₁ => .ret h₁

/-! ### Functions -/

theorem moves_block (hg : g.Tallied cs g') : Moves cs 3 (block g) (block g') := by
  intro env st ts lo h
  refine .step rfl rfl (.first (moves_expect _) h fun _ st₁ ts₁ h₁ => ?_)
  refine .pass (passes_itemsUntil _ hg.statement) h₁ fun body st₂ ts₂ h₂ => ?_
  exact .next (moves_expect _) h₂ fun _ st₃ ts₃ h₃ => .step rfl rfl (.ret h₃)

/-- One of the parameters of a function. -/
theorem moves_parameter (hg : g.Tallied cs g') :
    Moves cs 2
      (do
        let start ← start
        if ← eat .ellipsis then return (← restPattern g start, true)
        else return (← bindingElement g, false))
      (do
        let start ← start
        if ← eat .ellipsis then return (← restPattern g' start, true)
        else return (← bindingElement g', false)) := by
  intro env st ts lo h
  refine .step rfl rfl (.eat (eatsAlong_eat _) h (fun st₁ ts₁ h₁ => ?_) ?_)
  · exact .next (moves_restPattern hg _) h₁ fun p st₂ ts₂ h₂ => .ret h₂
  · exact .first (moves_bindingElement hg) h fun p st₁ ts₁ h₁ => .ret h₁

theorem moves_parameters (hg : g.Tallied cs g') : Moves cs 3 (parameters g) (parameters g') := by
  intro env st ts lo h
  refine .first (moves_expect _) h fun _ st₁ ts₁ h₁ => ?_
  refine .pass (passes_itemsBefore _ (moves_parameter hg)) h₁ fun ps st₂ ts₂ h₂ => ?_
  exact .next (moves_expect _) h₂ fun _ st₃ ts₃ h₃ => .ret h₃

/-- The parameters and the body of a function. -/
theorem moves_signature (hg : g.Tallied cs g') :
    Moves cs 3
      (do
        let params ← parameters g
        let body ← Parse.withIn true (block g)
        return (params, body))
      (do
        let params ← parameters g'
        let body ← Parse.withIn true (block g')
        return (params, body)) := by
  intro env st ts lo h
  refine .first (moves_parameters hg) h fun ps st₁ ts₁ h₁ => ?_
  exact .next ((moves_block hg).withIn true) h₁ fun body st₂ ts₂ h₂ => .ret h₂

theorem moves_functionRest (hg : g.Tallied cs g') (start : Nat) (id : Option Ident)
    (isAsync isGenerator : Bool) :
    Moves cs 3 (functionRest g start id isAsync isGenerator)
      (functionRest g' start id isAsync isGenerator) := by
  intro env st ts lo h
  refine .first ((moves_signature hg).withinFunction isAsync isGenerator) h
    fun x st₁ ts₁ h₁ => ?_
  exact .step rfl rfl (.ret h₁)

theorem passes_definitionName (isRequired : Bool) {cause : SyntaxCause}
    (hcause : cause ≠ .stalled) :
    Passes cs k (definitionName isRequired cause) (definitionName isRequired cause) := by
  intro env st ts lo h
  refine .view views_isAnyName fun isAny _ => .ite (fun _ => ?_) fun _ => ?_
  · exact .first moves_bindingName h.top fun name st₁ ts₁ h₁ => .ret (h₁.back.up k)
  · exact .ite (fun _ => .failHere hcause) fun _ => .ret h

theorem moves_function (hg : g.Tallied cs g') (start : Nat) (isAsync nameRequired : Bool) :
    Moves cs 3 (function g start isAsync nameRequired)
      (function g' start isAsync nameRequired) := by
  intro env st ts lo h
  refine .first (moves_expectKey _) h fun _ st₁ ts₁ h₁ => ?_
  refine .pass (eatsAlong_eat _).passes h₁ fun isGenerator st₂ ts₂ h₂ => ?_
  refine .pass (passes_definitionName _ (by simp)) h₂ fun id st₃ ts₃ h₃ => ?_
  exact .last (moves_functionRest hg start id isAsync isGenerator) h₃

/-! ### Methods -/

theorem views_isModifier (word : String) : Views (isModifier word) := by
  intro env st ts
  have hname : isName word env st = .ok (st.current.token.kind.isName word, st) := rfl
  have hname' : isName word env (st.along ts) =
    .ok (st.current.token.kind.isName word, st.along ts) := rfl
  unfold isModifier
  rw [bind_eq hname, bind_eq hname']
  cases st.current.token.kind.isName word with
  | false => exact ⟨_, rfl, rfl⟩
  | true => exact ⟨_, rfl, rfl⟩

theorem eatsAlong_eatModifier (word : String) : EatsAlong (eatModifier word) :=
  (views_isModifier word).eats (asks_isModifier word)

/-- The words `get` and `set` in front of the name of a method. -/
theorem passes_accessor : Passes cs k
    (do
      if ← eatModifier "get" then return some MethodKind.getter
      else if ← eatModifier "set" then return some MethodKind.setter
      else return none)
    (do
      if ← eatModifier "get" then return some MethodKind.getter
      else if ← eatModifier "set" then return some MethodKind.setter
      else return none) := by
  intro env st ts lo h
  refine .eat (eatsAlong_eatModifier _) h (fun st₁ ts₁ h₁ => .ret (h₁.back.up k)) ?_
  exact .eat (eatsAlong_eatModifier _) h (fun st₁ ts₁ h₁ => .ret (h₁.back.up k)) (.ret h)

theorem passes_methodModifiers : Passes cs k methodModifiers methodModifiers := by
  intro env st ts lo h
  refine .pass (eatsAlong_eatModifier _).passes h fun isAsync st₁ ts₁ h₁ => ?_
  refine .pass (eatsAlong_eat _).passes h₁ fun isGenerator st₂ ts₂ h₂ => ?_
  split
  · exact .ret h₂
  · exact .pass passes_accessor h₂ fun accessor st₃ ts₃ h₃ => .ret h₃

theorem moves_methodFunction (hg : g.Tallied cs g') (m : MethodModifiers) :
    Moves cs 3 (methodFunction g m) (methodFunction g' m) := by
  intro env st ts lo h
  exact .step rfl rfl (moves_functionRest hg _ _ _ _ env st ts lo h)

/-! ### Classes -/

/-- The value of a property, which is read as inside a function. -/
theorem passes_initializer (hg : g.Tallied cs g') : Passes cs 0
    (do
      if ← eat .assign then
        some <$> withReader (fun env => { env with inFunction := true })
          (Parse.withIn true g.assignment)
      else return none : Parse (Option Expr))
    (do
      if ← eat .assign then
        some <$> withReader (fun env => { env with inFunction := true })
          (Parse.withIn true g'.assignment)
      else return none : Parse (Option Expr)) := by
  intro env st ts lo h
  refine .eat (eatsAlong_eat _) h (fun st₁ ts₁ h₁ => .map ?_) (.ret h)
  have hvalue : Tallies cs { env with inFunction := true } st₁ ts₁
      (Parse.withIn true g.assignment) (Parse.withIn true g'.assignment) (Behind cs lo) :=
    .last (hg.assignment.withIn true) h₁.back
  exact hvalue

theorem moves_classMember (hg : g.Tallied cs g') :
    Moves cs 3 (classMember g) (classMember g') := by
  intro env st ts lo h
  refine .step rfl rfl ?_
  refine .pass (eatsAlong_eatModifier _).passes h fun isStatic st₁ ts₁ h₁ => ?_
  refine .pass passes_methodModifiers h₁ fun modifiers st₂ ts₂ h₂ => ?_
  refine .ask rfl rfl (fun _ => .failHere (by simp)) fun _ => ?_
  refine .first (moves_propertyKey hg) h₂ fun key st₃ ts₃ h₃ => ?_
  refine .step rfl rfl (.ite (fun _ => ?_) fun _ => ?_)
  · refine .next (moves_methodFunction hg modifiers) h₃ fun f st₄ ts₄ h₄ => ?_
    exact .step rfl rfl (.ret h₄)
  · refine .pass (passes_initializer hg) h₃ fun value st₄ ts₄ h₄ => ?_
    exact .pass passes_semicolon h₄ fun _ st₅ ts₅ h₅ => .step rfl rfl (.ret h₅)

theorem moves_classBody (hg : g.Tallied cs g') : Moves cs 3 (classBody g) (classBody g') := by
  intro env st ts lo h
  refine .step rfl rfl (.first (moves_expect _) h fun _ st₁ ts₁ h₁ => ?_)
  refine .rounds h₁ (fun members env st ts lo h => ?_) fun members st₂ ts₂ h₂ => ?_
  · refine .kind fun kind _ => .ite (fun _ => .ret h) fun _ => ?_
    refine .eat (eatsAlong_eat _) h (fun st₁ ts₁ h₁ => .ret h₁) ?_
    exact .first (moves_classMember hg) h.top fun member st₁ ts₁ h₁ => .ret h₁
  · exact .next (moves_expect _) h₂ fun _ st₃ ts₃ h₃ => .step rfl rfl (.ret h₃)

/-- A class, of which what it extends stands behind its keyword. -/
theorem tallies_classDef (hg : g.Tallied cs g') {heritage heritage' : Parse Expr}
    (hh : Further cs lo heritage heritage') (start : Nat) (nameRequired : Bool)
    (h : Paced cs k lo st ts) :
    Tallies cs env st ts (classDef g heritage start nameRequired)
      (classDef g' heritage' start nameRequired) (Behind cs (lo + 1)) := by
  refine .first (moves_expectKey _) h.top fun _ st₁ ts₁ h₁ => ?_
  refine .pass (passes_definitionName _ (by simp)) h₁ fun id st₂ ts₂ h₂ => ?_
  refine .bind (α := Option Expr) (R := Behind cs (lo + 1)) ?_ fun superClass st₃ ts₃ h₃ => ?_
  · refine .eat (eatsAlong_eatKey _) h₂ (fun st₃ ts₃ h₃ => ?_) (.ret h₂)
    exact .bind (hh env st₃ ts₃ _ (by omega) h₃.back) fun e st₄ ts₄ h₄ => .ret h₄.back
  · exact .next (moves_classBody hg) h₃ fun body st₄ ts₄ h₄ => .step rfl rfl (.ret h₄)

end Grammar

end Espalier
