import Espalier.Grammar.Expression
import Espalier.Proofs.Grammar.Cover
import Espalier.Proofs.Grammar.Function
import Espalier.Proofs.Spacing.Bare
import Espalier.Proofs.Spacing.Follow

/-!
# Alike expressions spell alike patterns

What the grammar asks of an expression that has been read, and the patterns that it makes of it, do
not depend on spans. Errors do, since they tell where something is wrong; so only successful results
are compared.
-/

namespace Espalier

/-- A sequence gives a result if both steps do. -/
theorem toOption_bind {ε α β : Type} (x : Except ε α) (f : α → Except ε β) :
    (x >>= f).toOption = x.toOption.bind fun a => (f a).toOption := by
  cases x <;> rfl

/-- Whether an expression is an optional chain does not depend on its spans. -/
theorem isOptionalChain_withoutSpans (e : Expr) :
    e.withoutSpans.isOptionalChain = e.isOptionalChain := by
  fun_induction Expr.isOptionalChain e with
  | case1 s o m isOptional ih => exact congrArg (isOptional || ·) ih
  | case2 s f args isOptional ih => exact congrArg (isOptional || ·) ih
  | case3 e hmember hcall =>
    cases e with
    | member s o m isOptional => exact (hmember s o m isOptional rfl).elim
    | call s f args isOptional => exact (hcall s f args isOptional rfl).elim
    | _ => rfl

theorem word?_withoutSpans (key : PropertyKey) : key.withoutSpans.word? = key.word? := by
  cases key with
  | literal e => cases e <;> rfl
  | _ => rfl

/-- The target that a member is, unless it belongs to a chain with an optional link. -/
theorem toOption_memberTarget (s : Span) (o : Expr) (m : MemberName) (isOptional : Bool) :
    (Expr.member s o m isOptional).withoutSpans.toPattern.toOption =
      (Expr.member s o m isOptional).toPattern.toOption.map Pattern.withoutSpans := by
  have hchain := isOptionalChain_withoutSpans (.member s o m isOptional)
  rw [Expr.withoutSpans] at hchain ⊢
  rw [Expr.toPattern, Expr.toPattern, hchain]
  cases (Expr.member s o m isOptional).isOptionalChain <;> rfl

mutual

/-- Making a pattern of an expression does not look at spans. -/
theorem toOption_toPattern (e : Expr) :
    e.withoutSpans.toPattern.toOption = e.toPattern.toOption.map Pattern.withoutSpans := by
  cases e with
  | ident i => rfl
  | array s es =>
    have ih := toOption_elementsToPatterns es
    rw [Expr.withoutSpans, Expr.toPattern, Expr.toPattern, toOption_bind, toOption_bind, ih]
    cases (elementsToPatterns es).toOption <;> rfl
  | object s ps =>
    have ih := toOption_propertiesToPatterns ps
    rw [Expr.withoutSpans, Expr.toPattern, Expr.toPattern, toOption_bind, toOption_bind, ih]
    cases (propertiesToPatterns ps).toOption <;> rfl
  | assign s op l r => cases op <;> rfl
  | member s o m isOptional => exact toOption_memberTarget s o m isOptional
  | _ => rfl

/-- Nor does making patterns of elements. -/
theorem toOption_elementsToPatterns (es : List (Option Expr)) :
    (elementsToPatterns (optionalExprsWithoutSpans es)).toOption =
      (elementsToPatterns es).toOption.map optionalPatternsWithoutSpans := by
  match es with
  | [] => rfl
  | none :: es =>
    have ih := toOption_elementsToPatterns es
    rw [optionalExprsWithoutSpans, elementsToPatterns, elementsToPatterns, toOption_bind,
      toOption_bind, ih]
    cases (elementsToPatterns es).toOption <;> rfl
  | some e :: es =>
    have ih := toOption_elementsToPatterns es
    by_cases hspread : ∃ s a, e = .spread s a
    · obtain ⟨s, a, rfl⟩ := hspread
      have iha := toOption_toPattern a
      rw [optionalExprsWithoutSpans, Expr.withoutSpans, elementsToPatterns, elementsToPatterns]
      simp only [toOption_bind, iha, ih]
      cases a.toPattern.toOption <;> cases (elementsToPatterns es).toOption <;> rfl
    · have ihe := toOption_toPattern e
      -- without its spans it is no spread, either
      have hbare : ∀ s a, e.withoutSpans ≠ .spread s a := by
        intro s a heq
        cases e with
        | spread s a => exact hspread ⟨s, a, rfl⟩
        | _ => cases heq
      rw [optionalExprsWithoutSpans, elementsToPatterns_some hbare,
        elementsToPatterns_some fun s a heq => hspread ⟨s, a, heq⟩]
      simp only [toOption_bind, ihe, ih]
      cases e.toPattern.toOption <;> cases (elementsToPatterns es).toOption <;> rfl

/-- Whether properties are patterns does not turn on their spans. -/
theorem toOption_propertiesToPatterns (ps : List Property) :
    (propertiesToPatterns (propertiesWithoutSpans ps)).toOption =
      (propertiesToPatterns ps).toOption.map patternPropertiesWithoutSpans := by
  match ps with
  | [] => rfl
  | .init s key value shorthand :: ps =>
    have ihv := toOption_toPattern value
    have ih := toOption_propertiesToPatterns ps
    rw [propertiesWithoutSpans, Property.withoutSpans, propertiesToPatterns, propertiesToPatterns]
    simp only [toOption_bind, ihv, ih]
    cases value.toPattern.toOption <;> cases (propertiesToPatterns ps).toOption <;> rfl
  | .spread s e :: ps =>
    have ihe := toOption_toPattern e
    have ih := toOption_propertiesToPatterns ps
    rw [propertiesWithoutSpans, Property.withoutSpans, propertiesToPatterns, propertiesToPatterns]
    simp only [toOption_bind, ihe, ih]
    cases e.toPattern.toOption <;> cases (propertiesToPatterns ps).toOption <;> rfl
  | .method s key kind f :: ps => rfl

end

/-- Nor does making a simple target. -/
theorem toOption_toSimpleTarget (e : Expr) :
    e.withoutSpans.toSimpleTarget.toOption =
      e.toSimpleTarget.toOption.map Pattern.withoutSpans := by
  cases e with
  | member s o m isOptional => exact toOption_memberTarget s o m isOptional
  | _ => rfl

mutual

/-- Nor does checking a pattern that binds. -/
theorem toOption_checkBinding (p : Pattern) :
    p.withoutSpans.checkBinding.toOption = p.checkBinding.toOption := by
  cases p with
  | ident i => rfl
  | target e => rfl
  | array s ps => exact toOption_checkBindingElements ps
  | object s ps => exact toOption_checkBindingProperties ps
  | default s l r => exact toOption_checkBinding l
  | rest s p => exact toOption_checkBinding p

theorem toOption_checkBindingElements (ps : List (Option Pattern)) :
    (checkBindingElements (optionalPatternsWithoutSpans ps)).toOption =
      (checkBindingElements ps).toOption := by
  match ps with
  | [] => rfl
  | none :: ps => exact toOption_checkBindingElements ps
  | some p :: ps =>
    have ihp := toOption_checkBinding p
    have ih := toOption_checkBindingElements ps
    rw [optionalPatternsWithoutSpans, checkBindingElements, checkBindingElements, toOption_bind,
      toOption_bind, ihp, ih]

theorem toOption_checkBindingProperties (ps : List PatternProperty) :
    (checkBindingProperties (patternPropertiesWithoutSpans ps)).toOption =
      (checkBindingProperties ps).toOption := by
  match ps with
  | [] => rfl
  | .entry s key p shorthand :: ps =>
    have ihp := toOption_checkBinding p
    have ih := toOption_checkBindingProperties ps
    rw [patternPropertiesWithoutSpans, PatternProperty.withoutSpans, checkBindingProperties,
      checkBindingProperties, toOption_bind, toOption_bind, ihp, ih]
  | .rest s p :: ps =>
    have ihp := toOption_checkBinding p
    have ih := toOption_checkBindingProperties ps
    rw [patternPropertiesWithoutSpans, PatternProperty.withoutSpans, checkBindingProperties,
      checkBindingProperties, toOption_bind, toOption_bind, ihp, ih]

end

/-- Nor does making parameters. -/
theorem toOption_arrowParams (es : List Expr) :
    (Grammar.arrowParams (es.map Expr.withoutSpans)).toOption =
      (Grammar.arrowParams es).toOption.map (List.map Pattern.withoutSpans) := by
  induction es with
  | nil => rfl
  | cons e es ih =>
    rw [List.map_cons, Grammar.arrowParams, Grammar.arrowParams]
    simp only [toOption_bind, toOption_toPattern, ih]
    cases e.toPattern.toOption with
    | none => rfl
    | some p =>
      simp only [Option.map_some, Option.bind_some, toOption_checkBinding]
      cases p.checkBinding.toOption <;> cases (Grammar.arrowParams es).toOption <;> rfl

/-! ### Alike expressions -/

/-- What a computation makes of alike values is alike if it does not depend on what is forgotten. -/
theorem Alike.map_toOption {ε α β : Type} [Bare α] [Bare β] {f : α → Except ε β}
    (hf : ∀ a, (f (bare a)).toOption = (f a).toOption.map bare) {a a' : α} (h : Alike a a') :
    Alike (f a).toOption (f a').toOption := by
  show Option.map bare _ = Option.map bare _
  rw [← hf a, ← hf a', show bare a = bare a' from h]

variable {e e' : Expr}

/-- Expressions that are alike are optional chains or both are none. -/
theorem Alike.isOptionalChain (h : Alike e e') : e'.isOptionalChain = e.isOptionalChain := by
  rw [← isOptionalChain_withoutSpans e, ← isOptionalChain_withoutSpans e',
    show e.withoutSpans = e'.withoutSpans from h]

theorem Alike.word? {key key' : PropertyKey} (h : Alike key key') : key'.word? = key.word? := by
  rw [← word?_withoutSpans key, ← word?_withoutSpans key',
    show key.withoutSpans = key'.withoutSpans from h]

/-- They make patterns that are alike, or none. -/
theorem Alike.toPattern (h : Alike e e') : Alike e.toPattern.toOption e'.toPattern.toOption :=
  h.map_toOption toOption_toPattern

theorem Alike.toSimpleTarget (h : Alike e e') :
    Alike e.toSimpleTarget.toOption e'.toSimpleTarget.toOption :=
  h.map_toOption toOption_toSimpleTarget

/-- Operations are alike when their operands are. -/
theorem Alike.operation (op : InfixOp) {span span' : Span} {l l' r r' : Expr} (hl : Alike l l')
    (hr : Alike r r') : Alike (Expr.operation span op l r) (.operation span' op l' r') := by
  cases op <;> simp_all [Expr.operation]

theorem Alike.arrowParams {es es' : List Expr} (h : Alike es es') :
    Alike (Grammar.arrowParams es).toOption (Grammar.arrowParams es').toOption :=
  h.map_toOption toOption_arrowParams

end Espalier

/-!
## Blanks in patterns, functions and classes

A grammar is `Tracked` if its readers follow themselves. Then so do the readers of patterns,
functions, methods and classes that are made of them.
-/

namespace Espalier

open Parse Token

/-- The readers of a grammar follow themselves. -/
structure Grammar.Tracked (i : Insertion) (g : Grammar) : Prop where
  statement : Tracks i g.statement g.statement
  pattern : Tracks i g.pattern g.pattern
  assignment : Tracks i g.assignment g.assignment
  power : Tracks i g.power g.power
  operand : Tracks i g.operand g.operand
  creation : Tracks i g.creation g.creation
  /-- A name is a pattern of its own. -/
  pattern_name {env : Env} {s : State} {word : String} (h : s.current.token.kind = .name word) :
    Gives g.pattern env s fun _ s₁ => s₁ = s.next

namespace Grammar

variable {i : Insertion} {g : Grammar}

/-! ### Patterns -/

theorem tracks_propertyKey (hg : g.Tracked i) : Tracks i (propertyKey g) (propertyKey g) := by
  intro env s s'
  refine .token fun k span span' newline h => ?_
  have hk : s.current.token.kind = k := congrArg Token.kind h
  dsimp only
  split
  · exact .advance (hk ▸ trivial) fun _ _ _ _ _ _ => .ret (by simp)
  · exact .advance (hk ▸ trivial) fun _ _ _ _ _ _ => .ret (by simp)
  · refine .advance (hk ▸ trivial) fun _ _ _ _ s₁' _ => ?_
    refine .bind (hg.assignment.withIn true env _ s₁') fun key key' hkey s₂ s₂' => ?_
    exact .bind (tracks_expect _ env s₂ s₂') fun _ _ _ _ _ => .ret (by simp_all)
  · exact .bind (tracks_identifierName env s s') fun name name' hname _ _ => .ret (by simp_all)

theorem tracks_restPattern (hg : g.Tracked i) (start start' : Nat) :
    Tracks i (restPattern g start) (restPattern g start') := by
  intro env s s'
  refine .bind (hg.pattern env s s') fun argument argument' h s₁ s₁' => ?_
  exact .finish fun _ _ => .ret (by simp_all)

theorem tracks_bindingElement (hg : g.Tracked i) :
    Tracks i (bindingElement g) (bindingElement g) := by
  intro env s s'
  refine .start fun _ _ => ?_
  refine .bind (hg.pattern env s s') fun pattern pattern' hpattern s₁ s₁' => ?_
  refine .cond (tracks_eat _ env s₁ s₁') (fun s₂ s₂' => ?_) fun _ _ => .ret hpattern
  refine .bind (hg.assignment.withIn true env s₂ s₂') fun right right' hright s₃ s₃' => ?_
  exact .finish fun _ _ => .ret (by simp_all)

theorem tracks_arrayPattern (hg : g.Tracked i) : Tracks i (arrayPattern g) (arrayPattern g) := by
  intro env s s'
  refine .start fun _ _ => ?_
  refine .bind (tracks_expect _ env s s') fun _ _ _ s₁ s₁' => ?_
  refine .bind (tracks_repeatFrom (fun es es' hes env s s' => ?_) (.refl []) env s₁ s₁')
    fun es es' hes s₂ s₂' => ?_
  · refine .ask (observes_isPunct _) (fun _ => .ret hes.last) fun _ => ?_
    refine .cond (tracks_eat _ env s s') (fun _ _ => .ret ((Alike.refl none).cons hes).again)
      fun s₁ s₁' => .start fun start start' => ?_
    refine .cond (tracks_eat _ env s₁ s₁') (fun s₂ s₂' => ?_) fun s₂ s₂' => ?_
    · refine .bind (tracks_restPattern hg start start' env s₂ s₂') fun p p' hp _ _ => ?_
      exact .ret (hp.some.cons hes).last
    · refine .bind (tracks_bindingElement hg env s₂ s₂') fun p p' hp s₃ s₃' => ?_
      have hmore : Alike (some p :: es) (some p' :: es') := hp.some.cons hes
      refine .ask (observes_isPunct _) (fun _ => .ret hmore.again) fun _ => ?_
      exact .bind (tracks_expect _ env s₃ s₃') fun _ _ _ _ _ => .ret hmore.again
  · refine .bind (tracks_expect _ env s₂ s₂') fun _ _ _ _ _ => ?_
    exact .finish fun _ _ => .ret (by simp_all)

/-- Alike keys are both names, or none of them is. -/
theorem cases_key {key key' : PropertyKey} (h : Alike key key') :
    (∃ name name' : Ident, key = .ident name ∧ key' = .ident name' ∧ Alike name name') ∨
      (∀ name, key ≠ .ident name) := by
  cases key with
  | ident name =>
    cases key' with
    | ident name' => exact .inl ⟨name, name', rfl, rfl, PropertyKey.ident.inj h⟩
    | _ => cases h
  | _ => exact .inr nofun

/-- A property of a pattern is read alike, whichever form it has. -/
theorem tracks_patternProperty (hg : g.Tracked i) :
    Tracks i (patternProperty g) (patternProperty g) := by
  intro env s s'
  refine .start fun _ _ => ?_
  refine .cond (tracks_eat _ env s s') (fun s₁ s₁' => ?_) fun s₁ s₁' => ?_
  · refine .bind (hg.pattern env s₁ s₁') fun argument argument' h s₂ s₂' => ?_
    exact .finish fun _ _ => .ret (by simp_all)
  refine .bind (tracks_propertyKey hg env s₁ s₁') fun key key' hkey s₂ s₂' => ?_
  refine .cond (tracks_eat _ env s₂ s₂') (fun s₃ s₃' => ?_) fun s₃ s₃' => ?_
  · refine .bind (tracks_bindingElement hg env s₃ s₃') fun value value' h s₄ s₄' => ?_
    exact .finish fun _ _ => .ret (by simp_all)
  -- without a colon only a name will do, which is its own target
  rcases cases_key hkey with ⟨name, name', rfl, rfl, hname⟩ | hno
  · obtain ⟨text, span⟩ := name
    obtain ⟨text', span'⟩ := name'
    obtain rfl : text = text' := (Ident.mk.inj hname).1
    dsimp only
    split
    · exact .fail
    refine .cond (tracks_eat _ env s₃ s₃') (fun s₄ s₄' => ?_) fun s₄ s₄' => ?_
    · refine .bind (hg.assignment.withIn true env s₄ s₄') fun right right' h s₅ s₅' => ?_
      exact .finish fun _ _ => .ret (by simp_all)
    · exact .finish fun _ _ => .ret (by simp)
  · split
    · exact absurd rfl (hno _)
    · exact .unexpected

theorem tracks_objectPattern (hg : g.Tracked i) :
    Tracks i (objectPattern g) (objectPattern g) := by
  intro env s s'
  refine .start fun _ _ => ?_
  refine .bind (tracks_expect _ env s s') fun _ _ _ s₁ s₁' => ?_
  refine .bind (tracks_itemsBefore _ (tracks_patternProperty hg) env s₁ s₁')
    fun ps ps' hps s₂ s₂' => ?_
  refine .bind (tracks_expect _ env s₂ s₂') fun _ _ _ _ _ => ?_
  exact .finish fun _ _ => .ret (by simp_all)

theorem tracks_bindingPattern (hg : g.Tracked i) :
    Tracks i (bindingPattern g) (bindingPattern g) := by
  intro env s s'
  refine .observe observes_kind fun k hk => ?_
  split
  · exact tracks_arrayPattern hg env s s'
  · exact tracks_objectPattern hg env s s'
  · exact .bind (tracks_bindingName env s s') fun name name' h _ _ => .ret (by simp_all)

/-! ### Functions -/

theorem tracks_block (hg : g.Tracked i) : Tracks i (block g) (block g) := by
  intro env s s'
  refine .start fun _ _ => ?_
  refine .bind (tracks_expect _ env s s') fun _ _ _ s₁ s₁' => ?_
  refine .bind (tracks_itemsUntil _ hg.statement env s₁ s₁') fun body body' hbody s₂ s₂' => ?_
  refine .bind (tracks_expect _ env s₂ s₂') fun _ _ _ _ _ => ?_
  exact .finish fun _ _ => .ret (by simp_all)

theorem tracks_parameters (hg : g.Tracked i) : Tracks i (parameters g) (parameters g) := by
  intro env s s'
  refine .bind (tracks_expect _ env s s') fun _ _ _ s₁ s₁' => ?_
  refine .bind (tracks_itemsBefore _ (fun env s s' => ?_) env s₁ s₁') fun ps ps' hps s₂ s₂' => ?_
  · refine .start fun start start' => ?_
    refine .cond (tracks_eat _ env s s') (fun s₁ s₁' => ?_) fun s₁ s₁' => ?_
    · exact .bind (tracks_restPattern hg start start' env s₁ s₁')
        fun p p' hp _ _ => .ret (by simp_all)
    · exact .bind (tracks_bindingElement hg env s₁ s₁') fun p p' hp _ _ => .ret (by simp_all)
  · exact .bind (tracks_expect _ env s₂ s₂') fun _ _ _ _ _ => .ret hps

theorem tracks_functionRest (hg : g.Tracked i) (start start' : Nat) {id id' : Option Ident}
    (hid : Alike id id') (isAsync isGenerator : Bool) :
    Tracks i (functionRest g start id isAsync isGenerator)
      (functionRest g start' id' isAsync isGenerator) := by
  intro env s s'
  refine .bind (.withinFunction ?_) fun x x' hx s₁ s₁' => ?_
  · refine .bind (tracks_parameters hg _ s s') fun ps ps' hps s₁ s₁' => ?_
    refine .bind ((tracks_block hg).withIn true _ s₁ s₁') fun body body' hbody _ _ => ?_
    exact .ret (show Alike (ps, body) (ps', body') by simp_all)
  · obtain ⟨ps, body⟩ := x
    obtain ⟨ps', body'⟩ := x'
    exact .finish fun _ _ => .ret (by simp_all)

theorem tracks_definitionName (isRequired : Bool) (cause : SyntaxCause) :
    Tracks i (definitionName isRequired cause) (definitionName isRequired cause) := by
  intro env s s'
  refine .ask observes_isAnyName (fun _ => ?_) fun _ => ?_
  · exact .bind (tracks_bindingName env s s') fun name name' h _ _ => .ret h.some
  · split
    · exact .failHere
    · exact .ret (.refl none)

theorem tracks_function (hg : g.Tracked i) (start start' : Nat) (isAsync nameRequired : Bool) :
    Tracks i (function g start isAsync nameRequired) (function g start' isAsync nameRequired) := by
  intro env s s'
  refine .bind (tracks_expectKey _ env s s') fun _ _ _ s₁ s₁' => ?_
  refine .bind (tracks_eat _ env s₁ s₁') fun isGenerator isGenerator' h s₂ s₂' => ?_
  obtain rfl : isGenerator = isGenerator' := h
  refine .bind (tracks_definitionName _ _ env s₂ s₂') fun id id' hid s₃ s₃' => ?_
  exact tracks_functionRest hg start start' hid isAsync isGenerator env s₃ s₃'

/-! ### Methods -/

theorem tracks_isModifier (word : String) : Tracks i (isModifier word) (isModifier word) := by
  intro env s s'
  refine .ask (observes_isName word) (fun h => ?_) fun _ => .ret (.refl false)
  exact .peek (Kind.isWord_of_isName h) fun _ _ _ _ _ _ => .ret (.refl _)

theorem tracks_eatModifier (word : String) : Tracks i (eatModifier word) (eatModifier word) :=
  tracks_eating (tracks_isModifier word) (asks_isModifier word)

/-- The words `get` and `set` in front of the name of a method. -/
theorem tracks_accessor : Tracks i
    (do
      if ← eatModifier "get" then return some MethodKind.getter
      else if ← eatModifier "set" then return some MethodKind.setter
      else return none)
    (do
      if ← eatModifier "get" then return some MethodKind.getter
      else if ← eatModifier "set" then return some MethodKind.setter
      else return none) := by
  intro env s s'
  refine .cond (tracks_eatModifier _ env s s') (fun _ _ => .ret (.refl _)) fun s₁ s₁' => ?_
  exact .cond (tracks_eatModifier _ env s₁ s₁') (fun _ _ => .ret (.refl _))
    fun _ _ => .ret (.refl _)

theorem tracks_methodModifiers : Tracks i methodModifiers methodModifiers := by
  intro env s s'
  refine .bind (tracks_eatModifier _ env s s') fun isAsync isAsync' h s₁ s₁' => ?_
  obtain rfl : isAsync = isAsync' := h
  refine .bind (tracks_eat _ env s₁ s₁') fun isGenerator isGenerator' h s₂ s₂' => ?_
  obtain rfl : isGenerator = isGenerator' := h
  split
  · exact .ret (.refl _)
  · refine .bind (tracks_accessor env s₂ s₂') fun accessor accessor' h _ _ => .ret ?_
    obtain rfl : accessor = accessor' := by simpa using h
    exact .refl _

theorem tracks_methodFunction (hg : g.Tracked i) (m : MethodModifiers) :
    Tracks i (methodFunction g m) (methodFunction g m) := by
  intro env s s'
  exact .start fun start start' => tracks_functionRest hg start start' (.refl none) _ _ env s s'

/-! ### Classes -/

/-- The value of a property, which is read as inside a function. -/
theorem tracks_initializer (hg : g.Tracked i) : Tracks i
    (do
      if ← eat .assign then
        some <$> withReader (fun env => { env with inFunction := true })
          (Parse.withIn true g.assignment)
      else return none : Parse (Option Expr))
    (do
      if ← eat .assign then
        some <$> withReader (fun env => { env with inFunction := true })
          (Parse.withIn true g.assignment)
      else return none : Parse (Option Expr)) := by
  intro env s s'
  refine .cond (tracks_eat _ env s s') (fun s₁ s₁' => .map ?_ fun _ _ h => h.some)
    fun _ _ => .ret (.refl none)
  exact hg.assignment.withIn true { env with inFunction := true } s₁ s₁'

theorem tracks_classMember (hg : g.Tracked i) : Tracks i (classMember g) (classMember g) := by
  intro env s s'
  refine .start fun _ _ => ?_
  refine .bind (tracks_eatModifier _ env s s') fun isStatic isStatic' h s₁ s₁' => ?_
  obtain rfl : isStatic = isStatic' := h
  refine .bind (tracks_methodModifiers env s₁ s₁') fun modifiers modifiers' h s₂ s₂' => ?_
  obtain rfl : modifiers = modifiers' := h
  refine .ask (observes_isPunct _) (fun _ => .failHere) fun _ => ?_
  refine .bind (tracks_propertyKey hg env s₂ s₂') fun key key' hkey s₃ s₃' => ?_
  refine .observe (observes_isPunct _) fun atParen _ => ?_
  split
  · refine .bind (tracks_methodFunction hg _ env s₃ s₃') fun f f' hf s₄ s₄' => ?_
    have hword : key'.word? = key.word? := Alike.word? hkey
    exact .finish fun _ _ => .ret (by simp_all)
  · refine .bind (tracks_initializer hg env s₃ s₃') fun value value' hvalue s₄ s₄' => ?_
    refine .bind (tracks_semicolon env s₄ s₄') fun _ _ _ _ _ => ?_
    exact .finish fun _ _ => .ret (by simp_all)

theorem tracks_classBody (hg : g.Tracked i) : Tracks i (classBody g) (classBody g) := by
  intro env s s'
  refine .start fun _ _ => ?_
  refine .bind (tracks_expect _ env s s') fun _ _ _ s₁ s₁' => ?_
  refine .bind (tracks_repeatFrom (fun ms ms' hms env s s' => ?_) (.refl []) env s₁ s₁')
    fun ms ms' hms s₂ s₂' => ?_
  · refine .observe observes_kind fun k _ => ?_
    split
    · exact .ret hms.last
    refine .cond (tracks_eat _ env s s') (fun _ _ => .ret hms.again) fun s₁ s₁' => ?_
    exact .bind (tracks_classMember hg env s₁ s₁') fun m m' hm _ _ => .ret (hm.cons hms).again
  · refine .bind (tracks_expect _ env s₂ s₂') fun _ _ _ _ _ => ?_
    exact .finish fun _ _ => .ret (by simp_all)

theorem tracks_classDef (hg : g.Tracked i) {heritage heritage' : Parse Expr}
    (hh : Tracks i heritage heritage') (start start' : Nat) (nameRequired : Bool) :
    Tracks i (classDef g heritage start nameRequired)
      (classDef g heritage' start' nameRequired) := by
  intro env s s'
  refine .bind (tracks_expectKey _ env s s') fun _ _ _ s₁ s₁' => ?_
  refine .bind (tracks_definitionName _ _ env s₁ s₁') fun id id' hid s₂ s₂' => ?_
  refine .bind (α := Option Expr) ?_ fun superClass superClass' hsuper s₃ s₃' => ?_
  · refine .cond (tracks_eatKey _ env s₂ s₂') (fun s₃ s₃' => ?_) fun _ _ => .ret (.refl none)
    exact .bind (hh env s₃ s₃') fun e e' he _ _ => .ret he.some
  · refine .bind (tracks_classBody hg env s₃ s₃') fun body body' hbody _ _ => ?_
    exact .finish fun _ _ => .ret (by simp_all)

end Grammar

end Espalier
