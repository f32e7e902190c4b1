import Espalier.Grammar.Pattern
import Espalier.Proofs.Grammar.Reading

/-!
# Patterns, functions and classes are nested

A grammar is sound for a source if all its readers read there as `Parse.Reads` says. Every reader
that is built from a sound grammar reads in the same way. A function or class starts with the first
of its words, which may stand in front of those that its reader reads, so the lemmas on them speak
of any border at or in front of the current token.
-/

namespace Espalier

open Parse Token

namespace Parse

variable {cs : List Char}

/-! ### Names and literals -/

theorem reads_identifierName : Reads cs identifierName := by
  intro env st hst
  refine .step rfl ?_
  split
  · next h => exact .step rfl (.ret (hst.leaf (by rw [h]; trivial) rfl))
  · next h => exact .step rfl (.ret (hst.leaf (by rw [h]; trivial) rfl))
  · exact .unexpected

theorem reads_bindingName : Reads cs bindingName := by
  intro env st hst
  refine .step rfl ?_
  split
  · next h => exact .step rfl (.ret (hst.leaf (by rw [h]; trivial) rfl))
  · exact .failHere
  · exact .unexpected

/-- A name that is read is all that is left behind. -/
theorem gives_bindingName (env : Env) (st : State) :
    Gives bindingName env st fun _ st' => st' = st.next := by
  refine .step rfl ?_
  split
  · exact .step rfl (.ret rfl)
  · exact .failHere
  · exact .unexpected

theorem reads_stringLiteral : Reads cs stringLiteral := by
  intro env st hst
  refine .step rfl ?_
  split
  · next h => exact .step rfl (.ret (hst.leaf (by rw [h]; trivial) rfl))
  · exact .unexpected

end Parse

/-- All readers of a grammar read at least one token, and the nodes that they make are nested. -/
structure Grammar.IsSound (cs : List Char) (g : Grammar) : Prop where
  statement : Reads cs g.statement
  pattern : Reads cs g.pattern
  assignment : Reads cs g.assignment
  power : Reads cs g.power
  operand : Reads cs g.operand
  creation : Reads cs g.creation

namespace Grammar

variable {cs : List Char} {lo : Nat} {env : Env} {st : State} {ts : List Tree} {g : Grammar}

/-! ### Patterns -/

/-- A property name: a word, a string, a number or an expression between brackets. -/
theorem reads_propertyKey (hg : g.IsSound cs) : Reads cs (propertyKey g) := by
  intro env st hst
  refine .step rfl ?_
  split
  · next h => exact .step rfl (.ret (hst.leaf (by rw [h]; trivial) rfl))
  · next h => exact .step rfl (.ret (hst.leaf (by rw [h]; trivial) rfl))
  · next h =>
    refine .advanceFirst hst.starts (by rw [h]; trivial) fun h₁ => ?_
    refine .next (hg.assignment.withIn true) h₁ fun key st₂ h₂ => ?_
    exact .pass (reads_expect _).mayRead h₂ fun _ st₃ h₃ =>
      .ret (h₃.sub (by simp [PropertyKey.tree]))
  · exact .first reads_identifierName hst.starts fun name st₁ h₁ => .ret h₁

theorem gives_restPattern (hg : g.IsSound cs) (h : Starts cs lo st) :
    Gives (restPattern g lo) env st fun p st' => Trail cs lo st' (nodes p) := by
  refine .first hg.pattern h fun argument st₁ h₁ => ?_
  exact .node h₁ rfl (by simp)

/-- An element of a pattern, with its default. -/
theorem reads_bindingElement (hg : g.IsSound cs) : Reads cs (bindingElement g) := by
  intro env st hst
  refine .step rfl ?_
  refine .first hg.pattern hst.starts fun pattern st₁ h₁ => ?_
  refine .eat (eats_eat _) h₁ (fun h₂ => ?_) (.ret h₁)
  refine .next (hg.assignment.withIn true) h₂ fun right st₃ h₃ => ?_
  exact .node h₃ rfl (by simp)

/-- An array of elements, holes included. -/
theorem reads_arrayPattern (hg : g.IsSound cs) : Reads cs (arrayPattern g) := by
  intro env st hst
  refine .step rfl ?_
  refine .first (reads_expect _) hst.starts fun _ st₁ h₁ => ?_
  refine .rounds h₁ (fun elements st h => ?_) fun elements st₂ h₂ => ?_
  · refine .ask rfl (fun _ => .ret h) fun _ => ?_
    refine .eat (eats_eat _) h (fun h' => .ret h') ?_
    refine .step rfl ?_
    refine .eatFirst (eats_eat _) h.isIn.starts (fun h' => ?_) ?_
    · exact .after h (gives_restPattern hg h'.starts) fun p st' h' => .ret (h'.sub (by simp))
    · refine .next (reads_bindingElement hg) h fun element st' h' => ?_
      refine .ask rfl (fun _ => .ret (h'.sub (by simp))) fun _ => ?_
      exact .pass (reads_expect _).mayRead h' fun _ st'' h'' => .ret (h''.sub (by simp))
  · refine .pass (reads_expect _).mayRead h₂ fun _ st₃ h₃ => ?_
    exact .node h₃ rfl (by simp)

/-- A property of a pattern, written out or by its name alone. -/
theorem reads_patternProperty (hg : g.IsSound cs) : Reads cs (patternProperty g) := by
  intro env st hst
  refine .step rfl ?_
  refine .eatFirst (eats_eat _) hst.starts (fun h => ?_) ?_
  · refine .next hg.pattern h fun argument st₁ h₁ => ?_
    exact .node h₁ rfl (by simp)
  refine .first (reads_propertyKey hg) hst.starts fun key st₁ h₁ => ?_
  refine .eat (eats_eat _) h₁ (fun h₂ => ?_) ?_
  · refine .next (reads_bindingElement hg) h₂ fun value st₃ h₃ => ?_
    exact .node h₃ rfl (by simp)
  split
  · next name =>
    split
    · exact .fail
    refine .eat (eats_eat _) h₁ (fun h₂ => ?_) ?_
    · refine .next (hg.assignment.withIn true) h₂ fun right st₃ h₃ => .finish h₃ (.ret ?_)
      -- The default takes up the whole of the property.
      have hdefault : Tree.Fits cs st.pos st₃.prevEnd
          (Pattern.default ⟨st.pos, st₃.prevEnd⟩ (.ident name) right).tree :=
        h₃.fits_from (Nat.le_refl _) (by simp [PropertyKey.tree, Pattern.tree])
      exact (h₃.cons hdefault).node (by simp)
    · exact .node h₁ rfl (by simp [PropertyKey.tree, Pattern.tree])
  · exact .unexpected

theorem reads_objectPattern (hg : g.IsSound cs) : Reads cs (objectPattern g) := by
  intro env st hst
  refine .step rfl ?_
  refine .first (reads_expect _) hst.starts fun _ st₁ h₁ => ?_
  refine .maybe (mayRead_itemsBefore _ (reads_patternProperty hg)) h₁ fun properties st₂ h₂ => ?_
  refine .pass (reads_expect _).mayRead h₂ fun _ st₃ h₃ => ?_
  exact .node h₃ rfl (by simp)

/-- A name or one of the two patterns. -/
theorem reads_bindingPattern (hg : g.IsSound cs) : Reads cs (bindingPattern g) := by
  intro env st hst
  refine .step rfl ?_
  split
  · exact reads_arrayPattern hg env st hst
  · exact reads_objectPattern hg env st hst
  · exact .first reads_bindingName hst.starts fun name st₁ h₁ => .ret h₁

theorem gives_bindingPattern_name {env : Env} {st : State} {word : String}
    (h : st.current.token.kind = .name word) :
    Gives (bindingPattern g) env st fun _ st' => st' = st.next := by
  refine .step rfl ?_
  rw [h]
  exact .bind ((gives_bindingName env st).mono fun _ _ h => .ret h)

/-! ### Functions -/

theorem reads_block (hg : g.IsSound cs) : Reads cs (block g) := by
  intro env st hst
  refine .step rfl ?_
  refine .first (reads_expect _) hst.starts fun _ st₁ h₁ => ?_
  refine .maybe (mayRead_itemsUntil _ hg.statement) h₁ fun body st₂ h₂ => ?_
  refine .pass (reads_expect _).mayRead h₂ fun _ st₃ h₃ => ?_
  exact .node h₃ rfl (by simp)

theorem reads_parameters (hg : g.IsSound cs) : Reads cs (parameters g) := by
  intro env st hst
  refine .first (reads_expect _) hst.starts fun _ st₁ h₁ => ?_
  refine .maybe (mayRead_itemsBefore _ ?_) h₁ fun params st₂ h₂ => ?_
  · intro env st hst
    refine .step rfl ?_
    refine .eatFirst (eats_eat _) hst.starts (fun h => ?_) ?_
    · refine .bind ((gives_restPattern hg h.starts).mono fun p st' h' => .ret (h'.sub ?_))
      simp
    · exact .first (reads_bindingElement hg) hst.starts fun p st' h' => .ret (h'.sub (by simp))
  · exact .pass (reads_expect _).mayRead h₂ fun _ st₃ h₃ => .ret (h₃.sub (by simp))

/-- The parameters and the body of a function. -/
theorem reads_signature (hg : g.IsSound cs) : Reads cs (do
    let params ← parameters g
    let body ← Parse.withIn true (block g)
    return (params, body)) := by
  intro env st hst
  refine .first (reads_parameters hg) hst.starts fun params st₁ h₁ => ?_
  refine .next ((reads_block hg).withIn true) h₁ fun body st₂ h₂ => .ret (h₂.sub ?_)
  simp [or_comm]

/-- A function is nested, as a node of either type and as the function of a method. -/
theorem trail_func {f : Func} (h : Trail cs lo st ts) (hspan : f.span = ⟨lo, st.prevEnd⟩)
    (hparts : ∀ t ∈ nodes f.id ++ (nodes f.params ++ nodes f.body), t ∈ ts) :
    Trail cs lo st (nodes f) := by
  obtain ⟨id, params, body, isAsync, isGenerator, span⟩ := f
  cases hspan
  have htree (type : NodeType) : Tree.Fits cs lo st.prevEnd
      (Func.tree type ⟨id, params, body, isAsync, isGenerator, ⟨lo, st.prevEnd⟩⟩) :=
    h.fits_from (Nat.le_refl _) fun c hc => hparts c (by simpa using hc)
  have hrest := h.sub fun t ht => hparts t (List.mem_append_right _ ht)
  exact (hrest.cons (htree _)).cons (htree _)

/-- What follows the name of a function: its parameters and its body. -/
theorem gives_functionRest (hg : g.IsSound cs) {id : Option Ident} (isAsync isGenerator : Bool)
    (h : Trail cs lo st (nodes id ++ ts)) :
    Gives (functionRest g lo id isAsync isGenerator) env st fun f st' =>
      Trail cs lo st' (nodes f) := by
  refine .next ((reads_signature hg).withinFunction isAsync isGenerator) h fun x st₁ h₁ => ?_
  obtain ⟨params, body⟩ := x
  refine .finish h₁ (.ret (trail_func h₁ rfl fun t ht => ?_))
  simp at ht ⊢
  tauto

theorem mayRead_definitionName (isRequired : Bool) (cause : SyntaxCause) :
    MayRead cs (definitionName isRequired cause) := by
  intro env st hst
  obtain ⟨b, heq, -⟩ := asks_isAnyName env st
  refine .ask heq (fun _ => ?_) fun _ => ?_
  · refine .first reads_bindingName hst.starts fun name st₁ h₁ => .ret (.inr (h₁.sub ?_))
    simp
  · split
    · exact .failHere
    · exact .ret (.inl ⟨rfl, rfl⟩)

/-- A function from its keyword on, which may stand behind the word that it starts with. -/
theorem gives_function (hg : g.IsSound cs) (isAsync nameRequired : Bool) (h : Starts cs lo st) :
    Gives (function g lo isAsync nameRequired) env st fun f st' => Trail cs lo st' (nodes f) := by
  refine .first (reads_expectKey _) h fun _ st₁ h₁ => ?_
  refine .pass (eats_eat _).mayRead h₁ fun isGenerator st₂ h₂ => ?_
  refine .maybe (mayRead_definitionName _ _) h₂ fun id st₃ h₃ => ?_
  exact gives_functionRest hg isAsync isGenerator h₃

/-! ### Methods -/

theorem asks_isModifier (word : String) : Asks (isModifier word) := by
  intro env st
  show ∃ b, (if st.current.token.kind.isName word then _ else pure false : Parse Bool) env st =
    .ok (b, st) ∧ _
  cases hk : st.current.token.kind.isName word with
  | false => exact ⟨false, rfl, nofun⟩
  | true => exact ⟨_, rfl, fun _ => Kind.isSolid_of_isName hk⟩

theorem eats_eatModifier (word : String) : Eats (eatModifier word) :=
  (asks_isModifier word).eats

/-- The words `get` and `set` in front of the name of a method. -/
theorem mayRead_accessor : MayRead cs (do
    if ← eatModifier "get" then return some MethodKind.getter
    else if ← eatModifier "set" then return some MethodKind.setter
    else return none) := by
  intro env st hst
  refine .eatFirst (eats_eatModifier _) hst.starts (fun h => .ret (.inr h)) ?_
  refine .eatFirst (eats_eatModifier _) hst.starts (fun h => .ret (.inr h)) ?_
  exact .ret (.inl ⟨rfl, rfl⟩)

/-- The words in front of a method, which may also be its name. -/
theorem mayRead_methodModifiers : MayRead cs methodModifiers := by
  intro env st hst
  refine .further (eats_eatModifier _).mayRead hst (.inl ⟨rfl, rfl⟩) fun isAsync st₁ h₁ => ?_
  refine .further (eats_eat _).mayRead hst h₁ fun isGenerator st₂ h₂ => ?_
  split
  · exact .step rfl (.ret h₂)
  · refine .further mayRead_accessor hst h₂ fun accessor st₃ h₃ => .ret ?_
    exact h₃.sub (List.forall_mem_nil _)

theorem reads_methodFunction (hg : g.IsSound cs) (m : MethodModifiers) :
    Reads cs (methodFunction g m) := by
  intro env st hst
  refine .step rfl ?_
  refine .first ((reads_signature hg).withinFunction _ _) hst.starts fun x st₁ h₁ => ?_
  obtain ⟨params, body⟩ := x
  refine .finish h₁ (.ret (trail_func h₁ rfl ?_))
  simp

/-! ### Classes -/

theorem nodes_fields (f : Func) :
    f.fields.flatMap TreeField.nodes = nodes f.params ++ nodes f.body := by
  obtain ⟨id, params, body, isAsync, isGenerator, span⟩ := f
  simp [Func.fields]

/-- The value of a property, which is read as inside a function. -/
theorem mayRead_initializer (hg : g.IsSound cs) : MayRead cs (do
    if ← eat .assign then
      some <$> withReader (fun env => { env with inFunction := true })
        (Parse.withIn true g.assignment)
    else return none : Parse (Option Expr)) := by
  intro env st hst
  refine .eatFirst (eats_eat _) hst.starts (fun h => .map ?_) (.ret (.inl ⟨rfl, rfl⟩))
  have hvalue := hg.assignment { env with inFunction := true, allowIn := true } st.next h.isIn
  refine hvalue.mono fun value st' h' => .inr ((h.trans h').sub ?_)
  simp

/-- A method, a property or a static block. -/
theorem reads_classMember (hg : g.IsSound cs) : Reads cs (classMember g) := by
  intro env st hst
  refine .step rfl ?_
  refine .passFirst (eats_eatModifier _).mayRead hst.starts fun isStatic st₁ h₁ => ?_
  refine .passFirst mayRead_methodModifiers h₁ fun modifiers st₂ h₂ => ?_
  refine .ask rfl (fun _ => .failHere) fun _ => ?_
  refine .first (reads_propertyKey hg) h₂ fun key st₃ h₃ => .step rfl ?_
  split
  · refine .next (reads_methodFunction hg modifiers) h₃ fun f st₄ h₄ => ?_
    exact .node h₄ rfl (by simp [nodes_fields]; tauto)
  · refine .maybe (mayRead_initializer hg) h₃ fun value st₄ h₄ => ?_
    refine .pass mayRead_semicolon h₄ fun _ st₅ h₅ => ?_
    exact .node h₅ rfl (by simp; tauto)

theorem reads_classBody (hg : g.IsSound cs) : Reads cs (classBody g) := by
  intro env st hst
  refine .step rfl ?_
  refine .first (reads_expect _) hst.starts fun _ st₁ h₁ => ?_
  refine .rounds h₁ (fun members st h => .step rfl ?_) fun members st₂ h₂ => ?_
  · split
    · exact .ret h
    refine .eat (eats_eat _) h (fun h' => .ret h') ?_
    exact .next (reads_classMember hg) h fun m st' h' => .ret (h'.sub (by simp))
  · refine .pass (reads_expect _).mayRead h₂ fun _ st₃ h₃ => ?_
    exact .node h₃ rfl (by simp)

/-- A class leaves one node over its name, its heritage and its members. -/
theorem gives_classDef (hg : g.IsSound cs) {heritage : Parse Expr} (hh : Reads cs heritage)
    (nameRequired : Bool) (h : Starts cs lo st) :
    Gives (classDef g heritage lo nameRequired) env st fun c st' => Trail cs lo st' (nodes c) := by
  refine .first (reads_expectKey _) h fun _ st₁ h₁ => ?_
  refine .maybe (mayRead_definitionName _ _) h₁ fun id st₂ h₂ => ?_
  refine .maybe ((eats_eatKey _).mayReadThen hh) h₂ fun superClass st₃ h₃ => ?_
  refine .next (reads_classBody hg) h₃ fun body st₄ h₄ => .finish h₄ (.ret ?_)
  have htree (type : NodeType) : Tree.Fits cs lo st₄.prevEnd
      (Class.tree type ⟨id, superClass, body, ⟨lo, st₄.prevEnd⟩⟩) :=
    h₄.fits_from (Nat.le_refl _) (by simp; tauto)
  exact ((h₄.sub (List.forall_mem_nil _)).cons (htree _)).cons (htree _)

end Grammar

end Espalier
