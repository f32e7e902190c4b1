import Espalier.Proofs.Grammar.Expression
import Espalier.Proofs.Spacing.Function

/-!
# Blanks in expressions

Every reader of expressions follows itself. A slash or a closing brace is looked at before it is
read again, as the start of a regular expression or as a piece of a template, so these readers
follow each other only from states where such a token is current.
-/

namespace Espalier.Grammar

open Parse Token

variable {i : Insertion} {g : Grammar} {env : Env} {s s' : State}

theorem tracks_expression (hg : g.Tracked i) : Tracks i (expression g) (expression g) := by
  intro env s s'
  refine .bind (hg.assignment env s s') fun first first' hfirst s₁ s₁' => ?_
  refine .ask (observes_isPunct _) (fun _ => ?_) fun _ => .ret hfirst
  refine .bind (tracks_itemsAfterCommas (hfirst.cons (.refl [])) hg.assignment env s₁ s₁')
    fun es es' hes _ _ => ?_
  exact .finish fun _ _ => .ret (by simp_all)

/-! ### Templates and regular expressions -/

/-- A template, of which the current token is the first piece. -/
theorem follows_template (hg : g.Tracked i) (hk : s.current.token.kind.IsSolid) :
    Follows i env s s' (template g) (template g) := by
  refine .start fun _ _ => .advance hk fun k span span' newline s₁' _ => ?_
  dsimp only
  split
  · exact .finish fun _ _ => .ret (by simp [templateElement])
  · refine .bind (tracks_repeatFrom (fun x x' hx env s s' => ?_) ?_ env _ s₁')
      fun x x' hx s₂ s₂' => ?_
    · obtain ⟨qs, es⟩ := x
      obtain ⟨qs', es'⟩ := x'
      refine .bind ((tracks_expression hg).withIn true env s s') fun e e' he s₁ s₁' => ?_
      refine .ask (observes_isPunct _) (fun hbrace => ?_) fun _ => .failHere
      -- the brace is read again as the start of the next piece, on both sides
      refine .leave .template (fun _ _ => rfl) (Kind.eq_of_isPunct hbrace) ?_
        fun k span span' newline s₂' _ => ?_
      · intro hno
        split
        · next hpart => exact (hno (hpart ▸ trivial)).elim
        · next hpart => exact (hno (hpart ▸ trivial)).elim
        · exact .fail
        · exact .fail
      · dsimp only
        split
        · exact .ret (by simp_all [templateElement])
        · exact .ret (by simp_all [templateElement])
        · exact .fail
        · exact .fail
    · simp [templateElement]
    · obtain ⟨qs, es⟩ := x
      obtain ⟨qs', es'⟩ := x'
      exact .finish fun _ _ => .ret (by simp_all)
  · exact .fail

/-- A regular expression, of which the current token is the opening slash. -/
theorem follows_regex (hk : s.current.token.kind = .punct .slash ∨
    s.current.token.kind = .punct .slashAssign) : Follows i env s s' regex regex := by
  refine .token fun _ _ _ _ _ => ?_
  refine .leave .regex (fun _ _ => rfl) hk ?_ fun k span span' newline s₁' _ => ?_
  · intro hno
    split
    · next hregex => exact (hno (hregex ▸ trivial)).elim
    · exact .fail
    · exact .fail
  · dsimp only
    split
    · exact .finish fun _ _ => .ret (by simp)
    · exact .fail
    · exact .fail

/-! ### Arrays and objects -/

theorem tracks_spreadOrAssignment (hg : g.Tracked i) :
    Tracks i (spreadOrAssignment g) (spreadOrAssignment g) := by
  intro env s s'
  refine .start fun _ _ => ?_
  refine .cond (tracks_eat _ env s s') (fun s₁ s₁' => ?_) fun s₁ s₁' => ?_
  · refine .bind (hg.assignment.withIn true env s₁ s₁') fun e e' he _ _ => ?_
    exact .finish fun _ _ => .ret (by simp_all)
  · exact hg.assignment.withIn true env s₁ s₁'

theorem tracks_arrayLiteral (hg : g.Tracked i) : Tracks i (arrayLiteral g) (arrayLiteral g) := by
  intro env s s'
  refine .start fun _ _ => ?_
  refine .bind (tracks_expect _ env s s') fun _ _ _ s₁ s₁' => ?_
  refine .bind (tracks_repeatFrom (fun es es' hes env s s' => ?_) (.refl []) env s₁ s₁')
    fun es es' hes s₂ s₂' => ?_
  · refine .ask (observes_isPunct _) (fun _ => .ret hes.last) fun _ => ?_
    refine .cond (tracks_eat _ env s s') (fun _ _ => .ret ((Alike.refl none).cons hes).again)
      fun s₁ s₁' => ?_
    refine .bind (tracks_spreadOrAssignment hg env s₁ s₁') fun e e' he s₂ s₂' => ?_
    have hmore : Alike (some e :: es) (some e' :: es') := he.some.cons hes
    refine .ask (observes_isPunct _) (fun _ => .ret hmore.again) fun _ => ?_
    exact .bind (tracks_expect _ env s₂ s₂') fun _ _ _ _ _ => .ret hmore.again
  · refine .bind (tracks_expect _ env s₂ s₂') fun _ _ _ _ _ => ?_
    exact .finish fun _ _ => .ret (by simp_all)

/-- A property of an object is read alike, whichever form it has. -/
theorem tracks_objectProperty (hg : g.Tracked i) :
    Tracks i (objectProperty g) (objectProperty g) := by
  intro env s s'
  refine .start fun _ _ => ?_
  refine .cond (tracks_eat _ env s s') (fun s₁ s₁' => ?_) fun s₁ s₁' => ?_
  · refine .bind (hg.assignment.withIn true env s₁ s₁') fun argument argument' h s₂ s₂' => ?_
    exact .finish fun _ _ => .ret (by simp_all)
  refine .bind (tracks_methodModifiers env s₁ s₁') fun modifiers modifiers' h s₂ s₂' => ?_
  obtain rfl : modifiers = modifiers' := h
  refine .bind (tracks_propertyKey hg env s₂ s₂') fun key key' hkey s₃ s₃' => ?_
  refine .observe (observes_isPunct _) fun atParen _ => ?_
  split
  · refine .bind (tracks_methodFunction hg _ env s₃ s₃') fun f f' hf s₄ s₄' => ?_
    exact .finish fun _ _ => .ret (by simp_all)
  refine .cond (tracks_eat _ env s₃ s₃') (fun s₄ s₄' => ?_) fun s₄ s₄' => ?_
  · refine .bind (hg.assignment.withIn true env s₄ s₄') fun value value' h s₅ s₅' => ?_
    exact .finish fun _ _ => .ret (by simp_all)
  -- a shorthand must be a name, and both keys are one or none is
  rcases cases_key hkey with ⟨name, name', rfl, rfl, hname⟩ | hno
  · obtain ⟨text, span⟩ := name
    obtain ⟨text', span'⟩ := name'
    obtain rfl : text = text' := (Ident.mk.inj hname).1
    dsimp only
    split
    · exact .fail
    refine .cond (tracks_eat _ env s₄ s₄') (fun s₅ s₅' => ?_) fun _ _ => ?_
    · refine .bind (hg.assignment.withIn true env s₅ s₅') fun right right' h _ _ => ?_
      exact .finish fun _ _ => .ret (by simp_all)
    · exact .finish fun _ _ => .ret (by simp)
  · split
    · exact absurd rfl (hno _)
    · exact .unexpected

theorem tracks_objectLiteral (hg : g.Tracked i) :
    Tracks i (objectLiteral g) (objectLiteral g) := by
  intro env s s'
  refine .start fun _ _ => ?_
  refine .bind (tracks_expect _ env s s') fun _ _ _ s₁ s₁' => ?_
  refine .bind (tracks_itemsBefore _ (fun env s s' => ?_) env s₁ s₁') fun ps ps' hps s₂ s₂' => ?_
  · exact .bind (tracks_objectProperty hg env s s') fun p p' hp _ _ => .ret (by simp_all)
  · refine .bind (tracks_expect _ env s₂ s₂') fun _ _ _ _ _ => ?_
    exact .finish fun _ _ => .ret (by simp_all)

/-! ### Arrows and parentheses -/

theorem tracks_arrowBody (hg : g.Tracked i) (start start' : Nat) (isAsync : Bool)
    {params params' : List Pattern} (hparams : Alike params params') :
    Tracks i (arrowBody g start isAsync params) (arrowBody g start' isAsync params') := by
  intro env s s'
  refine .bind (.withinFunction ?_) fun body body' hbody _ _ => ?_
  · refine .ask (observes_isPunct _) (fun _ => ?_) fun _ => ?_
    · exact .bind ((tracks_block hg).withIn true _ s s') fun b b' hb _ _ => .ret (by simp_all)
    · exact .bind (hg.assignment _ s s') fun e e' he _ _ => .ret (by simp_all)
  · exact .finish fun _ _ => .ret (by simp_all)

/-- The expressions that parentheses hold, unless an arrow follows. -/
theorem follows_items {items items' : List Expr} : Alike items items' → Follows i env s s'
      (match items with
        | [] => do fail .strayClosingParen (.empty (← get).prevEnd)
        | [item] => return item
        | first :: others =>
          return .sequence ⟨first.span.start, ((others.getLast?).getD first).span.stop⟩ items)
      (match items' with
        | [] => do fail .strayClosingParen (.empty (← get).prevEnd)
        | [item] => return item
        | first :: others =>
          return .sequence ⟨first.span.start, ((others.getLast?).getD first).span.stop⟩
            items') := by
  intro h
  have hlength : items'.length = items.length := by simpa using (congrArg List.length h).symm
  match items, items', hlength with
  | [], [], _ => exact .step rfl (fun _ => rfl) .fail
  | [item], [item'], _ => exact .ret (List.cons.inj h).1
  | first :: second :: others, first' :: second' :: others', _ => exact .ret (by simp_all)

/-- What stands in parentheses is read alike, be it items or parameters. -/
theorem tracks_parenthesized (hg : g.Tracked i) (start start' : Nat) (isAsync : Bool) :
    Tracks i (parenthesized g start isAsync) (parenthesized g start' isAsync) := by
  intro env s s'
  refine .bind (tracks_expect _ env s s') fun _ _ _ s₁ s₁' => ?_
  refine .bind ((tracks_repeatFrom (fun x x' hx env s s' => ?_) (.refl _)).withIn true env s₁ s₁')
    fun x x' hx s₂ s₂' => ?_
  · obtain ⟨items, rest⟩ := x
    obtain ⟨items', rest'⟩ := x'
    obtain ⟨hitems, hrest⟩ : Alike items items' ∧ Alike rest rest' := Prod.mk.inj hx
    refine .ask (observes_isPunct _) (fun _ => .ret hx.last) fun _ => .start fun start start' => ?_
    refine .cond (tracks_eat _ env s s') (fun s₁ s₁' => ?_) fun s₁ s₁' => ?_
    · exact .bind (tracks_restPattern hg start start' env s₁ s₁')
        fun p p' hp _ _ => .ret (by simp_all)
    · refine .bind (hg.assignment env s₁ s₁') fun item item' hitem s₂ s₂' => ?_
      exact .cond (tracks_eat _ env s₂ s₂') (fun _ _ => .ret (by simp_all))
        fun _ _ => .ret (by simp_all)
  obtain ⟨items, rest⟩ := x
  obtain ⟨items', rest'⟩ := x'
  obtain ⟨hitems, hrest⟩ : Alike items.reverse items'.reverse ∧ Alike rest rest' :=
    ⟨Alike.reverse (Prod.mk.inj hx).1, (Prod.mk.inj hx).2⟩
  dsimp only
  generalize items.reverse = items at hitems
  generalize items'.reverse = items' at hitems
  refine .bind (tracks_expect _ env s₂ s₂') fun _ _ _ s₃ s₃' => ?_
  -- an arrow behind the parenthesis makes parameters of the items
  refine .observe (observes_isPunct _) fun atArrow harrow => ?_
  refine .token fun k span span' newline hk => ?_
  dsimp only
  split
  · next h =>
    rw [Bool.and_eq_true] at h
    refine .advance (Kind.isSolid_of_isPunct (harrow.trans h.1)) fun _ _ _ _ s₄' _ => ?_
    refine .bind (.ofExcept (Alike.arrowParams hitems)) fun params params' hparams s₅ s₅' => ?_
    refine tracks_arrowBody hg start start' isAsync ?_ env s₅ s₅'
    cases rest <;> cases rest' <;> simp_all
  · cases rest with
    | some p => exact .fail
    | none =>
      obtain rfl : rest' = none := Option.map_eq_none_iff.mp hrest.symm
      dsimp only
      split
      · exact .finish fun _ _ => .ret (by simp_all)
      · exact follows_items hitems

/-! ### Members and calls -/

theorem tracks_memberName : Tracks i memberName memberName := by
  intro env s s'
  refine .ask (observes_isPunct _) (fun _ => .failHere) fun _ => ?_
  exact .bind (tracks_identifierName env s s') fun name name' h _ _ => .ret (by simp_all)

theorem tracks_computedMember (hg : g.Tracked i) :
    Tracks i (computedMember g) (computedMember g) := by
  intro env s s'
  refine .bind (tracks_expect _ env s s') fun _ _ _ s₁ s₁' => ?_
  refine .bind ((tracks_expression hg).withIn true env s₁ s₁') fun key key' hkey s₂ s₂' => ?_
  exact .bind (tracks_expect _ env s₂ s₂') fun _ _ _ _ _ => .ret (by simp_all)

theorem tracks_arguments (hg : g.Tracked i) : Tracks i (arguments g) (arguments g) := by
  intro env s s'
  refine .bind (tracks_expect _ env s s') fun _ _ _ s₁ s₁' => ?_
  refine .bind (tracks_itemsBefore _ (fun env s s' => ?_) env s₁ s₁') fun es es' hes s₂ s₂' => ?_
  · exact .bind (tracks_spreadOrAssignment hg env s s') fun e e' he _ _ => .ret (by simp_all)
  · exact .bind (tracks_expect _ env s₂ s₂') fun _ _ _ _ _ => .ret hes

theorem tracks_metaProperty (start start' : Nat) {object object' : Ident}
    (hobject : Alike object object') (name : String) (cause : SyntaxCause) :
    Tracks i (metaProperty start object name cause) (metaProperty start' object' name cause) := by
  intro env s s'
  refine .bind (tracks_identifierName env s s') fun property property' h _ _ => ?_
  obtain ⟨text, span⟩ := property
  obtain ⟨text', span'⟩ := property'
  obtain rfl : text = text' := (Ident.mk.inj h).1
  dsimp only
  split
  · exact .fail
  · exact .finish fun _ _ => .ret (by simp_all)

/-- A primary expression is read alike, one case for each kind of first token. -/
theorem tracks_primary (hg : g.Tracked i) {heritage heritage' : Parse Expr}
    (hh : Tracks i heritage heritage') : Tracks i (primary g heritage) (primary g heritage') := by
  intro env s s'
  refine .start fun start start' => .token fun k span span' newline hk => ?_
  have hkind : s.current.token.kind = k := congrArg Token.kind hk
  dsimp only
  split
  · next text =>
    -- `async` is a name unless a function or an arrow follows
    refine .peek (hkind ▸ trivial) fun k₁ span₁ span₁' newline₁ s' _ => ?_
    refine .ite (fun _ => ?_) fun _ => .ite (fun _ => ?_) fun _ => ?_
    · refine .advance (hkind ▸ trivial) fun _ _ _ _ s₁' _ => ?_
      exact .bind (tracks_function hg start start' true false env _ s₁')
        fun f f' hf _ _ => .ret (by simp_all)
    · refine .advance (hkind ▸ trivial) fun _ _ _ _ s₁' _ => ?_
      exact tracks_parenthesized hg start start' true env _ s₁'
    · exact .advance (hkind ▸ trivial) fun _ _ _ _ _ _ => .ret (by simp)
  · exact .advance (hkind ▸ trivial) fun _ _ _ _ _ _ => .ret (by simp)
  · exact .advance (hkind ▸ trivial) fun _ _ _ _ _ _ => .ret (by simp)
  · exact .advance (hkind ▸ trivial) fun _ _ _ _ _ _ => .ret (by simp)
  · exact .advance (hkind ▸ trivial) fun _ _ _ _ _ _ => .ret (by simp)
  · exact .advance (hkind ▸ trivial) fun _ _ _ _ _ _ => .ret (by simp)
  · exact .advance (hkind ▸ trivial) fun _ _ _ _ _ _ => .ret (by simp)
  · exact .advance (hkind ▸ trivial) fun _ _ _ _ _ _ => .ret (by simp)
  · exact .advance (hkind ▸ trivial) fun _ _ _ _ _ _ => .ret (by simp)
  · exact follows_regex (.inl hkind)
  · exact follows_regex (.inr hkind)
  · exact .bind (follows_template hg (hkind ▸ trivial)) fun t t' ht _ _ => .ret (by simp_all)
  · exact .bind (follows_template hg (hkind ▸ trivial)) fun t t' ht _ _ => .ret (by simp_all)
  · exact tracks_parenthesized hg start start' false env s s'
  · exact tracks_arrayLiteral hg env s s'
  · exact tracks_objectLiteral hg env s s'
  · exact .bind (tracks_function hg start start' false false env s s')
      fun f f' hf _ _ => .ret (by simp_all)
  · exact .bind (tracks_classDef hg hh start start' false env s s')
      fun c c' hc _ _ => .ret (by simp_all)
  · refine .advance (hkind ▸ trivial) fun _ _ _ _ s₁' _ => ?_
    refine .cond (tracks_eat _ env _ s₁') (fun s₂ s₂' => ?_) fun s₂ s₂' => ?_
    · exact tracks_metaProperty start start' (by simp) _ _ env s₂ s₂'
    · exact .ask (observes_isPunct _) (fun _ => .finish fun _ _ => .ret (by simp))
        fun _ => .unexpected
  · exact .unexpected

/-- A creation is read alike, with the heritage read by what is given for it. -/
theorem tracks_construct (hg : g.Tracked i) {heritage heritage' : Parse Expr}
    (hh : Tracks i heritage heritage') :
    Tracks i (construct g heritage) (construct g heritage') := by
  intro env s s'
  refine .token fun k span span' newline _ => ?_
  refine .bind (tracks_expectKey _ env s s') fun _ _ _ s₁ s₁' => ?_
  refine .cond (tracks_eat _ env s₁ s₁') (fun s₂ s₂' => ?_) fun s₂ s₂' => .start fun _ _ => ?_
  · exact tracks_metaProperty _ _ (by simp) _ _ env s₂ s₂'
  refine .bind (α := Expr) ?_ fun callee callee' hcallee s₃ s₃' => ?_
  · refine .ask (observes_isKey _) (fun _ => ?_) fun _ => ?_
    · exact hg.creation env s₂ s₂'
    · exact tracks_primary hg hh env s₂ s₂'
  refine .bind (tracks_repeatFrom (fun e e' he env s s' => ?_) hcallee env s₃ s₃')
    fun e e' he s₄ s₄' => ?_
  · -- links of a chain, up to the arguments
    refine .observe observes_kind fun k hk => ?_
    split
    · refine .advance (hk ▸ trivial) fun _ _ _ _ s₁' _ => ?_
      refine .bind (tracks_memberName env _ s₁') fun property property' h _ _ => ?_
      exact .finish fun _ _ => .ret (by simp_all)
    · refine .bind (tracks_computedMember hg env s s') fun property property' h _ _ => ?_
      exact .finish fun _ _ => .ret (by simp_all)
    · exact .failHere
    · exact .ret he.last
  refine .bind (α := List Expr) ?_ fun args args' hargs _ _ => ?_
  · exact .ask (observes_isPunct _) (fun _ => tracks_arguments hg env s₄ s₄')
      fun _ => .ret (.refl [])
  · exact .finish fun _ _ => .ret (by simp_all)

theorem tracks_optionalLink (hg : g.Tracked i) (start start' : Nat) {e e' : Expr}
    (he : Alike e e') : Tracks i (optionalLink g start e) (optionalLink g start' e') := by
  intro env s s'
  refine .observe observes_kind fun k _ => ?_
  split
  · refine .bind (tracks_arguments hg env s s') fun args args' hargs _ _ => ?_
    exact .finish fun _ _ => .ret (by simp_all)
  · refine .bind (tracks_computedMember hg env s s') fun property property' h _ _ => ?_
    exact .finish fun _ _ => .ret (by simp_all)
  · refine .bind (tracks_memberName env s s') fun property property' h _ _ => ?_
    exact .finish fun _ _ => .ret (by simp_all)

/-- A chain of links is read alike. -/
theorem tracks_leftHandSideWith (hg : g.Tracked i) {heritage heritage' : Parse Expr}
    (hh : Tracks i heritage heritage') :
    Tracks i (leftHandSideWith g heritage) (leftHandSideWith g heritage') := by
  intro env s s'
  refine .start fun start start' => ?_
  refine .bind (α := Expr) ?_ fun e e' he s₁ s₁' =>
    tracks_repeatFrom (fun e e' he env s s' => ?_) he env s₁ s₁'
  · refine .ask (observes_isKey _) (fun _ => ?_) fun _ => ?_
    · exact tracks_construct hg hh env s s'
    · exact tracks_primary hg hh env s s'
  refine .observe observes_kind fun k hk => ?_
  split
  · refine .advance (hk ▸ trivial) fun _ _ _ _ s₁' _ => ?_
    refine .bind (tracks_memberName env _ s₁') fun property property' h _ _ => ?_
    exact .finish fun _ _ => .ret (by simp_all)
  · refine .advance (hk ▸ trivial) fun _ _ _ _ s₁' _ => ?_
    exact .bind (tracks_optionalLink hg start start' he env _ s₁')
      fun link link' h _ _ => .ret h.again
  · refine .bind (tracks_computedMember hg env s s') fun property property' h _ _ => ?_
    exact .finish fun _ _ => .ret (by simp_all)
  · refine .bind (tracks_arguments hg env s s') fun args args' hargs _ _ => ?_
    exact .finish fun _ _ => .ret (by simp_all)
  · -- whether a template may follow is told from the expression, which is alike
    rw [Alike.isOptionalChain he]
    split
    · exact .failHere
    · refine .bind (follows_template hg (hk ▸ trivial)) fun quasi quasi' h _ _ => ?_
      exact .finish fun _ _ => .ret (by simp_all)
  · rw [Alike.isOptionalChain he]
    split
    · exact .failHere
    · refine .bind (follows_template hg (hk ▸ trivial)) fun quasi quasi' h _ _ => ?_
      exact .finish fun _ _ => .ret (by simp_all)
  · exact .ret he.last

theorem tracks_leftHandSide (hg : g.Tracked i) : Tracks i (leftHandSide g) (leftHandSide g) :=
  tracks_furtherOn fun _ _ hh => tracks_leftHandSideWith hg hh

/-! ### Operators -/

/-- What can be changed by one is what can be the target of a compound assignment. -/
theorem checkUpdateTarget_eq (e : Expr) :
    (∃ p, e.toSimpleTarget = .ok p ∧ checkUpdateTarget e = pure ()) ∨
      ∃ err span, e.toSimpleTarget = .error err ∧
        checkUpdateTarget e = fail .updateTarget span := by
  cases e with
  | ident i => exact .inl ⟨_, rfl, rfl⟩
  | member s o m isOptional =>
    unfold checkUpdateTarget Expr.toSimpleTarget
    dsimp only
    cases (Expr.member s o m isOptional).isOptionalChain with
    | true => exact .inr ⟨_, _, rfl, rfl⟩
    | false => exact .inl ⟨_, rfl, rfl⟩
  | _ => exact .inr ⟨_, _, rfl, rfl⟩

theorem tracks_checkUpdateTarget {e e' : Expr} (h : Alike e e') :
    Tracks i (checkUpdateTarget e) (checkUpdateTarget e') := by
  intro env s s'
  have htarget := Alike.toSimpleTarget h
  rcases checkUpdateTarget_eq e with ⟨p, hp, heq⟩ | ⟨err, span, herr, heq⟩
  · rcases checkUpdateTarget_eq e' with ⟨p', hp', heq'⟩ | ⟨err', span', herr', heq'⟩
    · rw [heq, heq']
      exact .ret (.refl ())
    · rw [hp, herr'] at htarget
      cases htarget
  · rw [heq]
    exact .fail

theorem tracks_postfixUpdate (hg : g.Tracked i) :
    Tracks i (postfixUpdate g) (postfixUpdate g) := by
  intro env s s'
  refine .start fun _ _ => ?_
  refine .bind (tracks_leftHandSide hg env s s') fun e e' he s₁ s₁' => ?_
  refine .observe observes_kind fun k hk => ?_
  split
  · next op hop =>
    refine .token fun _ _ _ newline _ => .ite (fun _ => .ret he) fun _ => ?_
    refine .bindStill (tracks_checkUpdateTarget he env s₁ s₁') (gives_checkUpdateTarget e)
      fun _ _ _ s₁' => ?_
    refine .advance (hk ▸ isSolid_of_updateOp? hop) fun _ _ _ _ _ _ => ?_
    exact .finish fun _ _ => .ret (by simp_all)
  · exact .ret he

theorem tracks_unary (hg : g.Tracked i) : Tracks i (unary g) (unary g) := by
  intro env s s'
  refine .start fun _ _ => .observe observes_kind fun k hk => ?_
  split
  · next op hop =>
    refine .advance (hk ▸ isSolid_of_unaryOp? hop) fun _ _ _ _ s₁' _ => ?_
    refine .bind (hg.operand env _ s₁') fun e e' he _ _ => ?_
    exact .finish fun _ _ => .ret (by simp_all)
  split
  · next op hop =>
    refine .advance (hk ▸ isSolid_of_updateOp? hop) fun _ _ _ _ s₁' _ => ?_
    refine .bind (hg.operand env _ s₁') fun e e' he s₂ s₂' => ?_
    refine .bind (tracks_checkUpdateTarget he env s₂ s₂') fun _ _ _ _ _ => ?_
    exact .finish fun _ _ => .ret (by simp_all)
  refine .read (.ite (fun h => ?_) fun _ => tracks_postfixUpdate hg env s s')
  rw [Bool.and_eq_true] at h
  refine .advance (hk ▸ Kind.isSolid_of_isName h.1) fun _ _ _ _ s₁' _ => ?_
  refine .bind (hg.operand env _ s₁') fun e e' he _ _ => ?_
  exact .finish fun _ _ => .ret (by simp_all)

/-- A chain of operators is read alike, by induction on the levels of precedence left. -/
theorem tracks_binary (hg : g.Tracked i) (least : Nat) :
    Tracks i (binary g least) (binary g least) := by
  -- on the distance to the tightest operator, which grows less to the right
  induction hn : InfixOp.tightest + 1 - least using Nat.strongRecOn generalizing least with
  | ind n ih =>
    intro env s s'
    rw [binary]
    refine .start fun _ _ => .bind (tracks_unary hg env s s') fun left left' hleft s₁ s₁' => ?_
    refine tracks_repeatFrom (fun left left' hleft env s s' => ?_) hleft env s₁ s₁'
    refine .observe observes_kind fun k hk => ?_
    split
    · exact .ret hleft.last
    next op hop =>
    split
    · exact .ret hleft.last
    next hleast =>
    refine .read (.ite (fun _ => .ret hleft.last) fun _ => ?_)
    refine .advance (hk ▸ isSolid_of_operator? hop) fun _ _ _ _ s₁' _ => ?_
    have hle := op.precedence_le
    refine .ite (fun _ => ?_) fun _ => ?_
    · refine .bind (hg.power env _ s₁') fun right right' hright _ _ => ?_
      exact .finish fun _ _ => .ret (Alike.operation op hleft hright).again
    · refine .bind (ih _ (by omega) _ rfl env _ s₁') fun right right' hright _ _ => ?_
      exact .finish fun _ _ => .ret (Alike.operation op hleft hright).again

theorem tracks_conditional (hg : g.Tracked i) : Tracks i (conditional g) (conditional g) := by
  intro env s s'
  refine .start fun _ _ => .bind (tracks_binary hg 0 env s s') fun test test' htest s₁ s₁' => ?_
  refine .cond (tracks_eat _ env s₁ s₁') (fun s₂ s₂' => ?_) fun _ _ => .ret htest
  refine .bind (hg.assignment.withIn true env s₂ s₂') fun c c' hc s₃ s₃' => ?_
  refine .bind (tracks_expect _ env s₃ s₃') fun _ _ _ s₄ s₄' => ?_
  refine .bind (hg.assignment env s₄ s₄') fun a a' ha _ _ => ?_
  exact .finish fun _ _ => .ret (by simp_all)

/-! ### Assignments -/

theorem follows_yieldExpr (hg : g.Tracked i) (hk : s.current.token.kind.IsSolid) :
    Follows i env s s' (yieldExpr g) (yieldExpr g) := by
  refine .start fun _ _ => .advance hk fun _ _ _ _ s₁' _ => ?_
  refine .bind (α := Bool) ?_ fun delegate delegate' h s₂ s₂' => ?_
  · exact .token fun _ _ _ _ _ => .ite (fun _ => .ret (.refl false))
      fun _ => tracks_eat _ env _ s₁'
  obtain rfl : delegate = delegate' := h
  refine .token fun k span span' newline _ => .ite (fun _ => ?_) fun _ => ?_
  · exact .finish fun _ _ => .ret (by simp)
  · refine .bind (hg.assignment env s₂ s₂') fun e e' he _ _ => ?_
    exact .finish fun _ _ => .ret (by simp_all)

theorem tracks_plainAssignment (hg : g.Tracked i) :
    Tracks i (plainAssignment g) (plainAssignment g) := by
  intro env s s'
  refine .start fun _ _ => .bind (tracks_conditional hg env s s') fun left left' hleft s₁ s₁' => ?_
  refine .observe observes_kind fun k hk => ?_
  split
  · exact .ret hleft
  next op hop =>
  refine .bindStill (.ofExcept ?_) (.ofExcept fun _ _ => rfl) fun target target' h s₁' => ?_
  · split
    · exact Alike.toPattern hleft
    · exact Alike.toSimpleTarget hleft
  refine .advance (hk ▸ isSolid_of_assignOp? hop) fun _ _ _ _ s₂' _ => ?_
  refine .bind (hg.assignment env _ s₂') fun right right' hright _ _ => ?_
  exact .finish fun _ _ => .ret (by simp_all)

theorem exists_name {k : Kind} (h : (match k with | .name _ => true | _ => false) = true) :
    ∃ word, k = .name word := by
  cases k with
  | name word => exact ⟨word, rfl⟩
  | _ => cases h

/-- Any assignment expression is read alike. -/
theorem tracks_assignmentExpr (hg : g.Tracked i) :
    Tracks i (assignmentExpr g) (assignmentExpr g) := by
  intro env s s'
  refine .token fun k span span' newline hk => ?_
  have hkind : s.current.token.kind = k := congrArg Token.kind hk
  dsimp only [Token.isName]
  refine .read (.ite (fun h => ?_) fun _ => ?_)
  · rw [Bool.and_eq_true] at h
    exact follows_yieldExpr hg (hkind ▸ Kind.isSolid_of_isName h.1)
  refine .ask observes_isAnyName (fun hname => ?_) fun _ => tracks_plainAssignment hg env s s'
  obtain ⟨word, hword⟩ := exists_name hname
  refine .peek (hword ▸ trivial) fun k₁ span₁ span₁' newline₁ s' hnext => ?_
  have hnext' : s.next.current.token.kind = k₁ := congrArg Token.kind hnext
  dsimp only [Token.isPunct]
  refine .ite (fun h => ?_) fun _ => ?_
  · rw [Bool.and_eq_true] at h
    refine .bindAt (hg.pattern env s s') fun param param' s₁ s₁' heq hparam => ?_
    -- the parameter is the name just looked at, so the arrow is next
    obtain rfl := hg.pattern_name hword _ _ heq
    refine .advance (Kind.isSolid_of_isPunct (hnext' ▸ h.1)) fun _ _ _ _ s₂' _ => ?_
    exact tracks_arrowBody hg _ _ false (hparam.cons (.refl [])) env _ s₂'
  split
  · refine .ite (fun _ => ?_) fun _ => tracks_plainAssignment hg env s s'
    refine .advance (hword ▸ trivial) fun _ _ _ _ s₁' _ => ?_
    refine .bind (hg.pattern env _ s₁') fun param param' hparam s₂ s₂' => ?_
    refine .bind (tracks_expect _ env s₂ s₂') fun _ _ _ s₃ s₃' => ?_
    exact tracks_arrowBody hg _ _ true (hparam.cons (.refl [])) env s₃ s₃'
  · exact tracks_plainAssignment hg env s s'

end Espalier.Grammar
