import Espalier.Proofs.Grammar.Literal

/-!
# Expressions are nested

Every reader of expressions reads at least one token and makes nested nodes of what it reads,
whether these are expressions or the patterns that they turn out to be. An expression between
parentheses is smaller than what was read, so a node that extends it starts at the parenthesis.
-/

namespace Espalier.Grammar

open Parse Token

variable {cs : List Char} {lo : Nat} {env : Env} {st : State} {ts : List Tree} {g : Grammar}

/-! ### Arrows -/

/-- The body of an arrow function: a block or an expression. -/
theorem reads_arrowBodyPart (hg : g.IsSound cs) : Reads cs (do
    if ← isPunct .leftBrace then return ArrowBody.block (← Parse.withIn true (block g))
    else return ArrowBody.expr (← g.assignment)) := by
  intro env st hst
  refine .ask rfl (fun _ => ?_) fun _ => ?_
  · exact .first ((reads_block hg).withIn true) hst.starts fun body st₁ h₁ => .ret h₁
  · exact .first hg.assignment hst.starts fun body st₁ h₁ => .ret h₁

/-- An arrow function starts where its parameters do. -/
theorem gives_arrowBody (hg : g.IsSound cs) {params : List Pattern} (isAsync : Bool)
    (h : Trail cs lo st (nodes params)) :
    Gives (arrowBody g lo isAsync params) env st fun e st' => Trail cs lo st' (nodes e) := by
  refine .next ((reads_arrowBodyPart hg).withinFunction isAsync false) h fun body st₁ h₁ => ?_
  exact .node h₁ rfl (by simp; tauto)

/-- The parameters that expressions spell fit wherever the expressions do. -/
theorem fits_arrowParams {items : List Expr} {params : List Pattern} {hi : Nat}
    (h : arrowParams items = .ok params) (hfit : ∀ t ∈ nodes items, t.Fits cs lo hi) :
    ∀ t ∈ nodes params, t.Fits cs lo hi := by
  induction items generalizing params with
  | nil =>
    cases h
    exact hfit
  | cons e es ih =>
    obtain ⟨p, hp, h⟩ := exists_of_bind_eq_ok h
    obtain ⟨_, -, h⟩ := exists_of_bind_eq_ok h
    obtain ⟨ps, hps, h⟩ := exists_of_bind_eq_ok h
    cases h
    rw [nodes_cons, List.forall_mem_append] at hfit ⊢
    refine ⟨List.forall_mem_singleton.mpr ?_, ih hps hfit.2⟩
    exact fits_toPattern e hp (hfit.1 _ (List.mem_singleton_self _))

/-! ### Parentheses -/

/-- Each of the expressions ends before the next one starts. -/
def InOrder (items : List Expr) : Prop :=
  items.Pairwise fun e e' => e.span.stop ≤ e'.span.start

/-- Expressions that follow each other fit into the span from the start of the first one to the end
of the last one. -/
theorem fits_sequence {first : Expr} {others : List Expr} {hi : Nat}
    (hfit : ∀ t ∈ nodes (first :: others), t.Fits cs lo hi) (horder : InOrder (first :: others)) :
    (Expr.sequence ⟨first.span.start, ((others.getLast?).getD first).span.stop⟩
      (first :: others)).tree.Fits cs lo hi := by
  have hfit' : ∀ e ∈ first :: others, e.tree.Fits cs lo hi := fun e he =>
    hfit e.tree (mem_nodes he (List.mem_singleton_self _))
  have hlast : (others.getLast?).getD first ∈ (first :: others).getLast? := by
    rw [List.getLast?_cons]
    exact rfl
  generalize (others.getLast?).getD first = last at hlast
  have hinit := List.dropLast_append_getLast? last hlast
  have hmem : last ∈ first :: others := List.mem_of_getLast? hlast
  -- Every item starts no earlier than the first one and ends no later than the last one.
  have hstart : ∀ e ∈ first :: others, first.span.start ≤ e.span.start := by
    intro e he
    rcases List.mem_cons.mp he with rfl | he
    · exact Nat.le_refl _
    · have hle := (List.pairwise_cons.mp horder).1 e he
      have hlies := lies_of_fits (hfit' first List.mem_cons_self)
      omega
  have hstop : ∀ e ∈ first :: others, e.span.stop ≤ last.span.stop := by
    intro e he
    unfold InOrder at horder
    rw [← hinit, List.mem_append, List.mem_singleton] at he
    rw [← hinit, List.pairwise_append] at horder
    rcases he with he | rfl
    · have hle := horder.2.2 e he last (List.mem_singleton_self _)
      have hlies := lies_of_fits (hfit' last hmem)
      omega
    · exact Nat.le_refl _
  obtain ⟨hlo, hlt, -, hborder, -⟩ := lies_of_fits (hfit' first List.mem_cons_self)
  obtain ⟨-, -, hhi, -, hborder'⟩ := lies_of_fits (hfit' last hmem)
  have hlt' : first.span.start < last.span.stop :=
    Nat.lt_of_lt_of_le hlt (hstop first List.mem_cons_self)
  refine .intro ⟨hlo, Nat.le_of_lt hlt', hhi, Nat.lt_of_lt_of_le hlt' hhi, fun _ => hlt', hborder,
    hborder'⟩ fun c hc => ?_
  simp only [Tree.parts, Expr.tree, List.flatMap_cons, List.flatMap_nil, TreeField.nodes_list,
    exprTrees_eq_nodes, List.append_nil] at hc
  obtain ⟨e, he, hc⟩ := List.mem_flatMap.mp hc
  rw [List.mem_singleton.mp hc]
  have hclose := (hfit' e he).from_start.upto_stop (span_tree e).2
  rw [(span_tree e).1] at hclose
  exact hclose.widen (hstart e he) (hstop e he)

/-- One more expression at the end keeps the order if the others end before it starts. -/
theorem InOrder.concat {items : List Expr} {item : Expr} (h : InOrder items)
    (hitem : ∀ e ∈ items, e.span.stop ≤ item.span.start) : InOrder (items ++ [item]) := by
  refine List.pairwise_append.mpr ⟨h, List.pairwise_singleton _ _, fun e he e' he' => ?_⟩
  rw [List.mem_singleton.mp he']
  exact hitem e he

/-- Parentheses, with the items in order since they may become a sequence. -/
theorem gives_parenthesized (hg : g.IsSound cs) (isAsync : Bool) (h : Starts cs lo st)
    (hasync : isAsync = true → Trail cs lo st [(⟨"async", ⟨lo, lo + 5⟩⟩ : Ident).tree]) :
    Gives (parenthesized g lo isAsync) env st fun e st' => Trail cs lo st' (nodes e) := by
  obtain ⟨ts, hts⟩ : ∃ ts, ts = if isAsync then [(⟨"async", ⟨lo, lo + 5⟩⟩ : Ident).tree] else [] :=
    ⟨_, rfl⟩
  refine .bind fun _ st₁ heq => ?_
  have hparen := reads_expect .leftParen env st h.isIn _ st₁ heq
  have h₁ : Trail cs lo st₁ ts := by
    rw [hts]
    split
    · next hb => exact (hasync hb).trans hparen
    · exact h.trans hparen
  -- The items are kept in reverse while they are read, and in order in the source.
  refine .bind (.withIn (.mono (gives_repeatFrom
    (I := fun (x : List Expr × Option Pattern) st =>
      Trail cs lo st (nodes x ++ ts) ∧ InOrder x.1.reverse) ⟨h₁, .nil⟩
    fun x st h => ?_) fun x st₂ h₂ => ?_))
  · obtain ⟨items, rest⟩ := x
    obtain ⟨h, horder⟩ := h
    refine .ask rfl (fun _ => .ret ⟨h, horder⟩) fun _ => .step rfl ?_
    refine .eatFirst (eats_eat _) h.isIn.starts (fun h' => ?_) ?_
    · refine .after h (gives_restPattern hg h'.starts) fun p st' h' => .ret ⟨h'.sub ?_, horder⟩
      simp
      tauto
    · refine .bind fun item st' heq => ?_
      have hitem := hg.assignment _ st h.isIn item st' heq
      -- Each of the items before ends where the token before this one does.
      have hbefore : ∀ e ∈ items.reverse, e.span.stop ≤ item.span.start := by
        intro e he
        have hmem : e.tree ∈ nodes items :=
          mem_nodes (List.mem_reverse.mp he) (List.mem_singleton_self _)
        have he := lies_of_fits (h.fits e.tree (by simp [hmem]))
        have hitem := lies_of_fits (hitem.fits item.tree (List.mem_singleton_self _))
        exact Nat.le_trans he.2.2.1 (Nat.le_trans h.isIn.prevEnd_le hitem.1)
      have horder' : InOrder (item :: items).reverse := by
        rw [List.reverse_cons]
        exact horder.concat hbefore
      have h' : Trail cs lo st' (nodes (item :: items, rest) ++ ts) :=
        (h.trans hitem).sub (by simp)
      exact .eat (eats_eat _) h' (fun h' => .ret ⟨h', horder'⟩) (.ret ⟨h', horder'⟩)
  · obtain ⟨items, rest⟩ := x
    obtain ⟨h₂, horder⟩ := h₂
    refine .pass (reads_expect _).mayRead h₂ fun _ st₃ h₃ => .step rfl (.step rfl ?_)
    split
    · refine .advance h₃ fun h₄ => .bind (.ofExcept fun params hparams => ?_)
      have hfits := fits_arrowParams hparams fun t ht => h₄.fits t (by simp at ht ⊢; tauto)
      refine gives_arrowBody hg isAsync (h₄.of_fits fun t ht => ?_)
      rw [nodes_append, nodes_toList, List.mem_append] at ht
      rcases ht with ht | ht
      · exact hfits t ht
      · exact h₄.fits t (by simp [ht])
    · split
      · exact .fail
      · split
        · next hb => exact .node h₃ rfl (by simp [hts, hb, Expr.tree]; tauto)
        · split
          · exact .step rfl .fail
          · next item heq =>
            exact .ret (h₃.sub (by simp [List.reverse_eq_iff.mp heq]))
          · next first others hne heq =>
            refine .ret (h₃.of_fits (List.forall_mem_singleton.mpr ?_))
            have hfit : ∀ t ∈ nodes (first :: others), t.Fits cs lo st₃.prevEnd := fun t ht =>
              h₃.fits t (by rw [← heq] at ht; simp at ht ⊢; tauto)
            dsimp only at horder
            rw [heq] at horder ⊢
            exact fits_sequence hfit horder

/-! ### Members and calls -/

/-- The name of a member. -/
theorem reads_memberName : Reads cs memberName := by
  intro env st hst
  refine .ask rfl (fun _ => .failHere) fun _ => ?_
  exact .first reads_identifierName hst.starts fun name st₁ h₁ => .ret h₁

/-- A member between brackets. -/
theorem reads_computedMember (hg : g.IsSound cs) : Reads cs (computedMember g) := by
  intro env st hst
  refine .first (reads_expect _) hst.starts fun _ st₁ h₁ => ?_
  refine .next ((reads_expression hg).withIn true) h₁ fun key st₂ h₂ => ?_
  exact .pass (reads_expect _).mayRead h₂ fun _ st₃ h₃ => .ret (h₃.sub (by simp [MemberName.tree]))

/-- Arguments between parentheses. -/
theorem reads_arguments (hg : g.IsSound cs) : Reads cs (arguments g) := by
  intro env st hst
  refine .first (reads_expect _) hst.starts fun _ st₁ h₁ => ?_
  refine .maybe (mayRead_itemsBefore _ ?_) h₁ fun arguments st₂ h₂ => ?_
  · intro env st hst
    exact .first (reads_spreadOrAssignment hg) hst.starts fun e st' h' => .ret (h'.sub (by simp))
  · exact .pass (reads_expect _).mayRead h₂ fun _ st₃ h₃ => .ret (h₃.sub (by simp))

/-- `new.target` and `import.meta` are leaves over their two words. -/
theorem gives_metaProperty {object : Ident} {name : String} {cause : SyntaxCause}
    (h : Trail cs lo st [object.tree]) :
    Gives (metaProperty lo object name cause) env st fun e st' => Trail cs lo st' (nodes e) := by
  refine .next reads_identifierName h fun property st₁ h₁ => ?_
  split
  · exact .fail
  · exact .node h₁ rfl (by simp)

/-- A token that is an expression. -/
theorem gives_literal {e : Expr} {type : NodeType} {fields : List TreeField} (hst : st.IsIn cs)
    (hk : st.current.token.kind.IsSolid)
    (hnode : e.tree = ⟨type, st.current.token.span, fields⟩)
    (hparts : fields.flatMap TreeField.nodes = []) :
    Gives (do
      let _ ← advance
      return e) env st fun e st' => Trail cs st.pos st' (nodes e) := by
  refine .step rfl (.ret ?_)
  show Trail cs st.pos st.next [e.tree]
  rw [hnode]
  exact hst.leaf hk hparts

/-- The name `async` takes up five bytes. -/
theorem trail_async (hst : st.IsIn cs) (hk : st.current.token.kind = .name "async") :
    Trail cs st.pos st.next [(⟨"async", ⟨st.pos, st.pos + 5⟩⟩ : Ident).tree] := by
  have hspan : st.current.token.span = ⟨st.pos, st.pos + 5⟩ := by
    obtain ⟨text, hreads, hspells⟩ := hst.isRead.reads
    rw [hk] at hspells
    have hend : st.current.after.pos = _ := hreads.pos_eq
    rw [show text = "async".toList from hspells.1] at hend
    rw [hst.isRead.span_eq, hst.pos_eq, hend]
    rfl
  have hleaf : Trail cs st.pos st.next
      [⟨.identifier, st.current.token.span, [.text "name" "async"]⟩] :=
    hst.leaf (by rw [hk]; trivial) rfl
  rw [hspan] at hleaf
  exact hleaf

/-- Every form of primary expression leaves its nodes on the trail. -/
theorem reads_primary (hg : g.IsSound cs) {heritage : Parse Expr} (hh : Reads cs heritage) :
    Reads cs (primary g heritage) := by
  intro env st hst
  refine .step rfl (.step rfl ?_)
  dsimp only
  split
  · next text hk =>
    refine .step rfl ?_
    split
    · refine .advanceFirst hst.starts (by rw [hk]; trivial) fun h₁ => ?_
      exact .bind ((gives_function hg true false h₁.starts).mono fun f st' h' =>
        .ret (h'.sub (by simp [Expr.tree])))
    split
    · next hasync =>
      -- only `async` in front of `function` gets here
      have htext : text = "async" := by
        simp at hasync
        exact hasync.1.1
      rw [htext] at hk
      refine .advanceFirst hst.starts (by rw [hk]; trivial) fun h₁ => ?_
      exact gives_parenthesized hg true h₁.starts fun _ => trail_async hst hk
    · exact gives_literal hst (by rw [hk]; trivial) rfl rfl
  · next hk => exact gives_literal hst (by rw [hk]; trivial) rfl rfl
  · next hk => exact gives_literal hst (by rw [hk]; trivial) rfl rfl
  · next hk => exact gives_literal hst (by rw [hk]; trivial) rfl rfl
  · next hk => exact gives_literal hst (by rw [hk]; trivial) rfl rfl
  · next hk => exact gives_literal hst (by rw [hk]; trivial) rfl rfl
  · next hk => exact gives_literal hst (by rw [hk]; trivial) rfl rfl
  · next hk => exact gives_literal hst (by rw [hk]; trivial) rfl rfl
  · next hk => exact gives_literal hst (by rw [hk]; trivial) rfl rfl
  · next hk => exact reads_regex hst hk
  · next hk => exact reads_regex hst hk
  · exact .first (reads_template hg) hst.starts fun t st₁ h₁ => .ret h₁
  · exact .first (reads_template hg) hst.starts fun t st₁ h₁ => .ret h₁
  · exact gives_parenthesized hg false hst.starts nofun
  · exact reads_arrayLiteral hg env st hst
  · exact reads_objectLiteral hg env st hst
  · exact .bind ((gives_function hg false false hst.starts).mono fun f st' h' =>
      .ret (h'.sub (by simp [Expr.tree])))
  · exact .bind ((gives_classDef hg hh false hst.starts).mono fun c st' h' =>
      .ret (h'.sub (by simp [Expr.tree])))
  · next hk =>
    -- `import` stands alone only in `import.meta` and in a call
    have hleaf : Trail cs st.pos st.next [(⟨"import", st.current.token.span⟩ : Ident).tree] :=
      hst.leaf (by rw [hk]; trivial) rfl
    refine .step rfl ?_
    refine .eat (eats_eat _) hleaf (fun h₁ => gives_metaProperty h₁) ?_
    exact .ask rfl (fun _ => .node hleaf rfl (by simp)) fun _ => .unexpected
  · exact .unexpected

/-- A member, whether or not it belongs to an optional chain. -/
theorem trail_member {e : Expr} {property : MemberName} (isOptional : Bool) (h : Trail cs lo st ts)
    (hparts : ∀ t ∈ nodes e ++ nodes property, t ∈ ts) :
    Trail cs lo st (nodes (Expr.member ⟨lo, st.prevEnd⟩ e property isOptional)) := by
  show Trail cs lo st [(Expr.member _ e property isOptional).tree]
  rw [Expr.tree]
  split
  · exact h.node hparts
  · exact h.node hparts

/-- A call, whether or not it belongs to an optional chain. -/
theorem trail_call {e : Expr} {arguments : List Expr} (isOptional : Bool) (h : Trail cs lo st ts)
    (hparts : ∀ t ∈ nodes e ++ nodes arguments, t ∈ ts) :
    Trail cs lo st (nodes (Expr.call ⟨lo, st.prevEnd⟩ e arguments isOptional)) := by
  show Trail cs lo st [(Expr.call _ e arguments isOptional).tree]
  rw [Expr.tree]
  split
  · exact h.node (by simpa using hparts)
  · exact h.node (by simpa using hparts)

theorem gives_optionalLink (hg : g.IsSound cs) {e : Expr} (h : Trail cs lo st (nodes e)) :
    Gives (optionalLink g lo e) env st fun e st' => Trail cs lo st' (nodes e) := by
  refine .step rfl ?_
  split
  · refine .next (reads_arguments hg) h fun arguments st₁ h₁ => .finish h₁ (.ret ?_)
    exact trail_call _ h₁ (by simp; tauto)
  · refine .next (reads_computedMember hg) h fun property st₁ h₁ => .finish h₁ (.ret ?_)
    exact trail_member _ h₁ (by simp)
  · refine .next reads_memberName h fun property st₁ h₁ => .finish h₁ (.ret ?_)
    exact trail_member _ h₁ (by simp)

theorem mayRead_newArguments (hg : g.IsSound cs) : MayRead cs (do
    if ← isPunct .leftParen then arguments g else return [] : Parse (List Expr)) := by
  intro env st hst
  refine .ask rfl (fun _ => ?_) fun _ => .ret (.inl ⟨rfl, rfl⟩)
  exact (reads_arguments hg).mayRead env st hst

/-- What follows `new`, if that is another `new` or not. -/
theorem reads_newOr (p : Parse Expr) {p' : Parse Expr} (hp : Reads cs p) (hp' : Reads cs p') :
    Reads cs (do if ← isKey .newKw then p else p') := by
  intro env st hst
  exact .ask rfl (fun _ => hp env st hst) fun _ => hp' env st hst

/-- `new` with its callee and arguments leaves one node around theirs. -/
theorem reads_construct (hg : g.IsSound cs) {heritage : Parse Expr} (hh : Reads cs heritage) :
    Reads cs (construct g heritage) := by
  intro env st hst
  refine .step rfl (.bind ?_)
  refine ((eats_eatKey .newKw).gives_next fun _ _ _ => .failExpecting).mono fun _ st₁ h₁ => ?_
  obtain ⟨rfl, hsolid⟩ := h₁
  have hnew : Trail cs st.pos st.next [(⟨"new", st.current.token.span⟩ : Ident).tree] :=
    hst.leaf hsolid rfl
  refine .eat (eats_eat _) hnew (fun h₂ => gives_metaProperty h₂) (.step rfl ?_)
  -- The callee starts behind `new`.
  have hcallee := reads_newOr _ hg.creation (reads_primary hg hh)
  refine .first hcallee hnew.isIn.starts fun callee st₂ h₂ => ?_
  refine .bind ((gives_rounds h₂ fun e st h => .step rfl ?_).mono fun callee st₃ h₃ => ?_)
  · split
    · refine .advance h fun h₁ => ?_
      refine .next reads_memberName h₁ fun property st₂ h₂ => .finish h₂ (.ret ?_)
      exact trail_member _ h₂ (by simp)
    · refine .next (reads_computedMember hg) h fun property st₁ h₁ => .finish h₁ (.ret ?_)
      exact trail_member _ h₁ (by simp)
    · exact .failHere
    · exact .ret h
  · refine .maybe (mayRead_newArguments hg) (hnew.trans h₃) fun arguments st₄ h₄ => ?_
    exact .node h₄ rfl (by simp; tauto)

/-- A chain of members, calls and templates, whatever reads the heritage of its classes. -/
theorem reads_leftHandSideWith (hg : g.IsSound cs) {heritage : Parse Expr}
    (hh : Reads cs heritage) : Reads cs (leftHandSideWith g heritage) := by
  intro env st hst
  refine .step rfl ?_
  have hhead := reads_newOr _ (reads_construct hg hh) (reads_primary hg hh)
  refine .first hhead hst.starts fun e st₁ h₁ => ?_
  -- each round wraps what stands to its left in one more node
  refine gives_rounds h₁ fun e st h => .step rfl ?_
  split
  · refine .advance h fun h₁ => ?_
    refine .next reads_memberName h₁ fun property st₂ h₂ => .finish h₂ (.ret ?_)
    exact trail_member _ h₂ (by simp)
  · exact .advance h fun h₁ => .bind ((gives_optionalLink hg h₁).mono fun e st' h' => .ret h')
  · refine .next (reads_computedMember hg) h fun property st₁ h₁ => .finish h₁ (.ret ?_)
    exact trail_member _ h₁ (by simp)
  · refine .next (reads_arguments hg) h fun arguments st₁ h₁ => .finish h₁ (.ret ?_)
    exact trail_call _ h₁ (by simp; tauto)
  · split
    · exact .failHere
    · refine .next (reads_template hg) h fun quasi st₁ h₁ => ?_
      exact .node h₁ rfl (by simp)
  · split
    · exact .failHere
    · refine .next (reads_template hg) h fun quasi st₁ h₁ => ?_
      exact .node h₁ rfl (by simp)
  · exact .ret h

theorem reads_leftHandSide (hg : g.IsSound cs) : Reads cs (leftHandSide g) :=
  reads_furtherOn fun _ hh => reads_leftHandSideWith hg hh

/-! ### Operators -/

theorem isSolid_of_unaryOp? {k : Token.Kind} {op : UnaryOp} (h : unaryOp? k = some op) :
    k.IsSolid := by
  unfold unaryOp? at h
  split at h <;> trivial

theorem isSolid_of_updateOp? {k : Token.Kind} {op : UpdateOp} (h : updateOp? k = some op) :
    k.IsSolid := by
  unfold updateOp? at h
  split at h <;> trivial

theorem isSolid_of_operator? {k : Token.Kind} {op : InfixOp} (h : k.operator? = some op) :
    k.IsSolid := by
  cases k with
  | eof | invalid => cases h
  | _ => trivial

theorem isSolid_of_assignOp? {k : Token.Kind} {op : AssignOp} (h : k.assignOp? = some op) :
    k.IsSolid := by
  cases k with
  | eof | invalid => cases h
  | _ => trivial

/-- The check of what is changed in place reads nothing. -/
theorem gives_checkUpdateTarget (e : Expr) :
    Gives (checkUpdateTarget e) env st fun _ st' => st' = st := by
  unfold checkUpdateTarget
  split
  · exact .ret rfl
  · split
    · exact .fail
    · exact .ret rfl
  · exact .fail

theorem reads_postfixUpdate (hg : g.IsSound cs) : Reads cs (postfixUpdate g) := by
  intro env st hst
  refine .step rfl ?_
  refine .first (reads_leftHandSide hg) hst.starts fun e st₁ h₁ => .step rfl ?_
  split
  · refine .step rfl ?_
    split
    · exact .ret h₁
    · refine .bind ((gives_checkUpdateTarget e).mono fun _ st₂ heq => ?_)
      subst heq
      exact .advance h₁ fun h₂ => .node h₂ rfl (by simp)
  · exact .ret h₁

/-- A prefix operator leaves one node around its operand. -/
theorem reads_unary (hg : g.IsSound cs) : Reads cs (unary g) := by
  intro env st hst
  refine .step rfl (.step rfl ?_)
  split
  · next op hop =>
    refine .advanceFirst hst.starts (isSolid_of_unaryOp? hop) fun h₁ => ?_
    refine .next hg.operand h₁ fun argument st₂ h₂ => ?_
    exact .node h₂ rfl (by simp)
  · split
    · next op hop =>
      refine .advanceFirst hst.starts (isSolid_of_updateOp? hop) fun h₁ => ?_
      refine .next hg.operand h₁ fun argument st₂ h₂ => ?_
      refine .bind ((gives_checkUpdateTarget argument).mono fun _ st₃ heq => ?_)
      subst heq
      exact .node h₂ rfl (by simp)
    · refine .step rfl ?_
      split
      · -- `await` is an operator inside async functions only
        next hawait =>
        have hsolid := Kind.isSolid_of_isName ((Bool.and_eq_true _ _).mp hawait).1
        refine .advanceFirst hst.starts hsolid fun h₁ => ?_
        refine .next hg.operand h₁ fun argument st₂ h₂ => ?_
        exact .node h₂ rfl (by simp)
      · exact reads_postfixUpdate hg env st hst

theorem gives_operation (op : InfixOp) {left right : Expr}
    (h : Trail cs lo st (nodes right ++ nodes left)) :
    Gives (do return Round.again (Expr.operation (← finish lo) op left right)) env st fun r st' =>
      Trail cs lo st' (nodes r) := by
  refine .finish h (.ret ?_)
  cases op with
  | binary op => exact h.node (by simp)
  | logical op => exact h.node (by simp)

/-- A chain of infix operators of at least the given precedence, by induction on how many tighter
ones there are. -/
theorem reads_binary (hg : g.IsSound cs) (least : Nat) : Reads cs (binary g least) := by
  -- `least` grows with each right operand, up to the tightest operator
  induction hn : InfixOp.tightest + 1 - least using Nat.strongRecOn generalizing least with
  | ind n ih =>
    intro env st hst
    rw [binary]
    refine .step rfl ?_
    refine .first (reads_unary hg) hst.starts fun left st₁ h₁ => ?_
    refine gives_rounds h₁ fun left st h => .step rfl ?_
    split
    · exact .ret h
    · next op hop =>
      split
      · exact .ret h
      · next hleast =>
        refine .step rfl ?_
        split
        · exact .ret h
        · refine .advance h fun h₁ => ?_
          have hle := op.precedence_le
          split
          · -- a power is read as its own right operand, at the same level
            exact .next hg.power h₁ fun right st₂ h₂ => gives_operation op h₂
          · exact .next (ih _ (by omega) _ rfl) h₁ fun right st₂ h₂ => gives_operation op h₂

/-- A conditional leaves one node around its three parts. -/
theorem reads_conditional (hg : g.IsSound cs) : Reads cs (conditional g) := by
  intro env st hst
  refine .step rfl ?_
  refine .first (reads_binary hg 0) hst.starts fun test st₁ h₁ => ?_
  refine .eat (eats_eat _) h₁ (fun h₂ => ?_) (.ret h₁)
  refine .next (hg.assignment.withIn true) h₂ fun consequent st₃ h₃ => ?_
  refine .pass (reads_expect _).mayRead h₃ fun _ st₄ h₄ => ?_
  refine .next hg.assignment h₄ fun alternate st₅ h₅ => ?_
  exact .node h₅ rfl (by simp)

/-! ### Assignments -/

/-- Whether the values of an iterable are yielded, which a star on the same line tells. -/
theorem mayRead_delegate : MayRead cs (do
    if (← token).newlineBefore then return false else eat .star : Parse Bool) := by
  intro env st hst
  refine .step rfl ?_
  split
  · exact .ret (.inl ⟨rfl, rfl⟩)
  · exact (eats_eat _).mayRead env st hst

/-- `yield` leaves one node, with or without an argument. -/
theorem gives_yieldExpr (hg : g.IsSound cs) (hst : st.IsIn cs)
    (hk : st.current.token.kind.IsSolid) :
    Gives (yieldExpr g) env st fun e st' => Trail cs st.pos st' (nodes e) := by
  refine .step rfl ?_
  refine .advanceFirst hst.starts hk fun h₁ => ?_
  refine .pass mayRead_delegate h₁ fun delegate st₂ h₂ => .step rfl ?_
  split
  · exact .node h₂ rfl (by simp)
  · refine .next hg.assignment h₂ fun argument st₃ h₃ => ?_
    exact .node h₃ rfl (by simp)

theorem reads_plainAssignment (hg : g.IsSound cs) : Reads cs (plainAssignment g) := by
  intro env st hst
  refine .step rfl ?_
  refine .first (reads_conditional hg) hst.starts fun left st₁ h₁ => .step rfl ?_
  split
  · exact .ret h₁
  · next op hop =>
    refine .bind (.ofExcept fun target htarget => ?_)
    have hleft := h₁.fits left.tree (List.mem_singleton_self _)
    have hfits : target.tree.Fits cs st.pos st₁.prevEnd := by
      split at htarget
      · exact fits_toPattern left htarget hleft
      · rw [tree_toSimpleTarget htarget]
        exact hleft
    refine .advance (h₁.cons hfits) fun h₂ => ?_
    refine .next hg.assignment h₂ fun right st₃ h₃ => ?_
    exact .node h₃ rfl (by simp)

/-- An arrow function with one bare parameter. -/
theorem gives_bareArrow (hg : g.IsSound cs) (isAsync : Bool) {param : Pattern}
    (h : Trail cs lo st (nodes param)) :
    Gives (arrowBody g lo isAsync [param]) env st fun e st' => Trail cs lo st' (nodes e) :=
  gives_arrowBody hg isAsync h

/-- Whatever the form of an assignment expression, its nodes lie on the trail. -/
theorem reads_assignmentExpr (hg : g.IsSound cs) : Reads cs (assignmentExpr g) := by
  intro env st hst
  refine .step rfl (.step rfl ?_)
  split
  · next hyield =>
    exact gives_yieldExpr hg hst (Kind.isSolid_of_isName ((Bool.and_eq_true _ _).mp hyield).1)
  · obtain ⟨b, heq, hsolid⟩ := asks_isAnyName env st
    refine .ask heq (fun hb => .step rfl ?_) fun _ => reads_plainAssignment hg env st hst
    split
    · refine .first hg.pattern hst.starts fun param st₁ h₁ => ?_
      exact .advance h₁ fun h₂ => gives_bareArrow hg false h₂
    · split
      · split
        · refine .advanceFirst hst.starts (hsolid hb) fun h₁ => ?_
          refine .next hg.pattern h₁ fun param st₂ h₂ => ?_
          refine .pass (reads_expect _).mayRead h₂ fun _ st₃ h₃ => ?_
          exact gives_bareArrow hg true h₃
        · exact reads_plainAssignment hg env st hst
      · exact reads_plainAssignment hg env st hst

end Espalier.Grammar
