import Espalier.Grammar.Expression
import Espalier.Proofs.Grammar.Cover
import Espalier.Proofs.Grammar.Function

/-!
# Literals and parentheses are nested

The tokens of templates and regular expressions are read a second time, from the place where they
start, so they are as good as any others. Expressions between parentheses follow each other, which
is why a sequence may reach from the first of them to the last one.
-/

namespace Espalier

open Parse Token

/-! ### Tokens that are read again -/

namespace Parse

variable {cs : List Char} {lo : Nat} {st : State} {ts : List Tree}

/-- The state with its current token read again. -/
abbrev State.reread (st : State) (again : Bool → Cursor → Scanned) : State :=
  { st with current := again st.current.token.newlineBefore st.current.first }

/-- Reading a token again from its start leaves the state in the source. -/
theorem State.IsIn.reread {again : Bool → Cursor → Scanned} (h : st.IsIn cs)
    (hread : (again st.current.token.newlineBefore st.current.first).IsRead)
    (hfirst : (again st.current.token.newlineBefore st.current.first).first = st.current.first) :
    (st.reread again).IsIn cs := by
  have hpos : (st.reread again).pos = st.pos := by
    show (again st.current.token.newlineBefore st.current.first).token.span.start = _
    rw [hread.span_eq, hfirst, h.pos_eq]
  refine ⟨?_, hread, h.isBorder_prevEnd, hpos ▸ h.prevEnd_le⟩
  show Cursor.Reaches _ (again st.current.token.newlineBefore st.current.first).first
  rw [hfirst]
  exact h.reaches

theorem Trail.reread {again : Bool → Cursor → Scanned} (h : Trail cs lo st ts)
    (hin : (st.reread again).IsIn cs) : Trail cs lo (st.reread again) ts :=
  ⟨hin, h.isBorder, h.lt, h.fits⟩

/-- A slash may be read again as the start of a regular expression. -/
theorem State.IsIn.reread_regex (h : st.IsIn cs) {p : Punct}
    (hp : st.current.token.kind = .punct p) : (st.reread scanRegex).IsIn cs := by
  refine h.reread (isRead_scanRegex _ ?_) rfl
  obtain ⟨text, hreads, hspells⟩ := h.isRead.reads
  rw [hp] at hspells
  rw [hreads.rest_eq, show text = p.text.toList from hspells]
  exact List.append_ne_nil_of_left_ne_nil p.text_ne_nil _

/-- A closing brace may be read again as the end of a substitution. -/
theorem State.IsIn.reread_template (h : st.IsIn cs)
    (hp : st.current.token.kind.isPunct .rightBrace = true) :
    (st.reread scanTemplate).IsIn cs := by
  refine h.reread (isRead_scanTemplate _ ?_) rfl
  obtain ⟨text, hreads, hspells⟩ := h.isRead.reads
  cases hk : st.current.token.kind with
  | punct p =>
    rw [hk] at hp hspells
    have hp : p = .rightBrace := eq_of_beq hp
    subst hp
    rw [hreads.rest_eq, show text = ['\x7d'] from hspells]
    rfl
  | _ =>
    rw [hk] at hp
    cases hp

/-- A piece of a template lies between the quote or brace at the start of its token and what ends
the token. -/
theorem State.IsIn.piece {open_ : Char} {close : List Char} (cooked : String)
    (tail : Bool) (width : Nat) (h : st.IsIn cs)
    (hspells : ∀ text, st.current.token.kind.Spells text → ∃ body, text = open_ :: (body ++ close))
    (hopen : open_.utf8Size = 1) (hclose : Text.bytes close = width) (hwidth : 0 < width) :
    Trail cs st.pos st.next
      [(Grammar.templateElement st.current.token cooked tail width).tree] := by
  obtain ⟨text, hreads, hspelled⟩ := h.isRead.reads
  -- the span of the node leaves out the delimiters on both sides
  obtain ⟨body, rfl⟩ := hspells text hspelled
  obtain ⟨before, hbefore, hpos⟩ := h.reaches
  have hspan := h.isRead.span_eq
  have hend : st.current.after.pos = _ := hreads.pos_eq
  rw [Text.bytes_cons, Text.bytes_append, hopen, hclose] at hend
  rw [Nat.zero_add] at hpos
  have hsource : cs = before ++ (open_ :: (body ++ close)) ++ st.current.after.rest := by
    rw [List.append_assoc, ← hreads.rest_eq]
    exact hbefore
  -- both ends fall between two characters, since the delimiters are ASCII
  have hstart : IsBorder cs (st.current.first.pos + 1) := by
    refine ⟨before ++ [open_], (body ++ close) ++ st.current.after.rest, ?_, ?_⟩
    · rw [hsource]
      simp
    · rw [Text.bytes_append, Text.bytes_cons, Text.bytes_nil, hopen, hpos]
  have hstop : IsBorder cs (st.current.after.pos - width) := by
    refine ⟨before ++ (open_ :: body), close ++ st.current.after.rest, ?_, ?_⟩
    · rw [hsource]
      simp
    · rw [Text.bytes_append, Text.bytes_cons, hopen, ← hpos, hend]
      omega
  refine ⟨h.next, h.isBorder_pos, ?_, List.forall_mem_singleton.mpr ?_⟩
  · show st.current.token.span.start < st.current.token.span.stop
    rw [hspan]
    show st.current.first.pos < st.current.after.pos
    omega
  · show Tree.Fits cs st.current.token.span.start st.current.token.span.stop
      ⟨.templateElement, ⟨st.current.token.span.start + 1,
        st.current.token.span.stop - width⟩, _⟩
    rw [hspan]
    refine .intro ⟨?_, ?_, ?_, ?_, fun hne => absurd rfl hne, hstart, hstop⟩
      (List.forall_mem_nil _)
    · exact Nat.le_succ _
    · show st.current.first.pos + 1 ≤ st.current.after.pos - width
      omega
    · exact Nat.sub_le _ _
    · show st.current.first.pos + 1 < st.current.after.pos
      omega

end Parse

namespace Grammar

variable {cs : List Char} {lo : Nat} {env : Env} {st : State} {ts : List Tree} {g : Grammar}

/-- As a node, an expression has its own span, and it is no piece of a template. -/
theorem span_tree (e : Expr) : e.tree.span = e.span ∧ e.tree.type ≠ .templateElement := by
  cases e with
  | member s o p isOptional =>
    unfold Expr.tree
    split <;> exact ⟨rfl, nofun⟩
  | call s f args isOptional =>
    unfold Expr.tree
    split <;> exact ⟨rfl, nofun⟩
  | template t => cases t; exact ⟨rfl, nofun⟩
  | function f => cases f; exact ⟨rfl, nofun⟩
  | arrow a => cases a; exact ⟨rfl, nofun⟩
  | classExpr c => cases c; exact ⟨rfl, nofun⟩
  | _ => exact ⟨rfl, nofun⟩

/-- An expression that fits has some text, between borders. -/
theorem lies_of_fits {e : Expr} {hi : Nat} (h : e.tree.Fits cs lo hi) :
    lo ≤ e.span.start ∧ e.span.start < e.span.stop ∧ e.span.stop ≤ hi ∧
      IsBorder cs e.span.start ∧ IsBorder cs e.span.stop := by
  have hl := h.lies
  have hlt := hl.solid (span_tree e).2
  rw [← (span_tree e).1]
  exact ⟨hl.le_start, hlt, hl.stop_le, hl.isBorder_start, hl.isBorder_stop⟩

theorem reads_expression (hg : g.IsSound cs) : Reads cs (expression g) := by
  intro env st hst
  refine .first hg.assignment hst.starts fun first st₁ h₁ => ?_
  refine .ask rfl (fun _ => ?_) fun _ => .ret h₁
  -- The sequence starts where its first expression does, inside any parentheses.
  have hle := (lies_of_fits (h₁.fits _ (List.mem_singleton_self _))).1
  have hfirst : Trail cs first.tree.span.start st₁ (nodes first) := h₁.from_start
  rw [(span_tree first).1] at hfirst
  refine .itemsAfterCommas hg.assignment hfirst fun expressions st₂ h₂ => ?_
  refine .finish h₂ (.ret ?_)
  exact (h₂.node (by simp)).back h₁.isBorder hle

/-! ### Templates and regular expressions -/

/-- A piece of a template after a substitution. -/
theorem gives_continueTemplate {α : Type} {f : Token → Parse α} {Q : α → State → Prop}
    (h : Trail cs lo st ts) (hp : st.current.token.kind.isPunct .rightBrace = true)
    (hf : ∀ st' : State, st'.IsIn cs → Trail cs lo st' ts →
      Gives (f st'.current.token) env st'.next Q) :
    Gives (continueTemplate >>= f) env st Q :=
  have hin := h.isIn.reread_template hp
  .step rfl (hf _ hin (h.reread hin))

/-- A template leaves its pieces and expressions, in order. -/
theorem reads_template (hg : g.IsSound cs) : Reads cs (template g) := by
  intro env st hst
  refine .step rfl (.step rfl ?_)
  split
  · -- no expression: the template is one piece
    next cooked h =>
    have hpiece := hst.piece cooked true 1 (fun text hs => h ▸ hs) rfl rfl Nat.one_pos
    exact .node hpiece rfl (by simp)
  · next cooked h =>
    have hpiece := hst.piece cooked false 2 (fun text hs => h ▸ hs) rfl rfl Nat.two_pos
    refine .rounds (hpiece.sub (by simp)) (fun parts st h => ?_) fun parts st₂ h₂ => ?_
    · obtain ⟨quasis, expressions⟩ := parts
      -- each round is an expression and the piece behind it
      refine .next ((reads_expression hg).withIn true) h fun e st₁ h₁ => ?_
      refine .ask rfl (fun hbrace => ?_) fun _ => .failHere
      refine gives_continueTemplate h₁ hbrace fun st₂ hin h₂ => ?_
      split
      · next cooked hk =>
        have hpart := hin.piece cooked false 2 (fun text hs => hk ▸ hs) rfl rfl Nat.two_pos
        exact .ret ((h₂.trans hpart).sub (by simp; tauto))
      · next cooked hk =>
        have hpart := hin.piece cooked true 1 (fun text hs => hk ▸ hs) rfl rfl Nat.one_pos
        exact .ret ((h₂.trans hpart).sub (by simp; tauto))
      · exact .fail
      · exact .fail
    · obtain ⟨quasis, expressions⟩ := parts
      exact .node h₂ rfl (by simp)
  · exact .fail

/-- A literal read again from its `/` is one token. -/
theorem reads_regex {p : Punct} (hst : st.IsIn cs) (hp : st.current.token.kind = .punct p) :
    Gives regex env st fun e st' => Trail cs st.pos st' (nodes e) := by
  have hin := hst.reread_regex hp
  have hstarts : Starts cs st.pos (st.reread scanRegex) :=
    ⟨hin, hst.isBorder_pos, Nat.le_of_eq (hst.pos_eq.trans hin.pos_eq.symm)⟩
  refine .step rfl (.step rfl ?_)
  split
  · next hk => exact .node (hstarts.next (by rw [hk]; trivial)) rfl (by simp)
  · exact .fail
  · exact .fail

/-! ### Arrays and objects -/

theorem reads_spreadOrAssignment (hg : g.IsSound cs) : Reads cs (spreadOrAssignment g) := by
  intro env st hst
  refine .step rfl ?_
  refine .eatFirst (eats_eat _) hst.starts (fun h => ?_) ?_
  · refine .next (hg.assignment.withIn true) h fun argument st₁ h₁ => ?_
    exact .node h₁ rfl (by simp)
  · exact hg.assignment.withIn true env st hst

theorem reads_arrayLiteral (hg : g.IsSound cs) : Reads cs (arrayLiteral g) := by
  intro env st hst
  refine .step rfl ?_
  refine .first (reads_expect _) hst.starts fun _ st₁ h₁ => ?_
  refine .rounds h₁ (fun elements st h => ?_) fun elements st₂ h₂ => ?_
  · refine .ask rfl (fun _ => .ret h) fun _ => ?_
    refine .eat (eats_eat _) h (fun h' => .ret h') ?_
    refine .next (reads_spreadOrAssignment hg) h fun element st' h' => ?_
    refine .ask rfl (fun _ => .ret (h'.sub (by simp))) fun _ => ?_
    exact .pass (reads_expect _).mayRead h' fun _ st'' h'' => .ret (h''.sub (by simp))
  · refine .pass (reads_expect _).mayRead h₂ fun _ st₃ h₃ => ?_
    exact .node h₃ rfl (by simp)

/-- A property, a method, an accessor or a shorthand. -/
theorem reads_objectProperty (hg : g.IsSound cs) : Reads cs (objectProperty g) := by
  intro env st hst
  refine .step rfl ?_
  refine .eatFirst (eats_eat _) hst.starts (fun h => ?_) ?_
  · refine .next (hg.assignment.withIn true) h fun argument st₁ h₁ => ?_
    exact .node h₁ rfl (by simp)
  refine .passFirst mayRead_methodModifiers hst.starts fun modifiers st₁ h₁ => ?_
  refine .first (reads_propertyKey hg) h₁ fun key st₂ h₂ => .step rfl ?_
  split
  · refine .next (reads_methodFunction hg modifiers) h₂ fun f st₃ h₃ => ?_
    exact .node h₃ rfl (by simp [nodes_fields]; tauto)
  refine .eat (eats_eat _) h₂ (fun h₃ => ?_) ?_
  · refine .next (hg.assignment.withIn true) h₃ fun value st₄ h₄ => ?_
    exact .node h₄ rfl (by simp)
  split
  · next name =>
    split
    · exact .fail
    refine .eat (eats_eat _) h₂ (fun h₃ => ?_) ?_
    · refine .next (hg.assignment.withIn true) h₃ fun right st₄ h₄ => .finish h₄ (.ret ?_)
      -- The assignment takes up the whole of the property.
      have hassign : Tree.Fits cs st.pos st₄.prevEnd
          (Expr.assign ⟨st.pos, st₄.prevEnd⟩ .plain (.ident name) right).tree :=
        h₄.fits_from (Nat.le_refl _) (by simp [PropertyKey.tree, Pattern.tree])
      exact (h₄.cons hassign).node (by simp)
    · exact .node h₂ rfl (by simp [PropertyKey.tree, Expr.tree])
  · exact .unexpected

theorem reads_objectLiteral (hg : g.IsSound cs) : Reads cs (objectLiteral g) := by
  intro env st hst
  refine .step rfl ?_
  refine .first (reads_expect _) hst.starts fun _ st₁ h₁ => ?_
  refine .maybe (mayRead_itemsBefore _ ?_) h₁ fun properties st₂ h₂ => ?_
  · intro env st hst
    exact .first (reads_objectProperty hg) hst.starts fun p st' h' => .ret (h'.sub (by simp))
  · refine .pass (reads_expect _).mayRead h₂ fun _ st₃ h₃ => ?_
    exact .node h₃ rfl (by simp)

end Grammar

end Espalier
