import Espalier.Grammar.Cover
import Espalier.Proofs.Node.Nesting

/-!
# Expressions read as patterns

An expression and the pattern that it spells have the same spans everywhere, and only the types of
nodes become others. So what passes from a node to its parts and does not depend on its type holds
of the pattern if it holds of the expression (`Tree.Survives`): the pattern fits wherever the
expression does.
-/

namespace Espalier

variable {cs : List Char}

/-- A computation that succeeds does so after its first part. -/
theorem exists_of_bind_eq_ok {ε α β : Type} {x : Except ε α} {f : α → Except ε β} {b : β}
    (h : (x >>= f) = .ok b) : ∃ a, x = .ok a ∧ f a = .ok b := by
  cases x with
  | error e => cases h
  | ok a => exact ⟨a, rfl, h⟩

/-- An element that is no spread becomes the pattern that it spells. -/
theorem elementsToPatterns_some {e : Expr} (he : ∀ s a, e ≠ .spread s a) (es : List (Option Expr)) :
    elementsToPatterns (some e :: es) = (do
      let p ← e.toPattern
      return some p :: (← elementsToPatterns es)) := by
  cases e with
  | spread s a => exact absurd rfl (he s a)
  | _ => rfl

/-- The types of nodes that patterns consist of. -/
def NodeType.isPatternPart : NodeType → Bool
  | arrayPattern | objectPattern | assignmentPattern | restElement | objectProperty => true
  | _ => false

/-- The types of nodes that are functions. -/
def NodeType.isFunction : NodeType → Bool
  | functionDeclaration | functionExpression | arrowFunctionExpression | objectMethod
  | classMethod => true
  | _ => false

/-- What holds of a node between two places passes to its parts between its own ends, unless it is a
function, and holds of a node of a pattern that takes its place with such parts. -/
structure Tree.Survives (P : Nat → Nat → Tree → Prop) : Prop where
  parts {lo hi : Nat} {t : Tree} (h : P lo hi t) (ht : t.type.isFunction = false) :
    ∀ u ∈ t.parts, P t.span.start t.span.stop u
  renew {lo hi : Nat} {type type' : NodeType} {s : Span} {fields fields' : List TreeField}
    (h : P lo hi ⟨type, s, fields⟩) (hold : type ≠ .templateElement)
    (hnew : type'.isPatternPart = true)
    (hparts : ∀ u ∈ fields'.flatMap TreeField.nodes, P s.start s.stop u) :
    P lo hi ⟨type', s, fields'⟩

section

variable {P : Nat → Nat → Tree → Prop} (hP : Tree.Survives P)

include hP

mutual

/-- A property of trees that the rewriting keeps holds of the pattern. -/
theorem survives_toPattern (e : Expr) {p : Pattern} {lo hi : Nat} (h : e.toPattern = .ok p)
    (he : P lo hi e.tree) : P lo hi p.tree := by
  -- A name or member is left as it is; the others are renewed from parts that survive.
  cases e with
  | ident i =>
    cases h
    exact he
  | array s es =>
    obtain ⟨ps, hps, h⟩ := exists_of_bind_eq_ok h
    cases h
    have hparts := survives_elementsToPatterns es hps fun t ht =>
      hP.parts he rfl t (by simpa [Tree.parts, Expr.tree] using ht)
    exact hP.renew he (by decide) rfl fun c hc => hparts c (by simpa using hc)
  | object s ps =>
    obtain ⟨qs, hqs, h⟩ := exists_of_bind_eq_ok h
    cases h
    have hparts := survives_propertiesToPatterns ps hqs fun t ht =>
      hP.parts he rfl t (by simpa [Tree.parts, Expr.tree] using ht)
    exact hP.renew he (by decide) rfl fun c hc => hparts c (by simpa using hc)
  | assign s op l r =>
    cases op with
    | plain =>
      cases h
      exact hP.renew he (by decide) rfl fun c hc => hP.parts he rfl c hc
    | compound => cases h
  | member s o m isOptional =>
    rw [Expr.toPattern] at h
    split at h
    · cases h
    · cases h
      exact he
  | _ => cases h

/-- It survives for the elements of an array. -/
theorem survives_elementsToPatterns (es : List (Option Expr)) {ps : List (Option Pattern)}
    {lo hi : Nat} (h : elementsToPatterns es = .ok ps) (hes : ∀ t ∈ nodes es, P lo hi t) :
    ∀ t ∈ nodes ps, P lo hi t := by
  match es with
  | [] =>
    cases h
    exact hes
  | none :: es =>
    obtain ⟨qs, hqs, h⟩ := exists_of_bind_eq_ok h
    cases h
    rw [nodes_cons, nodes_none, List.nil_append] at hes ⊢
    exact survives_elementsToPatterns es hqs hes
  | some e :: es =>
    rw [nodes_cons, nodes_some, List.forall_mem_append] at hes
    have he : P lo hi e.tree := hes.1 _ (List.mem_singleton_self _)
    -- A spread is renewed as a rest, anything else as a pattern.
    by_cases hspread : ∃ s a, e = .spread s a
    · obtain ⟨s, a, rfl⟩ := hspread
      obtain ⟨p, hp, h⟩ := exists_of_bind_eq_ok h
      obtain ⟨qs, hqs, h⟩ := exists_of_bind_eq_ok h
      cases h
      have ha := survives_toPattern a hp (hP.parts he rfl a.tree (List.mem_singleton_self _))
      rw [nodes_cons, nodes_some, List.forall_mem_append]
      refine ⟨List.forall_mem_singleton.mpr ?_, survives_elementsToPatterns es hqs hes.2⟩
      exact hP.renew he (by decide) rfl (List.forall_mem_singleton.mpr ha)
    · rw [elementsToPatterns_some fun s a heq => hspread ⟨s, a, heq⟩] at h
      obtain ⟨p, hp, h⟩ := exists_of_bind_eq_ok h
      obtain ⟨qs, hqs, h⟩ := exists_of_bind_eq_ok h
      cases h
      rw [nodes_cons, nodes_some, List.forall_mem_append]
      refine ⟨List.forall_mem_singleton.mpr ?_, survives_elementsToPatterns es hqs hes.2⟩
      exact survives_toPattern e hp he

/-- It survives for the properties of an object, methods being refused. -/
theorem survives_propertiesToPatterns (ps : List Property) {qs : List PatternProperty} {lo hi : Nat}
    (h : propertiesToPatterns ps = .ok qs) (hps : ∀ t ∈ nodes ps, P lo hi t) :
    ∀ t ∈ nodes qs, P lo hi t := by
  match ps with
  | [] =>
    cases h
    exact hps
  | .init s key value shorthand :: ps =>
    obtain ⟨p, hp, h⟩ := exists_of_bind_eq_ok h
    obtain ⟨qs, hqs, h⟩ := exists_of_bind_eq_ok h
    cases h
    rw [nodes_cons, List.forall_mem_append] at hps ⊢
    have hinit : P lo hi (Property.init s key value shorthand).tree :=
      hps.1 _ (List.mem_singleton_self _)
    have hkey := hP.parts hinit rfl key.tree (by simp [Tree.parts, Property.tree])
    have hvalue := hP.parts hinit rfl value.tree (by simp [Tree.parts, Property.tree])
    have hp := survives_toPattern value hp hvalue
    refine ⟨List.forall_mem_singleton.mpr ?_, survives_propertiesToPatterns ps hqs hps.2⟩
    exact hP.renew hinit (by decide) rfl
      (List.forall_mem_cons.mpr ⟨hkey, List.forall_mem_singleton.mpr hp⟩)
  | .spread s e :: ps =>
    obtain ⟨p, hp, h⟩ := exists_of_bind_eq_ok h
    obtain ⟨qs, hqs, h⟩ := exists_of_bind_eq_ok h
    cases h
    rw [nodes_cons, List.forall_mem_append] at hps ⊢
    have hspread : P lo hi (Property.spread s e).tree :=
      hps.1 _ (List.mem_singleton_self _)
    have hp := survives_toPattern e hp (hP.parts hspread rfl e.tree (List.mem_singleton_self _))
    refine ⟨List.forall_mem_singleton.mpr ?_, survives_propertiesToPatterns ps hqs hps.2⟩
    exact hP.renew hspread (by decide) rfl (List.forall_mem_singleton.mpr hp)
  -- a method is no pattern
  | .method s key kind f :: ps => cases h

end

end

/-- To fit into the source is such a property. -/
theorem Tree.survives_fits : Tree.Survives (Tree.Fits cs) where
  parts h _ := h.parts
  renew h hold _ hparts := h.renew hold hparts

/-- A pattern fits where the expression did that it was made from. -/
theorem fits_toPattern (e : Expr) {p : Pattern} {lo hi : Nat} (h : e.toPattern = .ok p)
    (he : e.tree.Fits cs lo hi) : p.tree.Fits cs lo hi :=
  survives_toPattern Tree.survives_fits e h he

/-- The target of a compound assignment is the same node. -/
theorem tree_toSimpleTarget {e : Expr} {p : Pattern} (h : e.toSimpleTarget = .ok p) :
    p.tree = e.tree := by
  cases e with
  | ident i =>
    cases h
    rfl
  | member s o m isOptional =>
    rw [Expr.toSimpleTarget] at h
    split at h
    · cases h
    · cases h
      rfl
  | _ => cases h

end Espalier
