import Espalier.Proofs.Grammar.Cover
import Espalier.Proofs.Grammar.Making
import Espalier.Proofs.Node.Frame

/-!
# Patterns that bind names

A pattern is made of names, arrays, objects, defaults and rests and, where it assigns, of members
of objects (`Tree.IsPattern`). The grammar of bindings makes patterns without members
(`Grammar.binds_ofDepth`), and expressions become parameters only if they spell such patterns
(`Grammar.isPattern_arrowParams`).
-/

namespace Espalier

/-- Where a node stands in a pattern. -/
inductive PatternPlace
  /-- As a whole pattern. -/
  | whole
  /-- Among the elements of an array or the parameters of a function. -/
  | element
  /-- Among the properties of an object. -/
  | property
  deriving DecidableEq, Repr

/-- The place of what stands in a field of a node that is a part of a pattern. The other fields hold
keys and defaults, which are expressions. -/
@[simp] def NodeType.patternPlace? (type : NodeType) (field : String) : Option PatternPlace :=
  match type with
  | .arrayPattern => if field = "elements" then some .element else none
  | .objectPattern => if field = "properties" then some .property else none
  | .objectProperty => if field = "value" then some .whole else none
  | .assignmentPattern => if field = "left" then some .whole else none
  | .restElement => if field = "argument" then some .whole else none
  | _ => none

/-- Whether a node of a type may stand at a place of a pattern, of one that assigns to members or
not. -/
@[simp] def PatternPlace.allows (place : PatternPlace) (members : Bool) (type : NodeType) : Bool :=
  match type with
  | .identifier | .arrayPattern | .objectPattern | .assignmentPattern => place != .property
  | .memberExpression => place != .property && members
  | .restElement => place != .whole
  | .objectProperty => place == .property
  | _ => false

/-- A node is a pattern, or a part of one that stands at a place. -/
inductive Tree.IsPattern (members : Bool) : PatternPlace → Tree → Prop
  | node {place : PatternPlace} {t : Tree} (hallows : place.allows members t.type = true)
      (h : ∀ f ∈ t.fields, ∀ u ∈ f.nodes, ∀ inner, t.type.patternPlace? f.name = some inner →
        IsPattern members inner u) : IsPattern members place t

namespace Tree

variable {members : Bool} {place : PatternPlace} {t : Tree} {s : Span}

/-- A pattern is one by its type, and by what stands in its fields. -/
theorem isPattern_iff : t.IsPattern members place ↔ place.allows members t.type = true ∧
    ∀ f ∈ t.fields, ∀ u ∈ f.nodes, ∀ inner, t.type.patternPlace? f.name = some inner →
      u.IsPattern members inner :=
  ⟨fun | .node hallows h => ⟨hallows, h⟩, fun h => .node h.1 h.2⟩

/-- A whole pattern may be an element. -/
theorem IsPattern.element (h : t.IsPattern members .whole) : t.IsPattern members .element := by
  rw [isPattern_iff] at h ⊢
  refine ⟨?_, h.2⟩
  have hallows := h.1
  revert hallows
  cases t.type <;> simp

@[simp] theorem isPattern_ident (i : Ident) :
    (Pattern.ident i).tree.IsPattern members place ↔ place ≠ .property := by
  rw [isPattern_iff]
  simp [Pattern.tree, Ident.tree]

@[simp] theorem isPattern_array (ps : List (Option Pattern)) :
    (Pattern.array s ps).tree.IsPattern members place ↔
      place ≠ .property ∧ ∀ u ∈ nodes ps, u.IsPattern members .element := by
  rw [isPattern_iff]
  simp [Pattern.tree, TreeField.name]

@[simp] theorem isPattern_object (ps : List PatternProperty) :
    (Pattern.object s ps).tree.IsPattern members place ↔
      place ≠ .property ∧ ∀ u ∈ nodes ps, u.IsPattern members .property := by
  rw [isPattern_iff]
  simp [Pattern.tree, TreeField.name]

@[simp] theorem isPattern_default (p : Pattern) (e : Expr) :
    (Pattern.default s p e).tree.IsPattern members place ↔
      place ≠ .property ∧ p.tree.IsPattern members .whole := by
  rw [isPattern_iff]
  simp [Pattern.tree, TreeField.name]

@[simp] theorem isPattern_rest (p : Pattern) :
    (Pattern.rest s p).tree.IsPattern members place ↔
      place ≠ .whole ∧ p.tree.IsPattern members .whole := by
  rw [isPattern_iff]
  simp [Pattern.tree, TreeField.name]

@[simp] theorem isPattern_entry (key : PropertyKey) (p : Pattern) (shorthand : Bool) :
    (PatternProperty.entry s key p shorthand).tree.IsPattern members place ↔
      place = .property ∧ p.tree.IsPattern members .whole := by
  rw [isPattern_iff]
  simp [PatternProperty.tree, TreeField.name, TreeField.flag]

@[simp] theorem isPattern_restProperty (p : Pattern) :
    (PatternProperty.rest s p).tree.IsPattern members place ↔
      place ≠ .whole ∧ p.tree.IsPattern members .whole :=
  isPattern_rest p

end Tree

/-! ### The check of parameters -/

mutual

/-- A pattern that passes the check for bindings has no members. -/
theorem isPattern_of_checkBinding (p : Pattern) (hcheck : p.checkBinding = .ok ())
    {place : PatternPlace} (h : p.tree.IsPattern true place) : p.tree.IsPattern false place := by
  cases p with
  | ident i =>
    rw [Tree.isPattern_ident] at h ⊢
    exact h
  | target e => cases hcheck
  | array s ps =>
    rw [Tree.isPattern_array] at h ⊢
    exact ⟨h.1, isPattern_of_checkBindingElements ps hcheck h.2⟩
  | object s ps =>
    rw [Tree.isPattern_object] at h ⊢
    exact ⟨h.1, isPattern_of_checkBindingProperties ps hcheck h.2⟩
  | default s p e =>
    rw [Tree.isPattern_default] at h ⊢
    exact ⟨h.1, isPattern_of_checkBinding p hcheck h.2⟩
  | rest s p =>
    rw [Tree.isPattern_rest] at h ⊢
    exact ⟨h.1, isPattern_of_checkBinding p hcheck h.2⟩

/-- The check of the elements of a pattern leaves none that is a member. -/
theorem isPattern_of_checkBindingElements (ps : List (Option Pattern))
    (hcheck : checkBindingElements ps = .ok ()) (h : ∀ t ∈ nodes ps, t.IsPattern true .element) :
    ∀ t ∈ nodes ps, t.IsPattern false .element := by
  match ps with
  | [] => nofun
  | none :: ps => exact isPattern_of_checkBindingElements ps hcheck h
  | some p :: ps =>
    obtain ⟨_, hp, hps⟩ := exists_of_bind_eq_ok hcheck
    rw [nodes_cons, nodes_some, nodes_eq, List.singleton_append, List.forall_mem_cons] at h ⊢
    exact ⟨isPattern_of_checkBinding p hp h.1, isPattern_of_checkBindingElements ps hps h.2⟩

/-- Nor does that of its properties. -/
theorem isPattern_of_checkBindingProperties (ps : List PatternProperty)
    (hcheck : checkBindingProperties ps = .ok ())
    (h : ∀ t ∈ nodes ps, t.IsPattern true .property) :
    ∀ t ∈ nodes ps, t.IsPattern false .property := by
  match ps with
  | [] => nofun
  | .entry s key p shorthand :: ps =>
    obtain ⟨_, hp, hps⟩ := exists_of_bind_eq_ok hcheck
    rw [nodes_cons, nodes_eq, List.singleton_append, List.forall_mem_cons] at h ⊢
    have hvalue := isPattern_of_checkBinding p hp ((Tree.isPattern_entry key p shorthand).mp h.1).2
    exact ⟨(Tree.isPattern_entry key p shorthand).mpr ⟨rfl, hvalue⟩,
      isPattern_of_checkBindingProperties ps hps h.2⟩
  | .rest s p :: ps =>
    obtain ⟨_, hp, hps⟩ := exists_of_bind_eq_ok hcheck
    rw [nodes_cons, nodes_eq, List.singleton_append, List.forall_mem_cons] at h ⊢
    have hrest := isPattern_of_checkBinding p hp ((Tree.isPattern_restProperty p).mp h.1).2
    exact ⟨(Tree.isPattern_restProperty p).mpr ⟨nofun, hrest⟩,
      isPattern_of_checkBindingProperties ps hps h.2⟩

end

/-! ### The grammar of bindings -/

open Parse

namespace Grammar

variable {g : Grammar} {env : Env}

/-- What a grammar reads as a binding pattern is one. -/
def Binds (g : Grammar) : Prop :=
  ∀ env, MakesIn env g.pattern fun p => p.tree.IsPattern false .whole

/-- What stands for the rest binds names, too. -/
theorem binds_restPattern (hg : g.Binds) (start : Nat) :
    MakesIn env (restPattern g start) fun p => p.tree.IsPattern false .element :=
  .bind (hg env) fun p hp => .skip fun span => .ret (by simpa using hp)

/-- An element binds names, with a default or without. -/
theorem binds_bindingElement (hg : g.Binds) :
    MakesIn env (bindingElement g) fun p => p.tree.IsPattern false .whole := by
  refine .skip fun start => .bind (hg env) fun p hp => .ask (.skip fun right => ?_) (.ret hp)
  exact .skip fun span => .ret (by simpa using hp)

/-- An array of elements binds names. -/
theorem binds_arrayPattern (hg : g.Binds) :
    MakesIn env (arrayPattern g) fun p => p.tree.IsPattern false .whole := by
  refine .skip fun start => .skip fun _ => ?_
  refine .bind (Q := fun elements => ∀ t ∈ nodes elements, t.IsPattern false .element)
    (.rounds nofun fun elements h => ?_) fun elements h => .skip fun _ => .skip fun span =>
      .ret (by simpa using h)
  -- A round ends at the bracket, leaves a hole, reads the rest or reads an element.
  refine .ask (.ret h) (.ask (.ret h) (.skip fun elementStart => .ask ?_ ?_))
  · exact .bind (binds_restPattern hg elementStart) fun p hp => .ret (by simpa [hp] using h)
  · refine .bind (binds_bindingElement hg) fun p hp => ?_
    have hmore : ∀ t ∈ nodes (some p :: elements), t.IsPattern false .element := by
      simpa [hp.element] using h
    exact .ask (.ret hmore) (.skip fun _ => .ret hmore)

/-- A property binds a name, or what its pattern binds. -/
theorem binds_patternProperty (hg : g.Binds) :
    MakesIn env (patternProperty g) fun p => p.1.tree.IsPattern false .property := by
  refine .skip fun start => .ask ?_ (.skip fun key => .ask ?_ ?_)
  · exact .bind (hg env) fun p hp => .skip fun span => .ret (by simpa using hp)
  · exact .bind (binds_bindingElement hg) fun p hp => .skip fun span => .ret (by simpa using hp)
  split
  · split
    · exact .fail
    refine .ask (.skip fun right => .skip fun span => .ret ?_) (.skip fun span => .ret ?_)
    · simp
    · simp
  · exact .unexpected

/-- Some properties between braces bind names. -/
theorem binds_objectPattern (hg : g.Binds) :
    MakesIn env (objectPattern g) fun p => p.tree.IsPattern false .whole := by
  have hitem : MakesIn env (patternProperty g) fun p =>
      ∀ t ∈ nodes p.1, t.IsPattern false .property :=
    (binds_patternProperty hg).mono fun p hp => List.forall_mem_singleton.mpr hp
  refine .skip fun start => .skip fun _ => ?_
  exact .bind (.itemsBefore _ hitem) fun properties h => .skip fun _ => .skip fun span =>
    .ret (by simpa using h)

theorem binds_bindingPattern (hg : g.Binds) :
    MakesIn env (bindingPattern g) fun p => p.tree.IsPattern false .whole := by
  refine .skip fun k => ?_
  split
  · exact binds_arrayPattern hg
  · exact binds_objectPattern hg
  · exact .skip fun name => .ret (by simp)

/-- At every level the grammar reads binding patterns where it is to. -/
theorem binds_ofDepth (depth : Nat) : (ofDepth depth).Binds := by
  induction depth with
  | zero => exact fun _ => .failHere
  | succ depth ih => exact fun _ => binds_bindingPattern ih

/-- So do parameters. -/
theorem binds_parameters (hg : g.Binds) :
    MakesIn env (parameters g) fun ps => ∀ t ∈ nodes ps, t.IsPattern false .element := by
  refine .skip fun _ => ?_
  refine .bind (.itemsBefore _ (.skip fun start => .ask ?_ ?_)) fun params hparams =>
    .skip fun _ => .ret hparams
  · exact .bind (binds_restPattern hg start) fun p hp => .ret (by simpa using hp)
  · exact .bind (binds_bindingElement hg) fun p hp => .ret (by simpa using hp.element)

end Grammar

end Espalier
