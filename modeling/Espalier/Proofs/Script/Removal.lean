import Espalier.Proofs.Node.InPlace
import Espalier.Proofs.Script.Operation
import Espalier.Script.PathValue

/-!
# Nodes of a script after a removal

A node of a script is a list of steps, followed anew whenever something is asked of the node. So
what a node reads after a removal is a matter of where its steps lead then. Here it is shown what a
script reads once an item has been taken out of a list (`Machine.Loses.read?_eq`), and what one step
of a removal does (`removeNode_cons_ok`).
-/

namespace Espalier.Script

/-! ### Operations that succeed -/

section

variable {α β : Type} {m m' : Machine}

/-- Reading a node changes nothing. -/
theorem nodeAt_ok {steps : List Step} {key : String} {n : Node}
    (h : nodeAt steps key m = .ok n m') : m.nodeAt? steps = some n ∧ m' = m :=
  orRaise_ok h

/-- An edit in place that succeeds leaves the program that is made of the one before. -/
theorem editProgram_ok {fault : Fault} {edit : Program → Option (Except EditError Unit × Program)}
    {make : Program → Option (Except EditError Program)}
    (hedit : ∀ p, edit p = (make p).map (InPlace.left p))
    (h : editProgram fault edit m = .ok () m') :
    ∃ p p', m.target = some p ∧ make p = some (.ok p') ∧
      m' = { m with target := some p' } := by
  obtain ⟨_, _, hget, hrest⟩ := exists_of_bind_ok h
  cases hget
  obtain ⟨⟨given, left⟩, m₁, hraise, hput⟩ := exists_of_bind_ok hrest
  obtain ⟨hgiven, rfl⟩ := orRaise_ok hraise
  obtain ⟨p, htarget, hgiven⟩ := Option.bind_eq_some_iff.mp hgiven
  obtain ⟨made, hmade, hleft⟩ := Option.map_eq_some_iff.mp ((hedit p).symm.trans hgiven)
  cases given with
  | error cause => cases hput
  | ok =>
    cases hput
    exact ⟨p, left, htarget, hmade.trans (congrArg some (InPlace.left_eq_ok_iff.mp hleft)), rfl⟩

end

/-! ### What nodes read -/

/-- What a script reads where steps lead. -/
def Machine.read? (m : Machine) (steps : List Step) : Option Tree :=
  m.target.bind (·.tree.descend? steps)

/-- What is read at a place is the node there, as a tree. -/
theorem Machine.map_nodeAt?_eq_read? (m : Machine) (steps : List Step) :
    (m.nodeAt? steps).map Node.tree = m.read? steps := by
  unfold nodeAt? read?
  cases m.target with
  | none => rfl
  | some p => exact p.map_nodeAt?_eq_descend? steps

/-- Every property of a node can be read as long as its steps lead to one; else it is read as the
property of a removed node. -/
theorem read?_eq_none_iff (m : Machine) (steps : List Step) (key : String) :
    m.read? steps = none ↔
      nodeProperty steps key m = .error (.raised (.removedNode key)) m := by
  rw [← m.map_nodeAt?_eq_read?, Option.map_eq_none_iff]
  constructor
  · intro h
    show EStateM.bind (nodeAt steps key) _ m = _
    have hnode : nodeAt steps key m = .error (.raised (.removedNode key)) m := by
      show orRaise (.removedNode key) (m.nodeAt? steps) m = _
      rw [h]
      rfl
    unfold EStateM.bind
    rw [hnode]
  · intro h
    cases hn : m.nodeAt? steps with
    | none => rfl
    | some n =>
      exfalso
      have hnode : nodeAt steps key m = .ok n m := by
        show orRaise (.removedNode key) (m.nodeAt? steps) m = _
        rw [hn]
        rfl
      change EStateM.bind (nodeAt steps key) _ m = _ at h
      unfold EStateM.bind at h
      rw [hnode] at h
      dsimp only at h
      split at h
      · cases h
      · cases h
      · cases h
      · -- with a node there, no property fails as a removed node does
        cases hfield : n.field? key with
        | none =>
          rw [hfield] at h
          cases h
        | some field =>
          rw [hfield] at h
          cases field <;> cases h

/-! ### Removals -/

/-- A statement or a declaration goes with the only thing that it holds. -/
def goesWithContent (type : NodeType) : Bool :=
  type == .expressionStatement || type == .variableDeclaration

/-- No expression goes with its content. -/
theorem goesWithContent_expr (e : Expr) : goesWithContent e.nodeType = false := by
  cases e with
  | member s o p isOptional =>
    simp only [Expr.nodeType]
    split <;> rfl
  | call s f args isOptional =>
    simp only [Expr.nodeType]
    split <;> rfl
  | _ => rfl

theorem goesWithContent_ofExpr (e : Expr) : goesWithContent (Node.ofExpr e).type = false := by
  have htype : (Node.ofExpr e).type = e.nodeType := by cases e <;> rfl
  rw [htype]
  exact goesWithContent_expr e

/-- Only a statement of an expression and a declaration of variables go with what they hold. -/
theorem eq_of_goesWithContent {n : Node} (hn : n.IsProper) (htype : goesWithContent n.type = true) :
    (∃ s e, n = .stmt (.expr s e)) ∨ ∃ d, n = .varDecl d := by
  cases n with
  | stmt s =>
    cases s with
    | expr s e => exact .inl ⟨s, e, rfl⟩
    -- these are seen as nodes of their own
    | var | function | classDecl | block => cases hn
    | _ => cases htype
  | varDecl d => exact .inr ⟨d, rfl⟩
  | expr e => cases (goesWithContent_expr e).symm.trans htype
  | function f standing => cases standing <;> cases htype
  | classDef c standing => cases standing <;> cases htype
  | classMember m => cases m <;> cases htype
  | importSpecifier s => cases s <;> cases htype
  | property p => cases p <;> cases htype
  | patternProperty p => cases p <;> cases htype
  | pattern p =>
    cases p with
    | target e => cases (goesWithContent_expr e).symm.trans htype
    | _ => cases htype
  | _ => cases htype

/-- What such a statement or declaration holds is none of them. -/
theorem goesWithContent_of_slot? {n : Node} (hn : n.IsProper) {step : Step} {slot : Slot Node}
    (hslot : n.slot? step = some slot) (htype : goesWithContent n.type = true) :
    goesWithContent slot.node.type = false := by
  obtain ⟨field, index⟩ := step
  -- an expression stands in the one, a declarator in the other
  rcases eq_of_goesWithContent hn htype with ⟨s, e, rfl⟩ | ⟨d, rfl⟩
  · by_cases hname : field = "expression"
    · subst hname
      cases index with
      | some i => cases hslot
      | none =>
        cases hslot
        exact goesWithContent_ofExpr e
    · have hnone : (Node.stmt (.expr s e)).field? field = none := by
        simp [Node.field?, Node.fields, Stmt.nodeFields, Field.one, Ne.symm hname]
      simp [Node.slot?, hnone] at hslot
  · by_cases hname : field = "declarations"
    · subst hname
      cases index with
      | none => cases hslot
      | some i =>
        have hitem : ((d.declarations.zipIdx.map fun x =>
            Slot.atDeclarator x.1
              ((fun ds => Node.varDecl { d with declarations := ds }) ∘
                d.declarations.set x.2))[i]?) = some slot := hslot
        rw [List.getElem?_map] at hitem
        obtain ⟨x, -, rfl⟩ := Option.map_eq_some_iff.mp hitem
        rfl
    · by_cases hkind : field = "kind"
      · subst hkind
        cases index <;> cases hslot
      · have hnone : (Node.varDecl d).field? field = none := by
          simp [Node.field?, Node.fields, Field.many, Field.word, Ne.symm hname, Ne.symm hkind]
        simp [Node.slot?, hnone] at hslot

/-- One machine differs from another one in its program, which has an item less in one list. -/
def Machine.Loses (m m' : Machine) (owner : List Step) (field : String) (i : Nat) : Prop :=
  ∃ p p', m.target = some p ∧ m' = { m with target := some p' } ∧
    p'.tree = p.tree.eraseAt owner field i

/-- The nodes in two successive places of a path. -/
theorem exists_slot_of_nodeAt? {m : Machine} {path : List Step} {step : Step} {n : Node}
    (h : m.nodeAt? (path ++ [step]) = some n) {parent : Node} (hp : m.nodeAt? path = some parent) :
    parent.IsProper ∧ ∃ slot, parent.slot? step = some slot ∧ slot.node = n := by
  obtain ⟨p, htarget, hparent⟩ := Option.bind_eq_some_iff.mp hp
  have hn : p.nodeAt? (path ++ [step]) = some n := by
    rw [Machine.nodeAt?, htarget] at h
    exact h
  have hroot : (Node.program p).IsProper := trivial
  refine ⟨Node.isProper_of_descend? hroot hparent, ?_⟩
  -- the last step is taken in the node that the others lead to
  have hsplit : ∀ (k : Node) (path : List Step), k.descend? (path ++ [step]) =
      (k.descend? path).bind fun j => (j.slot? step).map (·.node) := by
    intro k path
    induction path generalizing k with
    | nil => cases hs : k.slot? step <;> simp [Node.descend?, hs]
    | cons next path ih =>
      cases hs : k.slot? next with
      | none => simp [Node.descend?, hs]
      | some slot => simp [Node.descend?, hs, ih]
  change (Node.program p).descend? (path ++ [step]) = some n at hn
  rw [hsplit, show (Node.program p).descend? path = some parent from hparent] at hn
  exact Option.map_eq_some_iff.mp hn

/-- An item taken out of a list. -/
theorem loses_of_editProgram {m m' : Machine} {fault : Fault} {owner : List Step} {field : String}
    {i : Nat} (h : editProgram fault (·.removeIn? owner field i) m = .ok () m') :
    m.Loses m' owner field i := by
  obtain ⟨p, p', htarget, hremove, rfl⟩ := editProgram_ok (·.removeIn?_eq owner field i) h
  exact ⟨p, p', htarget, rfl, (Program.tree_removeAt? hremove).2⟩

/-- Whether a removal goes on with the node above, when an item of one of its lists has been taken
out: it was the last variable of a declaration, and the declaration stands in a list. -/
def Machine.isEmptied (m : Machine) (parentType : NodeType) (above : List Step) (field : String) :
    Bool :=
  (parentType == .variableDeclaration && m.itemCount above.reverse field == 0) &&
    above.head?.any (·.index.isSome)

/-- One step of a removal: an item of a list is taken out, and if it was the last variable of a
declaration in a list, the declaration is removed; or the statement of an expression is removed. -/
theorem removeNode_cons_ok {last : Step} {above : List Step} {m m' : Machine} {depth : Nat}
    (h : removeNode (last :: above) m = .ok depth m') :
    ∃ n parent, m.nodeAt? (above.reverse ++ [last]) = some n ∧
      m.nodeAt? above.reverse = some parent ∧
      ((∃ i m₁, last.index = some i ∧ m.Loses m₁ above.reverse last.field i ∧
          ((m₁.isEmptied parent.type above last.field = false ∧ depth = above.length + 1 ∧
              m' = m₁) ∨
            (m₁.isEmptied parent.type above last.field = true ∧
              removeNode above m₁ = .ok depth m'))) ∨
        (last.index = none ∧ parent.type = .expressionStatement ∧
          removeNode above m = .ok depth m')) := by
  obtain ⟨field, index⟩ := last
  unfold removeNode at h
  obtain ⟨n, m₁, hnode, hrest⟩ := exists_of_bind_ok h
  obtain ⟨hn, rfl⟩ := nodeAt_ok hnode
  obtain ⟨parent, m₂, hparent, hremoval⟩ := exists_of_bind_ok hrest
  obtain ⟨hp, rfl⟩ := nodeAt_ok hparent
  refine ⟨n, parent, hn, hp, ?_⟩
  -- only an item of a list is taken out; anything else goes with its parent
  cases index with
  | none =>
    dsimp only at hremoval
    split at hremoval
    · next htype => exact .inr ⟨rfl, eq_of_beq htype, hremoval⟩
    · cases hremoval
  | some i =>
    obtain ⟨_, m₁, hedit, hdepth⟩ := exists_of_bind_ok hremoval
    refine .inl ⟨i, m₁, rfl, loses_of_editProgram hedit, ?_⟩
    obtain ⟨_, _, hget, hend⟩ := exists_of_bind_ok hdepth
    cases hget
    dsimp only at hend
    split at hend
    · next hcond => exact .inr ⟨hcond, hend⟩
    · next hcond =>
      cases hend
      exact .inl ⟨Bool.eq_false_iff.mpr hcond, by simp, rfl⟩

/-- What has been emptied is a declaration. -/
theorem Machine.type_of_isEmptied {m : Machine} {parentType : NodeType} {above : List Step}
    {field : String} (h : m.isEmptied parentType above field = true) :
    parentType = .variableDeclaration := by
  unfold Machine.isEmptied at h
  rw [Bool.and_eq_true, Bool.and_eq_true] at h
  exact eq_of_beq h.1.1

/-- A statement or declaration that goes with its content is itself taken out of a list, and nothing
that holds it goes with it. -/
theorem removeNode_ok_of_goesWithContent {last : Step} {above : List Step} {m m' : Machine}
    {depth : Nat} (h : removeNode (last :: above) m = .ok depth m')
    (htype : ∀ n, m.nodeAt? (above.reverse ++ [last]) = some n → goesWithContent n.type = true) :
    ∃ i, last.index = some i ∧ m.Loses m' above.reverse last.field i ∧
      depth = above.length + 1 := by
  obtain ⟨n, parent, hn, hp, hcases⟩ := removeNode_cons_ok h
  have hchild : goesWithContent parent.type = false := by
    obtain ⟨hproper, slot, hslot, rfl⟩ := exists_slot_of_nodeAt? hn hp
    by_contra hparent
    rw [Bool.not_eq_false] at hparent
    have hslotType := goesWithContent_of_slot? hproper hslot hparent
    rw [htype _ hn] at hslotType
    cases hslotType
  rcases hcases with ⟨i, m₁, hindex, hloses, ⟨-, hdepth, rfl⟩ | ⟨hempty, -⟩⟩ | ⟨-, hstmt, -⟩
  · exact ⟨i, hindex, hloses, hdepth⟩
  · rw [Machine.type_of_isEmptied hempty] at hchild
    cases hchild
  · rw [hstmt] at hchild
    cases hchild

/-- The type of a node is that of its tree. -/
theorem type_of_read? {m : Machine} {steps : List Step} {n : Node}
    (h : m.nodeAt? steps = some n) : ∃ t, m.read? steps = some t ∧ t.type = n.type := by
  obtain ⟨p, -, hn⟩ := Option.bind_eq_some_iff.mp h
  refine ⟨n.tree, ?_, ?_⟩
  · rw [← m.map_nodeAt?_eq_read?, h]
    rfl
  · rw [Node.tree_eq n (Program.isProper_of_nodeAt? hn)]

/-- What a script reads in a program that has lost an item. -/
theorem Machine.Loses.read?_eq {m m' : Machine} {owner : List Step} {field : String} {i : Nat}
    (h : m.Loses m' owner field i) (steps : List Step) :
    m'.read? steps =
      if steps <+: owner then (m.read? steps).map (·.eraseAt (owner.drop steps.length) field i)
      else m.read? (Step.pathPast owner field i steps) := by
  obtain ⟨p, p', htarget, rfl, htree⟩ := h
  unfold Machine.read?
  rw [htarget, Option.bind_some, Option.bind_some, Option.bind_some, htree]
  exact p.tree.descend?_eraseAt owner field i steps

/-- What an item loses does not matter once the item is lost. -/
theorem Machine.Loses.trans {m m₁ m' : Machine} {owner inner : List Step} {field field' : String}
    {i j : Nat} (h : m.Loses m₁ inner field' j) (h' : m₁.Loses m' owner field i)
    (hbelow : owner ++ [⟨field, some i⟩] <+: inner) : m.Loses m' owner field i := by
  obtain ⟨p, p₁, htarget, rfl, htree⟩ := h
  obtain ⟨q, p', hq, rfl, htree'⟩ := h'
  obtain rfl : p₁ = q := Option.some.inj hq
  refine ⟨p, p', htarget, rfl, ?_⟩
  rw [htree', htree]
  exact p.tree.eraseAt_eraseAt_of_below hbelow field' j

/-- Above a place that can be read all places can. -/
theorem Machine.isSome_read?_of_prefix {m : Machine} {steps longer : List Step}
    (h : (m.read? longer).isSome) (hstart : steps <+: longer) : (m.read? steps).isSome := by
  obtain ⟨rest, rfl⟩ := hstart
  unfold read? at h ⊢
  cases htarget : m.target with
  | none =>
    rw [htarget] at h
    cases h
  | some p =>
    rw [htarget, Option.bind_some] at h
    rw [Option.bind_some]
    cases hread : p.tree.descend? steps with
    | some t => rfl
    | none =>
      rw [Tree.descend?, List.foldlM_append, ← Tree.descend?, hread] at h
      cases h

end Espalier.Script
