import Espalier.Proofs.Script.Leaving

/-!
# Removals that fail

A removal may go on with what is above the node: the last variable of a declaration is taken out
first, and then the declaration. Statements and declarations can be taken out of every list that
they stand in (`Node.frees_of_mem_fields`), so the second step does not fail after the first one,
and a removal that fails has changed nothing (`removePath_error`).
-/

namespace Espalier

open Script

/-! ### What can be taken out of a list -/

/-- Every statement or declaration of a list that may go with its content can be taken out. -/
def Items.Frees {α : Type} (items : Items α) : Prop :=
  ∀ i s, items.slots[i]? = some s → goesWithContent s.node.type = true →
    ∃ a, items.remove i = .ok a

namespace Items

variable {α β : Type} (slot : β → (β → α) → Slot α)

@[simp] theorem frees_ofList (xs : List β) (put : List β → α) : (ofList slot xs put).Frees := by
  intro i s hs _
  have hlt : i < xs.length := by
    have hlength := (List.getElem?_eq_some_iff.mp hs).1
    rwa [ofList, List.length_map, List.length_zipIdx] at hlength
  exact ⟨_, if_pos hlt⟩

@[simp] theorem frees_ofHoles (xs : List (Option β)) (put : List (Option β) → α) :
    (ofHoles slot xs put).Frees := by
  intro i s hs _
  obtain ⟨x, hx, -⟩ := Option.map_eq_some_iff.mp ((List.getElem?_map ..).symm.trans hs)
  refine ⟨put (xs.eraseIdx x.2), ?_⟩
  unfold ofHoles
  dsimp only
  rw [hx]

/-- Nothing can be taken out of the parts of a template, and none of them is a statement. -/
theorem frees_ofParts (xs : List β) (put : List β → α)
    (h : ∀ x put, goesWithContent (slot x put).node.type = false) :
    (ofParts slot xs put).Frees := by
  intro i s hs htype
  obtain ⟨x, -, rfl⟩ := Option.map_eq_some_iff.mp ((List.getElem?_map ..).symm.trans hs)
  rw [h] at htype
  cases htype

@[simp] theorem frees_ofParts_atTemplateElement (xs : List TemplateElement)
    (put : List TemplateElement → α) : (ofParts Slot.atTemplateElement xs put).Frees :=
  frees_ofParts _ _ _ fun _ _ => rfl

@[simp] theorem frees_ofParts_atExpr (xs : List Expr) (put : List Expr → α) :
    (ofParts Slot.atExpr xs put).Frees :=
  frees_ofParts _ _ _ fun e _ => goesWithContent_ofExpr e

end Items

namespace Field

variable {α β : Type}

/-- What is said of a list is said of a field that is a list. -/
def Frees : Field α → Prop
  | list items => items.Frees
  | _ => True

@[simp] theorem frees_value (scalar : Scalar) (set : Scalar → Except EditError α) :
    (value scalar set).Frees :=
  trivial

@[simp] theorem frees_fixed (scalar : Scalar) : (fixed scalar : Field α).Frees := trivial

@[simp] theorem frees_absent : (absent : Field α).Frees := trivial

@[simp] theorem frees_child (slot : Slot α) : (child slot).Frees := trivial

@[simp] theorem frees_list (items : Items α) : (list items).Frees ↔ items.Frees := Iff.rfl

@[simp] theorem frees_optional (name : String) (slot : β → (β → α) → Slot α) (x? : Option β)
    (put : Option β → α) : (Field.optional name slot x? put).2.Frees := by
  cases x? <;> trivial

end Field

namespace Node

open Field (flag text word fixedFlag one many computedKey)

/-- Statements and declarations can be taken out of every list of a node. -/
theorem frees_of_mem_fields (n : Node) : ∀ f ∈ n.fields, f.2.Frees := by
  cases n with
  | stmt s => cases s <;> simp [fields, Stmt.nodeFields, flag, one, many]
  | expr e =>
    cases e with
    | member _ _ _ isOptional | call _ _ _ isOptional =>
      simp only [fields, Expr.nodeFields]
      split <;> simp [one, many, fixedFlag]
    | _ => simp [fields, Expr.nodeFields, flag, text, word, fixedFlag, one, many]
  | pattern p => cases p <;> simp [fields, Pattern.nodeFields, one, many]
  | classMember m =>
    cases m <;>
      simp [fields, ClassMember.nodeFields, Func.nodeFields, flag, word, one, many,
        computedKey]
  | property p =>
    cases p <;>
      simp [fields, Property.nodeFields, Func.nodeFields, flag, word, fixedFlag, one, many,
        computedKey]
  | patternProperty p =>
    cases p <;>
      simp [fields, PatternProperty.nodeFields, flag, fixedFlag, one, computedKey]
  | importSpecifier s => cases s <;> simp [fields, ImportSpecifier.nodeFields, one]
  | _ => simp [fields, Func.nodeFields, flag, text, word, fixedFlag, one, many]

/-- The lists of a node give up any item, but for those of a template. -/
theorem frees_of_items? {n : Node} {name : String} {items : Items Node}
    (h : n.items? name = some items) : items.Frees := by
  unfold items? at h
  split at h
  · next hfield =>
    cases h
    obtain ⟨⟨name', field⟩, hfind, rfl⟩ := Option.map_eq_some_iff.mp hfield
    exact n.frees_of_mem_fields _ (List.mem_of_find?_eq_some hfind)
  · cases h

/-- A step with an index leads to an item of a list. -/
theorem exists_items_of_slot? {n : Node} {name : String} {i : Nat} {slot : Slot Node}
    (h : n.slot? ⟨name, some i⟩ = some slot) :
    ∃ items, n.items? name = some items ∧ items.slots[i]? = some slot := by
  unfold slot? at h
  unfold items?
  dsimp only at h
  split at h
  · next hindex => cases hindex
  · next items j hfield hindex =>
    cases hindex
    exact ⟨items, by rw [hfield], h⟩
  · cases h

end Node

/-- A statement or declaration that stands in a list can be taken out of it. -/
theorem Program.exists_removeAt? {p : Program} {path : List Step} {n : Node} {field : String}
    {i : Nat} {slot : Slot Node} (hn : p.nodeAt? path = some n)
    (hslot : n.slot? ⟨field, some i⟩ = some slot) (htype : goesWithContent slot.node.type = true) :
    ∃ p', p.removeAt? path field i = some (.ok p') := by
  obtain ⟨items, hitems, hitem⟩ := Node.exists_items_of_slot? hslot
  obtain ⟨n', hn'⟩ := Node.frees_of_items? hitems i slot hitem htype
  have hremove : p.removeAt? path field i = p.editAt? path fun _ => items.remove i := by
    unfold removeAt?
    rw [hn, Option.bind_eq_bind, Option.bind_some, hitems, Option.bind_eq_bind, Option.bind_some]
  rw [hremove]
  cases path with
  | nil => exact ⟨_, congrArg some (congrArg (Except.map _) hn')⟩
  | cons step path =>
    rw [← p.map_slotAt?_eq_nodeAt? step path] at hn
    obtain ⟨place, hplace, -⟩ := Option.map_eq_some_iff.mp hn
    refine ⟨place.put n', ?_⟩
    show (p.slotAt? (step :: path)).map _ = _
    rw [hplace, Option.map_some, hn']
    rfl

namespace Script

variable {m m' : Machine} {e : Failure}

/-- A node that cannot be read is not there. -/
theorem nodeAt_error {steps : List Step} {key : String} (h : nodeAt steps key m = .error e m') :
    m.nodeAt? steps = none ∧ m' = m :=
  orRaise_error h

/-- An edit that fails leaves the program that it began with, although it has been carried out
there; and it fails only where no other program can be made. -/
theorem editProgram_error {fault : Fault}
    {edit : Program → Option (Except EditError Unit × Program)}
    {make : Program → Option (Except EditError Program)}
    (hedit : ∀ p, edit p = (make p).map (InPlace.left p))
    (h : editProgram fault edit m = .error e m') :
    m' = m ∧ ∀ p', m.target.bind make ≠ some (.ok p') := by
  rcases exists_of_bind_error h with hget | ⟨_, _, hget, hrest⟩
  · cases hget
  cases hget
  rcases exists_of_bind_error hrest with hraise | ⟨⟨given, left⟩, m₁, hraise, hput⟩
  · obtain ⟨hnone, rfl⟩ := orRaise_error hraise
    refine ⟨rfl, fun p' hmade => ?_⟩
    obtain ⟨p, htarget, hmade⟩ := Option.bind_eq_some_iff.mp hmade
    rw [htarget, Option.bind_some, hedit, hmade] at hnone
    cases hnone
  · obtain ⟨hgiven, rfl⟩ := orRaise_ok hraise
    obtain ⟨p, htarget, hgiven⟩ := Option.bind_eq_some_iff.mp hgiven
    obtain ⟨made, hmade, hleft⟩ := Option.map_eq_some_iff.mp ((hedit p).symm.trans hgiven)
    cases given with
    | ok => cases hput
    | error cause =>
      -- the program is stored as the edit leaves it, and that is the one it was
      cases hput
      obtain rfl := InPlace.eq_of_left_eq_error hleft
      refine ⟨by rw [← htarget], fun p' hother => ?_⟩
      rw [htarget, Option.bind_some, hmade] at hother
      cases hother
      cases hleft

variable {last : Step} {above : List Step}

/-- One step of a removal that fails: the step itself fails, and nothing is changed, or else the
removal goes on with the node above and fails there. -/
theorem removeNode_cons_error (h : removeNode (last :: above) m = .error e m') :
    (m' = m ∧ ∀ i n parent p', last.index = some i →
        m.nodeAt? (above.reverse ++ [last]) = some n → m.nodeAt? above.reverse = some parent →
          m.target.bind (·.removeAt? above.reverse last.field i) ≠ some (.ok p')) ∨
      (∃ n parent i m₁, m.nodeAt? (above.reverse ++ [last]) = some n ∧
        m.nodeAt? above.reverse = some parent ∧ last.index = some i ∧
        m.Loses m₁ above.reverse last.field i ∧
        m₁.isEmptied parent.type above last.field = true ∧ removeNode above m₁ = .error e m') ∨
      (last.index = none ∧ removeNode above m = .error e m') := by
  obtain ⟨field, index⟩ := last
  unfold removeNode at h
  rcases exists_of_bind_error h with hnode | ⟨n, m₁, hnode, hrest⟩
  · obtain ⟨hnone, rfl⟩ := nodeAt_error hnode
    refine .inl ⟨rfl, fun i n parent p' _ hn => ?_⟩
    rw [hnone] at hn
    cases hn
  obtain ⟨hn, rfl⟩ := nodeAt_ok hnode
  rcases exists_of_bind_error hrest with hparent | ⟨parent, m₂, hparent, hremoval⟩
  · obtain ⟨hnone, rfl⟩ := nodeAt_error hparent
    refine .inl ⟨rfl, fun i n parent p' _ _ hp => ?_⟩
    rw [hnone] at hp
    cases hp
  obtain ⟨hp, rfl⟩ := nodeAt_ok hparent
  cases index with
  | none =>
    dsimp only at hremoval
    split at hremoval
    · exact .inr (.inr ⟨rfl, hremoval⟩)
    · cases hremoval
      refine .inl ⟨rfl, fun i _ _ _ hindex => ?_⟩
      cases hindex
  | some i =>
    rcases exists_of_bind_error hremoval with hfail | ⟨_, m₃, hdone, hend⟩
    · obtain ⟨rfl, hbad⟩ := editProgram_error (·.removeIn?_eq _ _ _) hfail
      -- the edit itself failed, before anything was changed
      refine .inl ⟨rfl, fun j _ _ p' hindex _ _ => ?_⟩
      cases hindex
      exact hbad p'
    rcases exists_of_bind_error hend with hget | ⟨_, _, hget, hlast⟩
    · cases hget
    cases hget
    dsimp only at hlast
    split at hlast
    · next hcond =>
      -- the edit went well, and it is the parent left empty that cannot go
      exact .inr (.inl ⟨n, parent, i, m₃, hn, hp, rfl, loses_of_editProgram hdone, hcond, hlast⟩)
    · cases hlast

/-- A statement or declaration that stands in a list can be removed. -/
theorem not_removeNode_error {n : Node} (hindex : last.index.isSome)
    (hn : m.nodeAt? (above.reverse ++ [last]) = some n) (htype : goesWithContent n.type = true) :
    removeNode (last :: above) m ≠ .error e m' := by
  intro h
  rcases removeNode_cons_error h with
    ⟨-, hfail⟩ | ⟨n', parent, i, m₁, hn', hp, hi, -, hempty, -⟩ | ⟨hnone, -⟩
  · obtain ⟨i, hi⟩ := Option.isSome_iff_exists.mp hindex
    obtain ⟨t, ht, -⟩ := type_of_read? hn
    obtain ⟨u, hu⟩ := Option.isSome_iff_exists.mp
      (m.isSome_read?_of_prefix (Option.isSome_of_eq_some ht) (List.prefix_append _ [last]))
    obtain ⟨parent, hp, -, -⟩ := Machine.read?_eq_some_iff.mp hu
    obtain ⟨-, slot, hslot, rfl⟩ := exists_slot_of_nodeAt? hn hp
    obtain ⟨p, htarget, hparent⟩ := Option.bind_eq_some_iff.mp hp
    have hlast : last = ⟨last.field, some i⟩ := by rw [← hi]
    rw [hlast] at hslot
    obtain ⟨p', hremove⟩ := Program.exists_removeAt? hparent hslot htype
    exact hfail i _ parent p' hi hn hp (by rw [htarget, Option.bind_some, hremove])
  · -- a declaration does not stand directly in another one
    obtain rfl : n' = n := Option.some.inj (hn'.symm.trans hn)
    obtain ⟨hproper, slot, hslot, rfl⟩ := exists_slot_of_nodeAt? hn' hp
    have hvar := Machine.type_of_isEmptied hempty
    have hother := goesWithContent_of_slot? hproper hslot (by rw [hvar]; rfl)
    rw [htype] at hother
    cases hother
  · rw [hnone] at hindex
    cases hindex

/-- A removal that fails has changed nothing. -/
theorem removeNode_error {steps : List Step} (h : removeNode steps m = .error e m') : m' = m := by
  induction steps with
  | nil =>
    cases h
    rfl
  | cons last above ih =>
    rcases removeNode_cons_error h with
      ⟨rfl, -⟩ | ⟨n, parent, i, m₁, hn, hp, hi, hloses, hempty, hagain⟩ | ⟨-, hagain⟩
    · rfl
    · -- the declaration is still there, less the variable, and can be removed
      cases above with
      | nil =>
        rw [Machine.isEmptied, List.head?_nil, Option.any_none, Bool.and_false] at hempty
        cases hempty
      | cons next above =>
        obtain ⟨t, ht, htype⟩ := type_of_read? hp
        have hread : m₁.read? (next :: above).reverse = some (t.eraseItem last.field i) := by
          rw [hloses.read?_eq, if_pos List.prefix_rfl, ht, List.drop_length]
          rfl
        obtain ⟨k, hk, hproper, htree⟩ := Machine.read?_eq_some_iff.mp hread
        have hkind : k.type = parent.type := by
          rw [Node.tree_eq k hproper] at htree
          rw [← htype, ← (t.type_eraseItem last.field i).1, ← htree]
        have hindex : next.index.isSome := (Bool.and_eq_true_iff.mp hempty).2
        rw [List.reverse_cons] at hk
        refine absurd hagain (not_removeNode_error hindex hk ?_)
        rw [hkind, Machine.type_of_isEmptied hempty]
        rfl
    · exact ih hagain

/-- **A path whose removal fails is as it was, and so is everything else.** -/
theorem removePath_error {id : PathId} (h : removePath id m = .error e m') : m' = m := by
  rcases exists_of_bind_error h with hget | ⟨_, _, hget, hrest⟩
  · cases hget
  cases hget
  dsimp only at hrest
  split at hrest
  · rcases exists_of_bind_error hrest with hraise | ⟨_, _, hraise, -⟩
    · cases hraise
      rfl
    · cases hraise
  · rcases exists_of_bind_error hrest with hremove | ⟨depth, m₁, -, hmark⟩
    · exact removeNode_error hremove
    · cases hmark

end Script

end Espalier
