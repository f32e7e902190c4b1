import Espalier.Grammar
import Espalier.Proofs.Grammar.Cover
import Espalier.Proofs.Node.Replacement

/-!
# The effect of an edit

After an edit a reader finds what was asked for where it was asked for: the value in its field, the
list without the item, the expression in its place. Elsewhere nothing is read that was not read
before (`Program.edits_change_their_place_alone`).

A value that is put into a field of a node leaves the children of the node where and what they are
(`Node.children_setScalar`). Where the value tells whether a key stands between brackets, the key is
kept as another construct, but the same node is read there.
-/

namespace Espalier

/-! ### Words and what they spell -/

/-- A word that is looked up by its text has that text. -/
theorem text_of_find? {β : Type} {text : β → String} {all : List β} {s : String} {b : β}
    (h : (all.find? fun b => text b == s) = some b) : text b = s := by
  simpa using List.find?_some h

theorem MethodKind.text_of_ofObjectText? {s : String} {kind : MethodKind}
    (h : ofObjectText? s = some kind) : kind.text = s :=
  text_of_find? (Option.filter_eq_some_iff.mp h).1

/-- An operator found by its sign has that sign. -/
theorem InfixOp.text_of_ofText? {s : String} {op : InfixOp} (h : ofText? s = some op) :
    op.text = s := by
  cases hbinary : BinaryOp.ofText? s with
  | some op =>
    rw [ofText?, hbinary] at h
    cases h
    exact (text_of_find? hbinary : op.text = s)
  | none =>
    rw [ofText?, hbinary] at h
    obtain ⟨op, hop, rfl⟩ := Option.map_eq_some_iff.mp h
    exact (text_of_find? hop : op.text = s)

/-- A key marked as computed, or not, is what it was marked as. -/
theorem PropertyKey.isComputed_of_setComputed {key key' : PropertyKey} {computed : Bool}
    (h : key.setComputed computed = .ok key') : key'.isComputed = computed := by
  cases key with
  | ident i | literal e => cases computed <;> (cases h; rfl)
  | computed e =>
    cases computed with
    | true =>
      cases h
      rfl
    | false =>
      cases e with
      | ident | string | number =>
        cases h
        rfl
      | _ => cases h

/-- A name that was made computed is computed, and the other way round. -/
theorem MemberName.isComputed_of_setComputed {name name' : MemberName} {computed : Bool}
    (h : name.setComputed computed = .ok name') : name'.isComputed = computed := by
  cases name with
  | ident i => cases computed <;> (cases h; rfl)
  | computed e =>
    cases computed with
    | true =>
      cases h
      rfl
    | false =>
      cases e with
      | ident =>
        cases h
        rfl
      | _ => cases h

/-- Brackets make no difference for the node that a key is. -/
theorem PropertyKey.tree_of_setComputed {key key' : PropertyKey} {computed : Bool}
    (h : key.setComputed computed = .ok key') : key'.tree = key.tree := by
  cases key with
  | ident i | literal e => cases computed <;> (cases h; rfl)
  | computed e =>
    cases computed with
    | true =>
      cases h
      rfl
    | false =>
      cases e with
      | ident | string | number =>
        cases h
        rfl
      | _ => cases h

/-- Brackets make no difference for the node that the name of a member is. -/
theorem MemberName.tree_of_setComputed {name name' : MemberName} {computed : Bool}
    (h : name.setComputed computed = .ok name') : name'.tree = name.tree := by
  cases name with
  | ident i => cases computed <;> (cases h; rfl)
  | computed e =>
    cases computed with
    | true =>
      cases h
      rfl
    | false =>
      cases e with
      | ident =>
        cases h
        rfl
      | _ => cases h

/-! ### Fields that hold values -/

namespace Field

/-- A value that is put into this field of a node is what the field holds afterwards, in a node that
may take the place of that node. -/
def Sets (n : Node) (field : String × Field Node) : Prop :=
  match field with
  | (name, .value _ set) =>
    ∀ v n', set v = .ok n' → n.Alters n' ∧ ∃ set', (name, .value v set') ∈ n'.fields
  | _ => True

section

variable {n : Node} (name : String)

/-- A truth value that is set is there. -/
theorem sets_flag (value : Bool) (put : Bool → Node)
    (h : ∀ b, n.Alters (put b) ∧ ∃ put', flag name b put' ∈ (put b).fields) :
    Sets n (flag name value put) := by
  intro v n' hv
  cases v with
  | bool b =>
    cases hv
    obtain ⟨halters, put', hmem⟩ := h b
    exact ⟨halters, _, hmem⟩
  | string | number => cases hv

/-- A text field takes every text, and shows it then. -/
theorem sets_text (value : String) (put : String → Node)
    (h : ∀ s, n.Alters (put s) ∧ ∃ put', text name s put' ∈ (put s).fields) :
    Sets n (text name value put) := by
  intro v n' hv
  cases v with
  | string s =>
    cases hv
    obtain ⟨halters, put', hmem⟩ := h s
    exact ⟨halters, _, hmem⟩
  | bool | number => cases hv

/-- A word that is set is there: only words that name something are accepted. -/
theorem sets_word {β : Type} (value : String) {ofText? : String → Option β} (text : β → String)
    (put : β → Node) (htext : ∀ {s b}, ofText? s = some b → text b = s)
    (h : ∀ b, n.Alters (put b) ∧ ∃ set, (name, .value (.string (text b)) set) ∈ (put b).fields) :
    Sets n (word name value ofText? put) := by
  intro v n' hv
  cases v with
  | string s =>
    -- an unknown word is refused, and nothing is made
    cases hs : ofText? s with
    | none =>
      have hrefused :
          (Scalar.string s).expectWord name ofText? = .error (.invalidValue name s) := by
        simp only [Scalar.expectWord, Scalar.expectString, bind, Except.bind, hs]
      dsimp only at hv
      rw [hrefused] at hv
      cases hv
    | some b =>
      have hword : (Scalar.string s).expectWord name ofText? = .ok b := by
        simp only [Scalar.expectWord, Scalar.expectString, bind, Except.bind, hs]
      dsimp only at hv
      rw [hword] at hv
      cases hv
      obtain ⟨halters, set, hmem⟩ := h b
      rw [htext hs] at hmem
      exact ⟨halters, set, hmem⟩
  | bool | number => cases hv

/-- The flag of a key is set by changing the key. -/
theorem sets_computedKey (key : PropertyKey) (put : PropertyKey → Node)
    (h : ∀ k, n.Alters (put k) ∧ ∃ put', computedKey k put' ∈ (put k).fields) :
    Sets n (computedKey key put) := by
  intro v n' hv
  cases v with
  | bool b =>
    cases hkey : key.setComputed b with
    | error cause =>
      simp only [Scalar.expectBool, bind, Except.bind, hkey] at hv
      cases hv
    | ok k =>
      simp only [Scalar.expectBool, bind, Except.bind, hkey] at hv
      cases hv
      obtain ⟨halters, put', hmem⟩ := h k
      refine ⟨halters, ?_⟩
      rw [← PropertyKey.isComputed_of_setComputed hkey]
      exact ⟨_, hmem⟩
  | string | number => cases hv

theorem sets_optional {β : Type} (slot : β → (β → Node) → Slot Node) (x? : Option β)
    (put : Option β → Node) : Sets n (optional name slot x? put) := by
  cases x? <;> trivial

/-- A value that cannot be set makes no claim. -/
theorem sets_of_mem_ite {c : Prop} [Decidable c] (value : Bool) :
    ∀ field ∈ (if c then [fixedFlag name value] else []), Sets n field := by
  intro field hmem
  split at hmem
  · obtain rfl := List.mem_singleton.mp hmem
    trivial
  · cases hmem

end

end Field

namespace Node

open Field

/-- A value put into a field of an expression is what the field holds then. -/
theorem sets_expr (e : Expr) : ∀ field ∈ (expr e).fields, Sets (expr e) field := by
  cases e with
  | number s x =>
    simp only [fields, Expr.nodeFields, List.forall_mem_cons]
    refine ⟨fun v n' hv => ?_, List.forall_mem_nil _⟩
    cases v with
    | number y =>
      cases hv
      exact ⟨.expr _ _ rfl rfl, _, .head _⟩
    | string | bool => cases hv
  | binary s op l r | logical s op l r =>
    simp only [fields, Expr.nodeFields, List.forall_mem_cons]
    refine ⟨trivial, sets_word _ _ InfixOp.text _ InfixOp.text_of_ofText? fun op => ?_, trivial,
      List.forall_mem_nil _⟩
    -- an operator of the other kind makes a node of the other type
    cases op with
    | binary op => exact ⟨.expr _ _ rfl rfl, _, .tail _ (.head _)⟩
    | logical op => exact ⟨.expr _ _ rfl rfl, _, .tail _ (.head _)⟩
  | member s o p isOptional =>
    simp only [fields, Expr.nodeFields, List.forall_mem_append, List.forall_mem_cons]
    refine ⟨⟨trivial, fun v n' hv => ?_, trivial, List.forall_mem_nil _⟩, ?_⟩
    · cases v with
      | bool b =>
        cases hname : p.setComputed b with
        | error cause =>
          simp only [Scalar.expectBool, bind, Except.bind, hname] at hv
          cases hv
        | ok q =>
          simp only [Scalar.expectBool, bind, Except.bind, hname] at hv
          cases hv
          refine ⟨.expr _ _ rfl rfl, ?_⟩
          rw [← MemberName.isComputed_of_setComputed hname]
          exact ⟨_, .tail _ (.head _)⟩
      | string | number => cases hv
    · exact sets_of_mem_ite _ _
  | call s f args isOptional =>
    simp only [fields, Expr.nodeFields, List.forall_mem_append, List.forall_mem_cons]
    exact ⟨⟨trivial, trivial, List.forall_mem_nil _⟩, sets_of_mem_ite _ _⟩
  | yield s e delegate =>
    simp only [fields, Expr.nodeFields, List.forall_mem_cons]
    refine ⟨sets_flag _ _ _ fun b => ⟨.expr _ _ rfl rfl, _, .head _⟩, sets_optional _ _ _ _,
      List.forall_mem_nil _⟩
  | unary s op e =>
    simp only [fields, Expr.nodeFields, List.forall_mem_cons]
    exact ⟨sets_word _ _ UnaryOp.text _ text_of_find? fun op => ⟨.expr _ _ rfl rfl, _, .head _⟩,
      trivial, trivial, List.forall_mem_nil _⟩
  | update s op isPrefix e =>
    simp only [fields, Expr.nodeFields, List.forall_mem_cons]
    exact ⟨sets_word _ _ UpdateOp.text _ text_of_find? fun op => ⟨.expr _ _ rfl rfl, _, .head _⟩,
      sets_flag _ _ _ fun b => ⟨.expr _ _ rfl rfl, _, .tail _ (.head _)⟩, trivial,
      List.forall_mem_nil _⟩
  | assign s op l r =>
    simp only [fields, Expr.nodeFields, List.forall_mem_cons]
    exact ⟨sets_word _ _ AssignOp.text _ text_of_find? fun op => ⟨.expr _ _ rfl rfl, _, .head _⟩,
      trivial, trivial, List.forall_mem_nil _⟩
  | _ =>
    simp only [fields, Expr.nodeFields, List.forall_mem_cons, List.not_mem_nil, false_imp_iff,
      implies_true, and_true]
    repeat' first
      | exact trivial
      | refine sets_flag _ _ _ fun b => ⟨.expr _ _ rfl rfl, ⟨?_, ?_⟩⟩
      | refine sets_text _ _ _ fun s => ⟨.expr _ _ rfl rfl, ⟨?_, ?_⟩⟩
      | exact List.Mem.head _
      | refine List.Mem.tail _ ?_
      | refine And.intro ?_ ?_

/-- A value put into a field of a node is what the field holds then. -/
theorem sets_of_mem_fields (n : Node) : ∀ field ∈ n.fields, Sets n field := by
  cases n with
  | expr e => exact sets_expr e
  -- the nodes whose fields depend on the constructor
  | stmt part | pattern part | classMember part | property part | patternProperty part
  | importSpecifier part =>
    cases part <;>
      simp only [fields, Stmt.nodeFields, Pattern.nodeFields, ClassMember.nodeFields,
        Property.nodeFields, PatternProperty.nodeFields, ImportSpecifier.nodeFields,
        Func.nodeFields, List.forall_mem_append, List.forall_mem_cons, List.not_mem_nil,
        false_imp_iff, implies_true, and_true]
    all_goals
      repeat' first
        | exact trivial
        | exact sets_optional _ _ _ _
        | refine sets_flag _ _ _ fun _ => ⟨by constructor <;> rfl, ⟨?_, ?_⟩⟩
        | refine sets_computedKey _ _ fun _ => ⟨by constructor, ⟨?_, ?_⟩⟩
        | refine sets_word _ _ MethodKind.text _ text_of_find? fun _ => ⟨by constructor, ⟨?_, ?_⟩⟩
        | refine sets_word _ _ MethodKind.text _ MethodKind.text_of_ofObjectText? fun _ =>
            ⟨by constructor, ⟨?_, ?_⟩⟩
        | exact List.Mem.head _
        | refine List.Mem.tail _ ?_
        | refine And.intro ?_ ?_
  -- each remaining node has one list of fields
  | _ =>
    simp only [fields, Func.nodeFields, List.forall_mem_cons, List.not_mem_nil, false_imp_iff,
      implies_true, and_true]
    repeat' first
      | exact trivial
      | exact sets_optional _ _ _ _
      | refine sets_flag _ _ _ fun _ => ⟨by constructor, ⟨?_, ?_⟩⟩
      | refine sets_text _ _ _ fun _ => ⟨by constructor, ⟨?_, ?_⟩⟩
      | refine sets_word _ _ VarKind.text _ text_of_find? fun _ => ⟨by constructor, ⟨?_, ?_⟩⟩
      | exact List.Mem.head _
      | refine List.Mem.tail _ ?_
      | refine And.intro ?_ ?_

/-- A value put into a field is read there afterwards, in a node that may take the place of the one
before. -/
theorem setScalar_ok {n n' : Node} {name : String} {v : Scalar}
    (h : n.setScalar name v = .ok n') :
    n.Alters n' ∧ n'.tree.field? name = some (.value name v) := by
  unfold setScalar at h
  split at h
  · next scalar set hfield =>
    obtain ⟨⟨name', field⟩, hfind, hvalue⟩ := Option.map_eq_some_iff.mp hfield
    obtain rfl : name' = name := by simpa using List.find?_some hfind
    obtain rfl : field = .value scalar set := hvalue
    obtain ⟨halters, set', hmem⟩ := n.sets_of_mem_fields _ (List.mem_of_find?_eq_some hfind) v n' h
    refine ⟨halters, ?_⟩
    obtain ⟨⟨name, field⟩, hfind', rfl⟩ := Option.map_eq_some_iff.mp (field?_of_mem hmem)
    obtain rfl : name = name' := by simpa using List.find?_some hfind'
    rw [field?_tree halters.isProper, hfind']
    rfl
  · cases h

end Node

/-! ### Values and children -/

namespace TreeField

/-- A text is no child. -/
@[simp] theorem children_text (name s : String) : (text name s).children = [] := rfl

@[simp] theorem children_child (name : String) (t : Tree) :
    (child name t).children = [(⟨name, none⟩, t)] := rfl

end TreeField

namespace Field

/-- A value that is put into this field of a node leaves the children of the node as they are. -/
def Spares (n : Node) (field : String × Field Node) : Prop :=
  match field with
  | (_, .value _ set) => ∀ v n', set v = .ok n' → n'.tree.children = n.tree.children
  | _ => True

section

variable {n : Node} (name : String) {β : Type}

/-- A value that is checked and then put into the node. -/
theorem spares_value (scalar : Scalar) {check : Scalar → Except EditError β} (put : β → Node)
    (h : ∀ b, (put b).tree.children = n.tree.children) :
    Spares n (name, .value scalar fun v => (check v).map put) := by
  intro v n' hv
  dsimp only at hv
  cases hb : check v with
  | error cause =>
    rw [hb] at hv
    cases hv
  | ok b =>
    rw [hb] at hv
    cases hv
    exact h b

/-- A truth value that tells whether something stands between brackets. -/
theorem spares_computed (scalar : Scalar) {setComputed : Bool → Except EditError β} (put : β → Node)
    (h : ∀ b k, setComputed b = .ok k → (put k).tree.children = n.tree.children) :
    Spares n (name, .value scalar fun v => do
      return put (← setComputed (← v.expectBool "computed"))) := by
  intro v n' hv
  obtain ⟨b, -, hv⟩ := exists_of_bind_eq_ok hv
  obtain ⟨k, hk, hv⟩ := exists_of_bind_eq_ok hv
  cases hv
  exact h b k hk

theorem spares_computedKey (key : PropertyKey) (put : PropertyKey → Node)
    (h : ∀ k, k.tree = key.tree → (put k).tree.children = n.tree.children) :
    Spares n (computedKey key put) :=
  spares_computed _ _ put fun _ k hk => h k (PropertyKey.tree_of_setComputed hk)

theorem spares_optional (slot : β → (β → Node) → Slot Node) (x? : Option β)
    (put : Option β → Node) : Spares n (optional name slot x? put) := by
  cases x? <;> trivial

theorem spares_of_mem_ite {c : Prop} [Decidable c] (value : Bool) :
    ∀ field ∈ (if c then [fixedFlag name value] else []), Spares n field := by
  intro field hmem
  split at hmem
  · obtain rfl := List.mem_singleton.mp hmem
    trivial
  · cases hmem

end

end Field

namespace Node

open Field

/-- Setting a scalar of an expression leaves the children. -/
theorem spares_expr (e : Expr) : ∀ field ∈ (expr e).fields, Spares (expr e) field := by
  cases e with
  -- the operator decides between two node types with the same children
  | binary s op l r | logical s op l r =>
    simp only [fields, Expr.nodeFields, List.forall_mem_cons]
    refine ⟨trivial, spares_value _ _ _ fun op => ?_, trivial, List.forall_mem_nil _⟩
    cases op <;> rfl
  | member s o p isOptional =>
    simp only [fields, Expr.nodeFields, List.forall_mem_append, List.forall_mem_cons]
    refine ⟨⟨trivial, spares_computed _ _ _ fun b q hq => ?_, trivial, List.forall_mem_nil _⟩,
      spares_of_mem_ite _ _⟩
    simp only [tree, Expr.tree, MemberName.tree_of_setComputed hq]
    split <;> rfl
  | call s f args isOptional =>
    simp only [fields, Expr.nodeFields, List.forall_mem_append, List.forall_mem_cons]
    exact ⟨⟨trivial, trivial, List.forall_mem_nil _⟩, spares_of_mem_ite _ _⟩
  | _ =>
    simp only [fields, Expr.nodeFields, List.forall_mem_cons, List.not_mem_nil, false_imp_iff,
      implies_true, and_true]
    repeat' first
      | exact trivial
      | exact spares_optional _ _ _ _
      | exact spares_value _ _ _ fun _ => rfl
      | refine And.intro ?_ ?_

/-- A value put into a field of a node leaves the children of the node as they are. -/
theorem spares_of_mem_fields (n : Node) : ∀ field ∈ n.fields, Spares n field := by
  cases n with
  | expr e => exact spares_expr e
  | classMember part | property part | patternProperty part =>
    cases part <;>
      simp only [fields, ClassMember.nodeFields, Property.nodeFields, PatternProperty.nodeFields,
        Func.nodeFields, List.forall_mem_append, List.forall_mem_cons, List.not_mem_nil,
        false_imp_iff, implies_true, and_true]
    all_goals
      repeat' first
        | exact trivial
        | exact spares_optional _ _ _ _
        | refine spares_value _ _ _ fun _ => ?_
        | refine spares_computedKey _ _ fun _ hkey => ?_
        | refine And.intro ?_ ?_
    -- Where a method has its function, the fields of that follow those of the key.
    all_goals
      simp [tree, ClassMember.tree, Property.tree, PatternProperty.tree, Func.fields_eq_list,
        Tree.children, *]
  | stmt part | pattern part | importSpecifier part =>
    cases part <;>
      simp only [fields, Stmt.nodeFields, Pattern.nodeFields, ImportSpecifier.nodeFields,
        List.forall_mem_cons, List.not_mem_nil, false_imp_iff, implies_true, and_true]
    all_goals
      repeat' first
        | exact trivial
        | exact spares_optional _ _ _ _
        | exact spares_value _ _ _ fun _ => rfl
        | refine And.intro ?_ ?_
  | function part standing =>
    cases part
    simp only [fields, Func.nodeFields, List.forall_mem_cons]
    refine ⟨spares_optional _ _ _ _, ?_, ?_, trivial, trivial, List.forall_mem_nil _⟩
    all_goals cases standing <;> exact spares_value _ _ _ fun _ => rfl
  | _ part =>
    cases part
    simp only [fields, List.forall_mem_cons, List.not_mem_nil, false_imp_iff, implies_true,
      and_true]
    repeat' first
      | exact trivial
      | exact spares_optional _ _ _ _
      | exact spares_value _ _ _ fun _ => rfl
      | refine And.intro ?_ ?_

/-- Setting a scalar leaves the children of the node. -/
theorem children_setScalar {n n' : Node} {name : String} {v : Scalar}
    (h : n.setScalar name v = .ok n') : n'.tree.children = n.tree.children := by
  unfold setScalar at h
  split at h
  · next scalar set hfield =>
    obtain ⟨⟨name', field⟩, hfind, hvalue⟩ := Option.map_eq_some_iff.mp hfield
    obtain rfl : field = .value scalar set := hvalue
    exact n.spares_of_mem_fields _ (List.mem_of_find?_eq_some hfind) v n' h
  · cases h

end Node

/-! ### Programs -/

namespace Program

/-- An edit of the node at the end of a path that leaves it a node of its kind puts the edited node
in its place. -/
theorem grafted_editAt? {p p' : Program} {path : List Step} {edit : Node → Except EditError Node}
    (hedit : ∀ n k, edit n = .ok k → n.Alters k) (h : p.editAt? path edit = some (.ok p')) :
    ∃ n k, edit n = .ok k ∧ p.tree.Grafted path k.tree p'.tree := by
  obtain ⟨n, k, hn, hk, htree⟩ := tree_editAt? (fun n k _ => hedit n k) h
  refine ⟨n, k, hk, ?_⟩
  rw [htree]
  exact Tree.grafted_editAt (Option.isSome_of_eq_some (descend?_of_nodeAt? hn)) k.tree

/-- **An edit changes what it is made at, and that alone.** A value that has been put into a field
is what is read there. Of a list from which an item has been taken out, the items that are read are
those before, in their order, without that item; holes are not counted. Where an expression has been
put, it is read: as a statement of its span in a place of a statement, as itself elsewhere. A value
or an expression that is put somewhere changes nothing that is read off the path to it. -/
theorem edits_change_their_place_alone (p p' : Program) (path : List Step) :
    (∀ field v, p.setScalarAt? path field v = some (.ok p') →
      (p'.tree.descend? path).bind (·.field? field) = some (.value field v) ∧
        ∀ other, ¬ other <+: path → ¬ path <+: other →
          p'.tree.descend? other = p.tree.descend? other) ∧
    (∀ field i, p.removeAt? path field i = some (.ok p') →
      ∃ ts, i < ts.length ∧
        (p.tree.descend? path).bind (·.field? field) = some (.list field ts) ∧
        (p'.tree.descend? path).bind (·.field? field) = some (.list field (ts.eraseIdx i))) ∧
    ∀ e, p.replaceAt? path e = some (.ok p') →
      (∃ slot, p.slotAt? path = some slot ∧
        p'.tree.descend? path =
          some (if slot.kind = .stmt then
            ⟨.expressionStatement, e.span, [.child "expression" e.tree]⟩ else e.tree)) ∧
        ∀ other, ¬ other <+: path → ¬ path <+: other →
          p'.tree.descend? other = p.tree.descend? other := by
  refine ⟨fun field v h => ?_, fun field i h => ?_, fun e h => ?_⟩
  · obtain ⟨n, k, hk, hgraft⟩ := grafted_editAt? (fun n k hk => (Node.setScalar_ok hk).1) h
    refine ⟨?_, fun other => hgraft.descend?_of_apart⟩
    rw [hgraft.descend?_self]
    exact (Node.setScalar_ok hk).2
  · -- the list is read where it stood before, and is one item shorter there
    obtain ⟨⟨t, ts, hread, hlist, hi⟩, htree⟩ := tree_removeAt? h
    refine ⟨ts, hi, ?_, ?_⟩
    · rw [hread]
      exact hlist
    · have hnew : p'.tree.descend? path = some (t.eraseItem field i) := by
        rw [htree, Tree.descend?_eraseAt, if_pos (List.prefix_refl path), hread, List.drop_length]
        rfl
      rw [hnew]
      show (t.eraseItem field i).field? field = _
      rw [Tree.eraseItem, hlist]
      show (t.setField _).field? field = _
      rw [Tree.field?_setField, hlist]
      exact if_pos rfl
  · obtain ⟨slot, hslot, hgraft⟩ := grafted_replaceAt? h
    refine ⟨⟨slot, hslot, ?_⟩, fun other => hgraft.descend?_of_apart⟩
    rw [hgraft.descend?_self]
    cases slot.kind <;> rfl

theorem exists_ok_of_any {ε α : Type} {x : Option (Except ε α)}
    (h : x.any (·.toOption.isSome) = true) : ∃ a, x = some (.ok a) := by
  obtain ⟨result, rfl, hok⟩ := (Option.any_eq_true _ _).mp h
  obtain ⟨a, rfl⟩ := exists_ok_of_isSome hok
  exact ⟨a, rfl⟩

/-- An operator is put in place of one of the other kind, the first element behind a hole is taken
out, and a call is put in place of a statement. -/
theorem edits_change_their_place_alone_of_array :
    ∃ p p₁ p₂ p₃ e, (Program.parse "x = [, a + b, c]; y").toOption = some p ∧
      (Expr.parse "f()").toOption = some e ∧
      let array : List Step := [⟨"body", some 0⟩, ⟨"expression", none⟩, ⟨"right", none⟩]
      let sum := array ++ [⟨"elements", some 0⟩]
      let last := array ++ [⟨"elements", some 1⟩]
      let statement : List Step := [⟨"body", some 0⟩]
      p.setScalarAt? sum "operator" (.string "&&") = some (.ok p₁) ∧
      (p₁.tree.descend? sum).bind (·.field? "operator") =
        some (.value "operator" (.string "&&")) ∧
      p₁.tree.descend? last = p.tree.descend? last ∧
      p.removeAt? array "elements" 0 = some (.ok p₂) ∧
      (∃ ts, 0 < ts.length ∧
        (p.tree.descend? array).bind (·.field? "elements") = some (.list "elements" ts) ∧
        (p₂.tree.descend? array).bind (·.field? "elements") =
          some (.list "elements" (ts.eraseIdx 0))) ∧
      p.replaceAt? statement e = some (.ok p₃) ∧
      (∃ slot, p.slotAt? statement = some slot ∧ p₃.tree.descend? statement =
        some (if slot.kind = .stmt then
          ⟨.expressionStatement, e.span, [.child "expression" e.tree]⟩ else e.tree)) ∧
      p₃.tree.descend? [⟨"body", some 1⟩] = p.tree.descend? [⟨"body", some 1⟩] := by
  have h : ((Program.parse "x = [, a + b, c]; y").toOption.any fun p =>
      (Expr.parse "f()").toOption.any fun e =>
      let array : List Step := [⟨"body", some 0⟩, ⟨"expression", none⟩, ⟨"right", none⟩]
      (p.setScalarAt? (array ++ [⟨"elements", some 0⟩]) "operator" (.string "&&")).any
          (·.toOption.isSome) &&
        ((p.removeAt? array "elements" 0).any (·.toOption.isSome) &&
        (p.replaceAt? [⟨"body", some 0⟩] e).any (·.toOption.isSome))) = true := by decide +kernel
  obtain ⟨p, hp, h⟩ := (Option.any_eq_true _ _).mp h
  obtain ⟨e, he, h⟩ := (Option.any_eq_true _ _).mp h
  obtain ⟨hset, h⟩ := Bool.and_eq_true_iff.mp h
  obtain ⟨hremove, hreplace⟩ := Bool.and_eq_true_iff.mp h
  -- none of the three edits fails, so the theorem tells what they did
  obtain ⟨p₁, hset⟩ := exists_ok_of_any hset
  obtain ⟨p₂, hremove⟩ := exists_ok_of_any hremove
  obtain ⟨p₃, hreplace⟩ := exists_ok_of_any hreplace
  obtain ⟨hvalue, hbeside⟩ := (edits_change_their_place_alone p p₁ _).1 _ _ hset
  have hitems := (edits_change_their_place_alone p p₂ _).2.1 _ _ hremove
  obtain ⟨hplace, hafter⟩ := (edits_change_their_place_alone p p₃ _).2.2 _ hreplace
  refine ⟨p, p₁, p₂, p₃, e, hp, he, hset, hvalue, ?_, hremove, hitems, hreplace, hplace, ?_⟩
  · exact hbeside _ (by decide) (by decide)
  · exact hafter _ (by decide) (by decide)

end Program

end Espalier
