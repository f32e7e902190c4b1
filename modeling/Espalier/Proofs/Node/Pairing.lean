import Espalier.Proofs.Grammar.Making
import Espalier.Proofs.Node.Departure
import Espalier.Proofs.Node.Effect
import Mathlib.Data.Nat.Basic
import Mathlib.Order.Basic

/-!
# Edits around templates

The pieces and the substitutions of a template can be changed and replaced, but none can be taken
out. So an edit, wherever it is made, leaves a piece more than substitutions in each template
(`Program.allPaired_setScalarAt?`, `Program.allPaired_removeAt?`, `Program.allPaired_replaceAt?`),
if an expression that is put in place is such that this is so in it.
-/

namespace Espalier

namespace Tree

/-- If a node is a template, it has a piece in front of each substitution and one behind the last.
-/
def IsPaired (t : Tree) : Prop :=
  t.type = .templateLiteral → t.itemCount "quasis" = t.itemCount "expressions" + 1

/-- Wherever a path leads, a template there has its pieces. -/
def AllPaired (t : Tree) : Prop := ∀ path u, t.descend? path = some u → u.IsPaired

/-! ### Steps and items -/

/-- A list has a child at each index below its length. -/
theorem isSome_child?_item {t : Tree} {name : String} {i : Nat} :
    (t.child? ⟨name, some i⟩).isSome ↔ i < t.itemCount name := by
  constructor
  · intro h
    obtain ⟨c, hc⟩ := Option.isSome_iff_exists.mp h
    exact lt_itemCount hc
  · intro h
    unfold itemCount at h
    split at h
    · next field ts hf =>
      rw [child?_eq_bind, hf]
      exact (isSome_getElem? ts i).mpr h
    · cases h

/-- Where the same steps lead on there are as many items. -/
theorem itemCount_eq_of_isSome {t t' : Tree}
    (h : ∀ step, (t'.child? step).isSome = (t.child? step).isSome) (name : String) :
    t'.itemCount name = t.itemCount name := by
  refine eq_of_forall_lt_iff fun i => ?_
  rw [← isSome_child?_item, ← isSome_child?_item, h]

/-- A node with the same children as a paired one is paired. -/
theorem IsPaired.of_steps {t t' : Tree} (hpaired : t.IsPaired)
    (htype : t'.type = .templateLiteral → t.type = .templateLiteral)
    (hsteps : ∀ step, (t'.child? step).isSome = (t.child? step).isSome) : t'.IsPaired := by
  intro ht
  rw [itemCount_eq_of_isSome hsteps, itemCount_eq_of_isSome hsteps]
  exact hpaired (htype ht)

/-! ### All that is below a node -/

theorem AllPaired.self {t : Tree} (h : t.AllPaired) : t.IsPaired := h [] t rfl

/-- What is paired throughout is so below each of its nodes. -/
theorem AllPaired.below {t c : Tree} (h : t.AllPaired) {path : List Step}
    (hc : t.descend? path = some c) : c.AllPaired := by
  intro more u hu
  refine h (path ++ more) u ?_
  rw [descend?_append, hc]
  exact hu

theorem AllPaired.child {t c : Tree} (h : t.AllPaired) {step : Step} (hc : t.child? step = some c) :
    c.AllPaired := by
  have hpath : t.descend? [step] = some c := (bind_pure _).trans hc
  exact h.below hpath

/-- A paired node over children paired throughout. -/
theorem allPaired_of_children {t : Tree} (h : t.IsPaired)
    (hchildren : ∀ step c, t.child? step = some c → c.AllPaired) : t.AllPaired := by
  intro path u hu
  cases path with
  | nil =>
    cases hu
    exact h
  | cons step path =>
    rw [descend?, List.foldlM_cons] at hu
    obtain ⟨c, hc, hu⟩ := Option.bind_eq_some_iff.mp hu
    exact hchildren step c hc path u hu

/-- What stands above a node that is changed has as many items in its lists as before. -/
theorem AllPaired.editAt {t c : Tree} (h : t.AllPaired) (hc : c.AllPaired) (path : List Step) :
    (t.editAt path fun _ => c).AllPaired := by
  induction path generalizing t with
  | nil => exact hc
  | cons step path ih =>
    unfold Tree.editAt
    split
    · next d hd =>
      -- the node keeps its type and the lengths of its lists, and of its children one is edited
      refine allPaired_of_children (fun htype => ?_) fun other e he => ?_
      · rw [itemCount_setChild, itemCount_setChild]
        rw [(type_setChild t step _).1] at htype
        exact h.self htype
      · rw [child?_setChild hd] at he
        split at he
        · cases he
          exact ih (h.child hd)
        · exact h.child he
    · exact h

/-- Items may be taken out of the lists of a node that is no template. -/
theorem AllPaired.eraseItem {t : Tree} (h : t.AllPaired) (ht : t.type ≠ .templateLiteral)
    (field : String) (i : Nat) : (t.eraseItem field i).AllPaired := by
  refine allPaired_of_children (fun htype => ?_) fun step c hc => ?_
  · rw [(t.type_eraseItem field i).1] at htype
    exact absurd htype ht
  · rw [child?_eraseItem] at hc
    exact h.child hc

end Tree

/-! ### Templates as nodes -/

/-- The items that a reader counts are the pieces and the substitutions. -/
theorem Template.isPaired_tree {t : Template} : t.tree.IsPaired ↔ t.IsPaired := by
  obtain ⟨quasis, es, s⟩ := t
  have hquasis : (tree ⟨quasis, es, s⟩).itemCount "quasis" = quasis.length := List.length_map _
  have hexpressions : (tree ⟨quasis, es, s⟩).itemCount "expressions" = es.length := by
    rw [← List.length_map Expr.tree, ← exprTrees_eq_map]
    rfl
  rw [Tree.IsPaired, hquasis, hexpressions]
  exact forall_prop_of_true rfl

namespace Node

/-- A template is no node of an expression: it is a node of its own. -/
theorem nodeType_ne_templateLiteral {e : Expr} (h : ofExpr e = expr e) :
    e.nodeType ≠ .templateLiteral := by
  intro ht
  cases e with
  | template t => cases h
  | member | call =>
    rw [Expr.nodeType] at ht
    generalize Expr.isOptionalChain _ = chain at ht
    cases chain <;> cases ht
  | _ => cases ht

/-- Only a template is of the type of templates. -/
theorem exists_template_of_type {n : Node} (h : n.IsProper) (ht : n.tree.type = .templateLiteral) :
    ∃ t, n = .template t := by
  rw [tree_eq n h] at ht
  cases n with
  | template t => exact ⟨t, rfl⟩
  | expr e => exact absurd ht (nodeType_ne_templateLiteral h)
  | pattern p =>
    cases p with
    | target e => cases e <;> cases h
    | _ => cases ht
  | stmt part | classMember part | importSpecifier part | property part | patternProperty part =>
    cases part <;> cases ht
  | function _ standing | classDef _ standing => cases standing <;> cases ht
  | _ => cases ht

/-- No other construct becomes a template by an edit below it. -/
theorem Resembles.eq_template {n n' : Node} (h : n.Resembles n')
    (ht : n'.tree.type = .templateLiteral) : n.tree.type = .templateLiteral := by
  obtain ⟨t, rfl⟩ := exists_template_of_type h.isProper ht
  cases h with
  | of_alters h =>
    cases h with
    | template t _ => cases t; rfl

/-- A value is put into a node without a change of the steps that lead on from it. -/
theorem child?_setScalar {n n' : Node} (h : n.IsProper) {name : String} {v : Scalar}
    (hn' : n.setScalar name v = .ok n') (step : Step) :
    n'.tree.child? step = n.tree.child? step := by
  have hproper : n'.IsProper := (setScalar_ok hn').1.isProper
  ext c
  rw [Tree.child?_eq_some_iff (nodup_names_tree hproper), Tree.child?_eq_some_iff
    (nodup_names_tree h), children_setScalar hn']

/-- Setting a scalar keeps the pairs: it changes no child. -/
theorem allPaired_setScalar {n n' : Node} (h : n.IsProper) {name : String} {v : Scalar}
    (hn' : n.setScalar name v = .ok n') (hpaired : n.tree.AllPaired) : n'.tree.AllPaired := by
  have hlike : n.Resembles n' := .of_alters (setScalar_ok hn').1
  have hchild := child?_setScalar h hn'
  refine Tree.allPaired_of_children ?_ fun step c hc => ?_
  · exact hpaired.self.of_steps hlike.eq_template fun step => congrArg _ (hchild step)
  · rw [hchild] at hc
    exact hpaired.child hc

/-- From a template nothing can be taken out. -/
theorem type_ne_of_remove {n n' : Node} (h : n.IsProper) {name : String} {items : Items Node}
    (hitems : n.items? name = some items) {i : Nat} (hn' : items.remove i = .ok n') :
    n.tree.type ≠ .templateLiteral := by
  intro ht
  obtain ⟨t, rfl⟩ := exists_template_of_type h ht
  unfold items? at hitems
  split at hitems
  · next items' hfield =>
    cases hitems
    obtain ⟨⟨name', field⟩, hfind, hlist⟩ := Option.map_eq_some_iff.mp hfield
    obtain rfl : field = .list items := hlist
    have hmem := List.mem_of_find?_eq_some hfind
    simp only [fields, Field.many, List.mem_cons, List.not_mem_nil, or_false, Prod.mk.injEq,
      Field.list.injEq] at hmem
    -- both lists of a template are lists of parts, which give no item away
    rcases hmem with ⟨-, rfl⟩ | ⟨-, rfl⟩ <;> cases hn'
  · cases hitems

/-- Putting one child in place of another keeps the pairs. -/
theorem Regrows.allPaired {n n' : Node} {step : Step} {c d : Tree} (h : n.Regrows step c n')
    (hd : n.tree.child? step = some d) (hpaired : n.tree.AllPaired) (hc : c.AllPaired) :
    n'.tree.AllPaired := by
  refine Tree.allPaired_of_children ?_ fun other e he => ?_
  · -- what has been put where the step leads is there, as something was before
    refine hpaired.self.of_steps h.resembles.eq_template fun other => ?_
    rw [h.child?_eq]
    split
    · next heq => rw [heq, hd]; rfl
    · rfl
  · rw [h.child?_eq] at he
    split at he
    · cases he
      exact hc
    · exact hpaired.child he

/-- An expression put into a slot is paired as it was, wrapped or not. -/
theorem allPaired_placed {e : Expr} (h : e.tree.AllPaired) (kind : SlotKind) :
    (kind.placed e).AllPaired := by
  cases kind with
  | stmt =>
    refine Tree.allPaired_of_children (fun ht => nomatch ht) fun step c hc => ?_
    have hnode : (stmt (.expr e.span e)).IsProper := rfl
    have hmem := (Tree.child?_eq_some_iff (nodup_names_tree hnode) step c).mp hc
    obtain ⟨-, rfl⟩ := Prod.ext_iff.mp (List.mem_singleton.mp hmem)
    exact h
  | _ => exact h

/-- The nodes above an expression that is put in place keep the numbers of their items. -/
theorem allPaired_of_replace {n n' : Node} (h : n.IsProper) {path : List Step} {slot : Slot Node}
    (hslot : n.slotAt? path = some slot) {e : Expr} (he : slot.replace e = .ok n')
    (hpaired : n.tree.AllPaired) (hexpr : e.tree.AllPaired) : n'.tree.AllPaired := by
  refine (replace_induction (motive := fun n _ _ n' => n.tree.AllPaired → n'.tree.AllPaired)
    ?_ ?_ h hslot he).2 hpaired
  · intro n n' m step kind hchild hgrown hn
    exact hgrown.allPaired hchild hn (allPaired_placed hexpr kind)
  · intro n n' m m' step path kind hchild hgrown hbelow hn
    exact hgrown.allPaired hchild hn (hbelow (hn.child hchild))

end Node

/-! ### Edits of programs -/

namespace Program

variable {p p' : Program} {path : List Step}

/-- Setting a value keeps every template paired. -/
theorem allPaired_setScalarAt? {field : String} {v : Scalar}
    (h : p.setScalarAt? path field v = some (.ok p')) (hp : p.tree.AllPaired) :
    p'.tree.AllPaired := by
  obtain ⟨n, k, hn, hk, htree⟩ := tree_editAt? (fun n k _ hk => (Node.setScalar_ok hk).1) h
  rw [htree]
  refine hp.editAt ?_ path
  exact Node.allPaired_setScalar (isProper_of_nodeAt? hn) hk (hp.below (descend?_of_nodeAt? hn))

/-- Removing an item keeps every template paired, since pieces and expressions are never removed. -/
theorem allPaired_removeAt? {field : String} {i : Nat}
    (h : p.removeAt? path field i = some (.ok p')) (hp : p.tree.AllPaired) :
    p'.tree.AllPaired := by
  obtain ⟨n, items, k, hn, hitems, hk, htree⟩ := exists_of_removeAt? h
  have hproper := isProper_of_nodeAt? hn
  rw [htree, (Node.tree_remove hproper hitems hk).2.2]
  refine hp.editAt ?_ path
  exact (hp.below (descend?_of_nodeAt? hn)).eraseItem (Node.type_ne_of_remove hproper hitems hk) _ _

/-- Replacing a node keeps every template paired. -/
theorem allPaired_replaceAt? {e : Expr} (h : p.replaceAt? path e = some (.ok p'))
    (hp : p.tree.AllPaired) (he : e.tree.AllPaired) : p'.tree.AllPaired := by
  obtain ⟨slot, k, hslot, hk, htree⟩ := exists_of_replaceAt? h
  have hroot : (Node.program p).IsProper := trivial
  rw [htree]
  exact Node.allPaired_of_replace hroot hslot hk hp he

end Program

end Espalier
