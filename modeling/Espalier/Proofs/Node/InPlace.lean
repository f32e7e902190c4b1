import Espalier.Proofs.Node.Frame

/-!
# Edits in place

An edit in place leaves a node whether it succeeds or is refused, and the program is put together
again from what it leaves. Here this is compared with edits that make a new node and are refused
without one: what is left is the new node, or else the very node that was there
(`InPlace.left`). Two things are behind it. An edit that takes a node apart puts it back before it
is refused (`Node.leaves_setScalarIn`), and what is read from a place and put back there changes
nothing (`Node.put_node_slotAt?`), which is checked for each place of each construct.

So the three edits of programs agree with those that make new programs
(`Program.setScalarIn?_eq`, `Program.removeIn?_eq`, `Program.replaceIn?_eq`).
-/

namespace Espalier

/-! ### What edits leave -/

namespace InPlace

variable {α β σ τ : Type}

/-- What an edit of `a` gives and leaves that makes another `α` of it, or is refused and leaves `a`
as it is. -/
def left (a : α) : Except EditError α → Except EditError Unit × α
  | .ok b => (.ok (), b)
  | .error cause => (.error cause, a)

/-- What was made is left behind exactly if it could be made. -/
theorem left_eq_ok_iff {a b : α} {made : Except EditError α} :
    left a made = (.ok (), b) ↔ made = .ok b := by
  cases made <;> simp [left]

/-- What is refused is left as it was. -/
theorem eq_of_left_eq_error {a b : α} {made : Except EditError α} {cause : EditError}
    (h : left a made = (.error cause, b)) : b = a := by
  cases made with
  | ok c => cases h
  | error e =>
    cases h
    rfl

/-- A check that is made first leaves all as it is if it fails. -/
theorem leaves_check (check : Except EditError β) (edit : β → InPlace σ α) (x : σ) :
    (do let b ← check; edit b : InPlace σ α).leaves x =
      match check with
      | .ok b => (edit b).leaves x
      | .error cause => (.error cause, x) := by
  cases check <;> rfl

/-- A write leaves behind what was made, or the value as it was. -/
theorem leaves_write (make : σ → Except EditError σ) (x : σ) :
    (write make).leaves x = left x (make x) := by
  have hcheck := leaves_check (make x) (fun made => (set made : InPlace σ PUnit)) x
  refine hcheck.trans ?_
  cases make x <;> rfl

/-- An edit of a part leaves the whole with the part as it is left. -/
theorem leaves_within {put : σ → τ} {part : σ} {edit : InPlace σ Unit} {made : Except EditError σ}
    (h : edit.leaves part = left part made) {whole : τ} (hput : put part = whole) (now : τ) :
    (edit.within put part).leaves now = left whole (made.map put) := by
  show ((edit.leaves part).1, put (edit.leaves part).2) = _
  rw [h]
  cases made with
  | ok x => rfl
  | error cause => exact congrArg (Prod.mk _) hput

end InPlace

open InPlace

/-- Without an operator that can be changed an expression is left as it was, although it has been
taken apart; with one it gets the new operator. -/
theorem Expr.leaves_setOperator (v : Scalar) (e : Expr) :
    (Expr.setOperator v).leaves e =
      left e (do
        let op ← v.expectWord "operator" InfixOp.ofText?
        match e with
        | .binary s _ l r | .logical s _ l r => return Expr.operation s op l r
        | _ => throw .noOperator) := by
  refine (leaves_check _ _ _).trans ?_
  cases v.expectWord "operator" InfixOp.ofText? with
  | error cause => rfl
  | ok op => cases e <;> rfl

/-- What an edit in place leaves is the node it makes, or the node it was given. -/
theorem Node.leaves_setScalarIn (n : Node) (name : String) (v : Scalar) :
    (setScalarIn name v).leaves n = left n (n.setScalar name v) := by
  have hwrite := leaves_write (fun n : Node => n.setScalar name v) n
  cases n with
  | expr e =>
    show (if name == "operator" && e.isOperation then (Expr.setOperator v).within expr e
      else .write (·.setScalar name v) : InPlace Node Unit).leaves (expr e) = _
    split
    · next h =>
      obtain ⟨hname, hoperation⟩ := Bool.and_eq_true_iff.mp h
      obtain rfl := eq_of_beq hname
      rw [leaves_within (e.leaves_setOperator v) rfl]
      -- the field of the operator is the one whose value is made by the same check
      cases e with
      | binary s op l r | logical s op l r =>
        show _ = left _ ((v.expectWord "operator" InfixOp.ofText?).map _)
        cases v.expectWord "operator" InfixOp.ofText? <;> rfl
      | _ => cases hoperation
    · exact hwrite
  | _ => exact hwrite

/-! ### Places -/

namespace Slot

variable {α β γ : Type}

/-- A way to make places where nothing changes if what is read there is put back. -/
class Regains (slot : β → (β → α) → Slot α) : Prop where
  put_node (x : β) (put : β → α) : (slot x put).put (slot x put).node = put x

/-- A slot that regains its node is as it was once the node is put back. -/
theorem put_node (slot : β → (β → α) → Slot α) [Regains slot] (x : β) (put : β → α) :
    (slot x put).put (slot x put).node = put x :=
  Regains.put_node x put

instance : Regains (@atStmt α) where
  put_node s put := by
    show put ((Node.ofStmt s).toStmt?.getD s) = put s
    rw [Node.toStmt?_ofStmt, Option.getD_some]

instance : Regains (@atExpr α) where
  put_node e put := by
    show put ((Node.ofExpr e).toExpr?.getD e) = put e
    rw [Node.toExpr?_ofExpr, Option.getD_some]

instance : Regains (@atPattern α) where
  put_node p put := by
    cases p with
    | target e =>
      show put (.target ((Node.ofExpr e).toExpr?.getD e)) = put (.target e)
      rw [Node.toExpr?_ofExpr, Option.getD_some]
    | _ => rfl

instance : Regains (@atIdent α) := ⟨fun _ _ => rfl⟩
instance : Regains (@atBlock α) := ⟨fun _ _ => rfl⟩
instance : Regains (@atVarDecl α) := ⟨fun _ _ => rfl⟩
instance : Regains (@atDeclarator α) := ⟨fun _ _ => rfl⟩
instance : Regains (@atFunction α) := ⟨fun _ _ => rfl⟩
instance : Regains (@atClass α) := ⟨fun _ _ => rfl⟩
instance : Regains (@atClassBody α) := ⟨fun _ _ => rfl⟩
instance : Regains (@atClassMember α) := ⟨fun _ _ => rfl⟩
instance : Regains (@atSwitchCase α) := ⟨fun _ _ => rfl⟩
instance : Regains (@atCatchClause α) := ⟨fun _ _ => rfl⟩
instance : Regains (@atImportSpecifier α) := ⟨fun _ _ => rfl⟩
instance : Regains (@atExportSpecifier α) := ⟨fun _ _ => rfl⟩
instance : Regains (@atTemplate α) := ⟨fun _ _ => rfl⟩
instance : Regains (@atTemplateElement α) := ⟨fun _ _ => rfl⟩
instance : Regains (@atProperty α) := ⟨fun _ _ => rfl⟩
instance : Regains (@atPatternProperty α) := ⟨fun _ _ => rfl⟩

/-! A place of one of several constructs is a place of the one that stands there. -/

instance : Regains (@atKey α) where
  put_node key put := by
    cases key with
    | ident i => exact put_node atIdent i (put ∘ .ident)
    | literal e => exact put_node atExpr e (put ∘ .literal)
    | computed e => exact put_node atExpr e (put ∘ .computed)

instance : Regains (@MemberName.slot α) where
  put_node name put := by
    cases name with
    | ident i => exact put_node atIdent i (put ∘ .ident)
    | computed e => exact put_node atExpr e (put ∘ .computed)

instance : Regains (@ForInit.slot α) where
  put_node init put := by
    cases init with
    | decl d => exact put_node atVarDecl d (put ∘ .decl)
    | expr e => exact put_node atExpr e (put ∘ .expr)

instance : Regains (@ForHead.slot α) where
  put_node head put := by
    cases head with
    | decl d => exact put_node atVarDecl d (put ∘ .decl)
    | pattern p => exact put_node atPattern p (put ∘ .pattern)

instance : Regains (@ArrowBody.slot α) where
  put_node body put := by
    cases body with
    | expr e => exact put_node atExpr e (put ∘ .expr)
    | block b => exact put_node atBlock b (put ∘ .block)

instance : Regains (@ExportDefault.slot α) where
  put_node declaration put := by
    cases declaration with
    | function f => exact put_node atFunction f (put ∘ .function)
    | classDecl c => exact put_node atClass c (put ∘ .classDecl)
    | expr e => exact put_node atExpr e (put ∘ .expr)

end Slot

/-! ### Fields -/

namespace Field

open Slot Items

/-- What is read from a place of this field of a node and put back changes nothing. -/
def Regains (n : Node) (field : String × Field Node) : Prop :=
  match field with
  | (_, .child slot) => slot.put slot.node = n
  | (_, .list items) => ∀ slot ∈ items.slots, slot.put slot.node = n
  | _ => True

section

variable {n : Node} (name : String) {β : Type} {slot : β → (β → Node) → Slot Node}
  [Slot.Regains slot]

theorem regains_one (x : β) {put : β → Node} (h : put x = n) : Regains n (one name (slot x put)) :=
  (put_node slot x put).trans h

theorem regains_optional (x? : Option β) {put : Option β → Node} (h : put x? = n) :
    Regains n (optional name slot x? put) := by
  cases x? with
  | none => trivial
  | some x => exact regains_one name x h

theorem regains_many_ofList (xs : List β) {put : List β → Node} (h : put xs = n) :
    Regains n (many name (ofList slot xs put)) := by
  intro s hs
  obtain ⟨⟨x, i⟩, hx, rfl⟩ := List.mem_map.mp hs
  obtain ⟨hi, hget⟩ : ∃ hi : i < xs.length, xs[i] = x :=
    List.getElem?_eq_some_iff.mp (List.mem_zipIdx_iff_getElem?.mp hx)
  rw [Slot.Regains.put_node, Function.comp_apply, ← hget, List.set_getElem_self]
  exact h

theorem regains_many_ofParts (xs : List β) {put : List β → Node} (h : put xs = n) :
    Regains n (many name (ofParts slot xs put)) :=
  regains_many_ofList name xs h

/-- A list with holes taken apart is put together again. -/
theorem regains_many_ofHoles (xs : List (Option β)) {put : List (Option β) → Node}
    (h : put xs = n) : Regains n (many name (ofHoles slot xs put)) := by
  intro s hs
  obtain ⟨⟨x, i⟩, hx, rfl⟩ := List.mem_map.mp hs
  obtain ⟨⟨x?, j⟩, hmem, hpair⟩ := List.mem_filterMap.mp hx
  obtain ⟨y, rfl, hpair⟩ := Option.map_eq_some_iff.mp hpair
  cases hpair
  obtain ⟨hi, hget⟩ : ∃ hi : i < xs.length, xs[i] = some x :=
    List.getElem?_eq_some_iff.mp (List.mem_zipIdx_iff_getElem?.mp hmem)
  rw [Slot.Regains.put_node, ← hget, List.set_getElem_self]
  exact h

theorem regains_of_mem_ite {c : Prop} [Decidable c] (value : Bool) :
    ∀ field ∈ (if c then [fixedFlag name value] else []), Regains n field := by
  intro field hmem
  split at hmem
  · obtain rfl := List.mem_singleton.mp hmem
    trivial
  · cases hmem

end

end Field

namespace Node

open Field Slot

theorem regains_func {n : Node} (f : Func) {put : Func → Node} (h : put f = n) :
    ∀ field ∈ f.nodeFields put, Regains n field := by
  cases f
  simp only [Func.nodeFields, List.forall_mem_cons]
  exact ⟨trivial, trivial, regains_many_ofList _ _ h, regains_one _ _ h, List.forall_mem_nil _⟩

/-- What is read from a place of a node and put back changes nothing. -/
theorem regains_of_mem_fields (n : Node) : ∀ field ∈ n.fields, Regains n field := by
  cases n with
  | function part standing | classDef part standing | _ part =>
    cases part <;>
      simp only [fields, Expr.nodeFields, Stmt.nodeFields, Pattern.nodeFields,
        ImportSpecifier.nodeFields, ClassMember.nodeFields, Property.nodeFields,
        PatternProperty.nodeFields, List.forall_mem_append, List.forall_mem_cons,
        List.not_mem_nil, false_imp_iff, implies_true, and_true]
    -- each kind of field by its lemma, whatever the node
    all_goals
      repeat' first
        | exact trivial
        | exact regains_one _ _ rfl
        | exact regains_optional _ _ rfl
        | exact regains_many_ofList _ _ rfl
        | exact regains_many_ofParts _ _ rfl
        | exact regains_many_ofHoles _ _ rfl
        | exact regains_func _ rfl
        | exact regains_of_mem_ite _ _
        | refine And.intro ?_ ?_

/-- A slot of a node, filled with what it holds, gives back the node. -/
theorem put_node_slot? {n : Node} {step : Step} {slot : Slot Node} (h : n.slot? step = some slot) :
    slot.put slot.node = n := by
  rcases mem_fields_of_slot? h with hmem | ⟨items, hmem, hslot⟩
  · exact n.regains_of_mem_fields _ hmem
  · exact n.regains_of_mem_fields _ hmem slot hslot

/-- What is read at the end of a path and put back changes nothing. -/
theorem put_node_slotAt? {n : Node} {path : List Step} {slot : Slot Node}
    (h : n.slotAt? path = some slot) : slot.put slot.node = n := by
  induction path generalizing n slot with
  | nil => cases h
  | cons step path ih =>
    cases hs : n.slot? step with
    | none => cases path <;> simp [slotAt?, hs] at h
    | some first =>
      cases path with
      | nil =>
        obtain rfl : first = slot := by simpa [slotAt?, hs] using h
        exact put_node_slot? hs
      | cons next path =>
        have hsplit : (first.node.slotAt? (next :: path)).map (·.map first.put) = some slot := by
          simpa [slotAt?, hs, Option.map_eq_bind, Function.comp_def] using h
        obtain ⟨inner, hinner, rfl⟩ := Option.map_eq_some_iff.mp hsplit
        show first.put (inner.put inner.node) = n
        rw [ih hinner]
        exact put_node_slot? hs

end Node

/-! ### Programs -/

namespace Program

variable (p : Program) (path : List Step)

/-- An edit in place that does at a node what another edit makes of it does so in a program. -/
theorem editIn?_eq {edit : InPlace Node Unit} {make : Node → Except EditError Node}
    (h : ∀ n, edit.leaves n = left n (make n)) :
    p.editIn? path edit = (p.editAt? path make).map (left p) := by
  cases path with
  | nil => exact congrArg some (leaves_within (h _) rfl p)
  | cons step path =>
    show (p.slotAt? (step :: path)).map _ = ((p.slotAt? (step :: path)).map _).map _
    rw [Option.map_map]
    refine Option.map_congr fun slot hslot => ?_
    obtain ⟨whole, hwhole, rfl⟩ := Option.map_eq_some_iff.mp hslot
    refine leaves_within (h _) ?_ p
    show (whole.put whole.node).asProgram p = p
    rw [Node.put_node_slotAt? hwhole]
    rfl

/-- The program left behind is the one made, or the one there was. -/
theorem setScalarIn?_eq (field : String) (v : Scalar) :
    p.setScalarIn? path field v = (p.setScalarAt? path field v).map (left p) :=
  p.editIn?_eq path fun n => n.leaves_setScalarIn field v

/-- A removal in place is the removal at that place. -/
theorem removeIn?_eq (field : String) (i : Nat) :
    p.removeIn? path field i = (p.removeAt? path field i).map (left p) := by
  unfold removeIn? removeAt?
  cases p.nodeAt? path with
  | none => rfl
  | some n =>
    cases hitems : n.items? field with
    | none => simp [hitems]
    | some items =>
      simpa [hitems] using p.editIn?_eq path fun k => leaves_write (fun _ => items.remove i) k

theorem replaceIn?_eq (e : Expr) :
    p.replaceIn? path e = (p.replaceAt? path e).map (left p) := by
  unfold replaceIn? replaceAt?
  rw [Option.map_map]
  exact Option.map_congr fun slot _ => leaves_write (fun _ => slot.replace e) p

end Program

end Espalier
