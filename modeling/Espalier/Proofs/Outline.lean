import Espalier.Outline
import Espalier.Proofs.Highlight

/-!
# Outlines beside their sources

An outline without a limit to its depth has one node for each node of the program, in the order of
the walk (`Outline.map_ofProgram`). So the nodes that are active in it have the ranges that are
highlighted in the source, if what is asked for is a type. The name of a group stands for several
types when nodes are highlighted, but it is the type of no node, and no node of an outline is active
by it.
-/

namespace Espalier

namespace Outline

/-! ### Walks -/

theorem ofStack_append (os ps : List Outline) : ofStack (os ++ ps) = ofStack os ++ ofStack ps := by
  induction os using ofStack.induct with
  | case1 => rw [ofStack, List.nil_append, List.nil_append]
  | case2 o os ih => rw [List.cons_append, ofStack, ofStack, List.cons_append, ← ih,
      List.append_assoc]

/-- A walk goes to a node and then to what is below it. -/
theorem preorder_eq (o : Outline) : o.preorder = o :: ofStack o.children := by
  rw [preorder, ofStack, List.append_nil]

theorem ofStack_cons (o : Outline) (os : List Outline) :
    ofStack (o :: os) = o.preorder ++ ofStack os :=
  ofStack_append [o] os

/-! ### The outline of a tree -/

variable (options : OutlineOptions) (active : Option String) (index : LineIndex)

@[simp] theorem type_ofTreeAt (label : OutlineLabel) (depth : Nat) (t : Tree) :
    (ofTreeAt options active index label depth t).type = t.type := by
  cases t
  rfl

@[simp] theorem range_ofTreeAt (label : OutlineLabel) (depth : Nat) (t : Tree) :
    (ofTreeAt options active index label depth t).range = index.range? t.span := by
  cases t
  rfl

@[simp] theorem isActive_ofTreeAt (label : OutlineLabel) (depth : Nat) (t : Tree) :
    (ofTreeAt options active index label depth t).isActive = (active == some t.type.text) := by
  cases t
  rfl

section

variable {options active index} {β : Type} {f : Outline → β} {g : Tree → β}

mutual

/-- A property read off each display node is that property read off each tree node, in preorder. -/
theorem map_ofTreeAt (hdepth : options.maxDepth = none)
    (h : ∀ label depth u, f (ofTreeAt options active index label depth u) = g u) :
    ∀ label depth (t : Tree),
      (ofTreeAt options active index label depth t).preorder.map f = t.preorder.map g
  | label, depth, ⟨type, span, fields⟩ => by
    have hchildren : (ofTreeAt options active index label depth ⟨type, span, fields⟩).children =
        ofFields options active index (depth + 1) fields := by
      -- without a limit every node is opened
      rw [ofTreeAt]
      dsimp only
      rw [expands, hdepth]
      rfl
    rw [preorder_eq, Tree.preorder, List.map_cons, List.map_cons, h, hchildren,
      map_ofFields hdepth h]

/-- Without a depth limit the items of the fields are the pre-order of the nodes. -/
theorem map_ofFields (hdepth : options.maxDepth = none)
    (h : ∀ label depth u, f (ofTreeAt options active index label depth u) = g u) :
    ∀ depth (fs : List TreeField),
      (ofStack (ofFields options active index depth fs)).map f = (Tree.preorderFields fs).map g
  | depth, [] => by
    rw [ofFields, ofStack]
    rfl
  | depth, .child name t :: fs => by
    rw [ofFields, ofStack_cons, Tree.preorderFields, List.map_append, List.map_append,
      map_ofTreeAt hdepth h, map_ofFields hdepth h]
  | depth, .list name ts :: fs => by
    rw [ofFields, ofStack_append, Tree.preorderFields, List.map_append, List.map_append,
      map_ofElements hdepth h, map_ofFields hdepth h]
  | depth, .value _ _ :: fs => map_ofFields hdepth h depth fs
  | depth, .absent _ :: fs => map_ofFields hdepth h depth fs

/-- The same of the elements of a list. -/
theorem map_ofElements (hdepth : options.maxDepth = none)
    (h : ∀ label depth u, f (ofTreeAt options active index label depth u) = g u) :
    ∀ depth name i (ts : List Tree),
      (ofStack (ofElements options active index depth name i ts)).map f =
        (Tree.preorderList ts).map g
  | depth, name, i, [] => by
    rw [ofElements, ofStack]
    rfl
  | depth, name, i, t :: ts => by
    rw [ofElements, ofStack_cons, Tree.preorderList, List.map_append, List.map_append,
      map_ofTreeAt hdepth h, map_ofElements hdepth h]

end

end

/-- The outline of a program down to all its nodes. -/
def ofProgram (ast : SyntaxTree) : Outline :=
  ofTree { options with maxDepth := none } active ast.index ast.program.tree

/-- The nodes of the outline of a program are those of the program. -/
theorem map_ofProgram (ast : SyntaxTree) {β : Type} (f : Outline → β) (g : Tree → β)
    (h : ∀ label depth u,
      f (ofTreeAt { options with maxDepth := none } active ast.index label depth u) = g u) :
    (ofProgram options active ast).preorder.map f = ast.program.tree.preorder.map g :=
  map_ofTreeAt rfl h .root 0 ast.program.tree

/-! ### Active nodes and highlights -/

/-- The ranges of nodes in the order of their starts, those with the same start in the order of the
nodes. -/
def sortedRanges (os : List Outline) : List SourceRange :=
  (os.filterMap (·.range)).mergeSort fun r s => r.first.le s.first

variable {options active}

/-- What is highlighted can be read off an outline. -/
theorem sortedRanges_ofProgram {ast : SyntaxTree} {key : VisitorKey} {p : Outline → Bool}
    (hp : ∀ label depth u,
      p (ofTreeAt { options with maxDepth := none } active ast.index label depth u) =
        key.covers u.type) :
    sortedRanges ((ofProgram options active ast).preorder.filter p) =
      (Highlight.ofKey ast key).ranges := by
  have hmap := map_ofProgram options active ast (fun o => if p o then o.range else none)
    (fun u => if key.covers u.type then ast.index.range? u.span else none)
    fun label depth u => by rw [hp, range_ofTreeAt]
  have hranges := congrArg (List.filterMap id) hmap
  rw [List.filterMap_map, List.filterMap_map] at hranges
  rw [Highlight.ranges_ofKey, sortedRanges, VisitorKey.nodes, List.filterMap_filter,
    List.filterMap_filter]
  exact congrArg (List.mergeSort · _) hranges

/-- Every node of the outline of an accepted source has a range. -/
theorem exists_range_of_parse {source : String} (hsmall : IsAddressable source)
    {parserOptions : ParserOptions} {ast : SyntaxTree}
    (h : SyntaxTree.parse source parserOptions = .ok ast) :
    ∀ o ∈ (ofProgram options active ast).preorder, ∃ r, o.range = some r ∧ r.IsStored := by
  intro o ho
  have hmap := map_ofProgram options active ast (·.range) (ast.index.range? ·.span)
    (range_ofTreeAt _ _ _)
  obtain ⟨u, hu, heq⟩ := List.mem_map.mp (hmap ▸ List.mem_map_of_mem ho)
  rw [← heq]
  exact SyntaxTree.exists_range? hsmall h u hu

/-- The nodes that are active by a name are those of the type of this name. -/
theorem isActive_eq_ofText? {name : String} (label : OutlineLabel) (depth : Nat) (t : Tree) :
    (ofTreeAt options (some name) index label depth t).isActive =
      (NodeType.ofText? name == some t.type) := by
  rw [isActive_ofTreeAt, Bool.eq_iff_iff, beq_iff_eq, beq_iff_eq, Option.some.injEq]
  constructor
  · rintro rfl
    exact NodeType.ofText?_text t.type
  · intro h
    exact (NodeType.text_of_ofText? h).symm

/-- No node is active by a name that no type has. -/
theorem filter_isActive_eq_nil {ast : SyntaxTree} {name : String}
    (h : NodeType.ofText? name = none) :
    (ofProgram options (some name) ast).preorder.filter (·.isActive) = [] := by
  have hmap := map_ofProgram options (some name) ast (·.isActive) (fun _ => false)
    fun label depth u => by rw [isActive_eq_ofText?, h]; rfl
  refine List.filter_eq_nil_iff.mpr fun o ho => ?_
  obtain ⟨u, -, hu⟩ := List.mem_map.mp (hmap ▸ List.mem_map_of_mem ho)
  rw [← hu]
  exact Bool.false_ne_true

/-- **An outline and the highlights beside it.** In the outline of an accepted source, down to all
its nodes, each node has a range, which is stored as it is since the source is an addressable one.
By a name that is not that of a group, those nodes are active that
are highlighted by the name. The name of a group makes no node active; by it, the nodes of all types
of the group are highlighted. -/
theorem sortedRanges_active {source : String} (hsmall : IsAddressable source)
    {parserOptions : ParserOptions} {ast : SyntaxTree}
    (h : SyntaxTree.parse source parserOptions = .ok ast) (options : OutlineOptions)
    (name : String) :
    let nodes := (ofProgram options (some name) ast).preorder
    let highlighted := (Highlight.ofName ast (some name)).ranges
    (∀ o ∈ nodes, ∃ r, o.range = some r ∧ r.IsStored) ∧
      (Alias.ofText? name = none → sortedRanges (nodes.filter (·.isActive)) = highlighted) ∧
      ∀ a, Alias.ofText? name = some a →
        nodes.filter (·.isActive) = [] ∧
          sortedRanges (nodes.filter (a.covers ·.type)) = highlighted := by
  intro nodes highlighted
  -- whether the name is one of a group or of a type decides which nodes are marked
  refine ⟨exists_range_of_parse hsmall h, fun hgroup => ?_, fun a hgroup => ?_⟩
  · cases htype : NodeType.ofText? name with
    | none =>
      have hkey : VisitorKey.ofText? name = none := by rw [VisitorKey.ofText?, htype, hgroup]; rfl
      have hnone : highlighted = [] := by
        dsimp only [highlighted, Highlight.ofName, Option.bind_some]
        rw [hkey]
        rfl
      rw [hnone, filter_isActive_eq_nil htype]
      exact List.mergeSort_nil
    | some t =>
      have hkey : VisitorKey.ofText? name = some (.type t) := by rw [VisitorKey.ofText?, htype]; rfl
      have hkeyed : highlighted = (Highlight.ofKey ast (.type t)).ranges := by
        dsimp only [highlighted, Highlight.ofName, Option.bind_some]
        rw [hkey]
      rw [hkeyed]
      refine sortedRanges_ofProgram fun label depth u => ?_
      rw [isActive_eq_ofText?, htype, Option.some_beq_some]
      rfl
  · have htype : NodeType.ofText? name = none := by
      rw [← Alias.text_of_ofText? hgroup]
      exact Alias.ofText?_text_eq_none a
    have hkey : VisitorKey.ofText? name = some (.group a) := by
      rw [VisitorKey.ofText?, htype, hgroup]
      rfl
    have hkeyed : highlighted = (Highlight.ofKey ast (.group a)).ranges := by
      dsimp only [highlighted, Highlight.ofName, Option.bind_some]
      rw [hkey]
    refine ⟨filter_isActive_eq_nil htype, ?_⟩
    rw [hkeyed]
    refine sortedRanges_ofProgram fun label depth u => ?_
    rw [type_ofTreeAt]
    rfl

/-- An identifier is active by its type, and highlighted by its type and by its group. -/
theorem sortedRanges_active_identifier :
    IsAddressable "a;" ∧ ∃ ast, SyntaxTree.parse "a;" {} = .ok ast ∧
      sortedRanges ((ofProgram {} (some "Identifier") ast).preorder.filter (·.isActive)) =
        (Highlight.ofName ast (some "Identifier")).ranges ∧
      sortedRanges ((ofProgram {} (some "Expression") ast).preorder.filter
          (Alias.expression.covers ·.type)) =
        (Highlight.ofName ast (some "Expression")).ranges := by
  have hsmall : IsAddressable "a;" := by decide
  have haccepts : (SyntaxTree.parse "a;" {}).toOption.isSome := by decide +kernel
  obtain ⟨ast, h⟩ := exists_ok_of_isSome haccepts
  have htype := (sortedRanges_active hsmall h {} "Identifier").2.1 (by decide)
  have hgroup := (sortedRanges_active hsmall h {} "Expression").2.2 .expression (by decide)
  exact ⟨hsmall, ast, h, htype, hgroup.2⟩

/-- By the name of a group, the nodes that are active are not the ones that are highlighted. -/
theorem not_sortedRanges_active_of_group :
    ¬∀ source parserOptions ast, SyntaxTree.parse source parserOptions = .ok ast →
      ∀ options name, (VisitorKey.ofText? name).isSome →
        sortedRanges ((ofProgram options (some name) ast).preorder.filter (·.isActive)) =
          (Highlight.ofName ast (some name)).ranges := by
  intro hclaim
  have hranges : ((SyntaxTree.parse "a;" {}).toOption.map fun ast =>
      (sortedRanges ((ofProgram {} (some "Expression") ast).preorder.filter (·.isActive)),
        (Highlight.ofName ast (some "Expression")).ranges)) =
      some ([], [⟨⟨1, 1⟩, ⟨1, 1⟩⟩]) := by decide +kernel
  cases h : SyntaxTree.parse "a;" {} with
  | error e =>
    rw [h] at hranges
    cases hranges
  | ok ast =>
    rw [h] at hranges
    have hpair := Option.some.inj hranges
    have heq := hclaim "a;" {} ast h {} "Expression" (by decide)
    cases (congrArg Prod.fst hpair).symm.trans (heq.trans (congrArg Prod.snd hpair))

end Outline

end Espalier
