import Espalier.Proofs.Outline
import Espalier.Proofs.Script.Leaving

/-!
# The shape of outlines

An outline down to some depth is the one down to all nodes, cut off there
(`Outline.ofTreeAt_eq_prune`). The whole outline of a tree has the nodes of its walk, and the labels
from the root down to each of them are the steps of its place in the tree
(`Outline.map_labelledFrom`), so that they lead to the node of the tree.
-/

namespace Espalier

namespace OutlineLabel

/-- The step from a node to the one below it that has the label. A root is below no node. -/
def step? : OutlineLabel → Option Step
  | root => none
  | field name => some ⟨name, none⟩
  | element list index => some ⟨list, some index⟩

/-- The steps that labels stand for. -/
def steps (labels : List OutlineLabel) : List Step := labels.filterMap step?

theorem steps_append_singleton (labels : List OutlineLabel) {label : OutlineLabel} {step : Step}
    (h : label.step? = some step) : steps (labels ++ [label]) = steps labels ++ [step] := by
  rw [steps, List.filterMap_append, List.filterMap_cons_some h]
  rfl

end OutlineLabel

namespace Outline

/-- An outline cut off at a depth: the nodes there lose their children, and say so if they had
any. -/
def prune : (depth : Nat) → Outline → Outline
  | 0, o => { o with children := [], truncated := !o.children.isEmpty }
  | depth + 1, o => { o with children := o.children.map (prune depth) }

mutual

/-- A node and all that is below it, each before what is below it and with the labels that lead down
to it. -/
def labelledFrom (above : List OutlineLabel) : Outline → List (List OutlineLabel × Outline)
  | ⟨label, type, range, isActive, values, children, truncated⟩ =>
    (above ++ [label], ⟨label, type, range, isActive, values, children, truncated⟩) ::
      labelledList (above ++ [label]) children

/-- The same for the nodes of a list. -/
def labelledList (above : List OutlineLabel) : List Outline → List (List OutlineLabel × Outline)
  | [] => []
  | o :: os => labelledFrom above o ++ labelledList above os

end

/-- The nodes of an outline with the labels from the root down to them. -/
def labelled (o : Outline) : List (List OutlineLabel × Outline) := labelledFrom [] o

/-! ### Walks over outlines -/

/-- Counting the nodes is counting the rows. -/
theorem length_ofStack (os : List Outline) : (ofStack os).length = countList os := by
  induction os using ofStack.induct with
  | case1 => rw [ofStack]; rfl
  | case2 o os ih =>
    rw [ofStack, List.length_cons, ih, countList_append, countList, count_eq]
    omega

/-- As many nodes are counted as there are in a walk. -/
theorem count_eq_length (o : Outline) : o.count = o.preorder.length := by
  rw [preorder, length_ofStack]
  rfl

mutual

/-- Without the labels, the labelled nodes are the nodes in preorder. -/
theorem map_snd_labelledFrom :
    ∀ above (o : Outline), (o.labelledFrom above).map Prod.snd = o.preorder
  | above, ⟨label, type, range, isActive, values, children, truncated⟩ => by
    rw [labelledFrom, preorder_eq, List.map_cons, map_snd_labelledList]

theorem map_snd_labelledList :
    ∀ above (os : List Outline), (labelledList above os).map Prod.snd = ofStack os
  | above, [] => by
    rw [labelledList, ofStack]
    rfl
  | above, o :: os => by
    rw [labelledList, List.map_append, map_snd_labelledFrom, map_snd_labelledList, ofStack_cons]

end

/-- Labelling goes through two lists one after the other. -/
theorem labelledList_append (above : List OutlineLabel) (os ps : List Outline) :
    labelledList above (os ++ ps) = labelledList above os ++ labelledList above ps := by
  induction os with
  | nil => rfl
  | cons o os ih => rw [List.cons_append, labelledList, labelledList, ih, List.append_assoc]

/-! ### Outlines down to a depth -/

variable {options other : OutlineOptions} {active : Option String} {index : LineIndex}

section

variable {β : Type} {f g : Outline → β} {depth depth' : Nat}

/-- What agrees for each tree at one depth agrees for the items of a list. -/
theorem map_ofElements_congr
    (h : ∀ label t, f (ofTreeAt options active index label depth t) =
      g (ofTreeAt other active index label depth' t)) (name : String) (i : Nat) (ts : List Tree) :
    (ofElements options active index depth name i ts).map f =
      (ofElements other active index depth' name i ts).map g := by
  induction ts generalizing i with
  | nil => rfl
  | cons t ts ih => rw [ofElements, ofElements, List.map_cons, List.map_cons, h, ih]

/-- What is alike in the outlines of all nodes is alike in those of the children. -/
theorem map_ofFields_congr
    (h : ∀ label t, f (ofTreeAt options active index label depth t) =
      g (ofTreeAt other active index label depth' t)) (fs : List TreeField) :
    (ofFields options active index depth fs).map f =
      (ofFields other active index depth' fs).map g := by
  induction fs with
  | nil => rfl
  | cons field fs ih =>
    cases field with
    | value | absent => exact ih
    | child name t => rw [ofFields, ofFields, List.map_cons, List.map_cons, h, ih]
    | list name ts =>
      rw [ofFields, ofFields, List.map_append, List.map_append, map_ofElements_congr h, ih]

/-- Whether a node has children does not depend on how deep they are followed. -/
theorem isEmpty_ofFields_congr (fs : List TreeField) :
    (ofFields options active index depth fs).isEmpty =
      (ofFields other active index depth' fs).isEmpty := by
  have hunit : (ofFields options active index depth fs).map (fun _ => ()) =
      (ofFields other active index depth' fs).map (fun _ => ()) :=
    map_ofFields_congr (by intro label t; rfl) fs
  have hempty := congrArg List.isEmpty hunit
  rw [List.isEmpty_map, List.isEmpty_map] at hempty
  exact hempty

end

/-- An outline down to a depth is the outline down to all nodes, cut off there. -/
theorem ofTreeAt_eq_prune (room depth depth' : Nat) (label : OutlineLabel) (t : Tree) :
    ofTreeAt { options with maxDepth := some (depth + room) } active index label depth t =
      (ofTreeAt { options with maxDepth := none } active index label depth' t).prune room := by
  -- on the levels still shown; the depth counted from the top does not matter
  induction room generalizing depth depth' label t with
  | zero =>
    obtain ⟨type, span, fields⟩ := t
    have hclosed : expands { options with maxDepth := some (depth + 0) } depth = false :=
      decide_eq_false (Nat.lt_irrefl depth)
    have hchildren :
        (ofFields { options with maxDepth := some (depth + 0) } active index (depth + 1)
            fields).isEmpty =
          (ofFields { options with maxDepth := none } active index (depth' + 1)
            fields).isEmpty :=
      isEmpty_ofFields_congr fields
    rw [ofTreeAt, ofTreeAt, prune]
    dsimp only
    rw [hclosed, hchildren]
    rfl
  | succ room ih =>
    obtain ⟨type, span, fields⟩ := t
    have hopen : expands { options with maxDepth := some (depth + (room + 1)) } depth = true :=
      decide_eq_true (by omega)
    have hchildren :
        ofFields { options with maxDepth := some (depth + (room + 1)) } active index (depth + 1)
            fields =
          (ofFields { options with maxDepth := none } active index (depth' + 1) fields).map
            (prune room) := by
      have hbelow : depth + (room + 1) = depth + 1 + room := by omega
      rw [hbelow, ← map_ofFields_congr (f := id) (ih (depth + 1) (depth' + 1)) fields, List.map_id]
    rw [ofTreeAt, ofTreeAt, prune]
    dsimp only
    rw [hopen, hchildren]
    rfl

/-! ### Labels and steps -/

open OutlineLabel (steps steps_append_singleton)

section

variable (options active index)

mutual

/-- The labels of the nodes of an outline lead to the places of the tree. -/
theorem map_labelledFrom (hdepth : options.maxDepth = none) :
    ∀ above label depth (t : Tree),
      ((ofTreeAt options active index label depth t).labelledFrom above).map (steps ·.1) =
        t.placesFrom (steps (above ++ [label]))
  | above, label, depth, ⟨type, span, fields⟩ => by
    have hopen : expands options depth = true := by
      rw [expands, hdepth]
      rfl
    rw [ofTreeAt, labelledFrom, hopen, if_pos rfl, List.map_cons, map_labelledFields hdepth,
      Tree.placesFrom]

/-- The labels spell the places, field by field. -/
theorem map_labelledFields (hdepth : options.maxDepth = none) :
    ∀ above depth (fs : List TreeField),
      (labelledList above (ofFields options active index depth fs)).map (steps ·.1) =
        Tree.fieldPlaces (steps above) fs
  | above, depth, [] => rfl
  | above, depth, .child name t :: fs => by
    have hchild : steps (above ++ [.field name]) = steps above ++ [⟨name, none⟩] :=
      steps_append_singleton above rfl
    rw [ofFields, labelledList, List.map_append, map_labelledFrom hdepth, hchild,
      map_labelledFields hdepth, Tree.fieldPlaces]
  | above, depth, .list name ts :: fs => by
    rw [ofFields, labelledList_append, List.map_append, map_labelledElements hdepth,
      map_labelledFields hdepth, Tree.fieldPlaces]
  | above, depth, .value _ _ :: fs => map_labelledFields hdepth above depth fs
  | above, depth, .absent _ :: fs => map_labelledFields hdepth above depth fs

/-- And item by item in a list. -/
theorem map_labelledElements (hdepth : options.maxDepth = none) :
    ∀ above depth name i (ts : List Tree),
      (labelledList above (ofElements options active index depth name i ts)).map (steps ·.1) =
        Tree.itemPlaces (steps above) name i ts
  | above, depth, name, i, [] => rfl
  | above, depth, name, i, t :: ts => by
    have hitem : steps (above ++ [.element name i]) = Step.item (steps above) name i :=
      steps_append_singleton above rfl
    rw [ofElements, labelledList, List.map_append, map_labelledFrom hdepth, hitem,
      map_labelledElements hdepth, Tree.itemPlaces]

end

end

/-- **The shape of an outline.** Down to a depth, the outline of a program is its whole outline cut
off there: the nodes at the depth lose their children, and say so exactly if they had any. A walk
over the whole outline comes to one node for each node of the walk over the program, with the type
and the range of that one, and as many are counted. The labels from the root of the outline down to
a node are steps that lead, from the program on, to the node that it shows. -/
theorem outline_mirrors_program (program : Program) (options : OutlineOptions)
    (active : Option String) (index : LineIndex) :
    let whole := ofTree { options with maxDepth := none } active index program.tree
    (∀ depth, ofTree { options with maxDepth := some depth } active index program.tree =
        whole.prune depth) ∧
      whole.preorder.map (fun o => (o.type, o.range)) =
        program.tree.preorder.map (fun t => (t.type, index.range? t.span)) ∧
      whole.count = whole.preorder.length ∧
      whole.labelled.map (·.2) = whole.preorder ∧
      whole.labelled.map (fun (labels, o) =>
          (program.tree.descend? (steps labels), o.type, o.range)) =
        program.tree.preorder.map (fun t => (some t, t.type, index.range? t.span)) := by
  intro whole
  have hcut : ∀ depth, ofTree { options with maxDepth := some depth } active index program.tree =
      whole.prune depth := by
    intro depth
    have hprune := @ofTreeAt_eq_prune options active index depth 0 0 .root program.tree
    rw [Nat.zero_add] at hprune
    exact hprune
  have hnodes : whole.preorder.map (fun o => (o.type, o.range)) =
      program.tree.preorder.map (fun t => (t.type, index.range? t.span)) :=
    map_ofTreeAt rfl (fun label depth t => by rw [type_ofTreeAt, range_ofTreeAt]) .root 0
      program.tree
  have hlabelled : whole.labelled.map (·.2) = whole.preorder := map_snd_labelledFrom [] whole
  -- the labels lead to the places of the program, and these to its nodes
  have hsteps : whole.labelled.map (fun found => program.tree.descend? (steps found.1)) =
      program.tree.preorder.map some := by
    have hplaces : whole.labelled.map (steps ·.1) = program.tree.places :=
      map_labelledFrom { options with maxDepth := none } active index rfl [] .root 0 program.tree
    rw [← Tree.map_places program.hasNames, ← hplaces, List.map_map]
    rfl
  have hshown : whole.labelled.map (fun found => (found.2.type, found.2.range)) =
      program.tree.preorder.map (fun t => (t.type, index.range? t.span)) := by
    rw [← hnodes, ← hlabelled, List.map_map]
    rfl
  refine ⟨hcut, hnodes, count_eq_length whole, hlabelled, ?_⟩
  calc whole.labelled.map (fun (labels, o) =>
        (program.tree.descend? (steps labels), o.type, o.range))
      = (whole.labelled.map (fun found => program.tree.descend? (steps found.1))).zip
          (whole.labelled.map (fun found => (found.2.type, found.2.range))) :=
        (List.zip_map' ..).symm
    _ = (program.tree.preorder.map some).zip
          (program.tree.preorder.map (fun t => (t.type, index.range? t.span))) := by
        rw [hsteps, hshown]
    _ = program.tree.preorder.map (fun t => (some t, t.type, index.range? t.span)) :=
        List.zip_map' ..

end Outline

end Espalier
