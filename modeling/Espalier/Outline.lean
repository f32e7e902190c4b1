import Espalier.Node.Tree
import Espalier.Source.LineIndex

/-!
# Outlines

What is shown of a tree beside its source: for every node its type, its range and some of its
scalars, down to a depth.
-/

namespace Espalier

/-- What an outline shows. -/
structure OutlineOptions where
  /-- How deep nodes are followed; the root has depth zero. -/
  maxDepth : Option Nat := none
  /-- The scalars to show, unless all are. -/
  shown : List String := []
  /-- Whether every scalar and every empty field is shown. -/
  showAll : Bool := false
  deriving Repr

/-- How a node of an outline hangs below another one. -/
inductive OutlineLabel
  | root
  | field (name : String)
  | element (field : String) (index : Nat)
  deriving DecidableEq, Repr

/-- The text in front of a node. -/
def OutlineLabel.text : OutlineLabel → String
  | root => ""
  | field name => s!"{name}: "
  | element list index => s!"{list}[{index}]: "

/-- A node of an outline with all that is below it. -/
structure Outline where
  label : OutlineLabel
  type : NodeType
  range : Option SourceRange
  isActive : Bool
  /-- The scalars that are shown, by their names. -/
  values : List (String × String)
  children : List Outline
  /-- Whether children are left out. -/
  truncated : Bool

namespace Outline

/-! ### Making outlines -/

/-- What is shown of a field that has no child. -/
def fieldValue? (options : OutlineOptions) : TreeField → Option (String × String)
  | .value name scalar =>
    if options.showAll || options.shown.contains name then some (name, scalar.text) else none
  | .absent name => if options.showAll then some (name, "null") else none
  | .list name [] => if options.showAll then some (name, "[]") else none
  | .list _ _ | .child _ _ => none

/-- Whether children at a depth are shown. -/
def expands (options : OutlineOptions) (depth : Nat) : Bool := options.maxDepth.all (depth < ·)

mutual

/-- The outline of a node at a depth. Nodes whose type has the name `active` are active. -/
def ofTreeAt (options : OutlineOptions) (active : Option String) (index : LineIndex)
    (label : OutlineLabel) (depth : Nat) : Tree → Outline
  | ⟨type, span, fields⟩ =>
    let children := ofFields options active index (depth + 1) fields
    { label
      type
      range := index.range? span
      isActive := active == some type.text
      values := fields.filterMap (fieldValue? options)
      children := if expands options depth then children else []
      truncated := !expands options depth && !children.isEmpty }

def ofFields (options : OutlineOptions) (active : Option String) (index : LineIndex)
    (depth : Nat) : List TreeField → List Outline
  | [] => []
  | .child name t :: fs =>
    ofTreeAt options active index (.field name) depth t :: ofFields options active index depth fs
  | .list name ts :: fs =>
    ofElements options active index depth name 0 ts ++ ofFields options active index depth fs
  | .value _ _ :: fs => ofFields options active index depth fs
  | .absent _ :: fs => ofFields options active index depth fs

def ofElements (options : OutlineOptions) (active : Option String) (index : LineIndex)
    (depth : Nat) (name : String) (i : Nat) : List Tree → List Outline
  | [] => []
  | t :: ts =>
    ofTreeAt options active index (.element name i) depth t ::
      ofElements options active index depth name (i + 1) ts

end

/-- The outline of a node as a root. -/
def ofTree (options : OutlineOptions) (active : Option String) (index : LineIndex) (t : Tree) :
    Outline :=
  ofTreeAt options active index .root 0 t

/-! ### Reading outlines -/

mutual

/-- The number of nodes. -/
def count : Outline → Nat
  | ⟨_, _, _, _, _, children, _⟩ => 1 + countList children

def countList : List Outline → Nat
  | [] => 0
  | o :: os => count o + countList os

end

theorem count_eq (o : Outline) : o.count = 1 + countList o.children := by
  cases o
  rfl

theorem countList_append (os ps : List Outline) :
    countList (os ++ ps) = countList os + countList ps := by
  induction os with
  | nil => exact (Nat.zero_add _).symm
  | cons o os ih => rw [List.cons_append, countList, countList, ih, Nat.add_assoc]

/-- The nodes that are taken off a stack on which the children of each take its place. -/
def ofStack : List Outline → List Outline
  | [] => []
  | o :: os => o :: ofStack (o.children ++ os)
termination_by os => countList os
decreasing_by
  rw [countList_append, countList, count_eq]
  omega

/-- A node and all that is below it, each before what is below it. -/
def preorder (o : Outline) : List Outline := ofStack [o]

/-- The line of a node: a star if it is active, its label, type and range, its scalars, and dots
where children are left out. -/
def line (o : Outline) : String :=
  (if o.isActive then "* " else "") ++ o.label.text ++ o.type.text ++
    o.range.elim "" (" " ++ ·.text) ++
    String.join (o.values.map fun (name, value) => s!" {name}={value}") ++
    if o.truncated then " ..." else ""

mutual

/-- The lines of a node at a depth and of all that is below it. -/
def linesAt (depth : Nat) : Outline → List String
  | ⟨label, type, range, isActive, values, children, truncated⟩ =>
    (String.join (List.replicate depth "  ") ++
        line ⟨label, type, range, isActive, values, children, truncated⟩) ::
      linesOfList (depth + 1) children

def linesOfList (depth : Nat) : List Outline → List String
  | [] => []
  | o :: os => linesAt depth o ++ linesOfList depth os

end

/-- An outline as indented text. -/
def render (o : Outline) : String := String.join ((linesAt 0 o).map (· ++ "\n"))

end Outline

end Espalier
