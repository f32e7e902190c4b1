import Espalier.Proofs.Growth.Statement

/-!
# How deep an accepted source nests

Some constructs nest: statements in statements, functions in functions. `Tree.passes` counts how
many of one construct a path comes by, and `Tree.Weighs` bounds this over all paths from a node.
Whether a node is a statement depends on the field that it is in (a block may be the body of a
function), and so a node that stands as a statement has a bound of its own (`Tree.Stands`). The
bounds grow by one with each construct, as the levels of the grammar do, so no path in an accepted
source comes by more of one kind than the grammar has levels.
-/

namespace Espalier

/-- What nests. A block is a statement where one can stand, but not as the body of a function or as
the block of a `try`, a `catch` or a `finally`: these are part of what they belong to. Of a class it
is the body, so that a path which only goes on to what the class extends comes by nothing. -/
inductive Construct
  | statement | unary | function | literal | classBody
  deriving DecidableEq, Repr

namespace NodeType

/-- What a node of a type is wherever it stands. -/
def construct? : NodeType → Option Construct
  | unaryExpression | awaitExpression => some .unary
  | functionDeclaration | functionExpression | arrowFunctionExpression | objectMethod
  | classMethod => some .function
  | arrayExpression | objectExpression => some .literal
  | classBody => some .classBody
  | _ => none

end NodeType

namespace Construct

/-- Whether a child in a field of its parent is a construct. -/
def isAt (c : Construct) (parent : NodeType) (field : String) (child : NodeType) : Bool :=
  match c with
  | statement => parent.holdsStatements field
  | _ => child.construct? = some c

/-- One for a statement, which its place makes what it is. -/
def standing (c : Construct) : Nat := if c = statement then 1 else 0

/-- One for any other construct. -/
def slack (c : Construct) : Nat := if c = statement then 0 else 1

/-- What a node counts that does not stand as a statement. -/
def cost (c : Construct) (type : NodeType) : Nat := if type.construct? = some c then 1 else 0

/-- A construct counts where it stands or has a level to spare. -/
theorem standing_add_slack (c : Construct) : c.standing + c.slack = 1 := by cases c <;> rfl

/-- Statements are counted by where they stand, not by their type. -/
theorem construct?_ne_statement (type : NodeType) : type.construct? ≠ some statement := by
  cases type <;> nofun

/-- A node costs no more than what a construct has to spare. -/
theorem cost_le_slack (c : Construct) (type : NodeType) : c.cost type ≤ c.slack := by
  unfold cost slack
  split
  · next h =>
    have hc : c ≠ statement := fun hc => construct?_ne_statement type (by rw [h, hc])
    exact Nat.le_of_eq (if_neg hc).symm
  · exact Nat.zero_le _

theorem cost_add_le (c : Construct) (type : NodeType) (n : Nat) :
    c.cost type + n ≤ n + c.slack := by
  have hle := c.cost_le_slack type
  omega

/-- A node that is none of the constructs costs nothing. -/
theorem cost_eq_zero {type : NodeType} (h : type.construct? = none) (c : Construct) :
    c.cost type = 0 := by
  rw [cost, h, if_neg nofun]

/-- A child counts for the place that it is in and for its type. -/
theorem toNat_isAt (c : Construct) (parent : NodeType) (field : String) (child : NodeType) :
    (c.isAt parent field child).toNat =
      (if parent.holdsStatements field then c.standing else 0) + c.cost child := by
  cases c with
  | statement =>
    rw [cost, if_neg (construct?_ne_statement child), Nat.add_zero]
    show (parent.holdsStatements field).toNat = _
    cases parent.holdsStatements field <;> rfl
  | _ =>
    simp only [standing, reduceCtorEq, if_false, ite_self, Nat.zero_add, isAt, cost]
    split <;> simp [*]

end Construct

namespace Tree

/-- How often a path comes by a construct. -/
def passes (c : Construct) : Tree → List (Step × Tree) → Nat
  | _, [] => 0
  | t, (step, u) :: path => (c.isAt t.type step.field u.type).toNat + u.passes c path

/-- A node that does not stand as a statement counts, with any path down from it, no more than a
number of constructs. -/
def Weighs (c : Construct) (n : Nat) (t : Tree) : Prop :=
  ∀ path, t.IsPath path → c.cost t.type + t.passes c path ≤ n

/-- A node that stands as a statement counts, with any path down from it, no more than a number of
constructs. -/
def Stands (c : Construct) (n : Nat) (t : Tree) : Prop :=
  ∀ path, t.IsPath path → c.standing + (c.cost t.type + t.passes c path) ≤ n

variable {c : Construct} {m n : Nat} {t u : Tree} {type : NodeType} {span : Span}
  {fields : List TreeField}

/-- What weighs little weighs no more than a greater number. -/
theorem Weighs.mono (h : t.Weighs c m) (hmn : m ≤ n) : t.Weighs c n :=
  fun path hpath => Nat.le_trans (h path hpath) hmn

/-- A node that stands as a statement weighs one more, if it is statements that are counted. -/
theorem Weighs.stands (h : t.Weighs c m) (hmn : c.standing + m ≤ n) : t.Stands c n :=
  fun path hpath => Nat.le_trans (Nat.add_le_add_left (h path hpath) _) hmn

/-- What is below a node counts no more than the node does. -/
theorem Weighs.parts (h : t.Weighs c n) : ∀ u ∈ t.parts, u.Weighs c n := by
  intro u hu path hpath
  obtain ⟨step, hstep⟩ := mem_parts_iff.mp hu
  have hlonger : c.cost t.type + ((c.isAt t.type step.field u.type).toNat + u.passes c path) ≤ n :=
    h ((step, u) :: path) ⟨hstep, hpath⟩
  have hplace := c.toNat_isAt t.type step.field u.type
  omega

/-- What a node counts is known from what its children count, each in its field. -/
theorem weighs_of_fields (hcost : c.cost type + m ≤ n)
    (h : ∀ f ∈ fields, ∀ u ∈ f.nodes,
      if type.holdsStatements f.name then u.Stands c m else u.Weighs c m) :
    Weighs c n ⟨type, span, fields⟩ := by
  intro path hpath
  -- A path ends at the node, or it goes on through one of its fields.
  cases path with
  | nil => exact Nat.le_of_add_right_le hcost
  | cons head path =>
    obtain ⟨step, u⟩ := head
    obtain ⟨hstep, hpath⟩ := hpath
    obtain ⟨f, hf, hu⟩ := List.mem_flatMap.mp hstep
    have hname : step.field = f.name := ((TreeField.mem_children_iff f step u).mp hu).1.symm
    have hbelow := h f hf u (List.mem_map.mpr ⟨_, hu, rfl⟩)
    have hplace := c.toNat_isAt type step.field u.type
    show c.cost type + ((c.isAt type step.field u.type).toNat + u.passes c path) ≤ n
    rw [hname] at hplace ⊢
    -- In some fields the nodes are counted as statements.
    split at hbelow
    · next hholds =>
      have hle := hbelow path hpath
      rw [if_pos hholds] at hplace
      omega
    · next hholds =>
      have hle := hbelow path hpath
      rw [if_neg hholds] at hplace
      omega

/-- What a node counts that holds no statements. -/
theorem weighs_of_parts (hplain : ∀ field, type.holdsStatements field = false)
    (hcost : c.cost type + m ≤ n) (h : ∀ u ∈ fields.flatMap TreeField.nodes, u.Weighs c m) :
    Weighs c n ⟨type, span, fields⟩ := by
  refine weighs_of_fields hcost fun f hf u hu => ?_
  rw [hplain, if_neg Bool.false_ne_true]
  exact h u (List.mem_flatMap.mpr ⟨f, hf, hu⟩)

/-- A node that is no construct wherever it stands counts what is below it. -/
theorem weighs_of_places (htype : type.construct? = none)
    (h : ∀ f ∈ fields, ∀ u ∈ f.nodes,
      if type.holdsStatements f.name then u.Stands c n else u.Weighs c n) :
    Weighs c n ⟨type, span, fields⟩ := by
  refine weighs_of_fields (Nat.le_of_eq ?_) h
  rw [c.cost_eq_zero htype, Nat.zero_add]

/-- A node that is no construct wherever it stands and holds no statements counts what is below
it. -/
theorem weighs_of_plain (hplain : ∀ field, type.holdsStatements field = false)
    (htype : type.construct? = none) (h : ∀ u ∈ fields.flatMap TreeField.nodes, u.Weighs c n) :
    Weighs c n ⟨type, span, fields⟩ := by
  refine weighs_of_parts hplain (Nat.le_of_eq ?_) h
  rw [c.cost_eq_zero htype, Nat.zero_add]

/-! ### Growth -/

/-- A function counts itself and what it holds. -/
theorem weighs_func {f : Func} {type : NodeType} (hid : ∀ t ∈ nodes f.id, t.Weighs c n)
    (h : ∀ t ∈ nodes f.params ++ nodes f.body, t.Weighs c n)
    (hplain : ∀ field, type.holdsStatements field = false) :
    (f.tree type).Weighs c (n + c.slack) := by
  obtain ⟨id, params, body, isAsync, isGenerator, span⟩ := f
  refine weighs_of_parts hplain (c.cost_add_le type n) ?_
  simpa using List.forall_mem_append.mpr ⟨hid, h⟩

/-- What a method counts, which is a function. -/
theorem weighs_method {key : PropertyKey} {f : Func} (hkey : key.tree.Weighs c n)
    (h : ∀ t ∈ nodes f.params ++ nodes f.body, t.Weighs c n)
    (hplain : ∀ field, type.holdsStatements field = false)
    (hfields : fields.flatMap TreeField.nodes = [key.tree]) :
    Weighs c (n + c.cost type) ⟨type, span, fields ++ f.fields⟩ := by
  refine weighs_of_parts hplain (Nat.le_of_eq (Nat.add_comm _ _)) ?_
  rw [List.flatMap_append, hfields]
  obtain ⟨id, params, body, isAsync, isGenerator, span'⟩ := f
  refine List.forall_mem_cons.mpr ⟨hkey, ?_⟩
  simpa [Func.fields] using h

end Tree

namespace Construct

/-- Plain nodes are none of the constructs. -/
theorem construct?_of_isPlain {type : NodeType} (h : type.isPlain = true) :
    type.construct? = none := by
  cases type <;> first | rfl | cases h

/-- No literal, operator or body of a class is also a function. -/
theorem cost_add_cost_le (c : Construct) {type : NodeType}
    (htype : type ∈ [.unaryExpression, .arrayExpression, .objectExpression, .classBody]) :
    c.cost type + c.cost .objectMethod ≤ c.slack := by
  simp only [List.mem_cons, List.not_mem_nil, or_false] at htype
  rcases htype with rfl | rfl | rfl | rfl <;> cases c <;> decide

/-- No more of a construct than there are levels: this is handed on by the readers of the grammar.
A method counts as a function does, in a literal or a class that is none. -/
def growth (c : Construct) : Growth where
  Holds _ n t := t.Weighs c n
  Stands _ n t := t.Stands c n
  slack := c.slack
  methodSlack := c.cost .objectMethod
  slack_le := Nat.le_of_add_left_le (Nat.le_of_eq c.standing_add_slack)
  mono h hmn := h.mono hmn
  widen h := h
  stands {_ n _} h := h.stands (by have hone := c.standing_add_slack; omega)
  parts h _ := h.parts
  places htype h := Tree.weighs_of_places (construct?_of_isPlain htype) h
  construct {_ n type _ _} htype h := by
    have hplain (field : String) : type.holdsStatements field = false := by
      simp only [List.mem_cons, List.not_mem_nil, or_false] at htype
      rcases htype with rfl | rfl | rfl | rfl <;> rfl
    have hcost := c.cost_add_cost_le htype
    exact Tree.weighs_of_parts hplain (by omega) h
  template {_ _ t} _ _ h := by
    obtain ⟨quasis, expressions, span⟩ := t
    exact Tree.weighs_of_plain (fun _ => rfl) rfl h
  await {_ n _ _} _ h :=
    Tree.weighs_of_parts (fun _ => rfl) (c.cost_add_le _ n) (by simpa using h)
  yield _ h := Tree.weighs_of_plain (fun _ => rfl) rfl (by simpa using h)
  returns _ h := Tree.weighs_of_plain (fun _ => rfl) rfl (by simpa using h)
  forOf _ hleft hright hbody := by
    refine Tree.weighs_of_places rfl ?_
    simp [NodeType.holdsStatements, hleft, hright, hbody]
  declarator {_ _ d} _ h := by
    obtain ⟨id, init, span⟩ := d
    exact Tree.weighs_of_plain (fun _ => rfl) rfl h
  handler {_ _ clause} _ h := by
    obtain ⟨_ | p, body, span⟩ := clause
    · exact Tree.weighs_of_plain (fun _ => rfl) rfl h
    · exact Tree.weighs_of_plain (fun _ => rfl) rfl h
  assign _ _ htarget hright :=
    Tree.weighs_of_plain (fun _ => rfl) rfl (by simp [htarget, hright])
  func htype hid _ h := by
    simp only [List.mem_cons, List.not_mem_nil, or_false] at htype
    rcases htype with rfl | rfl <;> exact Tree.weighs_func hid h fun _ => rfl
  arrow {_ n _ _ _ _ _ _} _ _ _ hparams hbody := by
    refine Tree.weighs_of_parts (fun _ => rfl) (c.cost_add_le _ n) ?_
    simpa [or_imp, forall_and, hbody] using hparams
  objectMethod hkey _ h := Tree.weighs_method hkey h (fun _ => rfl) (by simp)
  classMethod hkey _ h := Tree.weighs_method hkey h (fun _ => rfl) (by simp)

end Construct

namespace Program

/-- **Nesting is bounded.** On every path down from the program of an accepted source there are at
most as many statements as the grammar has levels, at most as many unary operators, at most as many
functions, at most as many literals of arrays and objects, and at most as many bodies of classes.
The blocks of `try`, `catch` and `finally` and the bodies of functions are not counted as
statements. -/
theorem passes_le_maxDepth {source : String} {options : ParserOptions} {p : Program}
    (h : Program.parse source options = .ok p) (c : Construct) (path : List (Step × Tree))
    (hpath : p.tree.IsPath path) : p.tree.passes c path ≤ Grammar.maxDepth := by
  have hweighs : p.tree.Weighs c Grammar.maxDepth := c.growth.of_parse h
  exact Nat.le_of_add_left_le (hweighs path hpath)

/-- Two statements, two operators, two functions, an array and a class nest in each other. -/
theorem passes_le_maxDepth_of_each :
    ∃ p, Program.parse "() => [- -function () \x7b return class \x7b\x7d \x7d];" = .ok p ∧
      [Construct.statement, .unary, .function, .literal, .classBody].map
        (fun c => p.tree.passes c (p.tree.leftmost 12)) = [2, 2, 2, 1, 1] ∧
      ∀ c, p.tree.passes c (p.tree.leftmost 12) ≤ Grammar.maxDepth := by
  have hcounts :
      ((Program.parse "() => [- -function () \x7b return class \x7b\x7d \x7d];").toOption.any
        fun p => [Construct.statement, .unary, .function, .literal, .classBody].map
          (fun c => p.tree.passes c (p.tree.leftmost 12)) = [2, 2, 2, 1, 1]) = true := by
    decide +kernel
  obtain ⟨p, h, hcounts⟩ := exists_ok_of_toOption_any hcounts
  exact ⟨p, h, of_decide_eq_true hcounts, fun c =>
    passes_le_maxDepth h c _ (p.tree.isPath_leftmost 12)⟩

end Program

end Espalier
