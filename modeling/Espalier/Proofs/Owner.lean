import Espalier.Proofs.Growth.Statement

/-!
# What functions allow

A node belongs to the nearest function around it of which the body or, but for arrows, the
parameters hold it: its owner (`Tree.owner?`). The keys of methods and the parameters of arrows
belong to the function around. What the parser keeps while it reads is what the owner allows
(`Context.within`), so in an accepted program each `yield` is owned by a generator and each `await`
by a function that is asynchronous or, in a module, by none (`Program.owners_allow`).
-/

namespace Espalier

/-- Whether what is in a field of the nodes of a type belongs to the function that they are. -/
def NodeType.owns (type : NodeType) (field : String) : Bool :=
  type.isFunction && (field == "body" || field == "params" && type != .arrowFunctionExpression)

namespace Tree

/-- Whether a flag of a node is set. -/
def hasFlag (t : Tree) (name : String) : Bool :=
  match t.field? name with
  | some (.value _ (.bool value)) => value
  | _ => false

/-- The node that a path leads to. -/
def last : Tree → List (Step × Tree) → Tree
  | t, [] => t
  | _, (_, u) :: path => u.last path

/-- The nodes that a path comes by before it ends. -/
def ancestors : Tree → List (Step × Tree) → List Tree
  | _, [] => []
  | t, (_, u) :: path => t :: u.ancestors path

/-- The owner of the node that a path leads to, if the node that it starts from has an owner or
not. -/
def ownerFrom (owner? : Option Tree) : Tree → List (Step × Tree) → Option Tree
  | _, [] => owner?
  | t, (step, u) :: path =>
    u.ownerFrom (if t.type.owns step.field then some t else owner?) path

/-- The owner of the node that a path leads to: the nearest function on the path that owns the field
in which the path goes on. -/
def owner? (t : Tree) (path : List (Step × Tree)) : Option Tree := t.ownerFrom none path

/-- An owner found on the way down comes before the one given. -/
theorem ownerFrom_eq (o? : Option Tree) (t : Tree) (path : List (Step × Tree)) :
    t.ownerFrom o? path = (t.owner? path).or o? := by
  induction path generalizing t o? with
  | nil => rfl
  | cons head path ih =>
    obtain ⟨step, u⟩ := head
    rw [ownerFrom, owner?, ownerFrom, ih, ih (if t.type.owns step.field then some t else none)]
    split
    · rw [Option.or_assoc]
      rfl
    · rw [Option.or_none]

theorem owner?_cons (t : Tree) (step : Step) (u : Tree) (path : List (Step × Tree)) :
    t.owner? ((step, u) :: path) =
      (u.owner? path).or (if t.type.owns step.field then some t else none) :=
  u.ownerFrom_eq _ path

/-- An owner is a function on the path. -/
theorem owner?_mem {t f : Tree} {path : List (Step × Tree)} (h : t.owner? path = some f) :
    f ∈ t.ancestors path ∧ f.type.isFunction = true := by
  induction path generalizing t with
  | nil => nomatch h
  | cons head path ih =>
    obtain ⟨step, u⟩ := head
    rw [owner?_cons, Option.or_eq_some_iff] at h
    rcases h with h | ⟨-, h⟩
    · exact ⟨List.mem_cons_of_mem t (ih h).1, (ih h).2⟩
    · rw [Option.ite_none_right_eq_some, Option.some_inj] at h
      obtain ⟨howns, rfl⟩ := h
      exact ⟨List.mem_cons_self, (Bool.and_eq_true_iff.mp howns).1⟩

end Tree

namespace Context

/-- What is allowed in the nodes of an owner, in a context for those that have none. -/
def within (k : Context) : Option Tree → Context
  | none => k
  | some f => .ofFunction (f.hasFlag "async") (f.hasFlag "generator")

/-- Whether a node is allowed. -/
structure Allows (k : Context) (t : Tree) : Prop where
  returns : t.type = .returnStatement → k.returns = true
  yields : t.type = .yieldExpression → k.yields = true
  awaits : t.type = .awaitExpression ∨ t.type = .forOfStatement ∧ t.hasFlag "await" = true →
    k.awaits = true

/-- Whether a node and all that is below it are allowed, each by its owner. -/
def Suits (k : Context) (t : Tree) : Prop :=
  ∀ path, t.IsPath path → (k.within (t.owner? path)).Allows (t.last path)

variable {k : Context} {t u : Tree}

/-- The nearer owner decides. -/
theorem within_or (k : Context) (o? o?' : Option Tree) :
    k.within (o?.or o?') = (k.within o?').within o? := by cases o? <;> rfl

/-- A node is suitable if it is allowed and its children are suitable, in the function that it is or
around it. -/
theorem suits_of_children (h : k.Allows t)
    (hchildren : ∀ step u, (step, u) ∈ t.children →
      (k.within (if t.type.owns step.field then some t else none)).Suits u) : k.Suits t := by
  intro path hpath
  cases path with
  | nil => exact h
  | cons head path =>
    obtain ⟨step, u⟩ := head
    rw [Tree.owner?_cons, within_or]
    exact hchildren step u hpath.1 path hpath.2

/-- What suits a node suits its children, in the context the node makes for them. -/
theorem Suits.child (h : k.Suits t) {step : Step} (hu : (step, u) ∈ t.children) :
    (k.within (if t.type.owns step.field then some t else none)).Suits u := by
  intro path hpath
  have hlonger := h ((step, u) :: path) ⟨hu, hpath⟩
  rw [Tree.owner?_cons, within_or] at hlonger
  exact hlonger

/-- Only functions own what is below them. -/
theorem owns_eq_false {type : NodeType} (h : type.isFunction = false) (field : String) :
    type.owns field = false := by
  rw [NodeType.owns, h, Bool.false_and]

/-- A node that is no function is suitable if it is allowed and its children are suitable. -/
theorem suits_of_parts (ht : t.type.isFunction = false) (h : k.Allows t)
    (hparts : ∀ u ∈ t.parts, k.Suits u) : k.Suits t := by
  refine suits_of_children h fun step u hu => ?_
  rw [owns_eq_false ht, if_neg Bool.false_ne_true]
  exact hparts u (Tree.mem_parts hu)

theorem Suits.parts (h : k.Suits t) (ht : t.type.isFunction = false) :
    ∀ u ∈ t.parts, k.Suits u := by
  intro u hu
  obtain ⟨step, hstep⟩ := Tree.mem_parts_iff.mp hu
  have hchild := h.child hstep
  rw [owns_eq_false ht, if_neg Bool.false_ne_true] at hchild
  exact hchild

/-- What needs no `return` around it may have one. -/
theorem Suits.widen (h : Suits ⟨false, k.awaits, k.yields⟩ t) : k.Suits t := by
  intro path hpath
  have hallows := h path hpath
  cases howner : t.owner? path with
  | some f =>
    rw [howner] at hallows
    exact hallows
  | none =>
    rw [howner] at hallows
    exact ⟨fun htype => absurd (hallows.returns htype) nofun, hallows.yields, hallows.awaits⟩

/-- A function is suitable if its parameters and its body are so in it, the other nodes around it,
and the parameters of an arrow there. -/
theorem suits_function {type : NodeType} {span : Span} {fields : List TreeField}
    {isAsync isGenerator : Bool} (htype : type.isFunction = true)
    (hasync : Tree.hasFlag ⟨type, span, fields⟩ "async" = isAsync)
    (hgenerator : Tree.hasFlag ⟨type, span, fields⟩ "generator" = isGenerator)
    (h : ∀ f ∈ fields, ∀ u ∈ f.nodes,
      (if type.owns f.name then .ofFunction isAsync isGenerator else k).Suits u) :
    k.Suits ⟨type, span, fields⟩ := by
  refine suits_of_children ?_ fun step u hu => ?_
  · refine ⟨?_, ?_, ?_⟩
    · -- a function is none of the nodes that are not allowed everywhere
      rintro rfl
      nomatch htype
    · rintro rfl
      nomatch htype
    · rintro (rfl | ⟨rfl, -⟩)
      · nomatch htype
      · nomatch htype
  · obtain ⟨f, hf, hu⟩ := List.mem_flatMap.mp hu
    have hname : step.field = f.name := ((TreeField.mem_children_iff f step u).mp hu).1.symm
    have hbelow := h f hf u (List.mem_map.mpr ⟨_, hu, rfl⟩)
    rw [hname]
    dsimp only
    split
    · next howns =>
      rw [if_pos howns] at hbelow
      rw [within, hasync, hgenerator]
      exact hbelow
    · next howns =>
      rw [if_neg howns] at hbelow
      exact hbelow

/-- A function suits every context if its parts suit the one it makes. -/
theorem suits_func {f : Func} {type : NodeType} (hid : ∀ u ∈ nodes f.id, k.Suits u)
    (h : ∀ u ∈ nodes f.params ++ nodes f.body, (ofFunction f.isAsync f.isGenerator).Suits u)
    (htype : type.isFunction = true) (harrow : type ≠ .arrowFunctionExpression) :
    k.Suits (f.tree type) := by
  obtain ⟨id, params, body, isAsync, isGenerator, span⟩ := f
  rw [List.forall_mem_append] at h
  refine @suits_function _ _ _ _ isAsync isGenerator htype ?_ ?_ ?_
  · simp [Tree.hasFlag, Tree.field?]
    rfl
  · simp [Tree.hasFlag, Tree.field?]
    rfl
  · have hbody := h.2 body.tree (List.mem_singleton_self _)
    simpa [NodeType.owns, htype, harrow] using ⟨hid, h.1, hbody⟩

/-- The parameters of an arrow function belong to what is around it, only its body is its own. -/
theorem suits_arrow {a : Arrow} (hparams : ∀ u ∈ nodes a.params, k.Suits u)
    (hbody : (ofFunction a.isAsync false).Suits a.body.tree) : k.Suits a.tree := by
  obtain ⟨params, body, isAsync, span⟩ := a
  refine @suits_function _ _ _ _ isAsync false rfl rfl rfl ?_
  simpa [NodeType.owns, NodeType.isFunction] using ⟨hparams, hbody⟩

/-- A method, which has its key and then the fields of its function. -/
theorem suits_method {type : NodeType} {span : Span} {key : PropertyKey} {f : Func}
    {fields : List TreeField} (hkey : k.Suits key.tree)
    (h : ∀ u ∈ nodes f.params ++ nodes f.body, (ofFunction f.isAsync f.isGenerator).Suits u)
    (htype : type.isFunction = true) (harrow : type ≠ .arrowFunctionExpression)
    (hfields : ∀ g ∈ fields, g.name ∉ ["params", "body", "async", "generator"] ∧
      ∀ u ∈ g.nodes, u = key.tree) :
    k.Suits ⟨type, span, fields ++ f.fields⟩ := by
  obtain ⟨id, params, body, isAsync, isGenerator, span'⟩ := f
  rw [List.forall_mem_append] at h
  -- The flags are those of the function, since no field before them has their names.
  have hskip {name : String} (hname : name ∈ ["params", "body", "async", "generator"]) :
      fields.find? (·.name == name) = none := by
    refine List.find?_eq_none.mpr fun g hg heq => (hfields g hg).1 ?_
    rw [eq_of_beq heq]
    exact hname
  refine @suits_function _ _ _ _ isAsync isGenerator htype ?_ ?_ ?_
  · rw [Tree.hasFlag, Tree.field?, List.find?_append, hskip (by decide)]
    rfl
  · rw [Tree.hasFlag, Tree.field?, List.find?_append, hskip (by decide)]
    rfl
  · rw [List.forall_mem_append]
    refine ⟨fun g hg u hu => ?_, ?_⟩
    · obtain ⟨hname, hnode⟩ := hfields g hg
      rw [hnode u hu, NodeType.owns, if_neg (by simp_all)]
      exact hkey
    · have hbody := h.2 body.tree (List.mem_singleton_self _)
      simpa [Func.fields, NodeType.owns, htype, harrow] using ⟨h.1, hbody⟩

/-- Plain nodes are allowed in every context. -/
theorem allows_of_isPlain {type : NodeType} (h : type.isPlain = true) (span : Span)
    (fields : List TreeField) : k.Allows ⟨type, span, fields⟩ := by
  refine ⟨?_, ?_, ?_⟩
  · rintro rfl
    nomatch h
  · rintro rfl
    nomatch h
  · rintro (rfl | ⟨rfl, -⟩)
    · nomatch h
    · nomatch h

theorem isFunction_of_isPlain {type : NodeType} (h : type.isPlain = true) :
    type.isFunction = false := by
  cases type <;> first | rfl | cases h

/-- To be suitable is handed on by the readers of the grammar, at all levels. -/
def growth : Growth where
  Holds k _ t := k.Suits t
  Stands k _ t := k.Suits t
  slack := 0
  methodSlack := 0
  slack_le := Nat.zero_le 1
  mono h _ := h
  widen h := h.widen
  stands h := h
  parts h ht := h.parts ht
  places htype h := by
    refine suits_of_parts (isFunction_of_isPlain htype) (allows_of_isPlain htype _ _) fun u hu => ?_
    obtain ⟨f, hf, hu⟩ := List.mem_flatMap.mp hu
    simpa using h f hf u hu
  construct htype h := by
    simp only [List.mem_cons, List.not_mem_nil, or_false] at htype
    rcases htype with rfl | rfl | rfl | rfl <;>
      exact suits_of_parts rfl ⟨nofun, nofun, nofun⟩ h
  template {_ _ t} _ _ h := by
    obtain ⟨quasis, expressions, span⟩ := t
    exact suits_of_parts rfl ⟨nofun, nofun, nofun⟩ h
  await hk h :=
    suits_of_parts rfl ⟨nofun, nofun, fun _ => hk⟩ (by simpa [Expr.tree, Tree.parts] using h)
  yield hk h :=
    suits_of_parts rfl ⟨nofun, fun _ => hk, nofun⟩ (by simpa [Expr.tree, Tree.parts] using h)
  returns hk h :=
    suits_of_parts rfl ⟨fun _ => hk, nofun, nofun⟩ (by simpa [Stmt.tree, Tree.parts] using h)
  forOf {k _ span left right body isAwait} hk hleft hright hbody := by
    refine suits_of_parts rfl ⟨nofun, nofun, ?_⟩ ?_
    · rintro (htype | ⟨-, hflag⟩)
      · nomatch htype
      · exact hk hflag
    · simp [Stmt.tree, Tree.parts, hleft, hright, hbody]
  declarator {_ _ d} _ h := by
    obtain ⟨id, init, span⟩ := d
    exact suits_of_parts rfl ⟨nofun, nofun, nofun⟩ h
  handler {_ _ c} _ h := by
    obtain ⟨_ | p, body, span⟩ := c
    · exact suits_of_parts rfl ⟨nofun, nofun, nofun⟩ h
    · exact suits_of_parts rfl ⟨nofun, nofun, nofun⟩ h
  assign _ _ htarget hright := by
    refine suits_of_parts rfl ⟨nofun, nofun, nofun⟩ ?_
    simp [Expr.tree, Tree.parts, htarget, hright]
  func {_ _ f type} htype hid _ h := by
    simp only [List.mem_cons, List.not_mem_nil, or_false] at htype
    rcases htype with rfl | rfl <;> exact suits_func hid h rfl (by decide)
  arrow _ _ _ hparams hbody := suits_arrow hparams hbody
  objectMethod hkey _ h := suits_method hkey h rfl (by decide) (by simp)
  classMethod hkey _ h := suits_method hkey h rfl (by decide) (by simp)

end Context

namespace Program

/-- **Context soundness.** In the program of an accepted source each `return` has a function above
it, unless the options let it stand outside; the owner of each `yield` is a generator; and each
`await` and each loop that awaits has an asynchronous function for its owner or, in a module,
none. -/
theorem owners_allow {source : String} {options : ParserOptions} {p : Program}
    (h : Program.parse source options = .ok p) (path : List (Step × Tree))
    (hpath : p.tree.IsPath path) :
    let u := p.tree.last path
    (u.type = .returnStatement → options.allowReturn = false →
      ∃ f ∈ p.tree.ancestors path, f.type.isFunction = true) ∧
    (u.type = .yieldExpression →
      ∃ f, p.tree.owner? path = some f ∧ f.hasFlag "generator" = true) ∧
    (u.type = .awaitExpression ∨ u.type = .forOfStatement ∧ u.hasFlag "await" = true →
      (∃ f, p.tree.owner? path = some f ∧ f.hasFlag "async" = true) ∨
        p.tree.owner? path = none ∧ options.isModule = true) := by
  intro u
  have hsuits : options.context.Suits p.tree := Context.growth.of_parse h
  have hallows := hsuits path hpath
  -- without an owner the options decide, otherwise the function does
  cases howner : p.tree.owner? path with
  | none =>
    rw [howner] at hallows
    refine ⟨fun htype hoption => ?_, fun htype => ?_, fun htype => ?_⟩
    · exact absurd ((hallows.returns htype).symm.trans hoption) nofun
    · exact absurd (hallows.yields htype) nofun
    · exact .inr ⟨rfl, hallows.awaits htype⟩
  | some f =>
    rw [howner] at hallows
    refine ⟨fun _ _ => ⟨f, Tree.owner?_mem howner⟩, fun htype => ?_, fun htype => ?_⟩
    · exact ⟨f, rfl, hallows.yields htype⟩
    · exact .inl ⟨f, rfl, hallows.awaits htype⟩

/-- The `return` and the `await` of an arrow, in a source that is no module. -/
theorem owners_allow_arrow :
    ∃ p, Program.parse "async () => \x7b return await a; \x7d" { isModule := false } = .ok p ∧
      (p.tree.last (p.tree.leftmost 4)).type = .returnStatement ∧
      (∃ f ∈ p.tree.ancestors (p.tree.leftmost 4), f.type.isFunction = true) ∧
      (p.tree.last (p.tree.leftmost 5)).type = .awaitExpression ∧
      ∃ f, p.tree.owner? (p.tree.leftmost 5) = some f ∧ f.hasFlag "async" = true := by
  have htypes :
      ((Program.parse "async () => \x7b return await a; \x7d"
        { isModule := false }).toOption.any fun p =>
          (p.tree.last (p.tree.leftmost 4)).type = .returnStatement ∧
            (p.tree.last (p.tree.leftmost 5)).type = .awaitExpression) = true := by
    decide +kernel
  obtain ⟨p, h, htypes⟩ := exists_ok_of_toOption_any htypes
  obtain ⟨hreturn, hawait⟩ := of_decide_eq_true htypes
  have hfour := owners_allow h (p.tree.leftmost 4) (p.tree.isPath_leftmost 4)
  have hfive := owners_allow h (p.tree.leftmost 5) (p.tree.isPath_leftmost 5)
  refine ⟨p, h, hreturn, hfour.1 hreturn rfl, hawait, ?_⟩
  exact (hfive.2.2 (.inl hawait)).resolve_right fun hmodule => nomatch hmodule.2

end Program

end Espalier
