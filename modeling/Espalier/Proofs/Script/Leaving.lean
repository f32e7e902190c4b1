import Espalier.Proofs.Node.Walk
import Espalier.Proofs.Script.Removal

/-!
# What leaves a program with a node

When the node of a path is removed, exactly the item leaves the tree of the program that
`Tree.leavesWith` tells, and the depth that the removal gives is the length of its place: the node
of the path, or the statement or the declaration of which that was the only content
(`Script.children_of_goesWith`). So much is known of what the nodes of a script read from then on
(`Script.reads_after_remove`).
-/

namespace Espalier

open Step

/-- No node of a program has two fields of one name. -/
theorem Program.hasNames (p : Program) : p.tree.HasNames := by
  intro path c hc
  rw [← p.map_nodeAt?_eq_descend?] at hc
  obtain ⟨n, hn, rfl⟩ := Option.map_eq_some_iff.mp hc
  exact Node.nodup_names_tree (isProper_of_nodeAt? hn)

/-- The items of a list are counted alike in both views of a node. -/
theorem Node.itemCount_tree {n : Node} (h : n.IsProper) (field : String) :
    n.tree.itemCount field = (n.items? field).elim 0 (·.slots.length) := by
  unfold Tree.itemCount
  rw [field?_tree h, items?, field?]
  cases n.fields.find? (·.1 == field) with
  | none => rfl
  | some named =>
    obtain ⟨name, f⟩ := named
    cases f with
    | list items =>
      show (items.slots.map _).length = _
      exact List.length_map _
    | _ => rfl

namespace Script

variable {m m' : Machine} {steps : List Step}

/-- What is read at a place is the tree of a proper node that stands there. -/
theorem Machine.read?_eq_some_iff {t : Tree} :
    m.read? steps = some t ↔ ∃ n, m.nodeAt? steps = some n ∧ n.IsProper ∧ n.tree = t := by
  rw [← m.map_nodeAt?_eq_read?, Option.map_eq_some_iff]
  constructor
  · rintro ⟨n, hn, rfl⟩
    obtain ⟨p, -, hp⟩ := Option.bind_eq_some_iff.mp hn
    have hroot : (Node.program p).IsProper := trivial
    exact ⟨n, hn, Node.isProper_of_descend? hroot hp, rfl⟩
  · rintro ⟨n, hn, -, rfl⟩
    exact ⟨n, hn, rfl⟩

/-- The type of a node and the number of items in its lists are those of the tree. -/
theorem Machine.typeAt?_of_read? {t : Tree} (h : m.read? steps = some t) :
    m.typeAt? steps = some t.type := by
  obtain ⟨n, hn, hproper, rfl⟩ := read?_eq_some_iff.mp h
  rw [typeAt?, hn, Node.tree_eq n hproper]
  rfl

theorem Machine.itemCount_of_read? {t : Tree} (h : m.read? steps = some t) (field : String) :
    m.itemCount steps field = t.itemCount field := by
  obtain ⟨n, hn, hproper, rfl⟩ := read?_eq_some_iff.mp h
  rw [itemCount, hn, Node.itemCount_tree hproper]
  rfl

/-- What is read at a place is what the program has there. -/
theorem Machine.read?_of_target {p : Program} (h : m.target = some p) (steps : List Step) :
    m.read? steps = p.tree.descend? steps := by
  rw [read?, h]
  rfl

/-- A declaration is emptied when the only item of its list is taken out. -/
theorem Machine.Loses.isEmptied_eq {p : Program} {parent : Tree} {last : Step} {above : List Step}
    {i : Nat} (h : m.Loses m' above last.field i) (hp : m.target = some p)
    (hparent : p.tree.descend? above = some parent) (hi : i < parent.itemCount last.field)
    (hindex : last.index = some i) :
    m'.isEmptied parent.type above.reverse last.field = Tree.goesWith [] above parent last := by
  have hread : m'.read? above = some (parent.eraseItem last.field i) := by
    rw [h.read?_eq, if_pos List.prefix_rfl, read?_of_target hp, hparent, List.drop_length]
    rfl
  have hcount : m'.itemCount above last.field = parent.itemCount last.field - 1 := by
    rw [itemCount_of_read? hread, Tree.itemCount_eraseItem hi, if_pos rfl]
  have hlast : above.reverse.head? = above.getLast? := List.head?_reverse
  have hone : (parent.itemCount last.field - 1 == 0) = (parent.itemCount last.field == 1) := by
    rw [Bool.eq_iff_iff, beq_iff_eq, beq_iff_eq]
    omega
  unfold isEmptied Tree.goesWith
  rw [List.reverse_reverse, hindex, hcount, hlast, hone, staying_nil]
  exact Bool.and_right_comm _ _ _

/-- What goes with a child has no other one. -/
theorem children_of_goesWith {t c : Tree} (h : m.read? steps = some t) {above : List Step}
    {last : Step} (hc : t.child? last = some c) (hgoes : Tree.goesWith [] above t last = true) :
    t.children = [(last, c)] ∧ goesWithContent t.type = true := by
  obtain ⟨n, -, hproper, rfl⟩ := Machine.read?_eq_some_iff.mp h
  have hmem := (Tree.child?_eq_some_iff (Node.nodup_names_tree hproper) last c).mp hc
  have htype : goesWithContent n.tree.type = true := by
    unfold Tree.goesWith at hgoes
    unfold goesWithContent
    cases hindex : last.index with
    | none =>
      rw [hindex] at hgoes
      exact Bool.or_eq_true_iff.mpr (.inl hgoes)
    | some i =>
      rw [hindex] at hgoes
      exact Bool.or_eq_true_iff.mpr (.inr (Bool.and_eq_true_iff.mp
        (Bool.and_eq_true_iff.mp hgoes).1).1)
  refine ⟨?_, htype⟩
  suffices hlength : n.tree.children.length = 1 by
    obtain ⟨only, honly⟩ := List.length_eq_one_iff.mp hlength
    rw [honly] at hmem ⊢
    rw [List.mem_singleton.mp hmem]
  rw [Node.tree_eq n hproper] at htype
  rcases eq_of_goesWithContent hproper htype with ⟨s, e, rfl⟩ | ⟨⟨kind, ds, s⟩, rfl⟩
  · rfl
  · have hlist : (Node.varDecl ⟨kind, ds, s⟩).tree.children =
        (TreeField.list "declarations" (declaratorTrees ds)).children := List.append_nil _
    rw [hlist, TreeField.mem_children_iff] at hmem
    obtain ⟨field, index⟩ := last
    obtain ⟨hname, hitem⟩ := hmem
    cases hname
    cases index with
    | none => cases hitem
    | some i =>
      -- the items that are counted before the declaration goes are its children
      have hcount : (declaratorTrees ds).length = 1 :=
        eq_of_beq
          ((congrArg (· == 1) (staying_nil ..)).symm.trans (Bool.and_eq_true_iff.mp hgoes).2)
      rw [hlist, TreeField.children, List.length_map, List.length_zipIdx, hcount]

/-- A statement or declaration that goes with its content is taken out of a list. -/
theorem removeNode_above {above : List Step} {depth : Nat}
    (h : removeNode above m = .ok depth m')
    (htype : ∀ n, m.nodeAt? above.reverse = some n → goesWithContent n.type = true) :
    ∃ owner field i, above.reverse = item owner field i ∧ m.Loses m' owner field i ∧
      depth = (item owner field i).length := by
  cases above with
  | nil => cases h
  | cons next above =>
    rw [List.reverse_cons] at htype ⊢
    obtain ⟨i, hindex, hloses, hdepth⟩ := removeNode_ok_of_goesWithContent h htype
    have hnext : next = ⟨next.field, some i⟩ := by rw [← hindex]
    refine ⟨above.reverse, next.field, i, ?_, hloses, ?_⟩
    · rw [item, ← hnext]
    · rw [hdepth, item, List.length_append, List.length_reverse, List.length_singleton]

/-- **A removal takes out what leaves with the node.** -/
theorem removeNode_leavesWith {depth : Nat} (h : removeNode steps.reverse m = .ok depth m') :
    ∃ p owner field i, m.target = some p ∧ p.tree.leavesWith [] steps = item owner field i ∧
      m.Loses m' owner field i ∧ depth = (item owner field i).length := by
  rcases List.eq_nil_or_concat' steps with rfl | ⟨above, last, rfl⟩
  · cases h
  rw [List.reverse_concat] at h
  obtain ⟨n, parentNode, hn, hparentNode, hcases⟩ := removeNode_cons_ok h
  obtain ⟨p, hp, -⟩ := Option.bind_eq_some_iff.mp hn
  refine ⟨p, ?_⟩
  obtain ⟨parent, hparent, hparentType⟩ := type_of_read? hparentNode
  obtain ⟨t, ht, -⟩ := type_of_read? hn
  rw [← hparentType] at hcases
  rw [List.reverse_reverse] at hn hparent ht hparentNode hcases
  have htree : p.tree.descend? above = some parent := by rw [← hparent, Machine.read?_of_target hp]
  have hchild : parent.child? last = some t := by
    rw [Machine.read?_of_target hp, Tree.descend?_append_singleton, htree] at ht
    exact ht
  rw [Tree.leavesWith_append_singleton htree]
  rcases hcases with ⟨i, m₁, hindex, hloses, hend⟩ | ⟨hindex, hstmt, hagain⟩
  · -- an item of a list, and perhaps the declaration that it emptied
    have hlast : last = ⟨last.field, some i⟩ := by rw [← hindex]
    have hempty : m₁.isEmptied parent.type above.reverse last.field =
        Tree.goesWith [] above parent last :=
      hloses.isEmptied_eq hp htree (Tree.lt_itemCount (hlast ▸ hchild)) hindex
    rw [hempty] at hend
    rcases hend with ⟨hgoes, rfl, rfl⟩ | ⟨hgoes, hagain⟩
    · rw [hgoes]
      refine ⟨above, last.field, i, hp, ?_, hloses, ?_⟩
      · rw [item, ← hlast]
        rfl
      · rw [item, List.length_append, List.length_reverse, List.length_singleton]
    · rw [hgoes]
      have hdecl : ∀ k, m₁.nodeAt? above.reverse.reverse = some k →
          goesWithContent k.type = true := by
        intro k hk
        obtain ⟨u, hu, hutype⟩ := type_of_read? hk
        rw [List.reverse_reverse, hloses.read?_eq, if_pos List.prefix_rfl, hparent] at hu
        cases hu
        have hvar := Machine.type_of_isEmptied (hempty.trans hgoes)
        rw [← hutype, (parent.type_eraseAt _ _ _).1, hvar]
        rfl
      obtain ⟨owner, field, j, hplace, hfinal, hdepth⟩ := removeNode_above hagain hdecl
      rw [List.reverse_reverse] at hplace
      refine ⟨owner, field, j, hp, hplace, hloses.trans hfinal ?_, hdepth⟩
      exact hplace ▸ List.prefix_rfl
  · -- the statement of an expression
    have hgoes : Tree.goesWith [] above parent last = true := by
      unfold Tree.goesWith
      rw [hindex]
      exact beq_iff_eq.mpr hstmt
    obtain ⟨owner, field, j, hplace, hfinal, hdepth⟩ := removeNode_above hagain fun k hk => by
      rw [List.reverse_reverse, hparentNode] at hk
      obtain rfl : parentNode = k := Option.some.inj hk
      rw [← hparentType, hstmt]
      rfl
    rw [List.reverse_reverse] at hplace
    rw [hgoes]
    exact ⟨owner, field, j, hp, hplace, hfinal, hdepth⟩

/-- A node that has been removed stood where the steps led to. -/
theorem isSome_read?_of_removeNode {depth : Nat} (h : removeNode steps.reverse m = .ok depth m') :
    (m.read? steps).isSome := by
  rcases List.eq_nil_or_concat' steps with rfl | ⟨above, last, rfl⟩
  · cases h
  rw [List.reverse_concat] at h
  obtain ⟨n, -, hn, -⟩ := removeNode_cons_ok h
  rw [List.reverse_reverse] at hn
  obtain ⟨t, ht, -⟩ := type_of_read? hn
  exact Option.isSome_of_eq_some ht

/-- What leaves with a node is the node, or what is right above it and holds nothing else. -/
theorem eq_or_children_of_leavesWith {p : Program} (hp : m.target = some p)
    (hread : (m.read? steps).isSome) {owner : List Step} {field : String} {i : Nat}
    (hplace : p.tree.leavesWith [] steps = item owner field i) :
    item owner field i = steps ∨
      ∃ last t c, item owner field i ++ [last] = steps ∧
        m.read? (item owner field i) = some t ∧ t.children = [(last, c)] ∧
        goesWithContent t.type = true := by
  rcases List.eq_nil_or_concat' steps with rfl | ⟨above, last, rfl⟩
  · exact .inl hplace.symm
  obtain ⟨c, hc⟩ := Option.isSome_iff_exists.mp hread
  obtain ⟨t, ht⟩ := Option.isSome_iff_exists.mp
    (m.isSome_read?_of_prefix hread (List.prefix_append above [last]))
  have hparent : p.tree.descend? above = some t := by rw [← ht, Machine.read?_of_target hp]
  have hchild : t.child? last = some c := by
    rw [Machine.read?_of_target hp, Tree.descend?_append_singleton, hparent] at hc
    exact hc
  rw [Tree.leavesWith_append_singleton hparent] at hplace
  split at hplace
  · -- the node went with its parent, of which it was the only content
    next hgoes =>
    subst hplace
    obtain ⟨hchildren, htype⟩ := children_of_goesWith ht hchild hgoes
    exact .inr ⟨last, t, c, rfl, ht, hchildren, htype⟩
  · exact .inl hplace.symm

/-- A path that is removed is marked with the depth of what has left. -/
theorem removePath_ok {id : PathId} (h : removePath id m = .ok () m') :
    ∃ depth m₁, removeNode (m.path id).steps.reverse m = .ok depth m₁ ∧
      m' = { m₁ with
        paths := m₁.paths.modify id.place fun p => { p with removedAt := some depth } } := by
  obtain ⟨m₁, m₂, hget, hrest⟩ := exists_of_bind_ok h
  cases hget
  dsimp only at hrest
  split at hrest
  · obtain ⟨_, _, hraise, -⟩ := exists_of_bind_ok hrest
    cases hraise
  · obtain ⟨depth, m₃, hremove, hmark⟩ := exists_of_bind_ok hrest
    cases hmark
    exact ⟨depth, m₃, hremove, rfl⟩

/-- **What nodes read after a removal.** A removal by a path takes one item out of one list: the
node of the path, or the statement or declaration of which that was the only child. A node on the
way to the list is still read there, less the item; a node of which the steps do not lead through
the list at the item or behind it is read as before. Steps through the list behind the item lead to
what stood one item further: nodes of a script do not follow the nodes of the program. Where nothing
stands any more, and only there, every property is refused as that of a removed node. -/
theorem reads_after_remove {id : PathId} {args : Array Value} {m m' : Machine} {v : Value}
    (h : callPathMethod .remove id args m = .ok v m') :
    ∃ owner field i,
      (m.read? (owner ++ [⟨field, some i⟩])).isSome ∧
      (owner ++ [⟨field, some i⟩] = (m.path id).steps ∨
        ∃ last t c, owner ++ [⟨field, some i⟩, last] = (m.path id).steps ∧
          m.read? (owner ++ [⟨field, some i⟩]) = some t ∧ t.children = [(last, c)] ∧
          (t.type = .expressionStatement ∨ t.type = .variableDeclaration)) ∧
      (∀ node, node <+: owner → ∃ t t', m.read? node = some t ∧ m'.read? node = some t' ∧
        t' = t.eraseAt (owner.drop node.length) field i ∧ t'.type = t.type ∧ t'.span = t.span) ∧
      (∀ node, ¬ node <+: owner → (∀ j, i ≤ j → ¬ owner ++ [⟨field, some j⟩] <+: node) →
        m'.read? node = m.read? node) ∧
      (∀ j rest, i ≤ j → m'.read? (owner ++ ⟨field, some j⟩ :: rest) =
        m.read? (owner ++ ⟨field, some (j + 1)⟩ :: rest)) ∧
      ∀ node key, m'.read? node = none ↔
        nodeProperty node key m' = .error (.raised (.removedNode key)) m' := by
  obtain ⟨_, _, hremoval, hend⟩ := exists_of_bind_ok h
  cases hend
  obtain ⟨depth, m₁, hremove, hmarked⟩ := removePath_ok hremoval
  -- that the path is marked makes no difference to what is read
  have hread : ∀ steps, m'.read? steps = m₁.read? steps := by
    intro steps
    rw [hmarked]
    rfl
  have hpath := isSome_read?_of_removeNode hremove
  obtain ⟨p, owner, field, i, hp, hplace, hloses, -⟩ := removeNode_leavesWith hremove
  have hsome : (m.read? (item owner field i)).isSome :=
    m.isSome_read?_of_prefix hpath (hplace ▸ p.tree.leavesWith_prefix [] _)
  refine ⟨owner, field, i, hsome, ?_, ?_, ?_, ?_, fun node key => read?_eq_none_iff m' node key⟩
  · rcases eq_or_children_of_leavesWith hp hpath hplace with
      hitem | ⟨last, t, c, hitem, ht, hchildren, htype⟩
    · exact .inl hitem
    · refine .inr ⟨last, t, c, (List.append_assoc owner [_] [last]).symm.trans hitem, ht,
        hchildren, ?_⟩
      rwa [goesWithContent, Bool.or_eq_true, beq_iff_eq, beq_iff_eq] at htype
  · intro node hnode
    obtain ⟨t, ht⟩ := Option.isSome_iff_exists.mp
      (m.isSome_read?_of_prefix hsome (hnode.trans (List.prefix_append owner _)))
    refine ⟨t, _, ht, ?_, rfl, t.type_eraseAt _ field i⟩
    rw [hread, hloses.read?_eq, if_pos hnode, ht]
    rfl
  · intro node hnode hbeside
    rw [hread, hloses.read?_eq, if_neg hnode, Step.pathPast_of_beside hbeside]
  · intro j rest hj
    rw [hread, hloses.read?_eq, if_neg, Step.pathPast_append, Step.past_of_le hj]
    intro hstart
    have hlength := hstart.length_le
    rw [List.length_append, List.length_cons] at hlength
    omega

/-- A machine with a program and a path to one of its nodes. -/
def Machine.visiting (p : Program) (steps : List Step) (type : NodeType) : Machine :=
  { budget := {}, target := some p, paths := #[{ steps, type }] }

/-- The steps to a statement of a program. -/
def statement (i : Nat) : List Step := [⟨"body", some i⟩]

/-- The machine after an operation that ended well and without a value. -/
def endOf? : EStateM.Result Failure Machine Value → Option Machine
  | .ok .undefined m => some m
  | _ => none

/-- A run with an end ended well. -/
theorem eq_of_endOf? {result : EStateM.Result Failure Machine Value} {m : Machine}
    (h : endOf? result = some m) : result = .ok .undefined m := by
  unfold endOf? at h
  split at h
  · cases h
    rfl
  · cases h

/-- The first of two statements can be removed: its place is then that of the other one. -/
theorem exists_removal_of_first :
    ∃ p m', Program.parse "a;b;" = .ok p ∧
      callPathMethod .remove ⟨0⟩ #[] (.visiting p (statement 0) .expressionStatement) =
        .ok .undefined m' ∧
      ((Machine.visiting p (statement 0) .expressionStatement).read? (statement 0)).map (·.span) =
        some ⟨0, 2⟩ ∧
      ((Machine.visiting p (statement 0) .expressionStatement).read? (statement 1)).map (·.span) =
        some ⟨2, 4⟩ ∧
      (m'.target.map fun p => p.tree.preorder.map (·.span)) =
        some [⟨0, 4⟩, ⟨2, 4⟩, ⟨2, 3⟩] ∧
      (m'.read? (statement 0)).map (·.span) = some ⟨2, 4⟩ ∧
      (m'.read? (statement 1)).map (·.span) = none := by
  have h : ((Program.parse "a;b;").toOption.any fun p =>
      let m := Machine.visiting p (statement 0) .expressionStatement
      (endOf? (callPathMethod .remove ⟨0⟩ #[] m)).any fun m' =>
        (m.read? (statement 0)).map (·.span) = some ⟨0, 2⟩ ∧
          (m.read? (statement 1)).map (·.span) = some ⟨2, 4⟩ ∧
          (m'.target.map fun p => p.tree.preorder.map (·.span)) =
            some [⟨0, 4⟩, ⟨2, 4⟩, ⟨2, 3⟩] ∧
          (m'.read? (statement 0)).map (·.span) = some ⟨2, 4⟩ ∧
          (m'.read? (statement 1)).map (·.span) = none) = true := by decide +kernel
  obtain ⟨p, hparse, hm⟩ := exists_ok_of_toOption_any h
  obtain ⟨m', hend, hm'⟩ := (Option.any_eq_true _ _).mp hm
  exact ⟨p, m', hparse, eq_of_endOf? hend, of_decide_eq_true hm'⟩

/-- With the first of two statements gone its place reads what the place of the other one did. -/
theorem reads_after_remove_of_first :
    ∃ p m', callPathMethod .remove ⟨0⟩ #[]
        (.visiting p (statement 0) .expressionStatement) = .ok .undefined m' ∧
      m'.read? (statement 0) =
        (Machine.visiting p (statement 0) .expressionStatement).read? (statement 1) := by
  obtain ⟨p, m', -, hremove, -⟩ := exists_removal_of_first
  obtain ⟨owner, field, i, -, hplace, -, -, hbehind, -⟩ := reads_after_remove hremove
  refine ⟨p, m', hremove, ?_⟩
  change owner ++ [_] = statement 0 ∨ (∃ last t c, owner ++ [_, last] = statement 0 ∧ _) at hplace
  rcases hplace with hitem | ⟨last, t, c, hitem, -⟩
  · obtain ⟨rfl, hstep⟩ := List.append_inj' (show owner ++ _ = [] ++ statement 0 from hitem) rfl
    cases hstep
    exact hbehind 0 [] (Nat.le_refl 0)
  · have hlength := congrArg List.length hitem
    rw [List.length_append] at hlength
    cases hlength

/-- The first of two statements can be removed, and its node is not read as a removed node; the node
of the other one is, although that statement is still in the program. -/
theorem nodes_change_after_remove :
    ∃ p m' p', Program.parse "a;b;" = .ok p ∧ m'.target = some p' ∧
      let m := Machine.visiting p (statement 0) .expressionStatement
      callPathMethod .remove ⟨0⟩ #[] m = .ok .undefined m' ∧
      (∃ t, m.read? (statement 0) = some t ∧ (∀ u ∈ p'.tree.preorder, u.span ≠ t.span) ∧
        nodeProperty (statement 0) "start" m' ≠ .error (.raised (.removedNode "start")) m') ∧
      (∃ t, m.read? (statement 1) = some t ∧ (∃ u ∈ p'.tree.preorder, u.span = t.span) ∧
        nodeProperty (statement 1) "start" m' = .error (.raised (.removedNode "start")) m') := by
  obtain ⟨p, m', hparse, hremove, hfirst, hsecond, htarget, hplace, hgone⟩ :=
    exists_removal_of_first
  -- the first place shows the second statement from now on, the second place shows nothing
  obtain ⟨t, ht, hspan⟩ := Option.map_eq_some_iff.mp hfirst
  obtain ⟨u, hu, huspan⟩ := Option.map_eq_some_iff.mp hsecond
  obtain ⟨p', hp', hspans⟩ := Option.map_eq_some_iff.mp htarget
  refine ⟨p, m', p', hparse, hp', hremove, ⟨t, ht, ?_, ?_⟩, ⟨u, hu, ?_, ?_⟩⟩
  · intro k hk hkspan
    have hmem : t.span ∈ p'.tree.preorder.map (·.span) := hkspan ▸ List.mem_map_of_mem hk
    rw [hspans, hspan] at hmem
    revert hmem
    decide
  · rw [Ne, ← read?_eq_none_iff]
    intro hnone
    rw [hnone] at hplace
    cases hplace
  · have hmem : u.span ∈ p'.tree.preorder.map (·.span) := by
      rw [hspans, huspan]
      decide
    exact List.mem_map.mp hmem
  · rw [← read?_eq_none_iff]
    exact Option.map_eq_none_iff.mp hgone

end Script

end Espalier
