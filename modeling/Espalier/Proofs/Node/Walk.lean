import Espalier.Proofs.Node.Departure
import Espalier.Proofs.Node.Nesting
import Mathlib.Algebra.BigOperators.Group.List.Basic

/-!
# Walks over a tree that loses nodes

The nodes of a tree stand at its places, which `Tree.places` lists in the order of a walk: each
before the places below it. A walk enters the nodes one after the other, and a node that is entered
may leave the tree, alone or with the statement or the declaration of which it was the only content
(`Tree.leavesWith`). `Tree.Walks` says which visits a walk then consists of: exactly the nodes that
are still there when their turn comes.
-/

namespace Espalier

open Step

namespace Tree

/-! ### Places -/

mutual

/-- The places of a node and of all that is below it, in the order of a walk. -/
def placesFrom (above : List Step) : Tree → List (List Step)
  | ⟨_, _, fields⟩ => above :: fieldPlaces above fields

/-- The places in some fields of a node. -/
def fieldPlaces (above : List Step) : List TreeField → List (List Step)
  | [] => []
  | .child name t :: fs => placesFrom (above ++ [⟨name, none⟩]) t ++ fieldPlaces above fs
  | .list name ts :: fs => itemPlaces above name 0 ts ++ fieldPlaces above fs
  | .value _ _ :: fs => fieldPlaces above fs
  | .absent _ :: fs => fieldPlaces above fs

/-- The places in a list of a node from an item on. -/
def itemPlaces (above : List Step) (name : String) (i : Nat) : List Tree → List (List Step)
  | [] => []
  | t :: ts => placesFrom (item above name i) t ++ itemPlaces above name (i + 1) ts

end

/-- The places of a tree. -/
def places (t : Tree) : List (List Step) := t.placesFrom []

variable {above place : List Step} {name : String} {i : Nat}

/-- A node comes first, then the places in its fields. -/
theorem placesFrom_eq (above : List Step) (t : Tree) :
    t.placesFrom above = above :: fieldPlaces above t.fields := by
  obtain ⟨type, span, fields⟩ := t
  rfl

mutual

/-- All places from a node on lie at it or below. -/
theorem prefix_of_mem_placesFrom :
    ∀ {above} (t : Tree), place ∈ t.placesFrom above → above <+: place
  | above, ⟨_, _, fields⟩, h => by
    rcases List.mem_cons.mp h with rfl | h
    · exact List.prefix_rfl
    · obtain ⟨f, _, index, hway⟩ := exists_of_mem_fieldPlaces fields h
      exact (List.prefix_append _ _).trans hway

/-- A place below the fields starts in one of them. -/
theorem exists_of_mem_fieldPlaces :
    ∀ {above} (fs : List TreeField), place ∈ fieldPlaces above fs →
      ∃ f ∈ fs, ∃ index, above ++ [⟨f.name, index⟩] <+: place
  | above, .child name t :: fs, h => by
    rcases List.mem_append.mp h with h | h
    · exact ⟨_, List.mem_cons_self, none, prefix_of_mem_placesFrom t h⟩
    · obtain ⟨f, hf, index, hway⟩ := exists_of_mem_fieldPlaces fs h
      exact ⟨f, List.mem_cons_of_mem _ hf, index, hway⟩
  | above, .list name ts :: fs, h => by
    rcases List.mem_append.mp h with h | h
    · obtain ⟨j, _, hway⟩ := exists_of_mem_itemPlaces ts h
      exact ⟨_, List.mem_cons_self, some j, hway⟩
    · obtain ⟨f, hf, index, hway⟩ := exists_of_mem_fieldPlaces fs h
      exact ⟨f, List.mem_cons_of_mem _ hf, index, hway⟩
  | above, .value _ _ :: fs, h => by
    obtain ⟨f, hf, index, hway⟩ := exists_of_mem_fieldPlaces fs h
    exact ⟨f, List.mem_cons_of_mem _ hf, index, hway⟩
  | above, .absent _ :: fs, h => by
    obtain ⟨f, hf, index, hway⟩ := exists_of_mem_fieldPlaces fs h
    exact ⟨f, List.mem_cons_of_mem _ hf, index, hway⟩

/-- Each place in a list lies at one of the items or below. -/
theorem exists_of_mem_itemPlaces :
    ∀ {above name i} (ts : List Tree), place ∈ itemPlaces above name i ts →
      ∃ j, i ≤ j ∧ item above name j <+: place
  | above, name, i, t :: ts, h => by
    rcases List.mem_append.mp h with h | h
    · exact ⟨i, Nat.le_refl i, prefix_of_mem_placesFrom t h⟩
    · obtain ⟨j, hij, hway⟩ := exists_of_mem_itemPlaces ts h
      exact ⟨j, Nat.le_of_succ_le hij, hway⟩

end

theorem prefix_of_mem_fieldPlaces {fs : List TreeField} (h : place ∈ fieldPlaces above fs) :
    above <+: place := by
  obtain ⟨f, -, index, hway⟩ := exists_of_mem_fieldPlaces fs h
  exact (List.prefix_append _ _).trans hway

/-- The places in the fields are not the node itself. -/
theorem ne_of_mem_fieldPlaces {fs : List TreeField} (h : place ∈ fieldPlaces above fs) :
    place ≠ above := by
  rintro rfl
  obtain ⟨f, -, index, hway⟩ := exists_of_mem_fieldPlaces fs h
  have hlength := hway.length_le
  rw [List.length_append, List.length_singleton] at hlength
  omega

theorem prefix_of_mem_itemPlaces {ts : List Tree} (h : place ∈ itemPlaces above name i ts) :
    above <+: place := by
  obtain ⟨j, -, hway⟩ := exists_of_mem_itemPlaces ts h
  exact (List.prefix_append _ _).trans hway

/-- Steps that lead on in different ways lead to nothing in common. -/
theorem not_prefix_of_ne {x y : List Step} {s t : Step} (hne : s ≠ t) (hx : above ++ [s] <+: x)
    (hy : above ++ [t] <+: y) : ¬ x <+: y := by
  intro hway
  have hsame :=
    (List.prefix_of_prefix_length_le (hx.trans hway) hy (by simp)).eq_of_length (by simp)
  exact hne (List.append_singleton_inj.mp hsame).2

/-- What is in a field is apart from what is in fields of other names. -/
theorem not_prefix_of_mem_fieldPlaces {fs : List TreeField} {index : Option Nat} {x y : List Step}
    (hname : name ∉ fs.map TreeField.name) (hx : above ++ [⟨name, index⟩] <+: x)
    (hy : y ∈ fieldPlaces above fs) : ¬ x <+: y := by
  obtain ⟨f, hf, index', hway⟩ := exists_of_mem_fieldPlaces fs hy
  refine not_prefix_of_ne (fun heq => hname ?_) hx hway
  rw [(Step.mk.inj heq).1]
  exact List.mem_map_of_mem hf

/-- What is in an item of a list is apart from what is in the items behind it. -/
theorem not_prefix_of_mem_itemPlaces {ts : List Tree} {x y : List Step}
    (hx : item above name i <+: x) (hy : y ∈ itemPlaces above name (i + 1) ts) : ¬ x <+: y := by
  obtain ⟨j, hij, hway⟩ := exists_of_mem_itemPlaces ts hy
  refine not_prefix_of_ne (fun heq => ?_) hx hway
  exact Nat.ne_of_lt hij (Option.some.inj (Step.mk.inj heq).2)

/-! ### Each place once -/

/-- A child is found by its step where the names of the fields differ. -/
theorem child?_of_mem_children {t c : Tree} (h : t.HasNames) {step : Step}
    (hc : (step, c) ∈ t.children) : t.child? step = some c :=
  (child?_eq_some_iff (h [] t rfl) step c).mpr hc

/-- What holds of the names of a tree holds of those of its children. -/
theorem HasNames.child {t c : Tree} (h : t.HasNames) {step : Step} (hc : (step, c) ∈ t.children) :
    c.HasNames := by
  intro path d hd
  refine h (step :: path) d ?_
  have hsplit := t.descend?_append [step] path
  rw [List.singleton_append] at hsplit
  have hstep : t.descend? [step] = some c := by
    rw [← List.nil_append [step], descend?_append_singleton]
    exact child?_of_mem_children h hc
  rw [hsplit, hstep]
  exact hd

mutual

/-- No place comes twice: fields differ by name, items by index. -/
theorem nodup_placesFrom : ∀ {above} (t : Tree), t.HasNames → (t.placesFrom above).Nodup
  | above, ⟨type, span, fields⟩, h => by
    exact List.nodup_cons.mpr ⟨fun hself => ne_of_mem_fieldPlaces hself rfl,
      nodup_fieldPlaces fields (h [] _ rfl) fun step c hc => h.child hc⟩

/-- No place is listed twice if the names of the fields differ. -/
theorem nodup_fieldPlaces :
    ∀ {above} (fs : List TreeField), (fs.map TreeField.name).Nodup →
      (∀ step c, (step, c) ∈ fs.flatMap TreeField.children → c.HasNames) →
      (fieldPlaces above fs).Nodup
  | above, [], _, _ => List.nodup_nil
  | above, f :: fs, hnames, h => by
    obtain ⟨hf, hfs⟩ := List.nodup_cons.mp hnames
    have hrest : (fieldPlaces above fs).Nodup := nodup_fieldPlaces fs hfs fun step c hc =>
      h step c (List.mem_append_right _ hc)
    -- what is in one field is in none of the others
    have hapart {x : List Step} {index : Option Nat} (hx : above ++ [⟨f.name, index⟩] <+: x) :
        x ∉ fieldPlaces above fs :=
      fun hmem => not_prefix_of_mem_fieldPlaces hf hx hmem List.prefix_rfl
    cases f with
    | value | absent => exact hrest
    | child name t =>
      have ht : t.HasNames := h _ t (List.mem_append_left _ List.mem_cons_self)
      exact List.nodup_append'.mpr ⟨nodup_placesFrom t ht, hrest,
        fun x hx => hapart (prefix_of_mem_placesFrom t hx)⟩
    | list name ts =>
      have hts : ∀ t ∈ ts, t.HasNames := by
        intro t ht
        obtain ⟨j, hj⟩ := List.mem_iff_getElem?.mp ht
        refine h ⟨name, some j⟩ t (List.mem_append_left _ ?_)
        exact (TreeField.mem_children_iff _ _ _).mpr ⟨rfl, hj⟩
      refine List.nodup_append'.mpr ⟨nodup_itemPlaces ts hts, hrest, fun x hx => ?_⟩
      obtain ⟨j, -, hway⟩ := exists_of_mem_itemPlaces ts hx
      exact hapart hway

theorem nodup_itemPlaces :
    ∀ {above name i} (ts : List Tree), (∀ t ∈ ts, t.HasNames) →
      (itemPlaces above name i ts).Nodup
  | above, name, i, [], _ => List.nodup_nil
  | above, name, i, t :: ts, h => by
    refine List.nodup_append'.mpr ⟨nodup_placesFrom t (h t List.mem_cons_self),
      nodup_itemPlaces ts fun u hu => h u (List.mem_cons_of_mem _ hu), fun x hx hmem => ?_⟩
    exact not_prefix_of_mem_itemPlaces (prefix_of_mem_placesFrom t hx) hmem List.prefix_rfl

end

/-- A tree has every place once. -/
theorem nodup_places {t : Tree} (h : t.HasNames) : t.places.Nodup := nodup_placesFrom t h

/-! ### The nodes of the places -/

/-- A path goes on to the children of the node that it leads to. -/
theorem descend?_child {t c d : Tree} (hc : t.descend? above = some c) (h : c.HasNames)
    {step : Step} (hd : (step, d) ∈ c.children) : t.descend? (above ++ [step]) = some d := by
  rw [descend?_append_singleton, hc]
  exact child?_of_mem_children h hd

section

variable {t : Tree}

mutual

/-- The nodes at the places, one after the other, are the nodes in preorder. -/
theorem map_placesFrom :
    ∀ {above} (c : Tree), c.HasNames → t.descend? above = some c →
      (c.placesFrom above).map t.descend? = c.preorder.map some
  | above, ⟨type, span, fields⟩, h, hc => by
    have hfields : (fieldPlaces above fields).map t.descend? = (preorderFields fields).map some :=
      map_fieldPlaces fields fun step d hd => ⟨h.child hd, descend?_child hc h hd⟩
    rw [placesFrom, preorder, List.map_cons, List.map_cons, hc, hfields]

/-- At the listed places stand the nodes of the pre-order. -/
theorem map_fieldPlaces :
    ∀ {above} (fs : List TreeField),
      (∀ step d, (step, d) ∈ fs.flatMap TreeField.children →
        d.HasNames ∧ t.descend? (above ++ [step]) = some d) →
      (fieldPlaces above fs).map t.descend? = (preorderFields fs).map some
  | above, [], _ => rfl
  | above, f :: fs, h => by
    have hrest : (fieldPlaces above fs).map t.descend? = (preorderFields fs).map some :=
      map_fieldPlaces fs fun step d hd => h step d (List.mem_append_right _ hd)
    cases f with
    | value | absent => exact hrest
    | child name d =>
      obtain ⟨hnames, hd⟩ := h _ d (List.mem_append_left _ List.mem_cons_self)
      rw [fieldPlaces, preorderFields, List.map_append, List.map_append, hrest,
        map_placesFrom d hnames hd]
    | list name ts =>
      have hitems : ∀ j d, ts[j]? = some d →
          d.HasNames ∧ t.descend? (item above name (0 + j)) = some d := by
        intro j d hj
        rw [Nat.zero_add]
        exact h ⟨name, some j⟩ d (List.mem_append_left _
          ((TreeField.mem_children_iff _ _ _).mpr ⟨rfl, hj⟩))
      rw [fieldPlaces, preorderFields, List.map_append, List.map_append, hrest,
        map_itemPlaces ts hitems]

/-- The same of the items of a list, counted from any start. -/
theorem map_itemPlaces :
    ∀ {above name i} (ts : List Tree),
      (∀ j d, ts[j]? = some d → d.HasNames ∧ t.descend? (item above name (i + j)) = some d) →
      (itemPlaces above name i ts).map t.descend? = (preorderList ts).map some
  | above, name, i, [], _ => rfl
  | above, name, i, d :: ts, h => by
    obtain ⟨hnames, hd⟩ : d.HasNames ∧ t.descend? (item above name i) = some d := h 0 d rfl
    have hrest :
        (itemPlaces above name (i + 1) ts).map t.descend? = (preorderList ts).map some := by
      refine map_itemPlaces ts fun j e he => ?_
      rw [Nat.add_assoc, Nat.add_comm 1 j]
      exact h (j + 1) e he
    rw [itemPlaces, preorderList, List.map_append, List.map_append, hrest,
      map_placesFrom d hnames hd]

end

end

/-- The places lead, in their order, to the nodes of the tree, each before what is below it. -/
theorem map_places {t : Tree} (h : t.HasNames) :
    t.places.map t.descend? = t.preorder.map some :=
  map_placesFrom t h rfl

/-! ### Sizes -/

/-- The preorder of a list goes through its items. -/
theorem preorderList_eq (ts : List Tree) : preorderList ts = ts.flatMap preorder := by
  induction ts with
  | nil => rfl
  | cons t ts ih => rw [preorderList, ih, List.flatMap_cons]

/-- The pre-order of fields joins that of their children. -/
theorem preorderFields_eq (fs : List TreeField) :
    preorderFields fs = (fs.flatMap TreeField.children).flatMap (·.2.preorder) := by
  induction fs with
  | nil => rfl
  | cons f fs ih =>
    rw [List.flatMap_cons, List.flatMap_append, ← ih]
    cases f with
    | value | absent => rfl
    | child name t => exact congrArg (· ++ preorderFields fs) (List.append_nil _).symm
    | list name ts =>
      have hitems : ts.flatMap preorder = ts.zipIdx.flatMap (·.1.preorder) := by
        conv_lhs => rw [← List.zipIdx_map_fst 0 ts, List.flatMap_map]
      rw [TreeField.children, List.flatMap_map, ← hitems, ← preorderList_eq]
      rfl

/-- A walk goes to a node and then to what is below it, child by child. -/
theorem preorder_eq (t : Tree) : t.preorder = t :: t.children.flatMap (·.2.preorder) := by
  obtain ⟨type, span, fields⟩ := t
  rw [preorder, preorderFields_eq]
  rfl

/-- A child has fewer nodes below it than its parent. -/
theorem length_preorder_lt {t c : Tree} {step : Step} (h : (step, c) ∈ t.children) :
    c.preorder.length < t.preorder.length := by
  rw [preorder_eq t, List.length_cons, Nat.lt_succ_iff, List.flatMap_def]
  have hmem := List.mem_map_of_mem (f := fun c : Step × Tree => c.2.preorder) h
  exact (List.sublist_flatten_of_mem hmem).length_le

/-- A walk comes to the nodes that are reached through children, and to no other ones. -/
theorem mem_preorder_iff {t u : Tree} : u ∈ t.preorder ↔ t.Reaches u := by
  constructor
  · intro h
    induction hlength : t.preorder.length using Nat.strongRecOn generalizing t with
    | _ n ih =>
      rw [preorder_eq] at h
      rcases List.mem_cons.mp h with rfl | h
      · exact .refl
      · obtain ⟨⟨step, c⟩, hc, hu⟩ := List.mem_flatMap.mp h
        exact .head ⟨step, hc⟩ (ih _ (hlength ▸ length_preorder_lt hc) hu rfl)
  · intro h
    induction h using Relation.ReflTransGen.head_induction_on with
    | refl =>
      rw [preorder_eq]
      exact List.mem_cons_self
    | head hparent _ ih =>
      obtain ⟨step, hc⟩ := hparent
      rw [preorder_eq]
      exact List.mem_cons_of_mem _ (List.mem_flatMap.mpr ⟨_, hc, ih⟩)

theorem length_children_lt (t : Tree) : t.children.length < t.preorder.length := by
  rw [preorder_eq, List.length_cons, Nat.lt_succ_iff, List.length_flatMap,
    ← List.length_map fun c : Step × Tree => c.2.preorder.length]
  refine List.length_le_sum_of_one_le _ fun n hn => ?_
  obtain ⟨c, -, rfl⟩ := List.mem_map.mp hn
  rw [preorder_eq]
  exact Nat.succ_pos _

/-- A list has fewer items than its node has nodes. -/
theorem length_list_lt {t : Tree} {name : String} {ts : List Tree} (h : .list name ts ∈ t.fields) :
    ts.length < t.preorder.length := by
  refine Nat.lt_of_le_of_lt ?_ t.length_children_lt
  have hlength : ts.length = (TreeField.list name ts).children.length := by
    rw [TreeField.children, List.length_map, List.length_zipIdx]
  rw [hlength, children, List.flatMap_def]
  exact (List.sublist_flatten_of_mem (List.mem_map_of_mem h)).length_le

/-! ### What leaves with a node -/

/-- Whether a node goes with the child that a step leads to: a statement goes with its expression, a
declaration in a list with the last of its variables that is left. -/
def goesWith (gone : List (List Step)) (above : List Step) (parent : Tree) (last : Step) : Bool :=
  match last.index with
  | none => parent.type == .expressionStatement
  | some _ =>
    parent.type == .variableDeclaration && above.getLast?.any (·.index.isSome) &&
      staying gone above last.field (parent.itemCount last.field) == 1

/-- The place of what leaves a tree with the node of a place, where the places in `gone` have left
already: the node, or the node above that goes with it. -/
def leavesWith (t : Tree) (gone : List (List Step)) (place : List Step) : List Step :=
  match t.descend? place.dropLast, place.getLast? with
  | some parent, some last =>
    if goesWith gone place.dropLast parent last then place.dropLast else place
  | _, _ => place

/-- Whether a node takes its parent along is asked at the parent. -/
theorem leavesWith_append_singleton {t parent : Tree} {gone : List (List Step)} {last : Step}
    (h : t.descend? above = some parent) :
    t.leavesWith gone (above ++ [last]) =
      if goesWith gone above parent last then above else above ++ [last] := by
  unfold leavesWith
  rw [List.dropLast_concat, List.getLast?_concat, h]

/-- What leaves with a node is the node or what is right above it. -/
theorem leavesWith_prefix (t : Tree) (gone : List (List Step)) (place : List Step) :
    t.leavesWith gone place <+: place := by
  unfold leavesWith
  split
  · split
    · exact List.dropLast_prefix place
    · exact List.prefix_rfl
  · exact List.prefix_rfl

/-- Whether a node stands in a list does not depend on what has gone. -/
theorem getLast?_now (gone : List (List Step)) (place : List Step) :
    (now gone place).getLast?.any (·.index.isSome) = place.getLast?.any (·.index.isSome) := by
  rcases List.eq_nil_or_concat' place with rfl | ⟨above, last, rfl⟩
  · rfl
  · rw [now_append_singleton, List.getLast?_concat, List.getLast?_concat, Option.any_some,
      Option.any_some, nowFrom, Option.isSome_map]

/-- What goes with a child can be told from what remains of the node. -/
theorem IsRest.goesWith_now {parent d : Tree} {gone : List (List Step)}
    (h : IsRest gone above parent d) (last : Step) :
    goesWith [] (now gone above) d (nowFrom gone above last) = goesWith gone above parent last := by
  obtain ⟨field, index⟩ := last
  cases index with
  | none =>
    show (d.type == _) = (parent.type == _)
    rw [h.type_eq]
  | some i =>
    show (d.type == _ && _ && staying [] _ field _ == 1) = (parent.type == _ && _ && _)
    rw [h.type_eq, h.itemCount_eq, staying_nil, getLast?_now]
    rfl

/-- What leaves with a node can be told from the tree as it is now. -/
theorem IsWithout.leavesWith_now {t rest c : Tree} {gone : List (List Step)}
    (h : t.IsWithout gone rest) (hc : t.descend? place = some c) (hstays : Stays gone place) :
    rest.leavesWith [] (now gone place) = now gone (t.leavesWith gone place) := by
  rcases List.eq_nil_or_concat' place with rfl | ⟨above, last, rfl⟩
  · rfl
  rw [descend?_append_singleton] at hc
  obtain ⟨parent, hparent, -⟩ := Option.bind_eq_some_iff.mp hc
  obtain ⟨d, hd, hrest⟩ := h above parent hparent (hstays.onWay (List.prefix_append _ _))
  rw [now_append_singleton, leavesWith_append_singleton hd, leavesWith_append_singleton hparent,
    hrest.goesWith_now, apply_ite (now gone), now_append_singleton]

/-! ### Walks -/

/-- The visit of a node: its place, the path that leads there at that time, its type, and the place
of what leaves the tree when it is entered. -/
structure Visit where
  place : List Step
  steps : List Step
  type : NodeType
  left : Option (List Step)

/-- The visits of a walk over some places of a tree, and the places that have left the tree after
it. A place is passed over if its node is there no more, itself or with a node above it. -/
inductive Walks (t : Tree) :
    (gone places : List (List Step)) → (visits : List Visit) → (gone' : List (List Step)) → Prop
  | done (gone : List (List Step)) : Walks t gone [] [] gone
  | pass {gone places gone' : List (List Step)} {visits : List Visit} {place : List Step}
      (hgone : ¬ Stays gone place) (rest : Walks t gone places visits gone') :
      Walks t gone (place :: places) visits gone'
  | enter {gone places gone' : List (List Step)} {visits : List Visit} {v : Visit} {c : Tree}
      (hc : t.descend? v.place = some c) (htype : v.type = c.type)
      (hsteps : v.steps = now gone v.place) (hstays : Stays gone v.place)
      (hleft : ∀ z ∈ v.left, z = t.leavesWith gone v.place)
      (rest : Walks t (v.left.toList ++ gone) places visits gone') :
      Walks t gone (v.place :: places) (v :: visits) gone'

namespace Walks

variable {t : Tree} {gone gone' gone'' places more : List (List Step)} {visits others : List Visit}

/-- Walks over two lists of places, one after the other. -/
theorem append (h : t.Walks gone places visits gone') (h' : t.Walks gone' more others gone'') :
    t.Walks gone (places ++ more) (visits ++ others) gone'' := by
  induction h with
  | done => exact h'
  | pass hgone _ ih => exact .pass hgone (ih h')
  | enter hc htype hsteps hstays hleft _ ih => exact .enter hc htype hsteps hstays hleft (ih h')

/-- Places that are all gone are all passed over. -/
theorem passAll (h : ∀ place ∈ places, ¬ Stays gone place) : t.Walks gone places [] gone := by
  induction places with
  | nil => exact .done gone
  | cons place places ih =>
    obtain ⟨hplace, hplaces⟩ := List.forall_mem_cons.mp h
    exact .pass hplace (ih hplaces)

/-- What has left does not come back. -/
theorem subset (h : t.Walks gone places visits gone') : gone ⊆ gone' := by
  induction h with
  | done => exact fun _ hz => hz
  | pass _ _ ih => exact ih
  | enter _ _ _ _ _ _ ih => exact fun z hz => ih (List.mem_append_right _ hz)

/-- The visits are made in the order of the places. -/
theorem sublist (h : t.Walks gone places visits gone') :
    (visits.map Visit.place).Sublist places := by
  induction h with
  | done => exact List.Sublist.slnil
  | pass _ _ ih => exact ih.cons _
  | enter _ _ _ _ _ _ ih => exact ih.cons_cons _

end Walks

end Tree

end Espalier
