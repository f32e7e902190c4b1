import Espalier.Proofs.Plugin.Course
import Espalier.Proofs.Script.Target

/-!
# Visits while nodes are removed

If the functions of a visitor do nothing but remove the nodes that they enter, the visit of a node
goes over the node and all that is below it, and passes over no node that is still there. That is
proved for the items of a list (`Told.yields_visitItems`), the fields of a node
(`Told.yields_visitFields`) and the node itself (`Told.yields_visit`), by induction on the fuel, of
which there is always enough. `traverse_visits` says it of whole traversals.
-/

namespace Espalier.Plugin

open Script Step Tree

namespace Told

variable {t c : Tree} {above : List Step} {gone gone' : List (List Step)} {m m' : Machine}
  {name : String} {here : Step → Prop} {step : Step}

/-! ### Reading the tree -/

/-- What a traversal reads of a node that is still there. -/
theorem exists_rest (hm : Holds t gone m) (hc : t.descend? above = some c)
    (habove : Stays gone above) :
    ∃ d, m.read? (now gone above) = some d ∧ IsRest gone above c d := by
  obtain ⟨p, hp, hwithout⟩ := hm.target
  obtain ⟨d, hd, hrest⟩ := hwithout above c hc habove
  exact ⟨d, by rw [Machine.read?_of_target hp, hd], hrest⟩

/-- A list has now as many items as stayed. -/
theorem itemCount_now (hm : Holds t gone m) (hc : t.descend? above = some c)
    (habove : Stays gone above) (name : String) :
    m.itemCount (now gone above) name = staying gone above name (c.itemCount name) := by
  obtain ⟨d, hd, hrest⟩ := exists_rest hm hc habove
  rw [Machine.itemCount_of_read? hd, hrest.itemCount_eq]

/-! ### Children -/

/-- What the visits of nodes with at most so many nodes below them do. -/
def Visits (t : Tree) (fuel : Nat) (visit : List Step → Told Flow) : Prop :=
  ∀ place c gone m, t.descend? place = some c → c.preorder.length ≤ fuel → Holds t gone m →
    Stays gone place → Clear gone place (fun _ => True) →
    Yields Call.OnlyRemoves (visit (now gone place)) m
      (GoesOver t place (fun _ => True) (c.placesFrom place) gone m)

variable {fuel : Nat} {visit : List Step → Told Flow}

/-- The visit of a child that is still there. -/
theorem Visits.child (hvisit : Visits t fuel visit) (hm : Holds t gone m)
    (hc : t.descend? (above ++ [step]) = some c) (hfuel : c.preorder.length ≤ fuel)
    (habove : Stays gone above) (hclear : Clear gone above here) (hstep : here step) :
    Yields Call.OnlyRemoves (visit (now gone above ++ [nowFrom gone above step])) m
      (GoesOver t (above ++ [step]) (fun _ => True) (c.placesFrom (above ++ [step])) gone m) := by
  rw [← now_append_singleton]
  refine hvisit _ c gone m hc hfuel hm (hclear.stays hstep habove) fun y hy hunder => ?_
  exact hclear y hy ⟨step, hstep, hunder.prefix_above⟩

/-- A step to an item of a list, from an item on. -/
def FromItem (name : String) (i : Nat) (s : Step) : Prop := ∃ j, i ≤ j ∧ s = ⟨name, some j⟩

theorem fromItem_self (name : String) (i : Nat) : FromItem name i ⟨name, some i⟩ :=
  ⟨i, Nat.le_refl i, rfl⟩

/-- What lies from the next item on lies from this one on. -/
theorem FromItem.of_succ {i : Nat} {s : Step} (h : FromItem name (i + 1) s) :
    FromItem name i s := by
  obtain ⟨j, hj, rfl⟩ := h
  exact ⟨j, Nat.le_of_succ_le hj, rfl⟩

theorem not_fromItem_succ (name : String) (i : Nat) : ¬ FromItem name (i + 1) ⟨name, some i⟩ := by
  rintro ⟨j, hj, heq⟩
  exact Nat.ne_of_lt hj (Option.some.inj (Step.mk.inj heq).2)

/-- What has gone with an item was not in front of it. -/
theorem staying_eq_of_grows {i : Nat} (h : Grows above (· = ⟨name, some i⟩) gone gone') :
    staying gone' above name i = staying gone above name i := by
  refine h.staying_eq fun j hj heq => ?_
  exact Nat.ne_of_lt hj (Option.some.inj (Step.mk.inj heq).2)

/-- The items of a list, from an item on. -/
theorem yields_visitItems (hvisit : Visits t fuel visit) (hc : t.descend? above = some c)
    {us : List Tree} {i room : Nat} (hcount : i + us.length = c.itemCount name)
    (hitems : ∀ j d, us[j]? = some d →
      t.descend? (item above name (i + j)) = some d ∧ d.preorder.length ≤ fuel)
    (hroom : us.length < room) (hm : Holds t gone m) (habove : Stays gone above)
    (hclear : Clear gone above (FromItem name i)) :
    Yields Call.OnlyRemoves
      (visitItems visit (now gone above) name room (staying gone above name i)) m
      (GoesOver t above (·.field = name) (itemPlaces above name i us) gone m) := by
  induction us generalizing i room gone m with
  | nil =>
    cases room with
    | zero => cases hroom
    | succ room =>
      have hend : m.itemCount (now gone above) name ≤ staying gone above name i := by
        rw [itemCount_now hm hc habove, ← hcount]
        exact Nat.le_refl _
      refine .get ?_
      rw [if_pos hend]
      exact .pure (.nothing hm)
  | cons u us ih =>
    cases room with
    | zero => cases hroom
    | succ room =>
      obtain ⟨hu, hfuel⟩ : t.descend? (item above name i) = some u ∧ u.preorder.length ≤ fuel :=
        hitems 0 u rfl
      have hitem : item above name i ∉ gone := hclear.not_mem (fromItem_self name i)
      have hapart : ∀ x ∈ u.placesFrom (item above name i), ∀ y ∈ itemPlaces above name (i + 1) us,
          ¬ x <+: y :=
        fun x hx y hy => not_prefix_of_mem_itemPlaces (prefix_of_mem_placesFrom u hx) hy
      have hgoOn : ¬ m.itemCount (now gone above) name ≤ staying gone above name i := by
        rw [itemCount_now hm hc habove, ← hcount, Nat.not_le]
        exact staying_lt (Nat.lt_add_of_pos_right (Nat.zero_lt_succ _)) hitem
      refine .get ?_
      rw [if_neg hgoOn]
      refine .bind ((hvisit.child hm hu hfuel habove hclear (fromItem_self name i)).mono ?_)
      rintro flow m₁ es ⟨gone₁, hgoes, hleads⟩
      -- the items behind this one, if the visit of the node goes on
      have hnext (hgrows : Grows above (· = ⟨name, some i⟩) gone gone₁) :
          Yields Call.OnlyRemoves
            (visitItems visit (now gone above) name room (staying gone₁ above name (i + 1))) m₁
            fun flow m' es' => GoesOver t above (·.field = name)
              (itemPlaces above name i (u :: us)) gone m flow m' (es ++ es') := by
        have hcount' : i + 1 + us.length = c.itemCount name := by
          rw [← hcount, List.length_cons]
          omega
        have hitems' : ∀ j d, us[j]? = some d →
            t.descend? (item above name (i + 1 + j)) = some d ∧ d.preorder.length ≤ fuel := by
          intro j d hd
          rw [Nat.add_assoc, Nat.add_comm 1 j]
          exact hitems (j + 1) d hd
        have hclear' : Clear gone₁ above (FromItem name (i + 1)) :=
          hgrows.clear (hclear.mono fun _ => FromItem.of_succ) fun s hs =>
            hs ▸ not_fromItem_succ name i
        rw [← hgrows.now_eq]
        refine (ih hcount' hitems' (Nat.lt_of_succ_lt_succ hroom) hgoes.holds (hgrows.stays habove)
          hclear').mono fun flow m' es' hrest => ?_
        exact .after hgoes (hgrows.mono fun s hs => hs ▸ rfl) hapart hrest
      rcases Leads.child (·.field = name) hitem hleads with
        ⟨rfl, hstays, hgrows⟩ | ⟨rfl, hgone, hgrows⟩ | ⟨depth, rfl, hleads'⟩
      · -- the item is still there
        rw [← staying_eq_of_grows hgrows, ← staying_succ hstays]
        exact hnext hgrows
      · -- the item has left, and the next one is in its place
        dsimp only
        rw [length_now, if_pos rfl, ← staying_eq_of_grows hgrows, ← staying_succ_of_mem hgone]
        exact hnext hgrows
      · -- the node itself has left, and the other items with it
        dsimp only
        rw [length_now, if_neg hleads'.ended.1]
        exact .pure (.ended hgoes hleads' (fun _ hy => prefix_of_mem_itemPlaces hy) hapart)

/-! ### Fields -/

/-- The list of a field. -/
theorem yields_visitList (hvisit : Visits t fuel visit) (hc : t.descend? above = some c)
    (hnames : (c.fields.map TreeField.name).Nodup) {ts : List Tree} {room : Nat}
    (hts : .list name ts ∈ c.fields)
    (hbelow : ∀ s d, (s, d) ∈ (TreeField.list name ts).children →
      t.descend? (above ++ [s]) = some d ∧ d.preorder.length ≤ fuel)
    (hroom : ts.length < room) (hm : Holds t gone m) (habove : Stays gone above)
    (hclear : Clear gone above (·.field = name)) :
    Yields Call.OnlyRemoves (visitItems visit (now gone above) name room 0) m
      (GoesOver t above (·.field = name) (itemPlaces above name 0 ts) gone m) := by
  have hcount : 0 + ts.length = c.itemCount name := by
    rw [itemCount_of_mem hnames hts, Nat.zero_add]
  refine yields_visitItems hvisit hc hcount (fun j d hd => ?_) hroom hm habove (hclear.mono ?_)
  · rw [Nat.zero_add]
    exact hbelow _ d ((TreeField.mem_children_iff _ ⟨name, some j⟩ _).mpr ⟨rfl, hd⟩)
  · rintro s ⟨j, -, rfl⟩
    rfl

/-- The children in some fields of a node. -/
theorem yields_visitFields (hvisit : Visits t fuel visit) (hc : t.descend? above = some c)
    (hnames : (c.fields.map TreeField.name).Nodup) {fs : List TreeField} {room : Nat}
    (hfs : fs <:+ c.fields)
    (hbelow : ∀ s d, (s, d) ∈ fs.flatMap TreeField.children →
      t.descend? (above ++ [s]) = some d ∧ d.preorder.length ≤ fuel)
    (hroom : ∀ name ts, .list name ts ∈ fs → ts.length < room) (hm : Holds t gone m)
    (habove : Stays gone above) (hclear : Clear gone above (·.field ∈ fs.map TreeField.name)) :
    Yields Call.OnlyRemoves
      (visitFields visit room (now gone above) (fs.filterMap TreeField.entry?)) m
      (GoesOver t above (·.field ∈ fs.map TreeField.name) (fieldPlaces above fs) gone m) := by
  induction fs generalizing gone m with
  | nil => exact .pure (.nothing hm)
  | cons f fs ih =>
    have hname : f.name ∉ fs.map TreeField.name :=
      (List.nodup_cons.mp (hnames.sublist (hfs.sublist.map TreeField.name))).1
    have hfirst : ∀ s : Step, s.field = f.name → s.field ∈ (f :: fs).map TreeField.name :=
      fun s hs => hs ▸ List.mem_cons_self
    -- what is in this field is apart from what is in the others
    have hapart {places : List (List Step)}
        (hplaces : ∀ x ∈ places, ∃ index, above ++ [⟨f.name, index⟩] <+: x) :
        ∀ x ∈ places, ∀ y ∈ fieldPlaces above fs, ¬ x <+: y := by
      intro x hx y hy
      obtain ⟨index, hway⟩ := hplaces x hx
      exact not_prefix_of_mem_fieldPlaces hname hway hy
    -- the other fields, if the visit of the node goes on
    have hnext {places : List (List Step)} {m₁ : Machine} {es : List Event}
        {gone₁ : List (List Step)} (hgoes : Goes t places gone m m₁ es gone₁)
        (hplaces : ∀ x ∈ places, ∃ index, above ++ [⟨f.name, index⟩] <+: x)
        (hgrows : Grows above (·.field = f.name) gone gone₁) :
        Yields Call.OnlyRemoves
          (visitFields visit room (now gone above) (fs.filterMap TreeField.entry?)) m₁
          fun flow m' es' => GoesOver t above (·.field ∈ (f :: fs).map TreeField.name)
            (places ++ fieldPlaces above fs) gone m flow m' (es ++ es') := by
      have hclear' : Clear gone₁ above (·.field ∈ fs.map TreeField.name) :=
        hgrows.clear (hclear.mono fun s hs => List.mem_cons_of_mem _ hs) fun s hs hmem =>
          hname (hs ▸ hmem)
      rw [← hgrows.now_eq]
      refine (ih ((List.suffix_cons f fs).trans hfs)
        (fun s d hd => hbelow s d (List.mem_append_right _ hd))
        (fun name ts hts => hroom name ts (List.mem_cons_of_mem _ hts)) hgoes.holds
        (hgrows.stays habove) hclear').mono fun flow m' es' hrest => ?_
      exact .after hgoes (hgrows.mono hfirst) (hapart hplaces)
        (hrest.mono fun s hs => List.mem_cons_of_mem _ hs)
    cases f with
    | value | absent =>
      exact hnext (.skip hm fun _ hy => absurd hy List.not_mem_nil)
        (fun _ hx => absurd hx List.not_mem_nil) (.refl gone)
    | child name d =>
      obtain ⟨hd, hfuel⟩ := hbelow ⟨name, none⟩ d (List.mem_append_left _ List.mem_cons_self)
      have hstep : name ∈ (TreeField.child name d :: fs).map TreeField.name := List.mem_cons_self
      have hplaces : ∀ x ∈ d.placesFrom (above ++ [⟨name, none⟩]), ∃ index,
          above ++ [⟨name, index⟩] <+: x :=
        fun x hx => ⟨none, prefix_of_mem_placesFrom d hx⟩
      refine .bind ((hvisit.child hm hd hfuel habove hclear hstep).mono ?_)
      rintro flow m₁ es ⟨gone₁, hgoes, hleads⟩
      rcases Leads.child (·.field ∈ (TreeField.child name d :: fs).map TreeField.name)
          (hclear.not_mem hstep) hleads with
        ⟨rfl, -, hgrows⟩ | ⟨rfl, -, hgrows⟩ | ⟨depth, rfl, hleads'⟩
      · exact hnext hgoes hplaces (hgrows.mono fun s hs => hs ▸ rfl)
      · dsimp only
        rw [length_now, if_pos rfl]
        exact hnext hgoes hplaces (hgrows.mono fun s hs => hs ▸ rfl)
      · dsimp only
        rw [length_now, if_neg hleads'.ended.1]
        exact .pure (.ended hgoes hleads' (fun _ hy => prefix_of_mem_fieldPlaces hy)
          (hapart hplaces))
    | list name ts =>
      have hplaces : ∀ x ∈ itemPlaces above name 0 ts, ∃ index, above ++ [⟨name, index⟩] <+: x := by
        intro x hx
        obtain ⟨j, -, hway⟩ := exists_of_mem_itemPlaces ts hx
        exact ⟨some j, hway⟩
      refine .bind ((yields_visitList hvisit hc hnames (hfs.subset List.mem_cons_self)
        (fun s d hd => hbelow s d (List.mem_append_left _ hd)) (hroom name ts List.mem_cons_self)
        hm habove (hclear.mono hfirst)).mono ?_)
      rintro flow m₁ es ⟨gone₁, hgoes, hleads⟩
      cases flow with
      | stop => exact hleads.elim
      | onward => exact hnext hgoes hplaces hleads
      | removed depth =>
        dsimp only
        rw [length_now, if_neg hleads.ended.1]
        exact .pure (.ended hgoes hleads (fun _ hy => prefix_of_mem_fieldPlaces hy)
          (hapart hplaces))

/-! ### Paths -/

/-- A path is new, and nothing else differs that a traversal looks at. -/
structure Adds (p : PathData) (m m' : Machine) : Prop where
  target_eq : m'.target = m.target
  paths_eq : m'.paths = m.paths.push p
  isStopped_eq : m'.isStopped = m.isStopped

section

variable {p : PathData} {id : PathId}

theorem Adds.lt_size (h : Adds p m m') : (PathId.mk m.paths.size).place < m'.paths.size := by
  rw [h.paths_eq, Array.size_push]
  exact Nat.lt_succ_self _

/-- The last path is the one just made. -/
theorem path_of_push (h : m'.paths = m.paths.push p) : m'.path ⟨m.paths.size⟩ = p := by
  unfold Machine.path
  rw [h, Array.getD_eq_getD_getElem?, Array.getElem?_push_size, Option.getD_some]

/-- To change the last path is to have made another one. -/
theorem modify_push (p : PathData) (paths : Array PathData) (f : PathData → PathData) :
    (paths.push p).modify paths.size f = paths.push (f p) := by
  refine Array.ext (by rw [Array.size_modify, Array.size_push, Array.size_push]) fun i _ hi => ?_
  rw [Array.getElem_modify]
  split
  · next heq =>
    subst heq
    rw [Array.getElem_push_eq, Array.getElem_push_eq]
  · next hne =>
    rw [Array.size_push] at hi
    rw [Array.getElem_push_lt (by omega), Array.getElem_push_lt (by omega)]

/-- A new path changes nothing in the tree. -/
theorem Adds.holds (h : Adds p m m') (hm : Holds t gone m) : Holds t gone m' := by
  obtain ⟨q, hq, hwithout⟩ := hm.target
  exact ⟨⟨q, h.target_eq.trans hq, hwithout⟩, h.isStopped_eq.trans hm.isStopped⟩

variable {β : Type} {should : Call → Prop} {post : β → Machine → List Event → Prop}

/-- A path is made. -/
theorem Yields.newPath {f : PathId → Told β}
    (h : ∀ m', Adds p m m' → Yields should (f ⟨m.paths.size⟩) m' post) :
    Yields should (Told.silently (Script.newPath p) >>= f) m post := by
  refine .bind (.silently rfl (h _ ?_))
  exact ⟨rfl, rfl, rfl⟩

/-- That a node has been replaced is forgotten. -/
theorem Yields.forgetReplaced {f : Unit → Told β} (hid : id.place < m.paths.size)
    (hreplaced : (m.path id).isReplaced = false)
    (h : ∀ m', Agrees m m' → Yields should (f ()) m' post) :
    Yields should (Told.silently (modifyPath id ({ · with isReplaced := false })) >>= f) m
      post := by
  refine .bind (.silently rfl (h _ ⟨rfl, ?_, rfl⟩))
  rw [path_eq_of_lt hid] at hreplaced
  refine Array.ext (Array.size_modify ..) fun i hi hi' => ?_
  rw [Array.getElem_modify]
  split
  · next heq =>
    subst heq
    generalize m.paths[id.place] = p at hreplaced
    obtain ⟨steps, type, isSkipped, isReplaced, removedAt⟩ := p
    cases hreplaced
    rfl
  · rfl

end

/-! ### Nodes -/

/-- A traversal reads the same fields in both views of a node. -/
theorem childFields_tree {n : Node} (h : n.IsProper) : childFields n = n.tree.childFields := by
  rw [Node.tree_eq n h]
  unfold Plugin.childFields Tree.childFields
  rw [List.filterMap_map]
  refine List.filterMap_congr fun f _ => ?_
  obtain ⟨name, field⟩ := f
  cases field <;> rfl

variable {call : Caller} {handlers : Handlers} {state : Value} {place : List Step}

/-- Where an item is now, an item was at first. -/
theorem exists_item_of_now {z owner : List Step} {field : String} {i : Nat}
    (h : now gone z = item owner field i) :
    ∃ above j, z = item above field j ∧ now gone above = owner ∧
      staying gone above field j = i := by
  rcases List.eq_nil_or_concat' z with rfl | ⟨above, last, rfl⟩
  · exact absurd (congrArg List.length h) (by simp [item, now, nowBelow])
  rw [now_append_singleton] at h
  obtain ⟨howner, hlast⟩ := List.append_singleton_inj.mp h
  obtain ⟨hfield, hindex⟩ := Step.mk.inj hlast
  obtain ⟨j, hj, hcount⟩ := Option.map_eq_some_iff.mp hindex
  obtain ⟨field', index⟩ := last
  cases hfield
  cases hj
  exact ⟨above, j, rfl, howner, hcount⟩

/-- A node has been entered, and its path has been removed. -/
theorem exists_goesOver_of_removes {m₀ m₁ : Machine} {es : List Event}
    (hc : t.descend? place = some c) (hm : Holds t gone m) (hplace : Stays gone place)
    (hadds : Adds { steps := now gone place, type := c.type } m m₀)
    (hes : es.filterMap Event.begun? = [(.enter, ⟨m.paths.size⟩)])
    (hremoves : Removes ⟨m.paths.size⟩ m₀ m₁) :
    ∃ depth, (m₁.path ⟨m.paths.size⟩).removedAt = some depth ∧
      GoesOver t place (fun _ => True) (c.placesFrom place) gone m (.removed depth) m₁
        (es ++ []) := by
  obtain ⟨p, p', owner, field, i, hp, hleaves, hp', htree, hpaths, hstopped⟩ :=
    hremoves.exists_item
  obtain ⟨q, hq, hwithout⟩ := (hadds.holds hm).target
  obtain rfl : q = p := Option.some.inj (hq.symm.trans hp)
  rw [path_of_push hadds.paths_eq, hwithout.leavesWith_now hc hplace] at hleaves
  -- the item that has left, by its place in the tree as it was at first
  obtain ⟨above, j, hz, rfl, rfl⟩ := exists_item_of_now hleaves
  have hway : item above field j <+: place := hz ▸ t.leavesWith_prefix gone place
  have hdepth : (item (now gone above) field (staying gone above field j)).length =
      (item above field j).length := by
    rw [← now_item, length_now]
  obtain ⟨u, hu⟩ : ∃ u, t.descend? (item above field j) = some u := by
    obtain ⟨rest, hrest⟩ := hway
    rw [← hrest, descend?_append] at hc
    obtain ⟨u, hu, -⟩ := Option.bind_eq_some_iff.mp hc
    exact ⟨u, hu⟩
  generalize hitem : item above field j = z at *
  have hm₁ : Holds t (z :: gone) m₁ := by
    refine ⟨⟨p', hp', ?_⟩, hstopped.trans (hadds.isStopped_eq.trans hm.isStopped)⟩
    subst hitem
    rw [htree]
    exact hwithout.eraseAt q.hasNames hu (hplace.onWay hway)
  have hpaths₁ : m₁.paths =
      m.paths.push (Visit.path ⟨place, now gone place, c.type, some z⟩) := by
    rw [hpaths, hadds.paths_eq, modify_push, hdepth]
    rfl
  have hleft : ∀ y ∈ some z, y = t.leavesWith gone place := by
    rintro _ ⟨⟩
    exact hz.symm
  have hbelow : ∀ y ∈ fieldPlaces place c.fields, ¬ Stays (z :: gone) y :=
    fun y hy hstays => hstays z List.mem_cons_self (hway.trans (prefix_of_mem_fieldPlaces hy))
  refine ⟨z.length, ?_, z :: gone, ?_, List.subset_cons_self _ _, z, List.mem_cons_self, hway, rfl,
    fun y hy => ?_⟩
  · rw [path_of_push hpaths₁]
    rfl
  · rw [placesFrom_eq]
    exact Goes.enter hes hpaths₁ hc rfl rfl hplace hleft (.skip hm₁ hbelow)
      fun hstays => hstays z List.mem_cons_self hway
  · rcases List.mem_cons.mp hy with hy | hy
    · exact .inr (.inl hy)
    · exact .inl hy

/-- A node has been entered and is still there: what is below it is visited, and it is left. -/
theorem yields_visitBelow (hvisit : Visits t fuel visit) (hnames : t.HasNames) {room : Nat}
    (hc : t.descend? place = some c) (hfuel : c.preorder.length ≤ fuel + 1)
    (hroom : fuel + 1 ≤ room) {m₁ : Machine} {es : List Event} (hm₁ : Holds t gone m₁)
    (hpaths : m₁.paths = m.paths.push { steps := now gone place, type := c.type })
    (hes : es.filterMap Event.begun? = [(.enter, ⟨m.paths.size⟩)]) (hplace : Stays gone place)
    (hclear : Clear gone place (fun _ => True)) :
    Yields Call.OnlyRemoves
      (visitBelow call handlers state visit room ⟨m.paths.size⟩ (now gone place)) m₁
      fun flow m' es' => GoesOver t place (fun _ => True) (c.placesFrom place) gone m flow m'
        (es ++ es') := by
  have hpath := path_of_push hpaths
  have hid : (PathId.mk m.paths.size).place < m₁.paths.size := by
    rw [hpaths, Array.size_push]
    exact Nat.lt_succ_self _
  refine .get ?_
  rw [hpath, if_neg Bool.false_ne_true]
  refine .forgetReplaced hid (by rw [hpath]) fun m₂ hagrees => .get ?_
  have hm₂ := hm₁.of_agrees hagrees
  have hpaths₂ := hagrees.paths_eq.trans hpaths
  obtain ⟨d, hd, hrest⟩ := exists_rest hm₂ hc hplace
  obtain ⟨n, hn, hproper, rfl⟩ := Machine.read?_eq_some_iff.mp hd
  rw [hn]
  dsimp only
  rw [childFields_tree hproper, hrest.childFields_eq]
  -- every child is smaller, so the fuel left is enough for it
  have hbelow : ∀ s e, (s, e) ∈ c.fields.flatMap TreeField.children →
      t.descend? (place ++ [s]) = some e ∧ e.preorder.length ≤ fuel := by
    intro s e he
    refine ⟨?_, Nat.le_of_lt_succ (Nat.lt_of_lt_of_le (length_preorder_lt he) hfuel)⟩
    rw [descend?_append_singleton, hc]
    exact (child?_eq_some_iff (hnames place c hc) s e).mpr he
  -- and no list is longer than the room for its items
  have hrooms : ∀ name ts, .list name ts ∈ c.fields → ts.length < room := fun name ts hts =>
    Nat.lt_of_lt_of_le (length_list_lt hts) (Nat.le_trans hfuel hroom)
  refine .bind ((yields_visitFields hvisit hc (hnames place c hc) List.suffix_rfl hbelow hrooms hm₂
    hplace (hclear.mono fun _ _ => trivial)).mono ?_)
  rintro flow m₃ es' ⟨gone', hgoes, hleads⟩
  have hleads' : Leads place (fun _ => True) gone gone' flow := hleads.mono fun _ _ => trivial
  let v : Visit := ⟨place, now gone place, c.type, none⟩
  have hleft : ∀ z ∈ v.left, z = t.leavesWith gone v.place := fun _ hz => nomatch hz
  rw [placesFrom_eq]
  cases flow with
  | stop => exact hleads.elim
  | removed depth =>
    refine .pure ⟨gone', ?_, hleads'⟩
    rw [List.append_nil]
    exact hgoes.enter hes hpaths₂ hc rfl rfl hplace hleft hleads.ended.2
  | onward =>
    obtain ⟨hid₃, hpath₃⟩ := hgoes.path_eq (hagrees.paths_eq ▸ hid)
    rw [path_of_push hpaths₂] at hpath₃
    -- on the way out the functions for leaving are called, none of which can remove
    refine .bind ((yields_dispatch hid₃ hgoes.holds.isStopped (by rw [hpath₃])
      (by rw [hpath₃])).mono ?_)
    rintro flow? m₄ es'' ⟨hes'', ⟨rfl, hagrees''⟩ | ⟨hphase, -⟩⟩
    · refine .pure ⟨gone', ?_, hleads'⟩
      rw [List.append_nil]
      exact hgoes.enterAndExit hes hpaths₂ hc rfl rfl hplace hleft hes'' hagrees'' fun y hy =>
        ⟨prefix_of_mem_fieldPlaces hy, ne_of_mem_fieldPlaces hy⟩
    · cases hphase

/-- **The visit of a node**, with fuel for it and for all that is below it. -/
theorem yields_visit (hnames : t.HasNames) {room fuel : Nat} (hroom : fuel ≤ room) :
    Visits t fuel (Told.visit call handlers state room fuel) := by
  induction fuel with
  | zero =>
    intro place c gone m _ hfuel
    rw [preorder_eq] at hfuel
    cases hfuel
  | succ fuel ih =>
    intro place c gone m hc hfuel hm hplace hclear
    obtain ⟨d, hd, hrest⟩ := exists_rest hm hc hplace
    have htype : m.typeAt? (now gone place) = some c.type := by
      rw [Machine.typeAt?_of_read? hd, hrest.type_eq]
    refine .get ?_
    rw [htype]
    refine .newPath fun m₀ hadds => ?_
    have hpath := path_of_push hadds.paths_eq
    have hstopped : m₀.isStopped = false := hadds.isStopped_eq.trans hm.isStopped
    refine .bind ((yields_dispatch hadds.lt_size hstopped (by rw [hpath]) (by rw [hpath])).mono ?_)
    rintro flow? m₁ es ⟨hes, ⟨rfl, hagrees⟩ | ⟨-, hremoves, hflow⟩⟩
    · -- the node stayed, and what is below it is visited
      exact yields_visitBelow (ih (Nat.le_of_succ_le hroom)) hnames hc hfuel hroom
        ((hadds.holds hm).of_agrees hagrees) (hagrees.paths_eq.trans hadds.paths_eq) hes hplace
        hclear
    · -- a function removed the node, and the visit ends with that
      obtain ⟨depth, hdepth, hgoes⟩ := exists_goesOver_of_removes hc hm hplace hadds hes hremoves
      rw [hflow, hdepth]
      exact .pure hgoes

/-! ### Traversals -/

/-- There is always room enough for a traversal of the program. -/
theorem lt_traversalRoom (p : Program) : p.tree.preorder.length < traversalRoom p := by
  unfold traversalRoom
  exact Nat.lt_of_lt_of_le (Nat.lt_succ_self _) (Nat.le_add_right _ _)

/-- A traversal goes over all places, unless a call does more than remove. -/
theorem yields_traverse {p : Program} (hp : m.target = some p) :
    Yields Call.OnlyRemoves (Told.traverse call handlers state) m
      fun _ m' es => ∃ gone, Goes p.tree p.tree.places [] m m' es gone := by
  have hroom : p.tree.preorder.length < m.target.elim 0 traversalRoom := by
    rw [hp, Option.elim_some]
    exact lt_traversalRoom p
  refine .bind (.silently rfl (.get ?_))
  dsimp only
  generalize m.target.elim 0 traversalRoom = room at hroom ⊢
  have hstart : Holds p.tree [] { m with isStopped := false } := ⟨⟨p, hp, isWithout_nil _⟩, rfl⟩
  refine .bind ((yields_visit p.hasNames (Nat.le_refl _) [] p.tree [] _ rfl
    (Nat.le_of_lt hroom) hstart stays_nil
    fun y hy => absurd hy List.not_mem_nil).mono ?_)
  rintro flow m' es ⟨gone, hgoes, -⟩
  refine .pure ⟨gone, ?_⟩
  rw [List.append_nil]
  exact ⟨hgoes.holds, hgoes.course⟩

end Told

variable {call : Caller} {handlers : Handlers} {state : Value} {m : Machine} {p : Program}

/-- **Traversals during which nodes are removed.** If the functions of a visitor do nothing, or
remove the node that is entered by its path, the traversal of a program ends: well, or with the
failure of one of the calls, but never for want of room. If it ends well, the nodes that it enters
are those of the walk over the program as it was at first, without those that had left when their
turn came, themselves or with something above them; no node is entered twice, and a node that is
still there in the end is left after all that is below it. -/
theorem traverse_visits (hp : m.target = some p)
    (hcalls : ∀ c, .calls c ∈ (Told.traverse call handlers state m).2 → c.OnlyRemoves) :
    (Told.traverse call handlers state m).1 = traverse call handlers state m ∧
      p.tree.places.map p.tree.descend? = p.tree.preorder.map some ∧
      ((∃ m' marks gone, traverse call handlers state m = .ok () m' ∧
          (Told.traverse call handlers state m).2.filterMap Event.begun? =
            marks.map (fun k => (k.phase, k.id)) ∧
          IsCourse p.tree p.tree.places [] m.paths.size marks gone ∧
          ((entered marks).map (·.visit.place)).Nodup ∧
          m'.paths = m.paths ++ ((entered marks).map (·.visit.path)).toArray ∧
          Holds p.tree gone m') ∨
        ∃ c e m', .calls c ∈ (Told.traverse call handlers state m).2 ∧
          c.result = .error e m' ∧ traverse call handlers state m = .error e m') := by
  have htold := Told.tells_traverse call handlers state m
  refine ⟨htold, map_places p.hasNames, ?_⟩
  have hyields := Told.yields_traverse hp hcalls
  rw [← htold]
  generalize Told.traverse call handlers state m = told at hyields ⊢
  obtain ⟨result, es⟩ := told
  cases result with
  | error e m' =>
    obtain ⟨c, hc, hresult⟩ := hyields
    exact .inr ⟨c, e, m', hc, hresult, rfl⟩
  | ok _ m' =>
    obtain ⟨gone, hholds, marks, hcourse, hbegun, hpaths⟩ := hyields
    -- a walk enters places of the pre-order, each at most once
    have hnodup : ((entered marks).map (·.visit.place)).Nodup := by
      have hsublist := hcourse.walks.sublist
      rw [List.map_map] at hsublist
      exact (nodup_places p.hasNames).sublist hsublist
    exact .inl ⟨m', marks, gone, rfl, hbegun, hcourse, hnodup, hpaths, hholds⟩

/-! ### Functions that remove what they are called for -/

section

variable {n : Nat} {id : PathId} {m' : Machine}

/-- Where a name stands for a path, `name.remove()` removes its node, if it ends well. -/
theorem removes_of_eval {s s' : Span} {name key : Ident} {env : Env} {v : Value}
    (hkey : key.name = "remove") (hpath : m.lookup? name.name env = some (.path id))
    (h : (Evaluator.ofFuel (n + 3)).eval
      (.call s (.member s' (.ident name) (.ident key) false) [] false) env m = .ok v m') :
    Removes id m m' := by
  obtain ⟨keySpan, _⟩ := key
  subst hkey
  obtain ⟨_, _, hlink, hresult⟩ := exists_of_bind_ok h
  cases hresult
  obtain ⟨_, _, hcallee, hlink⟩ := exists_of_bind_ok hlink
  obtain ⟨_, _, hobject, hcallee⟩ := exists_of_bind_ok hcallee
  obtain ⟨object, _, hobject, hsome⟩ := exists_of_bind_ok hobject
  cases hsome
  obtain ⟨hobject, rfl⟩ := lookup_ok hobject
  rw [hpath] at hobject
  cases hobject
  -- `remove` is read from the path as a new function, and that is called without arguments
  cases hcallee
  obtain ⟨_, _, hargs, hlink⟩ := exists_of_bind_ok hlink
  cases hargs
  obtain ⟨_, _, hcall, hsome⟩ := exists_of_bind_ok hlink
  cases hsome
  obtain ⟨_, _, hcall, hnote⟩ := exists_of_bind_ok hcall
  obtain ⟨_, _, hremove, hreturn⟩ := exists_of_bind_ok hcall
  cases hreturn
  cases hnote
  refine ⟨_, _, ?_, hremove, ⟨rfl, rfl, rfl⟩⟩
  exact ⟨rfl, rfl, rfl⟩

/-- Whether a value is a function that is written like `(path) => path.remove()`. -/
def isRemover : Value → Bool
  | .function ⟨_, _, ⟨[.ident i],
      .expr (.call _ (.member _ (.ident j) (.ident key) false) [] false),
      true, false, false⟩, _⟩ => j.name == i.name && key.name == "remove"
  | _ => false

/-- Such a function removes the node of the path that it is called for, if it ends well. -/
theorem removes_of_isRemover {f this state v : Value} (hf : isRemover f = true)
    (h : (Evaluator.ofFuel (n + 4)).call f this #[.path id, state] m = .ok v m') :
    Removes id m m' := by
  unfold isRemover at hf
  split at hf
  · rw [Bool.and_eq_true, beq_iff_eq, beq_iff_eq] at hf
    obtain ⟨hname, hkey⟩ := hf
    obtain ⟨m₁, hcall, rfl⟩ := callingDeeper_ok h
    obtain ⟨_, _, htick, hcall⟩ := exists_of_bind_ok hcall
    obtain rfl := tick_ok htick
    obtain ⟨_, _, hscope, hcall⟩ := exists_of_bind_ok hcall
    cases hscope
    obtain ⟨_, _, hbind, hcall⟩ := exists_of_bind_ok hcall
    cases hbind
    -- the parameter is now a variable of a scope of its own, and stands for the path
    have hremoves : Removes id _ m₁ :=
      removes_of_eval hkey (by rw [hname]; exact lookup?_of_declared rfl) hcall
    obtain ⟨m₂, m₃, hbefore, hremove, hafter⟩ := hremoves
    exact ⟨m₂, m₃, ⟨hbefore.1, hbefore.2, hbefore.3⟩, hremove, ⟨hafter.1, hafter.2, hafter.3⟩⟩
  · cases hf

/-- If all functions of a visitor are such ones, and called on entering a node, then a traversal
does nothing but remove nodes that it enters. -/
theorem onlyRemoves_of_isRemover
    (h : ∀ k ∈ handlers, k.phase = .enter ∧ isRemover k.function = true) :
    ∀ c, .calls c ∈ (Told.traverse (Evaluator.ofFuel (n + 4)).call handlers state m).2 →
      c.OnlyRemoves := by
  intro c hc v m' hok
  obtain ⟨k, hk, hphase, hresult⟩ := Told.says_traverse m _ hc
  obtain ⟨henter, hremover⟩ := h k hk
  exact .inr ⟨hphase ▸ henter, removes_of_isRemover hremover (hresult ▸ hok)⟩

end

/-- Makes the plugin of a script ready to go over a program: gives the functions of its visitor and
the state that they share. -/
def prepare (self : Evaluator) (script p : Program) (input : String) :
    Script (Handlers × Value) := do
  let handlers ← visitorHandlers (← resolve self (← load self script.body))
  let state ← newState input
  modify ({ · with target := some p })
  return (handlers, state)

/-- What is transformed is the program that the run was prepared for. -/
theorem target_of_prepare {self : Evaluator} {script : Program} {input : String} {m' : Machine}
    (h : prepare self script p input m = .ok (handlers, state) m') : m'.target = some p := by
  obtain ⟨_, _, -, h⟩ := exists_of_bind_ok h
  obtain ⟨_, _, -, h⟩ := exists_of_bind_ok h
  obtain ⟨_, _, -, h⟩ := exists_of_bind_ok h
  obtain ⟨_, _, -, h⟩ := exists_of_bind_ok h
  cases h
  rfl

/-- A plugin that removes numbers and the variables of declarations. -/
def pruning : String :=
  "export default \x7b visitor: \x7b " ++
    "'NumericLiteral|VariableDeclarator': (path) => path.remove() \x7d \x7d;"

/-- Of three statements one leaves with its literal, one loses an argument of its call, and one, a
declaration, leaves with its variable. -/
theorem exists_traverse_visits :
    ∃ script p handlers state m m' marks gone,
      Program.parse pruning = .ok script ∧ Program.parse "1;f(2);let x;" = .ok p ∧
      prepare (.ofFuel 80) script p "1;f(2);let x;" (.start {}) = .ok (handlers, state) m ∧
      traverse (Evaluator.ofFuel 80).call handlers state m = .ok () m' ∧
      IsCourse p.tree p.tree.places [] 0 marks gone ∧
      (entered marks).map (fun k => (k.visit.type, k.visit.left.map List.length)) =
        [(.program, none), (.expressionStatement, none), (.numericLiteral, some 1),
          (.expressionStatement, none), (.callExpression, none), (.identifier, none),
          (.numericLiteral, some 3), (.variableDeclaration, none),
          (.variableDeclarator, some 1)] := by
  have hrun : (match Program.parse pruning, Program.parse "1;f(2);let x;" with
      | .ok script, .ok p =>
        match prepare (.ofFuel 80) script p "1;f(2);let x;" (.start {}) with
        | .ok (handlers, state) m =>
          match traverse (Evaluator.ofFuel 80).call handlers state m with
          | .ok _ m' =>
            decide (∀ k ∈ handlers, k.phase = .enter ∧ isRemover k.function = true) &&
              decide (m.paths.size = 0) &&
              decide (m'.paths.toList.map (fun q => (q.type, q.removedAt)) =
                [(.program, none), (.expressionStatement, none), (.numericLiteral, some 1),
                  (.expressionStatement, none), (.callExpression, none), (.identifier, none),
                  (.numericLiteral, some 3), (.variableDeclaration, none),
                  (.variableDeclarator, some 1)])
          | .error _ _ => false
        | .error _ _ => false
      | _, _ => false) = true := by decide +kernel
  split at hrun
  · next script p hscript hp =>
    split at hrun
    · next handlers state m hprepare =>
      split at hrun
      · next u m' hend =>
        simp only [Bool.and_eq_true, decide_eq_true_eq] at hrun
        obtain ⟨⟨hremovers, hsize⟩, hvisited⟩ := hrun
        obtain ⟨-, -, ⟨m₁, marks, gone, hend₁, -, hcourse, -, hpaths, -⟩ |
            ⟨c, e, m₁, -, -, hend₁⟩⟩ :=
          traverse_visits (target_of_prepare hprepare) (onlyRemoves_of_isRemover hremovers)
        · -- the run ended well, so the theorem gives a course and not a failed call
          obtain rfl : m₁ = m' := (EStateM.Result.ok.inj (hend₁.symm.trans hend)).2
          rw [hsize] at hcourse
          refine ⟨script, p, handlers, state, m, m₁, marks, gone, hscript, hp, hprepare, hend₁,
            hcourse, ?_⟩
          rw [hpaths, Array.size_eq_zero_iff.mp hsize, Array.empty_append] at hvisited
          simpa [Visit.path, Function.comp_def] using hvisited
        · cases hend₁.symm.trans hend
      · cases hrun
    · cases hrun
  · cases hrun

end Espalier.Plugin
