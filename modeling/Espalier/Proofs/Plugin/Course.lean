import Espalier.Proofs.Plugin.Told

/-!
# The course of a traversal that removes nodes

The phases of the visits of a traversal are marked with the nodes that they are about, by the places
of these in the program as it was at first (`IsCourse`). `Goes` says that a part of a traversal has
gone over some places and marked what it did, and `Leads` what may have left the program meanwhile,
by the way in which that part of the traversal ends.
-/

namespace Espalier

/-- The path that a visit leaves behind. -/
def Tree.Visit.path (v : Tree.Visit) : Script.PathData :=
  { steps := v.steps, type := v.type, removedAt := v.left.map List.length }

namespace Plugin

open Script Step Tree

/-! ### Courses -/

/-- A phase of the visit of a node, with the path that was made for it. -/
structure Mark where
  phase : Phase
  id : PathId
  visit : Visit

/-- The marks of nodes that are entered. -/
def entered (marks : List Mark) : List Mark := marks.filter (·.phase == .enter)

/-- What is entered in two courses, one after the other. -/
theorem entered_append (marks others : List Mark) :
    entered (marks ++ others) = entered marks ++ entered others :=
  List.filter_append _ _

theorem entered_enter (id : PathId) (v : Visit) (marks : List Mark) :
    entered (⟨.enter, id, v⟩ :: marks) = ⟨.enter, id, v⟩ :: entered marks :=
  rfl

theorem mem_of_mem_entered {k : Mark} {marks : List Mark} (h : k ∈ entered marks) : k ∈ marks :=
  (List.mem_filter.mp h).1

/-- The marks of a walk over some places of a tree: of the visits that the walk consists of, each
with the next path, and of the ends of those whose nodes are still there. Nothing that is marked
behind the end of a visit is about the node or what is below it. -/
structure IsCourse (t : Tree) (places gone : List (List Step)) (first : Nat) (marks : List Mark)
    (gone' : List (List Step)) : Prop where
  walks : t.Walks gone places ((entered marks).map Mark.visit) gone'
  ids : (entered marks).map Mark.id = (List.range' first (entered marks).length).map PathId.mk
  mem : ∀ k ∈ marks, k.visit.place ∈ places
  exits : ∀ k ∈ entered marks, Stays gone' k.visit.place →
    ∃ before after, marks = before ++ { k with phase := .exit } :: after ∧
      ∀ e ∈ after, ¬ k.visit.place <+: e.visit.place

namespace IsCourse

variable {t : Tree} {places more gone gone' gone'' : List (List Step)} {first : Nat}
  {marks others : List Mark} {v : Visit}

/-- Places that are all gone are all passed over. -/
theorem skip (h : ∀ place ∈ places, ¬ Stays gone place) : IsCourse t places gone first [] gone :=
  ⟨.passAll h, rfl, fun _ hk => absurd hk List.not_mem_nil,
    fun _ hk => absurd hk List.not_mem_nil⟩

/-- A walk over places that are apart from those before. -/
theorem append (h : IsCourse t places gone first marks gone')
    (h' : IsCourse t more gone' (first + (entered marks).length) others gone'')
    (hapart : ∀ x ∈ places, ∀ y ∈ more, ¬ x <+: y) :
    IsCourse t (places ++ more) gone first (marks ++ others) gone'' := by
  refine ⟨?_, ?_, fun k hk => ?_, fun k hk hstays => ?_⟩
  · rw [entered_append, List.map_append]
    exact h.walks.append h'.walks
  · rw [entered_append, List.map_append, h.ids, h'.ids, List.length_append, ← List.map_append,
      List.range'_append_1]
  · rcases List.mem_append.mp hk with hk | hk
    · exact List.mem_append_left _ (h.mem k hk)
    · exact List.mem_append_right _ (h'.mem k hk)
  · -- what the first course entered may have gone during the second one
    rw [entered_append] at hk
    rcases List.mem_append.mp hk with hk | hk
    · have hbefore : Stays gone' k.visit.place := fun z hz => hstays z (h'.walks.subset hz)
      obtain ⟨before, after, hmarks, hafter⟩ := h.exits k hk hbefore
      refine ⟨before, after ++ others, ?_, fun e he => ?_⟩
      · rw [hmarks, List.append_assoc, List.cons_append]
      · rcases List.mem_append.mp he with he | he
        · exact hafter e he
        · exact hapart _ (h.mem k (mem_of_mem_entered hk)) _ (h'.mem e he)
    · obtain ⟨before, after, hothers, hafter⟩ := h'.exits k hk hstays
      refine ⟨marks ++ before, after, ?_, hafter⟩
      rw [hothers, List.append_assoc]

section

variable {c : Tree} (hc : t.descend? v.place = some c) (htype : v.type = c.type)
  (hsteps : v.steps = now gone v.place) (hstays : Stays gone v.place)
  (hleft : ∀ z ∈ v.left, z = t.leavesWith gone v.place)
  (h : IsCourse t places (v.left.toList ++ gone) (first + 1) marks gone')

include hc htype hsteps hstays hleft h

/-- A node that is entered and then leaves, or something above it. -/
theorem enter (hgone : ¬ Stays gone' v.place) :
    IsCourse t (v.place :: places) gone first (⟨.enter, ⟨first⟩, v⟩ :: marks) gone' := by
  refine ⟨.enter hc htype hsteps hstays hleft h.walks, ?_, fun k hk => ?_, fun k hk hk' => ?_⟩
  · rw [entered_enter, List.map_cons, h.ids, List.length_cons, List.range'_succ, List.map_cons]
  · rcases List.mem_cons.mp hk with rfl | hk
    · exact List.mem_cons_self
    · exact List.mem_cons_of_mem _ (h.mem k hk)
  · rw [entered_enter] at hk
    rcases List.mem_cons.mp hk with rfl | hk
    · exact absurd hk' hgone
    · obtain ⟨before, after, hmarks, hafter⟩ := h.exits k hk hk'
      exact ⟨_ :: before, after, by rw [hmarks, List.cons_append], hafter⟩

/-- A node that is entered and is still there after what is below it. -/
theorem enterAndExit (hbelow : ∀ y ∈ places, v.place <+: y ∧ y ≠ v.place) :
    IsCourse t (v.place :: places) gone first
      (⟨.enter, ⟨first⟩, v⟩ :: (marks ++ [⟨.exit, ⟨first⟩, v⟩])) gone' := by
  have hentered : entered (marks ++ [⟨.exit, ⟨first⟩, v⟩]) = entered marks := by
    rw [entered_append]
    exact List.append_nil _
  refine ⟨?_, ?_, fun k hk => ?_, fun k hk hk' => ?_⟩
  · rw [entered_enter, hentered]
    exact .enter hc htype hsteps hstays hleft h.walks
  · rw [entered_enter, hentered, List.map_cons, h.ids, List.length_cons, List.range'_succ,
      List.map_cons]
  · rcases List.mem_cons.mp hk with rfl | hk
    · exact List.mem_cons_self
    · rcases List.mem_append.mp hk with hk | hk
      · exact List.mem_cons_of_mem _ (h.mem k hk)
      · obtain rfl := List.mem_singleton.mp hk
        exact List.mem_cons_self
  · -- the node itself is left last, so nothing at or below it follows
    rw [entered_enter, hentered] at hk
    rcases List.mem_cons.mp hk with rfl | hk
    · exact ⟨_ :: marks, [], rfl, fun _ he => absurd he List.not_mem_nil⟩
    · obtain ⟨before, after, hmarks, hafter⟩ := h.exits k hk hk'
      obtain ⟨hup, hne⟩ := hbelow _ (h.mem k (mem_of_mem_entered hk))
      refine ⟨⟨.enter, ⟨first⟩, v⟩ :: before, after ++ [⟨.exit, ⟨first⟩, v⟩], ?_, fun e he => ?_⟩
      · rw [hmarks, List.append_assoc, List.cons_append, List.cons_append]
      · rcases List.mem_append.mp he with he | he
        · exact hafter e he
        · obtain rfl := List.mem_singleton.mp he
          exact fun hdown => hne (hdown.eq_of_length_le hup.length_le)

end

end IsCourse

/-! ### What a traversal has done -/

/-- The program under work is what the tree is without some items, and the traversal goes on. -/
structure Holds (t : Tree) (gone : List (List Step)) (m : Machine) : Prop where
  target : ∃ p, m.target = some p ∧ t.IsWithout gone p.tree
  isStopped : m.isStopped = false

/-- What is asked of a machine is asked of what it keeps of the tree. -/
theorem Holds.of_agrees {t : Tree} {gone : List (List Step)} {m m' : Machine} (h : Holds t gone m)
    (hagrees : Agrees m m') : Holds t gone m' := by
  obtain ⟨p, hp, hwithout⟩ := h.target
  exact ⟨⟨p, hagrees.target_eq.trans hp, hwithout⟩, hagrees.isStopped_eq.trans h.isStopped⟩

/-- A part of a traversal has gone over some places. -/
structure Goes (t : Tree) (places gone : List (List Step)) (m m' : Machine) (es : List Event)
    (gone' : List (List Step)) : Prop where
  holds : Holds t gone' m'
  course : ∃ marks, IsCourse t places gone m.paths.size marks gone' ∧
    es.filterMap Event.begun? = marks.map (fun k => (k.phase, k.id)) ∧
    m'.paths = m.paths ++ ((entered marks).map (·.visit.path)).toArray

namespace Goes

variable {t : Tree} {places more gone gone' gone'' : List (List Step)} {m m' m'' : Machine}
  {es es' : List Event}

theorem skip (h : Holds t gone m) (hgone : ∀ place ∈ places, ¬ Stays gone place) :
    Goes t places gone m m [] gone :=
  ⟨h, [], .skip hgone, rfl, (Array.append_empty).symm⟩

theorem append (h : Goes t places gone m m' es gone') (h' : Goes t more gone' m' m'' es' gone'')
    (hapart : ∀ x ∈ places, ∀ y ∈ more, ¬ x <+: y) :
    Goes t (places ++ more) gone m m'' (es ++ es') gone'' := by
  obtain ⟨marks, hcourse, hevents, hpaths⟩ := h.course
  obtain ⟨others, hcourse', hevents', hpaths'⟩ := h'.course
  have hsize : m'.paths.size = m.paths.size + (entered marks).length := by
    rw [hpaths, Array.size_append]
    exact congrArg (m.paths.size + ·) (List.length_map _)
  refine ⟨h'.holds, marks ++ others, hcourse.append (hsize ▸ hcourse') hapart, ?_, ?_⟩
  · rw [List.filterMap_append, hevents, hevents', List.map_append]
  · rw [hpaths', hpaths, entered_append, List.map_append, Array.append_assoc]
    exact congrArg (m.paths ++ ·) (List.append_toArray _ _)

/-- The paths of before are as they were. -/
theorem path_eq (h : Goes t places gone m m' es gone') {id : PathId}
    (hid : id.place < m.paths.size) : id.place < m'.paths.size ∧ m'.path id = m.path id := by
  obtain ⟨marks, -, -, hpaths⟩ := h.course
  have hsize : m.paths.size ≤ m'.paths.size := by
    rw [hpaths, Array.size_append]
    exact Nat.le_add_right _ _
  have hid' := Nat.lt_of_lt_of_le hid hsize
  refine ⟨hid', ?_⟩
  rw [path_eq_of_lt hid, path_eq_of_lt hid']
  simp only [hpaths, Array.getElem_append_left hid]

/-- What comes after a part of a visit is passed over, if the node of the visit has left. -/
theorem ended {above : List Step} (h : Goes t places gone m m' es gone')
    (hgone : ¬ Stays gone' above) (hmore : ∀ y ∈ more, above <+: y)
    (hapart : ∀ x ∈ places, ∀ y ∈ more, ¬ x <+: y) :
    Goes t (places ++ more) gone m m' (es ++ []) gone' :=
  h.append (.skip h.holds fun y hy hstays => hgone (hstays.onWay (hmore y hy))) hapart

section

variable {c : Tree} {v : Visit} {m₁ : Machine}
  (hes : es.filterMap Event.begun? = [(.enter, ⟨m.paths.size⟩)])
  (hpaths : m₁.paths = m.paths.push v.path) (hc : t.descend? v.place = some c)
  (htype : v.type = c.type) (hsteps : v.steps = now gone v.place) (hstays : Stays gone v.place)
  (hleft : ∀ z ∈ v.left, z = t.leavesWith gone v.place)
  (h : Goes t places (v.left.toList ++ gone) m₁ m' es' gone')

include hes hpaths hc htype hsteps hstays hleft h

/-- A node has been entered, and then it has left, or something above it. -/
theorem enter (hgone : ¬ Stays gone' v.place) :
    Goes t (v.place :: places) gone m m' (es ++ es') gone' := by
  obtain ⟨marks, hcourse, hevents, hpaths'⟩ := h.course
  rw [hpaths, Array.size_push] at hcourse
  refine ⟨h.holds, _, .enter hc htype hsteps hstays hleft hcourse hgone, ?_, ?_⟩
  · rw [List.filterMap_append, hes, hevents]
    rfl
  · rw [hpaths', hpaths, entered_enter, List.map_cons, Array.push_eq_append,
      Array.append_assoc]
    exact congrArg (m.paths ++ ·) (List.append_toArray [v.path] _)

/-- A node has been entered, then what is below it, and the node is still there. -/
theorem enterAndExit {es'' : List Event}
    (hes'' : es''.filterMap Event.begun? = [(.exit, ⟨m.paths.size⟩)]) (hagrees : Agrees m' m'')
    (hbelow : ∀ y ∈ places, v.place <+: y ∧ y ≠ v.place) :
    Goes t (v.place :: places) gone m m'' (es ++ (es' ++ es'')) gone' := by
  obtain ⟨marks, hcourse, hevents, hpaths'⟩ := h.course
  rw [hpaths, Array.size_push] at hcourse
  refine ⟨h.holds.of_agrees hagrees, _,
    .enterAndExit hc htype hsteps hstays hleft hcourse hbelow, ?_, ?_⟩
  · rw [List.filterMap_append, List.filterMap_append, hes, hevents, hes'', List.map_cons,
      List.map_append]
    rfl
  · rw [hagrees.paths_eq, hpaths', hpaths, entered_enter, entered_append, List.map_cons,
      List.map_append, Array.push_eq_append, Array.append_assoc]
    refine congrArg (m.paths ++ ·) ?_
    rw [List.append_toArray]
    exact congrArg (fun ps => (v.path :: ps).toArray) (List.append_nil _).symm

end

end Goes

/-! ### What goes during a visit -/

/-- A place under a node, reached from it by one of some steps. -/
def Under (above : List Step) (here : Step → Prop) (y : List Step) : Prop :=
  ∃ step, here step ∧ above ++ [step] <+: y

/-- More has gone, but only under a node. -/
structure Grows (above : List Step) (here : Step → Prop) (gone gone' : List (List Step)) :
    Prop where
  subset : gone ⊆ gone'
  under : ∀ y ∈ gone', y ∈ gone ∨ Under above here y

/-- Nothing has gone under a node. -/
def Clear (gone : List (List Step)) (above : List Step) (here : Step → Prop) : Prop :=
  ∀ y ∈ gone, ¬ Under above here y

section

variable {above : List Step} {here here' : Step → Prop} {gone gone' gone'' : List (List Step)}
  {step : Step} {y : List Step}

theorem Under.mono (h : Under above here y) (hmore : ∀ s, here s → here' s) :
    Under above here' y := by
  obtain ⟨s, hs, hway⟩ := h
  exact ⟨s, hmore s hs, hway⟩

/-- What is under a node lies below it. -/
theorem Under.prefix_above (h : Under above here y) : above <+: y := by
  obtain ⟨s, -, hway⟩ := h
  exact (List.prefix_append _ _).trans hway

theorem Under.length_lt (h : Under above here y) : above.length < y.length := by
  obtain ⟨s, -, hway⟩ := h
  have hlength := hway.length_le
  rw [List.length_append, List.length_singleton] at hlength
  omega

theorem under_single (h : above ++ [step] <+: y) : Under above (· = step) y := ⟨step, rfl, h⟩

/-- A place is under a node by one step only. -/
theorem Under.apart (h : Under above here y) (h' : Under above here' y) :
    ∃ s, here s ∧ here' s := by
  obtain ⟨s, hs, hway⟩ := h
  obtain ⟨s', hs', hway'⟩ := h'
  by_cases heq : s = s'
  · exact ⟨s, hs, heq ▸ hs'⟩
  · exact absurd List.prefix_rfl (not_prefix_of_ne heq hway hway')

namespace Grows

theorem refl (gone : List (List Step)) : Grows above here gone gone :=
  ⟨fun _ hy => hy, fun _ hy => .inl hy⟩

/-- What goes during two stretches grows in both. -/
theorem trans (h : Grows above here gone gone') (h' : Grows above here gone' gone'') :
    Grows above here gone gone'' := by
  refine ⟨fun y hy => h'.subset (h.subset hy), fun y hy => ?_⟩
  rcases h'.under y hy with hy' | hy'
  · exact h.under y hy'
  · exact .inr hy'

theorem mono (h : Grows above here gone gone') (hmore : ∀ s, here s → here' s) :
    Grows above here' gone gone' :=
  ⟨h.subset, fun y hy => (h.under y hy).imp_right fun hy' => hy'.mono hmore⟩

/-- A node above stays when only what is under it goes. -/
theorem stays (h : Grows above here gone gone') (habove : Stays gone above) :
    Stays gone' above := by
  intro y hy hway
  rcases h.under y hy with hy' | hy'
  · exact habove y hy' hway
  · exact absurd hway.length_le (Nat.not_le_of_lt hy'.length_lt)

/-- And it is where it was. -/
theorem now_eq (h : Grows above here gone gone') : now gone' above = now gone above := by
  refine now_eq_of_length fun y hy => ⟨fun hmem => ?_, fun hmem => h.subset hmem⟩
  rcases h.under y hmem with hy' | hy'
  · exact hy'
  · exact absurd hy (Nat.not_le_of_lt hy'.length_lt)

/-- Other children are as clear as before. -/
theorem clear (h : Grows above here gone gone') (hclear : Clear gone above here')
    (hapart : ∀ s, here s → ¬ here' s) : Clear gone' above here' := by
  intro y hy hunder
  rcases h.under y hy with hy' | hy'
  · exact hclear y hy' hunder
  · obtain ⟨s, hs, hs'⟩ := hy'.apart hunder
    exact hapart s hs hs'

/-- What goes behind an item does not move it. -/
theorem staying_eq (h : Grows above here gone gone') {name : String} {i : Nat}
    (hapart : ∀ j < i, ¬ here ⟨name, some j⟩) :
    staying gone' above name i = staying gone above name i := by
  refine staying_congr fun j hj => ⟨fun hmem => ?_, fun hmem => h.subset hmem⟩
  rcases h.under _ hmem with hmem' | hmem'
  · exact hmem'
  · obtain ⟨s, hs, rfl⟩ := hmem'.apart (under_single List.prefix_rfl)
    exact absurd hs (hapart j hj)

end Grows

theorem Clear.mono (h : Clear gone above here) (hless : ∀ s, here' s → here s) :
    Clear gone above here' :=
  fun y hy hunder => h y hy (hunder.mono hless)

/-- Where all is clear nothing has gone. -/
theorem Clear.not_mem (h : Clear gone above here) (hstep : here step) : above ++ [step] ∉ gone :=
  fun hmem => h _ hmem ⟨step, hstep, List.prefix_rfl⟩

/-- A child under which nothing has gone is still there, if its node is. -/
theorem Clear.stays (h : Clear gone above here) (hstep : here step) (habove : Stays gone above) :
    Stays gone (above ++ [step]) := by
  intro y hy hway
  rcases List.prefix_concat_iff.mp hway with rfl | hway
  · exact h.not_mem hstep hy
  · exact habove y hy hway

/-! ### How a visit ends -/

/-- Where a part of the visit of the node of a place leads. If the visit goes on, only what is under
the node has gone; if not, something has gone with all that the node is part of. -/
def Leads (above : List Step) (here : Step → Prop) (gone gone' : List (List Step)) : Flow → Prop
  | .onward => Grows above here gone gone'
  | .removed depth =>
    gone ⊆ gone' ∧ ∃ z ∈ gone', z <+: above ∧ z.length = depth ∧
      ∀ y ∈ gone', y ∈ gone ∨ y = z ∨ above <+: y
  | .stop => False

/-- What has gone under the same node before does not matter. -/
theorem Leads.after {flow : Flow} (h : Grows above here gone gone')
    (h' : Leads above here gone' gone'' flow) : Leads above here gone gone'' flow := by
  cases flow with
  | onward => exact h.trans h'
  | removed depth =>
    obtain ⟨hsubset, z, hz, habove, hdepth, hgone⟩ := h'
    refine ⟨fun y hy => hsubset (h.subset hy), z, hz, habove, hdepth, fun y hy => ?_⟩
    rcases hgone y hy with hy' | hy'
    · exact (h.under y hy').imp_right fun hunder => .inr hunder.prefix_above
    · exact .inr hy'
  | stop => exact h'

theorem Leads.mono {flow : Flow} (h : Leads above here gone gone' flow)
    (hmore : ∀ s, here s → here' s) : Leads above here' gone gone' flow := by
  cases flow with
  | onward => exact Grows.mono h hmore
  | removed depth => exact h
  | stop => exact h

/-- If the visit of the node does not go on, the node has left. -/
theorem Leads.ended {depth : Nat} (h : Leads above here gone gone' (.removed depth)) :
    depth ≠ above.length + 1 ∧ ¬ Stays gone' above := by
  obtain ⟨-, z, hz, hway, hdepth, -⟩ := h
  have hlength := hway.length_le
  exact ⟨by omega, fun hstays => hstays z hz hway⟩

/-- After the visit of a child the visit of the node goes on, and only that has gone which is under
the child, or the child itself; or else the visit of the node is over as well. -/
theorem Leads.child (here : Step → Prop) {flow : Flow} (hstep : above ++ [step] ∉ gone)
    (h : Leads (above ++ [step]) (fun _ => True) gone gone' flow) :
    (flow = .onward ∧ above ++ [step] ∉ gone' ∧ Grows above (· = step) gone gone') ∨
      (flow = .removed (above.length + 1) ∧ above ++ [step] ∈ gone' ∧
        Grows above (· = step) gone gone') ∨
      ∃ depth, flow = .removed depth ∧ Leads above here gone gone' (.removed depth) := by
  cases flow with
  | stop => exact h.elim
  | onward =>
    have hgrows : Grows (above ++ [step]) (fun _ => True) gone gone' := h
    refine .inl ⟨rfl, fun hmem => ?_, hgrows.subset, fun y hy => ?_⟩
    · rcases hgrows.under _ hmem with hmem | hmem
      · exact hstep hmem
      · exact absurd hmem.length_lt (Nat.lt_irrefl _)
    · exact (hgrows.under y hy).imp_right fun hunder => under_single hunder.prefix_above
  | removed depth =>
    obtain ⟨hsubset, z, hz, hway, hdepth, hgone⟩ := h
    -- either the child itself went or something above it
    rcases List.prefix_concat_iff.mp hway with rfl | hway
    · rw [List.length_append, List.length_singleton] at hdepth
      refine .inr (.inl ⟨by rw [hdepth], hz, hsubset, fun y hy => ?_⟩)
      rcases hgone y hy with hy' | rfl | hy'
      · exact .inl hy'
      · exact .inr (under_single List.prefix_rfl)
      · exact .inr (under_single hy')
    · refine .inr (.inr ⟨depth, rfl, hsubset, z, hz, hway, hdepth, fun y hy => ?_⟩)
      exact (hgone y hy).imp_right fun hy' =>
        hy'.imp_right fun hdown => (List.prefix_append _ _).trans hdown

end

/-! ### Parts of a visit -/

/-- A part of the visit of the node of the place `above` goes over some places below it, and leads
where its end tells. -/
def GoesOver (t : Tree) (above : List Step) (here : Step → Prop) (places gone : List (List Step))
    (m : Machine) (flow : Flow) (m' : Machine) (es : List Event) : Prop :=
  ∃ gone', Goes t places gone m m' es gone' ∧ Leads above here gone gone' flow

namespace GoesOver

variable {t : Tree} {above : List Step} {here here' : Step → Prop}
  {places more gone gone' : List (List Step)} {m m₁ m' : Machine} {flow : Flow}
  {es es' : List Event}

/-- Going over no places changes nothing. -/
theorem nothing (hm : Holds t gone m) : GoesOver t above here [] gone m .onward m [] :=
  ⟨gone, .skip hm fun _ hy => absurd hy List.not_mem_nil, .refl gone⟩

/-- After a part from which the visit goes on comes another one. -/
theorem after (h : Goes t places gone m m₁ es gone') (hgrows : Grows above here gone gone')
    (hapart : ∀ x ∈ places, ∀ y ∈ more, ¬ x <+: y)
    (h' : GoesOver t above here more gone' m₁ flow m' es') :
    GoesOver t above here (places ++ more) gone m flow m' (es ++ es') := by
  obtain ⟨gone'', hgoes, hleads⟩ := h'
  exact ⟨gone'', h.append hgoes hapart, .after hgrows hleads⟩

/-- After a part with which the node has left the rest is passed over. -/
theorem ended {depth : Nat} (h : Goes t places gone m m' es gone')
    (hleads : Leads above here gone gone' (.removed depth)) (hmore : ∀ y ∈ more, above <+: y)
    (hapart : ∀ x ∈ places, ∀ y ∈ more, ¬ x <+: y) :
    GoesOver t above here (places ++ more) gone m (.removed depth) m' (es ++ []) :=
  ⟨gone', h.ended hleads.ended.2 hmore hapart, hleads⟩

theorem mono (h : GoesOver t above here places gone m flow m' es)
    (hmore : ∀ s, here s → here' s) : GoesOver t above here' places gone m flow m' es := by
  obtain ⟨gone', hgoes, hleads⟩ := h
  exact ⟨gone', hgoes, hleads.mono hmore⟩

end GoesOver

end Plugin

end Espalier
