import Espalier.Proofs.Node.Change

/-!
# Trees that lose items

Items leave the lists of a tree one after the other. A node keeps its place, which is the path that
led to it at first; the path that leads to it now counts the items only that stay (`Step.now`).
`Tree.IsWithout` says that one tree is what another one has become in this way, and
`Tree.IsWithout.eraseAt` that it is so again after one more item has left.
-/

namespace Espalier

namespace Step

variable {gone gone' : List (List Step)} {above owner path place : List Step} {field : String}
  {i j n : Nat} {step : Step}

/-! ### Counting the items that stay -/

/-- The place of an item of a list. -/
def item (owner : List Step) (field : String) (i : Nat) : List Step := owner ++ [⟨field, some i⟩]

/-- Two places in lists are the same if the list and the index are. -/
theorem item_inj {other : List Step} {field' : String} :
    item owner field i = item other field' j ↔ owner = other ∧ field = field' ∧ i = j := by
  unfold item
  rw [List.append_singleton_inj, Step.mk.injEq, Option.some.injEq]

/-- How many of the first `n` items of a list have not gone. -/
def staying (gone : List (List Step)) (owner : List Step) (field : String) (n : Nat) : Nat :=
  (List.range n).countP fun j => decide (item owner field j ∉ gone)

/-- An item that has gone is not counted. -/
theorem staying_succ_of_mem (h : item owner field n ∈ gone) :
    staying gone owner field (n + 1) = staying gone owner field n := by
  unfold staying
  rw [List.range_succ, List.countP_append, List.countP_singleton, if_neg]
  · rfl
  · rwa [decide_eq_true_iff, not_not]

theorem staying_succ (h : item owner field n ∉ gone) :
    staying gone owner field (n + 1) = staying gone owner field n + 1 := by
  unfold staying
  rw [List.range_succ, List.countP_append, List.countP_singleton, if_pos]
  rwa [decide_eq_true_iff]

theorem staying_nil (n : Nat) : staying [] owner field n = n := by
  induction n with
  | zero => rfl
  | succ n ih => rw [staying_succ List.not_mem_nil, ih]

theorem staying_le_succ (n : Nat) :
    staying gone owner field n ≤ staying gone owner field (n + 1) := by
  by_cases h : item owner field n ∈ gone
  · exact Nat.le_of_eq (staying_succ_of_mem h).symm
  · rw [staying_succ h]
    exact Nat.le_succ _

/-- The further behind, the more items stay in front. -/
theorem staying_mono (h : i ≤ n) : staying gone owner field i ≤ staying gone owner field n := by
  induction h with
  | refl => exact Nat.le_refl _
  | step _ ih => exact Nat.le_trans ih (staying_le_succ _)

/-- An item that has not gone counts. -/
theorem staying_lt (h : i < n) (hi : item owner field i ∉ gone) :
    staying gone owner field i < staying gone owner field n := by
  have hnext := @staying_mono gone owner field (i + 1) n h
  rwa [staying_succ hi] at hnext

/-- Only what has gone in front of the item matters. -/
theorem staying_congr (h : ∀ j < n, item owner field j ∈ gone ↔ item owner field j ∈ gone') :
    staying gone owner field n = staying gone' owner field n := by
  refine List.countP_congr fun j hj => ?_
  rw [decide_eq_true_iff, decide_eq_true_iff, h j (List.mem_range.mp hj)]

/-- What goes from elsewhere, or from behind, does not count. -/
theorem staying_cons_of_ne {z : List Step} (h : ∀ j < n, item owner field j ≠ z) :
    staying (z :: gone) owner field n = staying gone owner field n := by
  refine staying_congr fun j hj => ?_
  rw [List.mem_cons, or_iff_right (h j hj)]

/-- What goes from a list counts for the items behind it. -/
theorem staying_cons_item (hi : item owner field i ∉ gone) (h : i < n) :
    staying (item owner field i :: gone) owner field n + 1 = staying gone owner field n := by
  induction h with
  | refl =>
    rw [staying_succ hi, staying_succ_of_mem List.mem_cons_self, staying_cons_of_ne]
    intro j hj hji
    exact Nat.ne_of_lt hj (item_inj.mp hji).2.2
  | @step n hin ih =>
    by_cases hn : item owner field n ∈ gone
    · rw [staying_succ_of_mem hn, staying_succ_of_mem (List.mem_cons_of_mem _ hn), ih]
    · have hne : item owner field n ∉ item owner field i :: gone := by
        rw [List.mem_cons, not_or]
        exact ⟨fun h => Nat.ne_of_gt hin (item_inj.mp h).2.2, hn⟩
      rw [staying_succ hn, staying_succ hne, ih]

/-! ### Where nodes are now -/

/-- Nothing on the way to a place has gone. -/
def Stays (gone : List (List Step)) (place : List Step) : Prop := ∀ z ∈ gone, ¬ z <+: place

/-- What stays keeps all above it. -/
theorem Stays.onWay (h : Stays gone place) (hpath : path <+: place) : Stays gone path :=
  fun z hz hway => h z hz (hway.trans hpath)

theorem Stays.not_mem (h : Stays gone place) : place ∉ gone := fun hmem => h _ hmem List.prefix_rfl

theorem stays_cons {z : List Step} : Stays (z :: gone) place ↔ ¬ z <+: place ∧ Stays gone place :=
  List.forall_mem_cons

theorem stays_nil : Stays [] place := fun _ h => nomatch h

/-- A step that leads on from a node of the place `above`, as it is now. -/
def nowFrom (gone : List (List Step)) (above : List Step) (step : Step) : Step :=
  ⟨step.field, step.index.map (staying gone above step.field)⟩

/-- The steps that lead on from a node of the place `above`, as they are now. -/
def nowBelow (gone : List (List Step)) (above : List Step) : List Step → List Step
  | [] => []
  | step :: path => nowFrom gone above step :: nowBelow gone (above ++ [step]) path

/-- The path that now leads to the node of a place. -/
def now (gone : List (List Step)) (place : List Step) : List Step := nowBelow gone [] place

/-- Where a node is now is told step by step. -/
theorem nowBelow_append (gone : List (List Step)) (above path more : List Step) :
    nowBelow gone above (path ++ more) =
      nowBelow gone above path ++ nowBelow gone (above ++ path) more := by
  induction path generalizing above with
  | nil => rw [List.append_nil]; rfl
  | cons step path ih =>
    rw [List.cons_append, nowBelow, nowBelow, ih, List.append_assoc]
    rfl

theorem now_append_singleton (gone : List (List Step)) (place : List Step) (step : Step) :
    now gone (place ++ [step]) = now gone place ++ [nowFrom gone place step] := by
  unfold now
  rw [nowBelow_append]
  rfl

/-- An item is now behind as many items of its list as stayed in front of it. -/
theorem now_item (gone : List (List Step)) (owner : List Step) (field : String) (i : Nat) :
    now gone (item owner field i) =
      item (now gone owner) field (staying gone owner field i) :=
  now_append_singleton gone owner ⟨field, some i⟩

theorem length_nowBelow (gone : List (List Step)) (above path : List Step) :
    (nowBelow gone above path).length = path.length := by
  induction path generalizing above with
  | nil => rfl
  | cons step path ih => rw [nowBelow, List.length_cons, ih, List.length_cons]

/-- A node keeps its height in the tree. -/
theorem length_now (gone : List (List Step)) (place : List Step) :
    (now gone place).length = place.length :=
  length_nowBelow gone [] place

theorem nowFrom_nil (above : List Step) (step : Step) : nowFrom [] above step = step := by
  obtain ⟨field, index⟩ := step
  unfold nowFrom
  rw [show staying [] above field = fun n => n from funext staying_nil, Option.map_id']

/-- As long as nothing has gone, everything is where it was. -/
theorem now_nil (place : List Step) : now [] place = place := by
  suffices h : ∀ above, nowBelow [] above place = place from h []
  induction place with
  | nil => exact fun _ => rfl
  | cons step place ih =>
    intro above
    rw [nowBelow, nowFrom_nil, ih]

/-- Only the lists count that the path leads through. -/
theorem nowBelow_congr
    (h : ∀ before step, before ++ [step] <+: path → ∀ j,
      item (above ++ before) step.field j ∈ gone ↔ item (above ++ before) step.field j ∈ gone') :
    nowBelow gone above path = nowBelow gone' above path := by
  induction path generalizing above with
  | nil => rfl
  | cons step path ih =>
    have hfirst : nowFrom gone above step = nowFrom gone' above step := by
      unfold nowFrom
      congr 1
      refine Option.map_congr fun n _ => staying_congr fun j _ => ?_
      have hstep := h [] step (List.cons_prefix_cons.mpr ⟨rfl, List.nil_prefix⟩) j
      rwa [List.append_nil] at hstep
    rw [nowBelow, nowBelow, hfirst, ih]
    intro before next hbefore j
    have hnext := h (step :: before) next (List.cons_prefix_cons.mpr ⟨rfl, hbefore⟩) j
    rwa [List.append_cons] at hnext

/-- What goes from a list that the path does not lead through does not count. -/
theorem nowBelow_cons_of_beside (h : ¬ above <+: owner) :
    nowBelow (item owner field i :: gone) above path = nowBelow gone above path := by
  refine nowBelow_congr fun before step _ j => ?_
  rw [List.mem_cons, or_iff_right]
  intro heq
  obtain ⟨rfl, -⟩ := item_inj.mp heq
  exact h (List.prefix_append above before)

/-- What goes from further below does not count for a step. -/
theorem nowFrom_cons_of_below {s : Step} :
    nowFrom (item (above ++ s :: owner) field i :: gone) above step = nowFrom gone above step := by
  unfold nowFrom
  congr 1
  refine Option.map_congr fun n _ => staying_cons_of_ne fun j _ h => ?_
  have hlength := congrArg List.length (item_inj.mp h).1
  rw [List.length_append, List.length_cons] at hlength
  omega

/-- What goes from below a place does not count there. -/
theorem now_eq_of_length
    (h : ∀ y, y.length ≤ place.length → (y ∈ gone ↔ y ∈ gone')) :
    now gone place = now gone' place := by
  refine nowBelow_congr fun before step hbefore j => h _ ?_
  have hlength := hbefore.length_le
  unfold item
  rw [List.nil_append]
  rwa [List.length_append, List.length_singleton] at hlength ⊢

/-- Steps to two nodes that stay are different now, if they were at first. -/
theorem nowFrom_inj {s t : Step} (hs : above ++ [s] ∉ gone) (ht : above ++ [t] ∉ gone)
    (h : nowFrom gone above s = nowFrom gone above t) : s = t := by
  obtain ⟨f, k⟩ := s
  obtain ⟨g, l⟩ := t
  obtain ⟨rfl, hindex⟩ := Step.mk.inj h
  cases k with
  | none =>
    cases l with
    | none => rfl
    | some l => cases hindex
  | some k =>
    cases l with
    | none => cases hindex
    | some l =>
      have hcount : staying gone above f k = staying gone above f l := Option.some.inj hindex
      rcases Nat.lt_trichotomy k l with hlt | rfl | hlt
      · exact absurd hcount (Nat.ne_of_lt (staying_lt hlt hs))
      · rfl
      · exact absurd hcount (Nat.ne_of_gt (staying_lt hlt ht))

/-- A step beside an item that goes: past it, the step is what it was before. -/
theorem past_nowFrom (hi : item above field i ∉ gone) (hstep : above ++ [step] ∉ gone)
    (hne : step ≠ ⟨field, some i⟩) :
    (nowFrom (item above field i :: gone) above step).past field (staying gone above field i) =
      nowFrom gone above step := by
  obtain ⟨f, k⟩ := step
  cases k with
  | none => rfl
  | some k =>
    show past field _ ⟨f, some (staying _ above f k)⟩ = ⟨f, some (staying gone above f k)⟩
    by_cases hf : f = field
    · subst hf
      -- an item in front of the one that goes, that one itself, or one behind it
      rcases Nat.lt_trichotomy k i with hlt | rfl | hlt
      · have hsame : staying (item above f i :: gone) above f k = staying gone above f k :=
          staying_cons_of_ne fun j hj h =>
            Nat.ne_of_lt (Nat.lt_trans hj hlt) (item_inj.mp h).2.2
        have hbefore : staying gone above f k < staying gone above f i := staying_lt hlt hstep
        rw [hsame]
        exact if_neg fun h => Nat.not_le_of_lt hbefore h.2
      · exact absurd rfl hne
      · have hcount := staying_cons_item hi hlt
        have hbehind : staying gone above f i < staying gone above f k := staying_lt hlt hi
        rw [past_of_le (by omega), hcount]
    · have hsame : staying (item above field i :: gone) above f k = staying gone above f k :=
        staying_cons_of_ne fun j _ h => hf (item_inj.mp h).2.1
      rw [hsame]
      exact if_neg fun h => hf h.1

/-- The path that leads to a node after an item has gone is, past that item, the path that led to
it before. -/
theorem pathPast_nowBelow (hi : item (above ++ owner) field i ∉ gone)
    (howner : Stays gone (above ++ owner))
    (hpath : Stays (item (above ++ owner) field i :: gone) (above ++ path)) :
    pathPast (nowBelow gone above owner) field (staying gone (above ++ owner) field i)
      (nowBelow (item (above ++ owner) field i :: gone) above path) = nowBelow gone above path := by
  -- along both paths at once, as long as they agree
  induction owner generalizing above path with
  | nil =>
    cases path with
    | nil => rfl
    | cons step path =>
      rw [List.append_nil] at hi hpath ⊢
      obtain ⟨hbeside, hstays⟩ := stays_cons.mp hpath
      have hstep : above ++ [step] ∉ gone :=
        (hstays.onWay (by simp : above ++ [step] <+: above ++ step :: path)).not_mem
      have hne : step ≠ ⟨field, some i⟩ := by
        rintro rfl
        exact hbeside (by simp [item])
      rw [nowBelow, nowBelow, nowBelow, pathPast, past_nowFrom hi hstep hne,
        nowBelow_cons_of_beside]
      intro hway
      have hlength := hway.length_le
      rw [List.length_append, List.length_singleton] at hlength
      omega
  | cons s owner ih =>
    cases path with
    | nil => rfl
    | cons step path =>
      have hstays := (stays_cons.mp hpath).2
      have hstep : above ++ [step] ∉ gone :=
        (hstays.onWay (by simp : above ++ [step] <+: above ++ step :: path)).not_mem
      have hs : above ++ [s] ∉ gone :=
        (howner.onWay (by simp : above ++ [s] <+: above ++ s :: owner)).not_mem
      rw [nowBelow, nowBelow, nowBelow, pathPast, nowFrom_cons_of_below]
      -- where they part, the erased item is beside the path
      by_cases hsame : step = s
      · subst hsame
        rw [List.append_cons above step owner] at hi howner hpath ⊢
        rw [List.append_cons above step path] at hpath
        rw [if_pos rfl, ih hi howner hpath]
      · rw [if_neg fun h => hsame (nowFrom_inj hstep hs h), nowBelow_cons_of_beside]
        intro hway
        rw [List.prefix_append_right_inj] at hway
        exact hsame (List.cons_prefix_cons.mp hway).1

/-- Paths that are on the way to each other now have always been. -/
theorem prefix_of_nowBelow (hpath : Stays gone (above ++ path))
    (howner : Stays gone (above ++ owner))
    (h : nowBelow (item (above ++ owner) field i :: gone) above path <+:
      nowBelow gone above owner) :
    path <+: owner := by
  induction path generalizing above owner with
  | nil => exact List.nil_prefix
  | cons step path ih =>
    cases owner with
    | nil => exact absurd h.length_le (by simp [length_nowBelow, nowBelow])
    | cons s owner =>
      obtain ⟨hfirst, hrest⟩ := List.cons_prefix_cons.mp h
      have hstep : above ++ [step] ∉ gone :=
        (hpath.onWay (by simp : above ++ [step] <+: above ++ step :: path)).not_mem
      have hs : above ++ [s] ∉ gone :=
        (howner.onWay (by simp : above ++ [s] <+: above ++ s :: owner)).not_mem
      rw [nowFrom_cons_of_below] at hfirst
      -- places that are the same now were the same before
      obtain rfl : step = s := nowFrom_inj hstep hs hfirst
      rw [List.append_cons above step owner] at hrest howner
      rw [List.append_cons above step path] at hpath
      exact List.cons_prefix_cons.mpr ⟨rfl, ih hpath howner hrest⟩

/-- Where a node was before an item went, told from where it is after. -/
theorem pathPast_now (hitem : Stays gone (item owner field i))
    (hplace : Stays (item owner field i :: gone) place) :
    pathPast (now gone owner) field (staying gone owner field i)
      (now (item owner field i :: gone) place) = now gone place :=
  @pathPast_nowBelow gone [] owner place field i hitem.not_mem
    (hitem.onWay (List.prefix_append _ _)) hplace

/-- What is above a list now was above it from the start. -/
theorem prefix_of_now (hitem : Stays gone (item owner field i)) (hplace : Stays gone place)
    (h : now (item owner field i :: gone) place <+: now gone owner) : place <+: owner :=
  @prefix_of_nowBelow gone [] owner place field i hplace
    (hitem.onWay (List.prefix_append _ _)) h

end Step

/-- The name of a field that holds nodes; `true` marks a list. -/
def TreeField.entry? : TreeField → Option (String × Bool)
  | child name _ => some (name, false)
  | list name _ => some (name, true)
  | _ => none

namespace Tree

open Step

/-! ### What the visit of a node reads -/

/-- The fields of a node that hold nodes; `true` marks a list. -/
def childFields (t : Tree) : List (String × Bool) := t.fields.filterMap TreeField.entry?

/-- The number of items in a list field; none if there is no such field. -/
def itemCount (t : Tree) (name : String) : Nat :=
  match t.field? name with
  | some (.list _ ts) => ts.length
  | _ => 0

/-- No two fields of a node share a name, wherever in the tree the node is. -/
def HasNames (t : Tree) : Prop :=
  ∀ path c, t.descend? path = some c → (c.fields.map TreeField.name).Nodup

/-- A path is followed in two parts. -/
theorem descend?_append (t : Tree) (path more : List Step) :
    t.descend? (path ++ more) = (t.descend? path).bind (·.descend? more) :=
  List.foldlM_append

theorem descend?_append_singleton (t : Tree) (path : List Step) (step : Step) :
    t.descend? (path ++ [step]) = (t.descend? path).bind (·.child? step) := by
  rw [descend?_append]
  refine Option.bind_congr fun c _ => ?_
  exact bind_pure _

/-- An item is among the first `itemCount`. -/
theorem lt_itemCount {t c : Tree} {name : String} {i : Nat}
    (h : t.child? ⟨name, some i⟩ = some c) : i < t.itemCount name := by
  rw [child?_eq_bind] at h
  obtain ⟨f, hf, hc⟩ := Option.bind_eq_some_iff.mp h
  cases f with
  | list _ ts =>
    unfold itemCount
    rw [hf]
    exact (List.getElem?_eq_some_iff.mp hc).1
  | _ => cases hc

theorem itemCount_of_mem {t : Tree} (h : (t.fields.map TreeField.name).Nodup) {name : String}
    {ts : List Tree} (hts : .list name ts ∈ t.fields) : t.itemCount name = ts.length := by
  unfold itemCount
  rw [(field?_eq_some_iff h name (.list name ts)).mpr ⟨hts, rfl⟩]

/-- A field of the same kind may be put in place of a field. -/
theorem childFields_setField {t : Tree} (h : (t.fields.map TreeField.name).Nodup)
    {f g : TreeField} (hg : t.field? f.name = some g) (hentry : f.entry? = g.entry?) :
    (t.setField f).childFields = t.childFields := by
  unfold childFields setField
  rw [List.filterMap_map]
  refine List.filterMap_congr fun k hk => ?_
  rw [Function.comp_apply]
  split
  · next hname =>
    have hkg : t.field? f.name = some k := (field?_eq_some_iff h f.name k).mpr ⟨hk, hname⟩
    obtain rfl : g = k := Option.some.inj (hg.symm.trans hkg)
    exact hentry
  · rfl

/-- A list that is set counts its own items, and the others count as before. -/
theorem itemCount_setField_list (t : Tree) {field : String} {ts us : List Tree}
    (hf : t.field? field = some (.list field ts)) (name : String) :
    (t.setField (.list field us)).itemCount name =
      if name = field then us.length else t.itemCount name := by
  unfold itemCount
  rw [field?_setField, TreeField.name]
  by_cases hname : name = field
  · rw [if_pos hname, if_pos hname, hname, hf, Option.map_some]
  · rw [if_neg hname, if_neg hname]

/-- One item less is in a list from which an item has been taken. -/
theorem itemCount_eraseItem {t : Tree} {field : String} {i : Nat} (hi : i < t.itemCount field)
    (name : String) :
    (t.eraseItem field i).itemCount name =
      if name = field then t.itemCount field - 1 else t.itemCount name := by
  have hcount := hi
  unfold itemCount at hcount
  split at hcount
  · next field' ts hf =>
    obtain rfl : field' = field := name_of_field? hf
    have herase : t.eraseItem field' i = t.setField (.list field' (ts.eraseIdx i)) := by
      rw [eraseItem, hf]
    have hlength : t.itemCount field' = ts.length := by rw [itemCount, hf]
    rw [herase, itemCount_setField_list t hf, hlength, List.length_eraseIdx_of_lt hcount]
  · cases hcount

/-- Erasing an item keeps the fields there are. -/
theorem childFields_eraseItem {t : Tree} (h : (t.fields.map TreeField.name).Nodup) (field : String)
    (i : Nat) : (t.eraseItem field i).childFields = t.childFields := by
  unfold eraseItem
  split
  · next field' ts hf =>
    obtain rfl : field' = field := name_of_field? hf
    exact childFields_setField h hf rfl
  · rfl

/-- Putting another child leaves the fields that hold children. -/
theorem childFields_setChild {t : Tree} (h : (t.fields.map TreeField.name).Nodup) (step : Step)
    (c : Tree) : (t.setChild step c).childFields = t.childFields := by
  unfold setChild
  split
  · next name d hf _ =>
    obtain rfl : name = step.field := name_of_field? hf
    exact childFields_setField h hf rfl
  · next name ts i hf _ =>
    obtain rfl : name = step.field := name_of_field? hf
    exact childFields_setField h hf rfl
  · rfl

/-- It leaves the length of every list as well. -/
theorem itemCount_setChild (t : Tree) (step : Step) (c : Tree) (name : String) :
    (t.setChild step c).itemCount name = t.itemCount name := by
  unfold setChild
  split
  · next field d hf _ =>
    obtain rfl : field = step.field := name_of_field? hf
    unfold itemCount
    rw [field?_setField, TreeField.name]
    by_cases hname : name = step.field
    · rw [if_pos hname, hname, hf, Option.map_some]
    · rw [if_neg hname]
  · next field ts i hf _ =>
    obtain rfl : field = step.field := name_of_field? hf
    rw [itemCount_setField_list t hf]
    split
    · next hname => rw [List.length_set, hname, itemCount, hf]
    · rfl
  · rfl

/-! ### What remains of a tree -/

/-- What remains of a node of a place is a node of the same type and span with the same fields, and
in its lists are as many items as stay. -/
structure IsRest (gone : List (List Step)) (place : List Step) (t c : Tree) : Prop where
  type_eq : c.type = t.type
  span_eq : c.span = t.span
  childFields_eq : c.childFields = t.childFields
  itemCount_eq : ∀ name, c.itemCount name = staying gone place name (t.itemCount name)

/-- A tree is what another one is without some items: every node that stays is found where it is
now. -/
def IsWithout (t : Tree) (gone : List (List Step)) (rest : Tree) : Prop :=
  ∀ place c, t.descend? place = some c → Stays gone place →
    ∃ d, rest.descend? (now gone place) = some d ∧ IsRest gone place c d

/-- A tree is itself without nothing. -/
theorem isWithout_nil (t : Tree) : t.IsWithout [] t := by
  intro place c hc _
  rw [now_nil]
  exact ⟨c, hc, rfl, rfl, rfl, fun name => (staying_nil _).symm⟩

variable {t rest u : Tree} {gone : List (List Step)} {owner place : List Step} {field : String}
  {i : Nat}

/-- What goes elsewhere does not matter for what remains of a node. -/
theorem IsRest.cons {c d : Tree} (h : IsRest gone place c d) (hne : place ≠ owner) :
    IsRest (item owner field i :: gone) place c d := by
  refine ⟨h.type_eq, h.span_eq, h.childFields_eq, fun name => ?_⟩
  rw [h.itemCount_eq, staying_cons_of_ne]
  intro j _ hj
  exact hne (item_inj.mp hj).1

/-- What remains of the owner of a list from which an item goes. -/
theorem IsRest.eraseItem {c d : Tree} (h : IsRest gone owner c d)
    (hnames : (d.fields.map TreeField.name).Nodup) (hi : i < c.itemCount field)
    (hitem : item owner field i ∉ gone) :
    IsRest (item owner field i :: gone) owner c
      (d.eraseItem field (staying gone owner field i)) := by
  have hlt : staying gone owner field i < d.itemCount field := by
    rw [h.itemCount_eq]
    exact staying_lt hi hitem
  refine ⟨?_, ?_, ?_, fun name => ?_⟩
  · rw [(d.type_eraseItem _ _).1, h.type_eq]
  · rw [(d.type_eraseItem _ _).2, h.span_eq]
  · rw [childFields_eraseItem hnames, h.childFields_eq]
  · rw [itemCount_eraseItem hlt]
    split
    · next hname =>
      subst hname
      rw [h.itemCount_eq, ← staying_cons_item hitem hi]
      rfl
    · next hname =>
      -- in another list the same items stay
      rw [h.itemCount_eq, staying_cons_of_ne]
      intro j _ hj
      exact hname (item_inj.mp hj).2.1

/-- What remains of a node below which an item goes. -/
theorem IsRest.eraseAt_cons {c d : Tree} (h : IsRest gone place c d)
    (hnames : (d.fields.map TreeField.name).Nodup) (step : Step) (path : List Step)
    (field : String) (r : Nat) : IsRest gone place c (d.eraseAt (step :: path) field r) := by
  unfold eraseAt editAt
  split
  · next e _ =>
    refine ⟨?_, ?_, ?_, fun name => ?_⟩
    · rw [(d.type_setChild step _).1, h.type_eq]
    · rw [(d.type_setChild step _).2, h.span_eq]
    · rw [childFields_setChild hnames, h.childFields_eq]
    · rw [itemCount_setChild, h.itemCount_eq]
  · exact h

/-- **One more item goes.** If it is taken out where it is now, the tree is then without it. -/
theorem IsWithout.eraseAt (h : t.IsWithout gone rest) (hnames : rest.HasNames)
    (hu : t.descend? (item owner field i) = some u) (hitem : Stays gone (item owner field i)) :
    t.IsWithout (item owner field i :: gone)
      (rest.eraseAt (now gone owner) field (staying gone owner field i)) := by
  intro place c hc hplace
  have hstays := (stays_cons.mp hplace).2
  obtain ⟨d, hd, hrest⟩ := h place c hc hstays
  have hdnames := hnames _ d hd
  rw [descend?_eraseAt]
  by_cases hon : place <+: owner
  · -- the node is on the way to the list
    have hsame : now (item owner field i :: gone) place = now gone place := by
      refine now_eq_of_length fun y hy => ?_
      rw [List.mem_cons, or_iff_right]
      rintro rfl
      have hle := hon.length_le
      rw [item, List.length_append, List.length_singleton] at hy
      omega
    obtain ⟨path, rfl⟩ := hon
    have hway : now gone (place ++ path) = now gone place ++ nowBelow gone place path :=
      nowBelow_append gone [] place path
    rw [hsame, if_pos (by rw [hway]; exact List.prefix_append _ _), hd]
    refine ⟨_, rfl, ?_⟩
    rw [hway, List.drop_left]
    cases path with
    | nil =>
      rw [List.append_nil] at *
      rw [item, descend?_append_singleton, hc] at hu
      exact hrest.eraseItem hdnames (lt_itemCount hu) hitem.not_mem
    | cons step path =>
      -- the list lies further down, so this node keeps its items
      refine (hrest.eraseAt_cons hdnames _ _ _ _).cons fun hself => ?_
      have hself := congrArg List.length hself
      rw [List.length_append, List.length_cons] at hself
      omega
  · rw [if_neg (mt (prefix_of_now hitem hstays) hon), pathPast_now hitem hplace]
    exact ⟨d, hd, hrest.cons fun hself => hon (hself ▸ List.prefix_rfl)⟩

end Tree

end Espalier
