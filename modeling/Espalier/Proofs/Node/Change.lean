import Espalier.Proofs.Node.View

/-!
# Changes of what is read

What a reader sees of a program is a `Tree`. Here are the changes that edits make of it: another
child in place of one, and an item taken out of a list, at the end of a path
(`Tree.editAt`, `Tree.eraseAt`). After an item has been taken out, a path down to the list leads to
what it led to before, less the item; any other path leads to what it led to past the item
(`Tree.descend?_eraseAt`). Where another node has been put in place of one, the paths that lead
neither to it nor through it lead where they led (`Tree.Grafted.descend?_of_apart`).
-/

namespace Espalier

namespace Tree

/-- A field put in place of the one of its name. -/
def setField (t : Tree) (f : TreeField) : Tree :=
  { t with fields := t.fields.map fun g => if g.name = f.name then f else g }

/-- A child put in place of another one. -/
def setChild (t : Tree) (step : Step) (c : Tree) : Tree :=
  match t.field? step.field, step.index with
  | some (.child name _), none => t.setField (.child name c)
  | some (.list name cs), some i => t.setField (.list name (cs.set i c))
  | _, _ => t

/-- An item taken out of a list. -/
def eraseItem (field : String) (i : Nat) (t : Tree) : Tree :=
  match t.field? field with
  | some (.list name cs) => t.setField (.list name (cs.eraseIdx i))
  | _ => t

/-- A node changed to which a path leads. -/
def editAt (t : Tree) (path : List Step) (f : Tree → Tree) : Tree :=
  match path with
  | [] => f t
  | step :: path =>
    match t.child? step with
    | some c => t.setChild step (c.editAt path f)
    | none => t

/-- An item taken out of a list of the node to which a path leads. -/
def eraseAt (t : Tree) (owner : List Step) (field : String) (i : Nat) : Tree :=
  t.editAt owner (eraseItem field i)

/-- Only what a node is changed to matters. -/
theorem editAt_of_descend? {t c : Tree} {path : List Step} (h : t.descend? path = some c)
    (f : Tree → Tree) : (t.editAt path fun _ => f c) = t.editAt path f := by
  induction path generalizing t with
  | nil =>
    cases h
    rfl
  | cons step path ih =>
    obtain ⟨d, hd, hc⟩ := Option.bind_eq_some_iff.mp (show (t.child? step).bind (·.descend? path) =
      some c by rw [← h, descend?, List.foldlM_cons]; rfl)
    simp only [editAt, hd, ih hc]

theorem name_of_field? {t : Tree} {name : String} {f : TreeField} (h : t.field? name = some f) :
    f.name = name := by
  simpa using List.find?_some h

/-- Setting a field changes that field and no other. -/
theorem field?_setField (t : Tree) (f : TreeField) (name : String) :
    (t.setField f).field? name =
      if name = f.name then (t.field? name).map fun _ => f else t.field? name := by
  obtain ⟨type, span, fields⟩ := t
  simp only [setField, field?]
  induction fields with
  | nil => simp
  | cons g fields ih =>
    rw [List.map_cons]
    by_cases hg : g.name = name
    · by_cases hf : name = f.name
      · simp [hg, hf]
      · simp [hg, hf]
    · have hnew : ((if g.name = f.name then f else g).name == name) = false := by
        split
        · next hgf => simpa [← hgf] using hg
        · simpa using hg
      rw [List.find?_cons_of_neg (by simp [hnew]), List.find?_cons_of_neg (by simpa using hg), ih]

/-- Where a step leads after a field has been changed. -/
theorem child?_setField (t : Tree) (f : TreeField) (step : Step) (h : (t.field? f.name).isSome) :
    (t.setField f).child? step =
      if step.field = f.name then f.at? step.index else t.child? step := by
  rw [child?_eq_bind, field?_setField]
  split
  · next hname =>
    obtain ⟨g, hg⟩ := Option.isSome_iff_exists.mp h
    rw [hname, hg]
    rfl
  · rw [child?_eq_bind]

/-- A field set twice keeps the second value. -/
theorem setField_setField (t : Tree) {f g : TreeField} (h : g.name = f.name) :
    (t.setField f).setField g = t.setField g := by
  obtain ⟨type, span, fields⟩ := t
  simp only [setField, List.map_map, Tree.mk.injEq, true_and]
  refine List.map_congr_left fun k _ => ?_
  by_cases hk : k.name = f.name <;> simp [hk, h]

/-- A child that has been put in place is found there; the other ones stay. -/
theorem child?_setChild {t : Tree} {step : Step} {d : Tree} (hd : t.child? step = some d) (c : Tree)
    (other : Step) :
    (t.setChild step c).child? other = if other = step then some c else t.child? other := by
  obtain ⟨field, index⟩ := step
  obtain ⟨field', index'⟩ := other
  rw [child?_eq_bind, Option.bind_eq_some_iff] at hd
  obtain ⟨f, hf, hd⟩ := hd
  have hname := name_of_field? hf
  -- a single child and an item of a list, each against the same and another step
  cases f with
  | value | absent => cases hd
  | child name e =>
    cases index with
    | some => cases hd
    | none =>
      have hsome : (t.field? (TreeField.child name c).name).isSome := by
        rw [show (TreeField.child name c).name = field from hname, hf]
        rfl
      have hset : t.setChild ⟨field, none⟩ c = t.setField (.child name c) := by
        rw [setChild, hf]
      rw [hset, child?_setField _ _ _ hsome]
      simp only [TreeField.name] at hname ⊢
      subst hname
      by_cases hfield : field' = name
      · subst hfield
        cases index' with
        | none => simp [TreeField.at?]
        | some j => simp [child?, hf, TreeField.at?]
      · simp [hfield]
  | list name cs =>
    cases index with
    | none => cases hd
    | some i =>
      have hi : cs[i]? = some d := hd
      have hsome : (t.field? (TreeField.list name (cs.set i c)).name).isSome := by
        rw [show (TreeField.list name (cs.set i c)).name = field from hname, hf]
        rfl
      have hset : t.setChild ⟨field, some i⟩ c = t.setField (.list name (cs.set i c)) := by
        rw [setChild, hf]
      rw [hset, child?_setField _ _ _ hsome]
      simp only [TreeField.name] at hname ⊢
      subst hname
      by_cases hfield : field' = name
      · subst hfield
        cases index' with
        | none => simp [child?, hf, TreeField.at?]
        | some j =>
          have hlt : i < cs.length := (List.getElem?_eq_some_iff.mp hi).1
          by_cases hij : j = i
          · subst hij
            simp [TreeField.at?, hlt]
          · have hji : i ≠ j := fun h => hij h.symm
            simp [TreeField.at?, child?, hf, hij, List.getElem?_set_ne hji]
      · simp [hfield]

/-- A child set twice stays the second one. -/
theorem setChild_setChild {t : Tree} {step : Step} {d : Tree} (hd : t.child? step = some d)
    (b c : Tree) : (t.setChild step b).setChild step c = t.setChild step c := by
  obtain ⟨field, index⟩ := step
  rw [child?_eq_bind, Option.bind_eq_some_iff] at hd
  obtain ⟨f, hf, hd⟩ := hd
  have hname := name_of_field? hf
  cases f with
  | value | absent => cases hd
  | child name e =>
    cases index with
    | some => cases hd
    | none =>
      obtain rfl : name = field := hname
      simp only [setChild, hf, field?_setField, TreeField.name, if_pos, Option.map_some]
      exact setField_setField t rfl
  | list name cs =>
    cases index with
    | none => cases hd
    | some i =>
      obtain rfl : name = field := hname
      simp only [setChild, hf, field?_setField, TreeField.name, if_pos, Option.map_some,
        List.set_set]
      exact setField_setField t rfl

/-- An item may be changed before it is taken out. -/
theorem eraseItem_setChild (t : Tree) (field : String) (i : Nat) (c : Tree) :
    (t.setChild ⟨field, some i⟩ c).eraseItem field i = t.eraseItem field i := by
  cases hf : t.field? field with
  | none => simp only [setChild, hf]
  | some f =>
    cases f with
    | value | absent | child => simp only [setChild, hf]
    | list name cs =>
      obtain rfl : name = field := name_of_field? hf
      simp only [setChild, eraseItem, hf, field?_setField, TreeField.name, if_pos, Option.map_some,
        List.eraseIdx_set_eq]
      exact setField_setField t rfl

/-- A child is put in place of another one without a change of the fields' names. -/
theorem names_setChild (t : Tree) (step : Step) (c : Tree) :
    (t.setChild step c).fields.map TreeField.name = t.fields.map TreeField.name := by
  have hset : ∀ f, (t.setField f).fields.map TreeField.name = t.fields.map TreeField.name := by
    intro f
    rw [setField, List.map_map]
    refine List.map_congr_left fun g _ => ?_
    by_cases hg : g.name = f.name <;> simp [hg]
  unfold setChild
  split
  · exact hset _
  · exact hset _
  · rfl

/-- Setting a child keeps type and span. -/
theorem type_setChild (t : Tree) (step : Step) (c : Tree) :
    (t.setChild step c).type = t.type ∧ (t.setChild step c).span = t.span := by
  unfold setChild
  split <;> exact ⟨rfl, rfl⟩

/-- Erasing an item keeps type and span. -/
theorem type_eraseItem (t : Tree) (field : String) (i : Nat) :
    (t.eraseItem field i).type = t.type ∧ (t.eraseItem field i).span = t.span := by
  unfold eraseItem
  split <;> exact ⟨rfl, rfl⟩

/-- What loses an item somewhere below stays a node of its type and keeps its place. -/
theorem type_eraseAt (t : Tree) (owner : List Step) (field : String) (i : Nat) :
    (t.eraseAt owner field i).type = t.type ∧ (t.eraseAt owner field i).span = t.span := by
  cases owner with
  | nil => exact t.type_eraseItem field i
  | cons step owner =>
    unfold eraseAt editAt
    split
    · exact t.type_setChild step _
    · exact ⟨rfl, rfl⟩

/-- Taking an item out makes the same of a node if something has been taken out inside of that item
before. -/
theorem eraseAt_eraseAt_of_below (t : Tree) {owner inner : List Step} {field : String} {i : Nat}
    (h : owner ++ [⟨field, some i⟩] <+: inner) (field' : String) (j : Nat) :
    (t.eraseAt inner field' j).eraseAt owner field i = t.eraseAt owner field i := by
  obtain ⟨rest, rfl⟩ := h
  induction owner generalizing t with
  | nil =>
    show (t.editAt (⟨field, some i⟩ :: rest) _).eraseItem field i = t.eraseItem field i
    unfold editAt
    split
    · exact t.eraseItem_setChild field i _
    · rfl
  | cons step owner ih =>
    show (t.editAt (step :: (owner ++ [⟨field, some i⟩] ++ rest)) _).editAt (step :: owner) _ =
      t.editAt (step :: owner) _
    cases hc : t.child? step with
    | none => simp only [editAt, hc]
    | some c =>
      simp only [editAt, hc, child?_setChild hc, if_pos, setChild_setChild hc]
      exact congrArg (t.setChild step) (ih c)

end Tree

/-! ### Another node at the end of a path -/

namespace Tree

/-- At the end of a path another node stands in place of the one there, and from every node on the
way each other step leads where it led. -/
def Grafted (t : Tree) (path : List Step) (c t' : Tree) : Prop :=
  match path with
  | [] => t' = c
  | step :: path => ∃ d d', t.child? step = some d ∧ d.Grafted path c d' ∧
      ∀ other, t'.child? other = if other = step then some d' else t.child? other

/-- Putting a tree in place of the one a path leads to is grafting it there. -/
theorem grafted_editAt {t : Tree} {path : List Step} (h : (t.descend? path).isSome) (c : Tree) :
    t.Grafted path c (t.editAt path fun _ => c) := by
  induction path generalizing t with
  | nil => rfl
  | cons step path ih =>
    cases hd : t.child? step with
    | none =>
      rw [descend?, List.foldlM_cons, hd] at h
      cases h
    | some d =>
      rw [descend?, List.foldlM_cons, hd] at h
      refine ⟨d, _, hd, ih h, fun other => ?_⟩
      simp only [editAt, hd, child?_setChild hd]

/-- The path leads to the new node. -/
theorem Grafted.descend?_self {t : Tree} {path : List Step} {c t' : Tree}
    (h : t.Grafted path c t') : t'.descend? path = some c := by
  induction path generalizing t t' with
  | nil => exact congrArg some h
  | cons step path ih =>
    obtain ⟨d, d', -, hbelow, hchild⟩ := h
    rw [descend?, List.foldlM_cons, hchild, if_pos rfl]
    exact ih hbelow

/-- A path that leads neither to the place nor through it leads to the node that it led to. -/
theorem Grafted.descend?_of_apart {t : Tree} {path other : List Step} {c t' : Tree}
    (h : t.Grafted path c t') (habove : ¬ other <+: path) (hbelow : ¬ path <+: other) :
    t'.descend? other = t.descend? other := by
  induction path generalizing t t' other with
  | nil => exact absurd (List.nil_prefix) hbelow
  | cons step path ih =>
    obtain ⟨d, d', hd, hgraft, hchild⟩ := h
    cases other with
    | nil => exact absurd (List.nil_prefix) habove
    | cons first other =>
      simp only [descend?, List.foldlM_cons, hchild]
      by_cases hstep : first = step
      · subst hstep
        rw [if_pos rfl, hd]
        refine ih hgraft (fun hp => habove ?_) (fun hp => hbelow ?_)
        · exact List.cons_prefix_cons.mpr ⟨rfl, hp⟩
        · exact List.cons_prefix_cons.mpr ⟨rfl, hp⟩
      · rw [if_neg hstep]

end Tree

/-! ### Where paths lead after an item has been taken out -/

namespace Step

/-- The step to the same child before an item was taken out of a list. -/
def past (field : String) (i : Nat) (step : Step) : Step :=
  match step.index with
  | some j => if step.field = field ∧ i ≤ j then ⟨field, some (j + 1)⟩ else step
  | none => step

/-- The path to the same node before an item was taken out of a list of the owner. -/
def pathPast (owner : List Step) (field : String) (i : Nat) (path : List Step) : List Step :=
  match owner, path with
  | _, [] => []
  | [], step :: path => step.past field i :: path
  | s :: owner, step :: path =>
    if step = s then step :: pathPast owner field i path else step :: path

theorem past_of_le {field : String} {i j : Nat} (h : i ≤ j) :
    past field i ⟨field, some j⟩ = ⟨field, some (j + 1)⟩ :=
  if_pos ⟨rfl, h⟩

/-- A path through the list is moved along in its step at the list alone. -/
theorem pathPast_append (owner : List Step) (field : String) (i : Nat) (step : Step)
    (rest : List Step) :
    pathPast owner field i (owner ++ step :: rest) = owner ++ step.past field i :: rest := by
  induction owner with
  | nil => rfl
  | cons s owner ih =>
    rw [List.cons_append, pathPast, if_pos rfl, ih]
    rfl

/-- Beside the list and before the item a path stays what it is. -/
theorem pathPast_of_beside {owner : List Step} {field : String} {i : Nat} {path : List Step}
    (h : ∀ j, i ≤ j → ¬ owner ++ [⟨field, some j⟩] <+: path) :
    pathPast owner field i path = path := by
  -- along the way to the list, until the path turns off
  induction owner generalizing path with
  | nil =>
    cases path with
    | nil => rfl
    | cons step path =>
      obtain ⟨field', index⟩ := step
      rw [pathPast, past]
      split
      · next j hindex =>
        obtain rfl : index = some j := hindex
        rw [if_neg]
        rintro ⟨rfl, hj⟩
        exact h j hj ⟨path, rfl⟩
      · rfl
  | cons s owner ih =>
    cases path with
    | nil => rfl
    | cons step path =>
      rw [pathPast]
      split
      · next hstep =>
        subst hstep
        rw [ih fun j hj hstart => h j hj (List.cons_prefix_cons.mpr ⟨rfl, hstart⟩)]
      · rfl

end Step

namespace Tree

/-- Behind an item that has been taken out a step leads to the next one. -/
theorem child?_eraseItem (t : Tree) (field : String) (i : Nat) (step : Step) :
    (t.eraseItem field i).child? step = t.child? (step.past field i) := by
  obtain ⟨field', index⟩ := step
  by_cases hlist : ∃ cs, t.field? field = some (.list field cs)
  · obtain ⟨cs, hf⟩ := hlist
    have herase : t.eraseItem field i = t.setField (.list field (cs.eraseIdx i)) := by
      rw [eraseItem, hf]
    rw [herase, child?_setField _ _ _ (by rw [TreeField.name, hf]; rfl), TreeField.name]
    by_cases hfield : field' = field
    · subst hfield
      rw [if_pos rfl]
      cases index with
      | none => simp only [Step.past, TreeField.at?, child?, hf]
      | some j =>
        by_cases hij : i ≤ j
        · simp only [Step.past, TreeField.at?, child?, hf, hij, and_self, if_pos,
            List.getElem?_eraseIdx_of_ge hij]
        · simp only [Step.past, TreeField.at?, child?, hf, hij, and_false, if_neg,
            not_false_eq_true, List.getElem?_eraseIdx_of_lt (Nat.lt_of_not_le hij)]
    · rw [if_neg hfield]
      unfold Step.past
      split
      · rw [if_neg fun h => hfield h.1]
      · rfl
  -- without such a list there is nothing to take out, and no step that leads to an item
  · have hsame : t.eraseItem field i = t := by
      unfold eraseItem
      split
      · next name cs hf =>
        obtain rfl : name = field := name_of_field? hf
        exact absurd ⟨cs, hf⟩ hlist
      · rfl
    have hnone : ∀ j, t.child? ⟨field, some j⟩ = none := by
      intro j
      unfold child?
      split
      · next hindex => cases hindex
      · next name cs _ hf _ =>
        obtain rfl : name = field := name_of_field? hf
        exact absurd ⟨cs, hf⟩ hlist
      · rfl
    rw [hsame]
    unfold Step.past
    split
    · next j hj =>
      obtain rfl : index = some j := hj
      split
      · next h =>
        obtain rfl : field' = field := h.1
        rw [hnone, hnone]
      · rfl
    · rfl

/-- After an item has been taken out, a path down to its list leads to what it led to before, less
the item; any other path leads to what it led to past the item. -/
theorem descend?_eraseAt (t : Tree) (owner : List Step) (field : String) (i : Nat)
    (path : List Step) :
    (t.eraseAt owner field i).descend? path =
      if path <+: owner then (t.descend? path).map (·.eraseAt (owner.drop path.length) field i)
      else t.descend? (Step.pathPast owner field i path) := by
  -- down to the list: a path either goes on to it or turns off
  induction owner generalizing t path with
  | nil =>
    cases path with
    | nil => rfl
    | cons step path =>
      rw [if_neg (by simp)]
      show (t.eraseItem field i).descend? (step :: path) = _
      simp only [descend?, Step.pathPast, List.foldlM_cons, child?_eraseItem]
  | cons s owner ih =>
    cases path with
    | nil => rfl
    | cons step path =>
      cases hc : t.child? s with
      | none =>
        -- a way that leads nowhere erases nothing
        have hsame : t.eraseAt (s :: owner) field i = t := by simp only [eraseAt, editAt, hc]
        rw [hsame]
        by_cases hstep : step = s
        · subst hstep
          have hnone : ∀ path, t.descend? (step :: path) = none := by
            intro path
            simp only [descend?, List.foldlM_cons, hc]
            rfl
          simp only [Step.pathPast, if_pos, hnone, Option.map_none, ite_self]
        · rw [if_neg (fun h => hstep (List.cons_prefix_cons.mp h).1), Step.pathPast,
            if_neg hstep]
      | some c =>
        have hedit : t.eraseAt (s :: owner) field i =
            t.setChild s (c.eraseAt owner field i) := by simp only [eraseAt, editAt, hc]
        by_cases hstep : step = s
        · subst hstep
          have hdown : ∀ path, t.descend? (step :: path) = c.descend? path := by
            intro path
            simp only [descend?, List.foldlM_cons, hc]
            rfl
          have hnew : (t.eraseAt (step :: owner) field i).descend? (step :: path) =
              (c.eraseAt owner field i).descend? path := by
            rw [hedit]
            simp only [descend?, List.foldlM_cons, child?_setChild hc, if_pos]
            rfl
          rw [hnew, ih]
          simp only [Step.pathPast, if_pos, hdown, List.cons_prefix_cons, true_and,
            List.length_cons, List.drop_succ_cons]
        · rw [if_neg (fun h => hstep (List.cons_prefix_cons.mp h).1), Step.pathPast,
            if_neg hstep, hedit]
          simp only [descend?, List.foldlM_cons, child?_setChild hc, if_neg hstep]

end Tree

end Espalier
