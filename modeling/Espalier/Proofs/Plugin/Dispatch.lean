import Espalier.Plugin.Visitor
import Espalier.Proofs.Grammar.Cover
import Espalier.Proofs.Script.Operation
import Espalier.Proofs.Text.Search

/-!
# The functions that a visitor has for a type

Reading a visitor changes nothing, and what is found for a phase and a type is what the keys say
that cover the type, in the order in which the visitor lists them (`find_visitorHandlers`). A key is
divided at its bars, and however many of its parts cover a type, its functions are found once.
-/

namespace Espalier

/-! ### Texts that are divided at a character -/

namespace Text

/-- The parts of a text divided at a character. -/
theorem parts_splitOn (c : Char) (cs : List Char) : Parts [c] cs (cs.splitOn c) := by
  by_cases h : c ∈ cs
  · obtain ⟨before, after, hcs, hbefore⟩ := List.eq_append_cons_of_mem h
    have hlength : after.length < cs.length := by
      rw [hcs, List.length_append, List.length_cons]
      omega
    -- the first place of the separator is the one in front of which there is none
    have hcuts : Cuts [c] cs before after := by
      refine ⟨hcs, fun left right hleft => Nat.le_of_not_lt fun hlt => hbefore ?_⟩
      have hplace : cs[left.length]? = some c := by
        rw [hleft, List.getElem?_append_right (Nat.le_refl _), Nat.sub_self]
        rfl
      rw [hcs, List.getElem?_append_left hlt] at hplace
      exact List.mem_of_getElem? hplace
    have hsplit : cs.splitOn c = before :: after.splitOn c := by
      rw [hcs, List.splitOn_append_cons_self_of_not_mem hbefore]
    rw [hsplit]
    exact .cut hcuts (parts_splitOn c after)
  · rw [List.splitOn_eq_singleton h]
    exact .last fun hplace => h (hplace.subset List.mem_cons_self)
termination_by cs.length

/-- What lies between the places of a character are the parts of a text divided at it. -/
theorem gaps_eq_splitOn (c : Char) (cs : List Char) :
    gaps cs (matchesOf [c] cs) = cs.splitOn c :=
  (parts_gaps (List.cons_ne_nil c []) cs).unique (parts_splitOn c cs)

end Text

namespace Plugin

open Script

variable {m m₁ m' : Machine} {key : String} {types : List NodeType} {v : Value} {phase : Phase}
  {type : NodeType} {hs : Handlers}

/-! ### Keys -/

/-- A part of a key, without the blanks around it, covers a type: it stands for all types, is the
name of the type or that of a group with it. -/
def PartCovers (part : String) (type : NodeType) : Prop :=
  (part = "enter" ∨ part = "exit") ∨ part = type.text ∨
    ∃ group ∈ Alias.all, group.text = part ∧ group.covers type = true

instance (part : String) (type : NodeType) : Decidable (PartCovers part type) :=
  inferInstanceAs (Decidable (_ ∨ _))

/-- A key covers a type: one of the parts between its bars does. -/
def Covers (key : String) (type : NodeType) : Prop :=
  ∃ part ∈ key.toList.splitOn '|', PartCovers (String.ofList (Text.trim part)) type

instance (key : String) (type : NodeType) : Decidable (Covers key type) :=
  inferInstanceAs (Decidable (∃ part ∈ _, _))

/-- The phase of a function that is the value of a key itself. -/
def phaseOf (key : String) : Phase := if key = "exit" then .exit else .enter

/-- The function that an object has for a phase, if it has one. -/
def functionIn (m : Machine) (o : ObjectId) (phase : Phase) : List Value :=
  match (m.object o).get? phase.text with
  | none | some .undefined => []
  | some f => [f]

/-- The functions that a property of a visitor has for a phase. -/
def functionsOf (m : Machine) (phase : Phase) (key : String) (v : Value) : List Value :=
  if v.isCallable then if phaseOf key = phase then [v] else []
  else
    match v with
    | .object o => functionIn m o phase
    | _ => []

/-- Each group is found by its name. -/
theorem ofText?_alias (a : Alias) : Alias.ofText? a.text = some a := by
  cases a <;> decide

/-- A name is either that of a type or that of a group. -/
theorem covers_of_ofText? {part : String} {k : VisitorKey} (h : VisitorKey.ofText? part = some k) :
    k.covers type = true ↔ part = type.text ∨ ∃ group ∈ Alias.all,
      group.text = part ∧ group.covers type = true := by
  unfold VisitorKey.ofText? at h
  -- a name of a type is never one of a group
  cases htype : NodeType.ofText? part with
  | some t =>
    rw [htype] at h
    cases h
    have htext := NodeType.text_of_ofText? htype
    have hnone : ¬∃ group ∈ Alias.all, group.text = part ∧ group.covers type = true := by
      rintro ⟨group, -, hgroup, -⟩
      rw [← hgroup, group.ofText?_text_eq_none] at htype
      cases htype
    rw [or_iff_left hnone]
    constructor
    · intro hcovers
      rw [← htext, eq_of_beq hcovers]
    · intro heq
      rw [heq, NodeType.ofText?_text] at htype
      cases htype
      exact beq_self_eq_true type
  | none =>
    rw [htype] at h
    obtain ⟨group, hgroup, rfl⟩ := Option.map_eq_some_iff.mp h
    have htext := Alias.text_of_ofText? hgroup
    constructor
    · exact fun hcovers => .inr ⟨group, group.mem_all, htext, hcovers⟩
    · rintro (heq | ⟨other, -, hother, hcovers⟩)
      · rw [heq, NodeType.ofText?_text] at htype
        cases htype
      · rw [← hother, ofText?_alias] at hgroup
        cases hgroup
        exact hcovers

/-- A part of a key names the types that it covers. -/
theorem mem_partTypes {part : String} (h : partTypes part = .ok types) :
    type ∈ types ↔ PartCovers part type := by
  unfold partTypes at h
  split at h
  · next hall =>
    cases h
    rw [Bool.or_eq_true, beq_iff_eq, beq_iff_eq] at hall
    exact iff_of_true type.mem_all (.inl hall)
  · next hall =>
    rw [Bool.or_eq_true, beq_iff_eq, beq_iff_eq] at hall
    split at h
    · next k hk =>
      cases h
      unfold PartCovers
      rw [or_iff_right hall, ← covers_of_ofText? hk, VisitorKey.types, List.mem_filter]
      exact and_iff_right type.mem_all
    · cases h

/-- What is made of each of some parts. -/
theorem forall₂_of_mapM {α β : Type} {f : α → Except PluginError β} {as : List α} {bs : List β}
    (h : as.mapM f = .ok bs) : List.Forall₂ (fun a b => f a = .ok b) as bs := by
  induction as generalizing bs with
  | nil =>
    cases h
    exact .nil
  | cons a as ih =>
    rw [List.mapM_cons] at h
    obtain ⟨b, hb, h⟩ := exists_of_bind_eq_ok h
    obtain ⟨bs, hbs, h⟩ := exists_of_bind_eq_ok h
    cases h
    exact .cons hb (ih hbs)

/-- A key names the types that one of its parts covers. -/
theorem mem_keyTypes (h : keyTypes key = .ok types) : type ∈ types ↔ Covers key type := by
  unfold keyTypes at h
  obtain ⟨typess, hparts, hflatten⟩ := exists_of_bind_eq_ok h
  cases hflatten
  have hall := forall₂_of_mapM hparts
  unfold keyParts at hall
  dsimp only at hall
  rw [Text.gaps_eq_splitOn, List.forall₂_map_left_iff] at hall
  unfold Covers
  rw [List.mem_flatten]
  generalize key.toList.splitOn '|' = parts at hall
  clear h hparts
  induction hall with
  | nil => simp
  | cons hpart _ ih => simp [ih, mem_partTypes hpart]

/-! ### Properties of a visitor -/

/-- Reading a property of an object by name changes nothing. -/
theorem getProperty_object (o : ObjectId) {name : String}
    (hname : pathProperty.isQuestion? name = none) :
    getProperty (.object o) (.string name) m =
      .ok (((m.object o).get? name).getD .undefined) m := by
  have heq : getProperty (.object o) (.string name) m = objectProperty o name m := rfl
  rw [heq]
  unfold objectProperty
  rw [bind_eq_of_ok (show (get : Script Machine) m = .ok m m from rfl)]
  cases (m.object o).get? name with
  | some v => rfl
  | none =>
    cases (m.object o).kind with
    | types =>
      rw [hname]
      rfl
    | _ => rfl

/-- A result that is given was there, and the machine is as before. -/
theorem orNoPlugin_ok {α : Type} {result : Except PluginError α} {a : α}
    (h : orNoPlugin result m = .ok a m') : result = .ok a ∧ m' = m := by
  cases result with
  | ok b =>
    cases h
    exact ⟨rfl, rfl⟩
  | error cause => cases h

/-- A handler is made of a function, for its key's types and phase. -/
theorem handler_ok {h : Handler} (hrun : handler key types phase v m = .ok h m') :
    m' = m ∧ v.isCallable = true ∧ h = ⟨phase, types, v⟩ := by
  unfold handler at hrun
  split at hrun
  · next hcallable =>
    cases hrun
    exact ⟨rfl, hcallable, rfl⟩
  · cases hrun

/-! ### What is found -/

/-- Handlers of two lists are found one after the other. -/
theorem find_append (hs hs' : Handlers) (phase : Phase) (type : NodeType) :
    Handlers.find (hs ++ hs') phase type = hs.find phase type ++ hs'.find phase type := by
  unfold Handlers.find
  rw [List.filter_append, List.map_append]

/-- A handler is found for its own phase and types. -/
theorem find_single (h : Handler) (phase : Phase) (type : NodeType) :
    Handlers.find [h] phase type =
      if type ∈ h.types ∧ h.phase = phase then [h.function] else [] := by
  unfold Handlers.find
  by_cases hphase : h.phase = phase <;> by_cases htype : type ∈ h.types <;>
    simp [hphase, htype]

/-- The function that an object has for a phase is found in that phase. -/
theorem find_inPhase {o : ObjectId}
    (h : (do
      match ← getProperty (.object o) (.string phase.text) with
      | .undefined => return []
      | f => return [← handler key types phase f] : Script Handlers) m = .ok hs m') :
    m' = m ∧ ∀ phase' type, hs.find phase' type =
      if type ∈ types ∧ phase = phase' then functionIn m o phase' else [] := by
  have hget : getProperty (.object o) (.string phase.text) m =
      .ok (((m.object o).get? phase.text).getD .undefined) m :=
    getProperty_object o (by cases phase <;> decide)
  rw [bind_eq_of_ok hget] at h
  -- an absent property and an undefined one are the same: no handler
  have hfunction : functionIn m o phase =
      match ((m.object o).get? phase.text).getD .undefined with
      | .undefined => []
      | f => [f] := by
    unfold functionIn
    cases (m.object o).get? phase.text with
    | none => rfl
    | some f => cases f <;> rfl
  generalize ((m.object o).get? phase.text).getD .undefined = f at h hfunction
  cases f with
  | undefined =>
    cases h
    refine ⟨rfl, fun phase' type => ?_⟩
    split
    · next hcond =>
      rw [← hcond.2, hfunction]
      rfl
    · rfl
  | _ =>
    obtain ⟨g, m₁, hg, h⟩ := exists_of_bind_ok h
    cases h
    obtain ⟨rfl, -, rfl⟩ := handler_ok hg
    refine ⟨rfl, fun phase' type => ?_⟩
    rw [find_single]
    refine if_ctx_congr Iff.rfl (fun hcond => ?_) fun _ => rfl
    rw [← hcond.2, hfunction]

/-- A value that is a function itself is found in the phase of its key. -/
theorem find_itself {phase' : Phase} (hcallable : v.isCallable = true)
    (hphase : phaseOf key = phase) :
    Handlers.find [⟨phase, types, v⟩] phase' type =
      if type ∈ types then functionsOf m phase' key v else [] := by
  unfold functionsOf
  rw [find_single, if_pos hcallable, hphase, ite_and]

/-- The handlers of one key, whatever form its value has. -/
theorem find_handlersOf (h : handlersOf key v m = .ok hs m') :
    m' = m ∧ ∀ phase type, hs.find phase type =
      if isIgnored key = false ∧ Covers key type then functionsOf m phase key v else [] := by
  unfold handlersOf at h
  split at h
  · next hignored =>
    cases h
    refine ⟨rfl, fun phase type => ?_⟩
    rw [if_neg fun hkey => by rw [hkey.1] at hignored; cases hignored]
    rfl
  · next hignored =>
    rw [Bool.not_eq_true] at hignored
    obtain ⟨types, m₁, hread, hrun⟩ := exists_of_bind_ok h
    obtain ⟨htypes, rfl⟩ := orNoPlugin_ok hread
    have hcovers (type : NodeType) : (isIgnored key = false ∧ Covers key type) ↔ type ∈ types := by
      rw [mem_keyTypes htypes]
      exact and_iff_right hignored
    simp only [hcovers]
    clear h hread htypes hcovers
    split at hrun
    · next henter =>
      obtain ⟨g, m₂, hg, hend⟩ := exists_of_bind_ok hrun
      cases hend
      obtain ⟨rfl, hcallable, rfl⟩ := handler_ok hg
      exact ⟨rfl, fun phase type => find_itself hcallable (by rw [eq_of_beq henter]; rfl)⟩
    split at hrun
    · next hexit =>
      obtain ⟨g, m₂, hg, hend⟩ := exists_of_bind_ok hrun
      cases hend
      obtain ⟨rfl, hcallable, rfl⟩ := handler_ok hg
      exact ⟨rfl, fun phase type => find_itself hcallable (by rw [eq_of_beq hexit]; rfl)⟩
    · next hexit =>
      have hphase : phaseOf key = .enter := if_neg fun heq => hexit (beq_iff_eq.mpr heq)
      split at hrun
      · -- a function is a handler itself, an object may hold one for each phase
        next hcallable =>
        cases hrun
        exact ⟨rfl, fun phase type => find_itself hcallable hphase⟩
      · next hcallable =>
        split at hrun
        · next o =>
          obtain ⟨inEnter, m₁, henter, hrun⟩ := exists_of_bind_ok hrun
          obtain ⟨inExit, m₂, hexit, hrun⟩ := exists_of_bind_ok hrun
          cases hrun
          obtain ⟨rfl, hfindEnter⟩ := find_inPhase henter
          obtain ⟨rfl, hfindExit⟩ := find_inPhase hexit
          refine ⟨rfl, fun phase type => ?_⟩
          rw [find_append, hfindEnter, hfindExit]
          unfold functionsOf
          rw [if_neg hcallable]
          cases phase <;> simp
        · cases hrun

/-- The handlers of several keys are found in the order of the keys. -/
theorem find_mapM {properties : List (String × Value)} {hss : List Handlers}
    (h : (properties.mapM fun (key, v) => handlersOf key v : Script (List Handlers)) m =
      .ok hss m') :
    m' = m ∧ ∀ phase type, Handlers.find hss.flatten phase type =
      (properties.filter fun p => isIgnored p.1 = false ∧ Covers p.1 type).flatMap fun p =>
        functionsOf m phase p.1 p.2 := by
  induction properties generalizing hss with
  | nil =>
    cases h
    exact ⟨rfl, fun phase type => rfl⟩
  | cons p properties ih =>
    rw [List.mapM_cons] at h
    obtain ⟨hs, m₁, hfirst, hrest⟩ := exists_of_bind_ok h
    obtain ⟨rfl, hfind⟩ := find_handlersOf hfirst
    obtain ⟨hss', m₂, hmore, hend⟩ := exists_of_bind_ok hrest
    cases hend
    obtain ⟨rfl, hfindMore⟩ := ih hmore
    refine ⟨rfl, fun phase type => ?_⟩
    rw [List.flatten_cons, find_append, hfind, hfindMore, List.filter_cons]
    by_cases hkey : isIgnored p.1 = false ∧ Covers p.1 type
    · rw [if_pos hkey, if_pos (decide_eq_true hkey), List.flatMap_cons]
    · rw [if_neg hkey, if_neg (by rwa [decide_eq_true_eq]), List.nil_append]

/-- **The functions of a visitor.** What a visitor has for a phase and a type are the functions of
those of its properties that are not passed over and of which the key covers the type, in the order
of the properties and once for each. -/
theorem find_visitorHandlers {plugin : Value} {o : ObjectId}
    (hvisitor : getProperty plugin (.string "visitor") m = .ok (.object o) m₁)
    (h : visitorHandlers plugin m = .ok hs m') (phase : Phase) (type : NodeType) :
    m' = m₁ ∧ hs.find phase type =
      ((m₁.object o).properties.filter fun p => isIgnored p.1 = false ∧ Covers p.1 type).flatMap
        fun p => functionsOf m₁ phase p.1 p.2 := by
  unfold visitorHandlers at h
  rw [bind_eq_of_ok hvisitor] at h
  obtain ⟨_, _, hget, hread⟩ := exists_of_bind_ok h
  cases hget
  obtain ⟨hss, m₂, hmap, hend⟩ := exists_of_bind_ok hread
  cases hend
  obtain ⟨rfl, hfind⟩ := find_mapM hmap
  exact ⟨rfl, hfind phase type⟩

/-- Keys with overlapping parts. -/
theorem find_visitorHandlers_of_overlapping :
    let f : Value := .native (.global .parseInt)
    let g : Value := .native (.global .parseFloat)
    let m : Machine :=
      { budget := {}
        objects := #[{ properties := [("visitor", .object ⟨1⟩)] },
          { properties := [("_note", .null), ("Identifier| Expression |Identifier", f),
            ("exit", g), ("Literal|enter", .object ⟨2⟩)] },
          { properties := [("exit", f), ("enter", g)] }] }
    ∃ hs, visitorHandlers (.object ⟨0⟩) m = .ok hs m ∧ hs.find .enter .identifier = [f, g] ∧
      hs.find .exit .identifier = [g, f] := by
  intro f g m
  have hvisitor : getProperty (.object ⟨0⟩) (.string "visitor") m = .ok (.object ⟨1⟩) m := rfl
  have hsucceeds : (match visitorHandlers (.object ⟨0⟩) m with
      | .ok _ _ => true
      | .error _ _ => false) = true := by decide +kernel
  cases hrun : visitorHandlers (.object ⟨0⟩) m with
  | error e m' =>
    rw [hrun] at hsucceeds
    cases hsucceeds
  | ok hs m' =>
    obtain ⟨rfl, henter⟩ := find_visitorHandlers hvisitor hrun .enter .identifier
    obtain ⟨-, hexit⟩ := find_visitorHandlers hvisitor hrun .exit .identifier
    -- the ignored key falls out, the other three cover the type
    have hkeys : (m.object ⟨1⟩).properties.filter (fun p => isIgnored p.1 = false ∧
        Covers p.1 .identifier) = (m.object ⟨1⟩).properties.tail := by
      have hnote : ¬(isIgnored "_note" = false ∧ Covers "_note" .identifier) := by decide +kernel
      have hfirst : isIgnored "Identifier| Expression |Identifier" = false ∧
          Covers "Identifier| Expression |Identifier" .identifier := by decide +kernel
      have hsecond : isIgnored "exit" = false ∧ Covers "exit" .identifier := by decide +kernel
      have hthird : isIgnored "Literal|enter" = false ∧ Covers "Literal|enter" .identifier := by
        decide +kernel
      show List.filter _ [_, _, _, _] = [_, _, _]
      simp only [List.filter_cons, hnote, hfirst, hsecond, hthird]
      rfl
    rw [hkeys] at henter hexit
    exact ⟨hs, rfl, henter, hexit⟩

end Plugin

end Espalier
