import Mathlib.Data.List.Duplicate
import Mathlib.Data.List.Perm.Subperm
import Mathlib.Logic.Relation
import Espalier.Proofs.Script.Operation

/-!
# Conversions that end

The text of an array is made of the texts of its items, the text of an error of those of its name
and its message, and the number of an array with one item is that of the item. Scripts can put
containers into themselves, so a conversion need not end; and while a property is written, the
container that gets it cannot be read. These are the only reasons for which a conversion is not
carried out: `Machine.TextEnds` and `Machine.NumberEnds` say of a value that neither applies.

Conversions count the containers that they are inside of and give up when these are more than there
are. `Within` is the count by itself; it is enough (`within_iff`) because a chain of containers that
is longer than their number comes back to one of them.
-/

namespace Espalier.Script

open Relation (ReflTransGen TransGen)

/-! ### Chains of containers -/

section Chains

variable {α : Type} (needs : α → α → Prop) (isLocked : α → Prop)

/-- Whatever is needed from `c` on is not locked, and is found within `n` levels. -/
def Within : Nat → α → Prop
  | 0, _ => False
  | n + 1, c => ¬ isLocked c ∧ ∀ d, needs c d → Within n d

variable {needs isLocked}

/-- Some levels are enough for all that is needed on the way. -/
theorem Within.of_reflTransGen {n : Nat} {c d : α} (h : Within needs isLocked n c)
    (hcd : ReflTransGen needs c d) : ∃ k ≤ n, Within needs isLocked k d := by
  induction hcd with
  | refl => exact ⟨n, Nat.le_refl n, h⟩
  | tail _ hstep ih =>
    obtain ⟨k, hk, hwithin⟩ := ih
    cases k with
    | zero => exact hwithin.elim
    | succ k => exact ⟨k, Nat.le_of_succ_le hk, hwithin.2 _ hstep⟩

/-- And fewer are enough for what is needed strictly below. -/
theorem Within.of_transGen {n : Nat} {c d : α} (h : Within needs isLocked n c)
    (hcd : TransGen needs c d) : ∃ k < n, Within needs isLocked k d := by
  obtain ⟨e, hce, hed⟩ := TransGen.head'_iff.mp hcd
  cases n with
  | zero => exact h.elim
  | succ n =>
    obtain ⟨k, hk, hwithin⟩ := (h.2 e hce).of_reflTransGen hed
    exact ⟨k, Nat.lt_succ_of_le hk, hwithin⟩

/-- What needs itself is not found within any number of levels. -/
theorem Within.not_transGen {n : Nat} {c : α} (h : Within needs isLocked n c) :
    ¬ TransGen needs c c := by
  induction n using Nat.strongRecOn with
  | ind n ih =>
    -- Going around once leads to the same thing with fewer levels left.
    intro hcycle
    obtain ⟨k, hk, hwithin⟩ := h.of_transGen hcycle
    exact ih k hk hwithin hcycle

/-- If the levels do not suffice, something locked is needed, or there is a chain of that length. -/
theorem exists_of_not_within {n : Nat} {c : α} (h : ¬ Within needs isLocked n c) :
    (∃ d, ReflTransGen needs c d ∧ isLocked d) ∨
      ∃ cs : List α, cs.length = n ∧ (c :: cs).IsChain needs := by
  induction n generalizing c with
  | zero => exact .inr ⟨[], rfl, .singleton c⟩
  | succ n ih =>
    by_cases hlocked : isLocked c
    · exact .inl ⟨c, .refl, hlocked⟩
    · obtain ⟨d, hcd, hd⟩ : ∃ d, needs c d ∧ ¬ Within needs isLocked n d := by
        by_contra hall
        push Not at hall
        exact h ⟨hlocked, hall⟩
      rcases ih hd with ⟨e, hde, he⟩ | ⟨cs, hlength, hchain⟩
      · exact .inl ⟨e, .head hcd hde, he⟩
      · exact .inr ⟨d :: cs, congrArg Nat.succ hlength, .cons_cons hcd hchain⟩

/-- A chain with a repetition comes back to something. -/
theorem exists_cycle_of_not_nodup {c : α} {cs : List α} (hchain : (c :: cs).IsChain needs)
    (h : ¬ (c :: cs).Nodup) : ∃ d, ReflTransGen needs c d ∧ TransGen needs d d := by
  have hpairs : (c :: cs).Pairwise (TransGen needs) :=
    List.isChain_iff_pairwise.mp (hchain.imp fun _ _ => .single)
  obtain ⟨d, hd⟩ := List.exists_duplicate_iff_not_nodup.mpr h
  refine ⟨d, ?_, ?_⟩
  · rcases List.mem_cons.mp hd.mem with rfl | hmem
    · exact .refl
    · exact (List.rel_of_pairwise_cons hpairs hmem).to_reflTransGen
  · have htwo := hpairs.sublist (List.duplicate_iff_sublist.mp hd)
    exact List.rel_of_pairwise_cons htwo (List.mem_singleton_self d)

/-- All but the last of a chain need something. -/
theorem exists_needs_of_mem_dropLast {cs : List α} (hchain : cs.IsChain needs) {c : α}
    (hc : c ∈ cs.dropLast) : ∃ d, needs c d := by
  induction hchain with
  | nil => cases hc
  | singleton => cases hc
  | @cons_cons a b cs hab _ ih =>
    rcases List.mem_cons.mp hc with rfl | hc
    · exact ⟨b, hab⟩
    · exact ih hc

/-- If only some things need others, more levels than there are such things are enough, unless
something locked is needed or something needs itself. -/
theorem within_iff {all : List α} (hall : ∀ c d, needs c d → c ∈ all) {n : Nat}
    (hn : all.length < n) (c : α) :
    Within needs isLocked n c ↔
      ∀ d, ReflTransGen needs c d → ¬ isLocked d ∧ ¬ TransGen needs d d := by
  constructor
  · intro h d hcd
    obtain ⟨k, -, hwithin⟩ := h.of_reflTransGen hcd
    cases k with
    | zero => exact hwithin.elim
    | succ k => exact ⟨hwithin.1, hwithin.not_transGen⟩
  · intro h
    by_contra hnot
    rcases exists_of_not_within hnot with ⟨d, hcd, hd⟩ | ⟨cs, hlength, hchain⟩
    · exact (h d hcd).1 hd
    · have hnodup : (c :: cs).Nodup := by
        by_contra hdup
        obtain ⟨d, hcd, hcycle⟩ := exists_cycle_of_not_nodup hchain hdup
        exact (h d hcd).2 hcycle
      -- All but the last of the chain need something, and there are too few such things.
      have hsubset : (c :: cs).dropLast ⊆ all := fun d hd =>
        have ⟨e, hde⟩ := exists_needs_of_mem_dropLast hchain hd
        hall d e hde
      have hle := (List.Nodup.subperm (hnodup.sublist (List.dropLast_sublist _)) hsubset).length_le
      rw [List.length_dropLast, List.length_cons, hlength] at hle
      omega

end Chains

/-! ### Containers -/

/-- The container that a value is. -/
def Value.container? : Value → Option Container
  | .array a => some (.array a)
  | .object o => some (.object o)
  | _ => none

/-- A container as a value. -/
def Container.value : Container → Value
  | array a => .array a
  | object o => .object o

/-- A container is a value of its own. -/
theorem Value.eq_of_container? {v : Value} {c : Container} (h : v.container? = some c) :
    v = c.value := by
  cases v <;> cases h <;> rfl

namespace Machine

variable (m : Machine)

/-- The containers that there are. -/
def containers : List Container :=
  (List.range m.arrays.size).map (.array ⟨·⟩) ++ (List.range m.objects.size).map (.object ⟨·⟩)

/-- There are fewer containers than levels of nesting. -/
theorem length_containers_lt : m.containers.length < m.nesting := by
  simp [containers, nesting]

variable {m}

/-- An array that holds something is among the containers. -/
theorem mem_containers_of_items {a : ArrayId} {v : Value} (h : v ∈ (m.items a).toList) :
    .array a ∈ m.containers := by
  have hlt : a.place < m.arrays.size := by
    by_contra hge
    have hnone : m.items a = #[] := Array.getD_eq_getD_getElem? .. |>.trans (by simp [hge])
    rw [hnone] at h
    cases h
  exact List.mem_append_left _ (List.mem_map.mpr ⟨a.place, List.mem_range.mpr hlt, rfl⟩)

theorem mem_containers_of_kind {o : ObjectId} (h : (m.object o).kind = .error) :
    .object o ∈ m.containers := by
  have hlt : o.place < m.objects.size := by
    by_contra hge
    have hnone : m.object o = default := Array.getD_eq_getD_getElem? .. |>.trans (by simp [hge])
    rw [hnone] at h
    cases h
  exact List.mem_append_right _ (List.mem_map.mpr ⟨o.place, List.mem_range.mpr hlt, rfl⟩)

variable (m)

/-! ### Texts -/

/-- The values whose texts the text of a container is made of. -/
def textParts : Container → List Value
  | .array a => (m.items a).toList.filter (! ·.isNullish)
  | .object o =>
    if (m.object o).kind = .error then ["name", "message"].filterMap (m.object o).get? else []

/-- The text of a container is made of that of another one. -/
def TextNeeds (c d : Container) : Prop := ∃ v ∈ m.textParts c, v.container? = some d

variable {m}

/-- What needs another text is among the containers. -/
theorem mem_containers_of_textNeeds {c d : Container} (h : m.TextNeeds c d) :
    c ∈ m.containers := by
  obtain ⟨v, hv, -⟩ := h
  cases c with
  | array a => exact mem_containers_of_items (List.mem_of_mem_filter hv)
  | object o =>
    unfold textParts at hv
    dsimp only at hv
    split at hv
    · next herror => exact mem_containers_of_kind herror
    · cases hv

/-- Anything that is no container has a text at once. -/
theorem isSome_textWithin?_of_container? {locked : Option Container} {v : Value}
    (h : v.container? = none) (n : Nat) : (m.textWithin? locked n v).isSome := by
  cases v with
  | array | object => cases h
  | _ => cases n <;> rfl

/-- A list is mapped when each of its items is. -/
theorem isSome_mapM {α β : Type} {f : α → Option β} {as : List α} :
    (as.mapM f).isSome ↔ ∀ a ∈ as, (f a).isSome := by
  induction as with
  | nil => simp
  | cons a as ih =>
    rw [List.mapM_cons, List.forall_mem_cons, ← ih]
    cases f a with
    | none => simp
    | some b => cases as.mapM f <;> simp

/-- The parts of a container all have texts if the containers that it needs have. -/
theorem isSome_textWithin?_parts {locked : Option Container} {n : Nat} {c : Container} :
    (∀ v ∈ m.textParts c, (m.textWithin? locked n v).isSome) ↔
      ∀ d, m.TextNeeds c d → (m.textWithin? locked n d.value).isSome := by
  constructor
  · rintro h d ⟨v, hv, hd⟩
    rw [← Value.eq_of_container? hd]
    exact h v hv
  · intro h v hv
    cases hd : v.container? with
    | none => exact isSome_textWithin?_of_container? hd n
    | some d =>
      rw [Value.eq_of_container? hd]
      exact h d ⟨v, hv, hd⟩

/-- An array has a text when all its parts have one, and it is not locked. -/
theorem isSome_textWithin?_array {locked : Option Container} {n : Nat} {a : ArrayId} :
    (m.textWithin? locked (n + 1) (.array a)).isSome ↔
      locked ≠ some (.array a) ∧
        ∀ v ∈ m.textParts (.array a), (m.textWithin? locked n v).isSome := by
  rw [textWithin?]
  by_cases hlocked : locked = some (.array a)
  · simp [hlocked]
  · have htexts : ∀ texts? : Option (List String),
        (do let texts ← texts?; return ",".intercalate texts : Option String).isSome =
          texts?.isSome := by
      intro texts?
      cases texts? <;> rfl
    rw [if_neg (by simpa using hlocked), htexts, isSome_mapM]
    simp only [textParts, List.mem_filter, ne_eq, hlocked, not_false_eq_true, true_and]
    refine forall_congr' fun v => ?_
    cases v.isNullish <;> simp

/-- An error has a text when its name and message have one, any other object at once. -/
theorem isSome_textWithin?_object {locked : Option Container} {n : Nat} {o : ObjectId} :
    (m.textWithin? locked (n + 1) (.object o)).isSome ↔
      locked ≠ some (.object o) ∧
        ∀ v ∈ m.textParts (.object o), (m.textWithin? locked n v).isSome := by
  rw [textWithin?]
  by_cases hlocked : locked = some (.object o)
  · simp [hlocked]
  · rw [if_neg (by simpa using hlocked)]
    simp only [textParts]
    cases (m.object o).kind with
    | plain => simp [hlocked]
    | types => simp [hlocked]
    | error =>
      have hboth : ∀ name? message? : Option String,
          (do
            let name ← name?
            let message ← message?
            return if message.isEmpty then name else name ++ ": " ++ message :
              Option String).isSome ↔
            name?.isSome ∧ message?.isSome := by
        intro name? message?
        cases name? <;> cases message? <;> simp
      -- a part that is missing has a text of its own
      have hpart : ∀ (v? : Option Value) {text? : Option String}, (v? = none → text?.isSome) →
          (∀ v, v? = some v → text? = m.textWithin? locked n v) →
            (text?.isSome ↔ ∀ v, v? = some v → (m.textWithin? locked n v).isSome) := by
        intro v? text? hnone hsome
        cases v? with
        | none => simp [hnone rfl]
        | some v => simp [hsome v rfl]
      refine (hboth _ _).trans ((and_congr (hpart ((m.object o).get? "name") ?_ ?_)
        (hpart ((m.object o).get? "message") ?_ ?_)).trans ?_)
      · exact fun h => by rw [h]; rfl
      · exact fun v h => by rw [h]
      · exact fun h => by rw [h]; rfl
      · exact fun v h => by rw [h]
      simp [hlocked, or_imp, forall_and]

/-- The text of a container can be found within a number of levels. -/
theorem isSome_textWithin? (locked : Option Container) (n : Nat) (c : Container) :
    (m.textWithin? locked n c.value).isSome ↔ Within m.TextNeeds (locked = some ·) n c := by
  induction n generalizing c with
  | zero => cases c <;> exact ⟨nofun, nofun⟩
  | succ n ih =>
    simp only [Within, ← ih, ← isSome_textWithin?_parts]
    cases c with
    | array a => exact isSome_textWithin?_array
    | object o => exact isSome_textWithin?_object

/-- Nothing that the text of a value is made of is locked or contains itself. -/
def TextEnds (m : Machine) (locked : Option Container) (v : Value) : Prop :=
  ∀ c, v.container? = some c → ∀ d, ReflTransGen m.TextNeeds c d →
    locked ≠ some d ∧ ¬ TransGen m.TextNeeds d d

/-- A value has a text exactly if nothing needed for it needs itself. -/
theorem isSome_text?_iff (locked : Option Container) (v : Value) :
    (m.text? v locked).isSome ↔ m.TextEnds locked v := by
  unfold text? TextEnds
  cases hc : v.container? with
  | none => exact iff_of_true (isSome_textWithin?_of_container? hc _) nofun
  | some c =>
    rw [Value.eq_of_container? hc, isSome_textWithin?,
      within_iff (fun _ _ => mem_containers_of_textNeeds) m.length_containers_lt]
    exact ⟨fun h _ hc' => Option.some.inj hc' ▸ h, fun h => h c rfl⟩

/-! ### Numbers -/

/-- The number of an array is that of another one. -/
def NumberNeeds (m : Machine) (a b : ArrayId) : Prop := (m.items a).toList = [.array b]

theorem isSome_numberWithin?_of_ne {v : Value} (h : ∀ a, v ≠ .array a) (n : Nat) :
    (m.numberWithin? n v).isSome := by
  cases v with
  | array a => exact absurd rfl (h a)
  | _ => cases n <;> rfl

/-- The number of an array can be found within a number of levels. -/
theorem isSome_numberWithin? (n : Nat) (a : ArrayId) :
    (m.numberWithin? n (.array a)).isSome ↔ Within m.NumberNeeds (fun _ => False) n a := by
  induction n generalizing a with
  | zero => exact ⟨nofun, nofun⟩
  | succ n ih =>
    simp only [Within, ← ih, not_false_eq_true, true_and, NumberNeeds]
    rw [numberWithin?]
    match (m.items a).toList with
    | [] => simp
    | [v] =>
      by_cases hv : ∃ b, v = .array b
      · obtain ⟨b, rfl⟩ := hv
        simp
      · push Not at hv
        exact iff_of_true (isSome_numberWithin?_of_ne hv n) fun b hb =>
          absurd (List.cons.inj hb).1 (hv b)
    | _ :: _ :: _ => simp

/-- Nothing that the number of a value is made of contains itself. -/
def NumberEnds (m : Machine) (v : Value) : Prop :=
  ∀ a, v = .array a → ∀ b, ReflTransGen m.NumberNeeds a b → ¬ TransGen m.NumberNeeds b b

/-- A value has a number exactly if its text, where it needs one, ends. -/
theorem isSome_number?_iff (v : Value) : (m.number? v).isSome ↔ m.NumberEnds v := by
  unfold number? NumberEnds
  by_cases hv : ∃ a, v = .array a
  · obtain ⟨a, rfl⟩ := hv
    have hall : ∀ c d, m.NumberNeeds c d → c ∈ (List.range m.arrays.size).map ArrayId.mk := by
      intro c d h
      have hmem := mem_containers_of_items (m := m) (a := c) (v := .array d) (by rw [h]; simp)
      simpa [containers] using hmem
    have hlength : ((List.range m.arrays.size).map ArrayId.mk).length < m.nesting := by
      rw [List.length_map, List.length_range, nesting]
      omega
    rw [isSome_numberWithin?, within_iff hall hlength]
    exact ⟨fun h _ ha b hb => ((Value.array.inj ha ▸ h) b hb).2, fun h b hb => ⟨id, h a rfl b hb⟩⟩
  · push Not at hv
    exact iff_of_true (isSome_numberWithin?_of_ne hv _) fun a ha => absurd ha (hv a)

end Machine

/-! ### Operations -/

/-- An operation cannot be carried out. -/
def Aborts {α : Type} (x : Script α) (m : Machine) : Prop :=
  x m = .error .aborted (m.enter .aborted)

variable (m : Machine) (v : Value)

/-- Asking for a text either gives it or aborts. -/
theorem toTextLocking_eq (locked : Option Container) :
    toTextLocking locked v m =
      match m.text? v locked with
      | some s => .ok s m
      | none => .error .aborted (m.enter .aborted) := by
  unfold toTextLocking
  split
  · rfl
  · show (match m.text? v locked with
        | some s => pure s
        | none => giveUp .aborted : Script String) m = _
    cases m.text? v locked <;> rfl

/-- So does asking for a number. -/
theorem toNumber_eq :
    toNumber v m =
      match m.number? v with
      | some x => .ok x m
      | none => .error .aborted (m.enter .aborted) := by
  unfold toNumber
  split
  · rfl
  · show (match m.number? v with | some x => pure x | none => giveUp .aborted : Script Float) m = _
    cases m.number? v <;> rfl

/-- Asking for a text aborts exactly if the text does not end. -/
theorem aborts_toTextLocking_iff (locked : Option Container) :
    Aborts (toTextLocking locked v) m ↔ ¬ m.TextEnds locked v := by
  rw [← Machine.isSome_text?_iff, Aborts, toTextLocking_eq]
  cases m.text? v locked <;> simp

/-- Asking for a number aborts exactly if it does not end. -/
theorem aborts_toNumber_iff : Aborts (toNumber v) m ↔ ¬ m.NumberEnds v := by
  rw [← Machine.isSome_number?_iff, Aborts, toNumber_eq]
  cases m.number? v <;> simp

/-- An operation after a conversion that cannot fail in that way itself. -/
theorem aborts_bind_toTextLocking_iff {α : Type} (locked : Option Container)
    {f : String → Script α} (hf : ∀ s, ¬ Aborts (f s) m) :
    Aborts (toTextLocking locked v >>= f) m ↔ ¬ m.TextEnds locked v := by
  rw [← Machine.isSome_text?_iff]
  have heq := toTextLocking_eq m v locked
  cases htext : m.text? v locked with
  | none =>
    rw [htext] at heq
    exact iff_of_true (bind_eq_error heq f) (by simp)
  | some s =>
    rw [htext] at heq
    rw [Aborts, bind_eq_of_ok heq]
    exact iff_of_false (hf s) (by simp)

/-- The object that is set is locked while the key is converted. -/
theorem aborts_setProperty_object_iff (o : ObjectId) (key value : Value) :
    Aborts (setProperty (.object o) key value) m ↔ ¬ m.TextEnds (some (.object o)) key :=
  aborts_bind_toTextLocking_iff m key _ fun _ => nofun

/-- An array is locked unless the key is an index. -/
theorem aborts_setProperty_array_iff (a : ArrayId) (key value : Value) :
    Aborts (setProperty (.array a) key value) m ↔
      arrayIndex? key = none ∧ ¬ m.TextEnds (some (.array a)) key := by
  unfold setProperty
  dsimp only
  cases arrayIndex? key with
  | some i =>
    refine iff_of_false ?_ (by simp)
    dsimp only
    split <;> exact nofun
  | none =>
    simp only [true_and]
    refine aborts_bind_toTextLocking_iff m key _ fun name => ?_
    split
    · split <;> exact nofun
    · exact nofun

/-- An object is never the key of a property of its own. -/
theorem aborts_setProperty_self (o : ObjectId) (value : Value) :
    Aborts (setProperty (.object o) (.object o) value) m :=
  (aborts_setProperty_object_iff m o (.object o) value).mpr fun h => (h _ rfl _ .refl).1 rfl

/-- A value whose text is made of its own has none. -/
theorem aborts_toText_of_textNeeds {c : Container} (h : m.TextNeeds c c) :
    Aborts (toText c.value) m :=
  (aborts_toTextLocking_iff m _ none).mpr fun hends =>
    (hends c (by cases c <;> rfl) c .refl).2 (.single h)

/-- An array with itself as an item has no text. -/
theorem aborts_toText_of_mem {a : ArrayId} (h : .array a ∈ (m.items a).toList) :
    Aborts (toText (.array a)) m :=
  aborts_toText_of_textNeeds m (c := .array a) ⟨.array a, List.mem_filter.mpr ⟨h, rfl⟩, rfl⟩

/-- An error with itself as its message has no text. -/
theorem aborts_toText_of_message {o : ObjectId} (herror : (m.object o).kind = .error)
    (h : (m.object o).get? "message" = some (.object o)) : Aborts (toText (.object o)) m := by
  refine aborts_toText_of_textNeeds m (c := .object o) ⟨.object o, ?_, rfl⟩
  rw [Machine.textParts, if_pos herror]
  exact List.mem_filterMap.mpr ⟨"message", .tail _ (.head _), h⟩

/-- **When a conversion is not carried out.** The number of a value is found unless an array with
one item comes back to itself. The text is found unless it is made of that of a container that
contains itself, or that is locked; and a property of an object or an array is written, or refused
with an error, unless the text of the key is not found while the container is locked. -/
theorem conversions_abort_iff :
    (Aborts (toNumber v) m ↔ ¬ m.NumberEnds v) ∧
      (∀ locked, Aborts (toTextLocking locked v) m ↔ ¬ m.TextEnds locked v) ∧
      (∀ o value, Aborts (setProperty (.object o) v value) m ↔
        ¬ m.TextEnds (some (.object o)) v) ∧
      ∀ a value, Aborts (setProperty (.array a) v value) m ↔
        arrayIndex? v = none ∧ ¬ m.TextEnds (some (.array a)) v :=
  ⟨aborts_toNumber_iff m v, aborts_toTextLocking_iff m v,
    fun o value => aborts_setProperty_object_iff m o v value,
    fun a value => aborts_setProperty_array_iff m a v value⟩

end Espalier.Script
