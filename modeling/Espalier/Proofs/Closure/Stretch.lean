import Espalier.Proofs.Closure.Literal
import Espalier.Proofs.Grammar.Cover
import Espalier.Proofs.Grammar.Function

/-!
# Functions start apart

No two functions in a source start at the same place: before a reader comes to the functions inside
a function, it leaves a token that belongs to the outer one alone. A reader `Owns` what it has read
if the functions that are written there start apart, between the first token and the one in front of
which it stops; it `Enters` what it reads if none of them starts with the first token itself.
-/

namespace Espalier

open Token

namespace Parse

variable {α β σ : Type} {cs : List Char} {lo : Nat} {env : Env} {st st' : State}
  {ps qs : Multiset ℕ}

/-! ### Starts along a stretch -/

/-- The state lies in the source, at or behind a place, and functions start apart between them. -/
structure Stretch (cs : List Char) (lo : Nat) (st : State) (ps : Multiset ℕ) : Prop where
  isIn : st.IsIn cs
  le : lo ≤ st.pos
  nodup : ps.Nodup
  within : ∀ n ∈ ps, lo ≤ n ∧ n < st.pos

/-- Before anything is read there is no function yet. -/
theorem State.IsIn.stretch (h : st.IsIn cs) (hlo : lo ≤ st.pos) : Stretch cs lo st 0 :=
  ⟨h, hlo, Multiset.nodup_zero, fun _ hn => absurd hn (Multiset.notMem_zero _)⟩

/-- The next token does not start before the one before it. -/
theorem State.IsIn.pos_le_next (h : st.IsIn cs) : st.pos ≤ st.next.pos := by
  obtain ⟨text, hreads, -⟩ := h.isRead.reads
  have hstop : st.current.after.pos ≤ st.next.pos := by
    have hnext : st.current.token.span.stop ≤ st.next.pos := h.next.prevEnd_le
    rwa [h.isRead.span_eq] at hnext
  rw [h.pos_eq]
  exact Nat.le_trans hreads.pos_le hstop

namespace Stretch

/-- A stretch with some functions is one with fewer of them. -/
theorem of_le (h : Stretch cs lo st ps) (hle : qs ≤ ps) : Stretch cs lo st qs :=
  ⟨h.isIn, h.le, Multiset.nodup_of_le hle h.nodup,
    fun n hn => h.within n (Multiset.mem_of_le hle hn)⟩

/-- The starts may be written in another order. -/
theorem of_eq (h : Stretch cs lo st ps) (heq : qs = ps) : Stretch cs lo st qs := heq ▸ h

/-- A stretch may be taken to start earlier. -/
theorem back {lo' : Nat} (h : Stretch cs lo st ps) (hle : lo' ≤ lo) : Stretch cs lo' st ps := by
  refine ⟨h.isIn, Nat.le_trans hle h.le, h.nodup, fun n hn => ?_⟩
  have hwithin := h.within n hn
  omega

/-- What starts further on starts apart from what starts along the stretch. -/
theorem trans (h : Stretch cs lo st ps) (h' : Stretch cs st.pos st' qs) :
    Stretch cs lo st' (qs + ps) := by
  have hle := h.le
  have hle' := h'.le
  refine ⟨h'.isIn, by omega, ?_, fun n hn => ?_⟩
  · rw [Multiset.nodup_add]
    refine ⟨h'.nodup, h.nodup, Multiset.disjoint_left.mpr fun {n} hq hp => ?_⟩
    have hbehind := h'.within n hq
    have hbefore := h.within n hp
    omega
  · rcases Multiset.mem_add.mp hn with hq | hp
    · have hbehind := h'.within n hq
      omega
    · have hbefore := h.within n hp
      omega

/-- A function starts apart from what starts behind its first token. -/
theorem open_at (h : Stretch cs (lo + 1) st ps) : Stretch cs lo st ({lo} + ps) := by
  have hle := h.le
  have hapart : lo ∉ ps := fun hn => by
    have hwithin := h.within lo hn
    omega
  refine ⟨h.isIn, by omega, ?_, fun n hn => ?_⟩
  · rw [Multiset.singleton_add, Multiset.nodup_cons]
    exact ⟨hapart, h.nodup⟩
  · rcases Multiset.mem_add.mp hn with hlo | hp
    · have heq := Multiset.mem_singleton.mp hlo
      omega
    · have hwithin := h.within n hp
      omega

/-- A stretch goes on over the next token. -/
theorem next (h : Stretch cs lo st ps) : Stretch cs lo st.next ps := by
  have hpos := h.isIn.pos_le_next
  have hle := h.le
  refine ⟨h.isIn.next, by omega, h.nodup, fun n hn => ?_⟩
  have hwithin := h.within n hn
  omega

/-- A state in which the current token is read again. -/
theorem again {st' : State} (h : Stretch cs lo st ps) (hin : st'.IsIn cs)
    (hfirst : st'.current.first = st.current.first) : Stretch cs lo st' ps := by
  have hpos : st'.pos = st.pos := by rw [hin.pos_eq, h.isIn.pos_eq, hfirst]
  exact ⟨hin, hpos ▸ h.le, h.nodup, hpos ▸ h.within⟩

end Stretch

/-! ### Wherever a reader ends -/

/-- The functions in what a reader has read start apart, from its first token on. -/
def Owns (cs : List Char) [HasFunctions α] (p : Parse α) : Prop :=
  ∀ env st, st.IsIn cs → Gives p env st fun a st' => Stretch cs st.pos st' (starts a)

/-- The functions in what a reader has read start apart, behind the start of its first token. -/
def Enters (cs : List Char) [HasFunctions α] (p : Parse α) : Prop :=
  ∀ env st, st.IsIn cs → Gives p env st fun a st' => Stretch cs (st.pos + 1) st' (starts a)

section

variable [HasFunctions α] {p : Parse α}

/-- What begins where it is read has its functions from there on. -/
theorem Enters.owns (h : Enters cs p) : Owns cs p :=
  fun env st hst => (h env st hst).mono fun _ _ h' => h'.back (Nat.le_succ _)

/-- What has no functions has none in front of it. -/
theorem Reads.enters [HasNodes α] [NoFunctions α] (h : Reads cs p) : Enters cs p := by
  refine fun env st hst => (h env st hst).mono fun a st' h' => ?_
  rw [starts_eq_zero a]
  exact h'.isIn.stretch (Nat.lt_of_lt_of_le h'.lt h'.isIn.prevEnd_le)

/-- What may be missing, and has no functions, likewise. -/
theorem MayRead.owns [HasNodes α] [NoFunctions α] (h : MayRead cs p) : Owns cs p := by
  refine fun env st hst => (h env st hst).mono fun a st' h' => ?_
  rw [starts_eq_zero a]
  rcases h' with ⟨rfl, -⟩ | h'
  · exact hst.stretch (Nat.le_refl _)
  · exact h'.isIn.stretch (Nat.le_of_lt (Nat.lt_of_lt_of_le h'.lt h'.isIn.prevEnd_le))

/-- Whether `in` is an operator makes no difference to functions. -/
theorem Owns.withIn (h : Owns cs p) (allow : Bool) : Owns cs (withIn allow p) :=
  fun env st hst => h { env with allowIn := allow } st hst

theorem Owns.withinFunction (h : Owns cs p) (isAsync isGenerator : Bool) :
    Owns cs (withinFunction isAsync isGenerator p) :=
  fun env st hst =>
    h { env with inFunction := true, inAsync := isAsync, inGenerator := isGenerator } st hst

end

/-! ### Readers one after the other -/

namespace Stretch

variable {f : α → Parse β} {Q : β → State → Prop}

section

variable [HasFunctions α] {p : Parse α}

/-- A further reader along a stretch. -/
theorem read (h : Stretch cs lo st ps) (hp : Owns cs p)
    (hf : ∀ a st', Stretch cs lo st' (starts a + ps) → Gives (f a) env st' Q) :
    Gives (p >>= f) env st Q :=
  .bind fun a st' heq => hf a st' (h.trans (hp env st h.isIn a st' heq))

/-- A further reader along a stretch, of something in which no function is written. -/
theorem pass [NoFunctions α] (h : Stretch cs lo st ps) (hp : Owns cs p)
    (hf : ∀ a st', Stretch cs lo st' ps → Gives (f a) env st' Q) : Gives (p >>= f) env st Q := by
  refine h.read hp fun a st' h' => hf a st' ?_
  rwa [starts_eq_zero a, zero_add] at h'

end

/-- The next token is passed, and belongs to the stretch then. -/
theorem advance {f : Token → Parse β} (h : Stretch cs lo st ps)
    (hf : Stretch cs lo st.next ps → Gives (f st.current.token) env st.next Q) :
    Gives (Parse.advance >>= f) env st Q :=
  .step rfl (hf h.next)

/-- A token that may be missing. -/
theorem eat {q : Parse Bool} {p p' : Parse β} (h : Stretch cs lo st ps) (hq : Eats q)
    (yes : Stretch cs lo st.next ps → Gives p env st.next Q) (no : Gives p' env st Q) :
    Gives (q >>= fun b => if b = true then p else p') env st Q := by
  rcases hq env st with heq | ⟨heq, -⟩
  · exact .step heq no
  · exact .step heq (yes h.next)

/-- A repetition along a stretch, every round of which prolongs the stretch. -/
theorem repeated [HasFunctions σ] {round : σ → Parse (Round σ)} {s : σ}
    (h : Stretch cs lo st (starts s + ps))
    (hround : ∀ s st, Stretch cs lo st (starts s + ps) →
      Gives (round s) env st fun r st' => Stretch cs lo st' (starts r + ps)) :
    Gives (repeatFrom round s) env st fun s st' => Stretch cs lo st' (starts s + ps) :=
  gives_repeatFrom h fun s st h => (hround s st h).mono fun r _ h' => by cases r <;> exact h'

/-- A repetition collects functions, round by round. -/
theorem rounds [HasFunctions σ] {round : σ → Parse (Round σ)} {s : σ} {f : σ → Parse β}
    (h : Stretch cs lo st (starts s + ps))
    (hround : ∀ s st, Stretch cs lo st (starts s + ps) →
      Gives (round s) env st fun r st' => Stretch cs lo st' (starts r + ps))
    (hf : ∀ s st', Stretch cs lo st' (starts s + ps) → Gives (f s) env st' Q) :
    Gives (repeatFrom round s >>= f) env st Q :=
  .bind ((h.repeated hround).mono hf)

/-- A repetition along a stretch that starts with nothing in which a function is written. -/
theorem collect [HasFunctions σ] {round : σ → Parse (Round σ)} {s : σ} {f : σ → Parse β}
    (h : Stretch cs lo st ps) (hs : starts s = 0)
    (hround : ∀ s st, Stretch cs lo st (starts s + ps) →
      Gives (round s) env st fun r st' => Stretch cs lo st' (starts r + ps))
    (hf : ∀ s st', Stretch cs lo st' (starts s + ps) → Gives (f s) env st' Q) :
    Gives (repeatFrom round s >>= f) env st Q := by
  refine rounds ?_ hround hf
  rwa [hs, zero_add]

end Stretch

section

variable [HasFunctions α] {p : Parse α} {f : α → Parse β} {Q : β → State → Prop}

/-- The first reader of something that starts at a place. -/
theorem Enters.first (hp : Enters cs p) (hst : st.IsIn cs) (hlo : lo ≤ st.pos)
    (hf : ∀ a st', Stretch cs (lo + 1) st' (starts a) → Gives (f a) env st' Q) :
    Gives (p >>= f) env st Q :=
  .bind fun a st' heq =>
    hf a st' ((hp env st hst a st' heq).back (Nat.succ_le_succ hlo))

/-- The first token of something that starts with it. -/
theorem State.IsIn.enter {f : Token → Parse β} (hst : st.IsIn cs)
    (hk : st.current.token.kind.IsSolid)
    (hf : Stretch cs (st.pos + 1) st.next 0 → Gives (f st.current.token) env st.next Q) :
    Gives (Parse.advance >>= f) env st Q :=
  .step rfl (hf (hst.next.stretch (Nat.lt_of_lt_of_le (hst.pos_lt_stop hk) hst.next.prevEnd_le)))

/-- The span of what was read. -/
theorem Gives.span {f : Span → Parse β} {start : Nat}
    (hf : ∀ s : Span, s.start = start → Gives (f s) env st Q) :
    Gives (Parse.finish start >>= f) env st Q :=
  .step rfl (hf _ rfl)

/-- What is read only after a token that may be missing. -/
theorem Eats.ownsThen {q : Parse Bool} (hq : Eats q) (hp : Owns cs p) :
    Owns cs (do if ← q then return some (← p) else return none) := by
  intro env st hst
  have h := hst.stretch (Nat.le_refl st.pos)
  refine h.eat hq (fun h => ?_) (.ret h)
  exact h.read hp fun a st' h' => .ret (h'.of_eq (by simp))

/-- What is read only if the answer to a question is yes. -/
theorem Asks.ownsThen {q : Parse Bool} (hq : Asks q) (hp : Owns cs p) :
    Owns cs (do if ← q then return some (← p) else return none) := by
  intro env st hst
  have h := hst.stretch (Nat.le_refl st.pos)
  obtain ⟨b, heq, -⟩ := hq env st
  refine .ask heq (fun _ => ?_) fun _ => .ret h
  exact h.read hp fun a st' h' => .ret (h'.of_eq (by simp))

/-- Items up to a token that ends them. -/
theorem owns_itemsUntil (stop : Token.Kind → Bool) {item : Parse α} (hitem : Owns cs item) :
    Owns cs (itemsUntil stop item) := by
  intro env st hst
  refine (hst.stretch (Nat.le_refl st.pos)).collect rfl (fun items st h => .step rfl ?_)
    fun items st' h => .ret (h.of_eq (by simp))
  split
  · exact .ret h
  · exact h.read hitem fun a st' h' => .ret (h'.of_eq (by simp))

/-- Items up to a sign that closes them, with commas between. -/
theorem owns_itemsBefore (close : Punct) {item : Parse (α × Bool)} (hitem : Owns cs item) :
    Owns cs (itemsBefore close item) := by
  intro env st hst
  refine (hst.stretch (Nat.le_refl st.pos)).collect rfl (fun items st h => ?_)
    fun items st' h => .ret (h.of_eq (by simp))
  refine .ask rfl (fun _ => .ret h) fun _ => h.read hitem fun a st' h' => ?_
  obtain ⟨a, isLast⟩ := a
  have hmore : Stretch cs _ st' (starts (a :: items) + 0) := h'.of_eq (by simp)
  dsimp only
  split
  · exact .ret hmore
  · exact hmore.eat (eats_eat _) (fun h => .ret h) (.ret hmore)

/-- The items after commas prolong a stretch along which the first ones start. -/
theorem Stretch.itemsAfterCommas {first : List α} {item : Parse α} {f : List α → Parse β}
    (h : Stretch cs lo st (starts first)) (hitem : Owns cs item)
    (hf : ∀ items st', Stretch cs lo st' (starts items) → Gives (f items) env st' Q) :
    Gives (Parse.itemsAfterCommas first item >>= f) env st Q := by
  refine .bind ((h.of_eq (add_zero _)).rounds (fun items st h => ?_)
    fun items st' h => .ret (hf _ st' (h.of_eq (by simp))))
  refine h.eat (eats_eat _) (fun h => ?_) (.ret h)
  exact h.read hitem fun a st' h' => .ret (h'.of_eq (by simp))

/-- What is nested a number of times, by induction on the number. -/
theorem owns_furtherOnWithin {p : Parse α → Parse α} (h : ∀ q, Owns cs q → Owns cs (p q))
    (room : Nat) : Owns cs (furtherOnWithin p room) := by
  induction room using Nat.strongRecOn with
  | ind room ih =>
    rw [furtherOnWithin]
    refine h _ fun env st hst a st' heq => ?_
    split at heq
    · next hlt => exact ih _ hlt env st hst a st' heq
    · exact (Gives.failHere (Q := fun _ _ => False) _ _ heq).elim

theorem owns_furtherOn {p : Parse α → Parse α} (h : ∀ q, Owns cs q → Owns cs (p q)) :
    Owns cs (furtherOn p) :=
  fun env st hst => owns_furtherOnWithin h (env.size - st.current.first.pos) env st hst

end

end Parse

namespace Grammar

open Parse

variable {cs : List Char} {lo : Nat} {env : Env} {st : State} {ps : Multiset ℕ} {g : Grammar}

/-- The readers of a grammar own what they read, and no function starts with the first token of a
pattern. -/
structure Keeps (cs : List Char) (g : Grammar) : Prop where
  statement : Owns cs g.statement
  pattern : Enters cs g.pattern
  assignment : Owns cs g.assignment
  power : Owns cs g.power
  operand : Owns cs g.operand
  creation : Owns cs g.creation

/-! ### Patterns -/

/-- A key begins where it is read. -/
theorem enters_propertyKey (hg : g.Keeps cs) : Enters cs (propertyKey g) := by
  intro env st hst
  refine .step rfl ?_
  split
  · next value hk => exact hst.enter (by simp [hk, Kind.IsSolid]) fun h => .ret h
  · next value hk => exact hst.enter (by simp [hk, Kind.IsSolid]) fun h => .ret h
  · next hk =>
    refine hst.enter (by simp [hk, Kind.IsSolid]) fun h => ?_
    refine h.read (hg.assignment.withIn true) fun key st₁ h₁ => ?_
    exact h₁.pass (reads_expect _).enters.owns fun _ st₂ h₂ => .ret (h₂.of_eq (by simp))
  · exact reads_identifierName.enters.first hst (Nat.le_refl _) fun name st₁ h₁ => .ret h₁

/-- A rest keeps the functions of what came before it. -/
theorem gives_rest (hg : g.Keeps cs) (start : Nat) (h : Stretch cs lo st ps) :
    Gives (restPattern g start) env st fun p st' => Stretch cs lo st' (starts p + ps) :=
  h.read hg.pattern.owns fun _ _ h₁ => .span fun _ _ => .ret (h₁.of_eq (by simp))

theorem owns_bindingElement (hg : g.Keeps cs) : Owns cs (bindingElement g) := by
  intro env st hst
  refine .step rfl ?_
  refine (hst.stretch (Nat.le_refl _)).read hg.pattern.owns fun pattern st₁ h₁ => ?_
  refine h₁.eat (eats_eat _) (fun h₂ => ?_) (.ret (h₁.of_eq (by simp)))
  refine h₂.read (hg.assignment.withIn true) fun right st₃ h₃ => .span fun _ _ => .ret ?_
  exact h₃.of_eq (by simp [add_comm])

theorem enters_arrayPattern (hg : g.Keeps cs) : Enters cs (arrayPattern g) := by
  intro env st hst
  refine .step rfl ?_
  refine (reads_expect _).enters.first hst (Nat.le_refl _) fun _ st₁ h₁ => ?_
  refine h₁.collect rfl (fun elements st h => ?_) fun elements st₂ h₂ => ?_
  · refine .ask rfl (fun _ => .ret h) fun _ => ?_
    refine h.eat (eats_eat _) (fun h' => .ret (h'.of_eq (by simp))) (.step rfl ?_)
    refine h.eat (eats_eat _) (fun h' => ?_) ?_
    · refine .bind ((gives_rest hg _ h').mono fun p st'' h'' => .ret (h''.of_eq ?_))
      simp
    · refine h.read (owns_bindingElement hg) fun element st' h' => ?_
      have hmore : Stretch cs _ st' (starts (some element :: elements) + 0) :=
        h'.of_eq (by simp)
      refine .ask rfl (fun _ => .ret hmore) fun _ => ?_
      exact hmore.pass (reads_expect _).enters.owns fun _ st'' h'' => .ret h''
  · refine h₂.pass (reads_expect _).enters.owns fun _ st₃ h₃ => .span fun _ _ => .ret ?_
    exact h₃.of_eq (by simp)

theorem owns_patternProperty (hg : g.Keeps cs) : Owns cs (patternProperty g) := by
  intro env st hst
  have h := hst.stretch (Nat.le_refl st.pos)
  refine .step rfl (h.eat (eats_eat _) (fun h => ?_) ?_)
  · refine h.read hg.pattern.owns fun argument st₁ h₁ => .span fun _ _ => .ret ?_
    exact h₁.of_eq (by simp)
  refine h.read (enters_propertyKey hg).owns fun key st₁ h₁ => ?_
  refine h₁.eat (eats_eat _) (fun h₂ => ?_) ?_
  · refine h₂.read (owns_bindingElement hg) fun value st₃ h₃ => .span fun _ _ => .ret ?_
    exact h₃.of_eq (by simp [add_comm])
  split
  · next name =>
    split
    · exact .fail
    refine h₁.eat (eats_eat _) (fun h₂ => ?_) (.span fun _ _ => .ret (h₁.of_eq (by simp)))
    refine h₂.read (hg.assignment.withIn true) fun right st₃ h₃ => .span fun _ _ => .ret ?_
    exact h₃.of_eq (by simp)
  · exact .unexpected

theorem enters_objectPattern (hg : g.Keeps cs) : Enters cs (objectPattern g) := by
  intro env st hst
  refine .step rfl ?_
  refine (reads_expect _).enters.first hst (Nat.le_refl _) fun _ st₁ h₁ => ?_
  refine h₁.read (owns_itemsBefore _ (owns_patternProperty hg)) fun properties st₂ h₂ => ?_
  refine h₂.pass (reads_expect _).enters.owns fun _ st₃ h₃ => .span fun _ _ => .ret ?_
  exact h₃.of_eq (by simp)

theorem enters_bindingPattern (hg : g.Keeps cs) : Enters cs (bindingPattern g) := by
  intro env st hst
  refine .step rfl ?_
  split
  · exact enters_arrayPattern hg env st hst
  · exact enters_objectPattern hg env st hst
  · exact reads_bindingName.enters.first hst (Nat.le_refl _) fun name st₁ h₁ => .ret h₁

/-! ### Functions -/

theorem owns_block (hg : g.Keeps cs) : Owns cs (block g) := by
  intro env st hst
  refine .step rfl ?_
  refine (hst.stretch (Nat.le_refl _)).pass (reads_expect _).enters.owns fun _ st₁ h₁ => ?_
  refine h₁.read (owns_itemsUntil _ hg.statement) fun body st₂ h₂ => ?_
  refine h₂.pass (reads_expect _).enters.owns fun _ st₃ h₃ => .span fun _ _ => .ret ?_
  exact h₃.of_eq (by simp)

theorem enters_parameters (hg : g.Keeps cs) : Enters cs (parameters g) := by
  intro env st hst
  refine (reads_expect _).enters.first hst (Nat.le_refl _) fun _ st₁ h₁ => ?_
  refine h₁.read (owns_itemsBefore _ fun env st hst => ?_) fun params st₂ h₂ => ?_
  · have h := hst.stretch (Nat.le_refl st.pos)
    refine .step rfl (h.eat (eats_eat _) (fun h => ?_) ?_)
    · exact .bind ((gives_rest hg _ h).mono fun p st' h' => .ret (h'.of_eq (by simp)))
    · exact h.read (owns_bindingElement hg) fun p st' h' => .ret (h'.of_eq (by simp))
  · exact h₂.pass (reads_expect _).enters.owns fun _ st₃ h₃ => .ret (h₃.of_eq (by simp))

/-- The parameters and the body of a function. -/
theorem enters_signature (hg : g.Keeps cs) : Enters cs (do
    let params ← parameters g
    let body ← Parse.withIn true (block g)
    return (params, body)) := by
  intro env st hst
  refine (enters_parameters hg).first hst (Nat.le_refl _) fun params st₁ h₁ => ?_
  refine h₁.read ((owns_block hg).withIn true) fun body st₂ h₂ => .ret (h₂.of_eq ?_)
  simp [add_comm]

/-- What is written in the parameters and the body of a function starts behind their first token. -/
theorem gives_rest_of_function (hg : g.Keeps cs) (start : Nat) (id : Option Ident)
    (isAsync isGenerator : Bool) (hst : st.IsIn cs) :
    Gives (functionRest g start id isAsync isGenerator) env st fun f st' =>
      f.span.start = start ∧ Stretch cs (st.pos + 1) st' (starts f) := by
  refine .bind fun x st₁ heq => ?_
  have h₁ := enters_signature hg _ _ hst _ _ heq
  obtain ⟨params, body⟩ := x
  exact .span fun s hs => .ret ⟨hs, h₁.of_eq (by simp)⟩

/-- A function from its keyword on, which may stand behind the word that it starts with. -/
theorem gives_function_from (hg : g.Keeps cs) (isAsync nameRequired : Bool) (hst : st.IsIn cs)
    (hlo : lo ≤ st.pos) :
    Gives (function g lo isAsync nameRequired) env st fun f st' =>
      Stretch cs lo st' (starts (Expr.function f)) := by
  refine (reads_expectKey _).enters.first hst hlo fun _ st₁ h₁ => ?_
  refine h₁.pass (eats_eat _).mayRead.owns fun isGenerator st₂ h₂ => ?_
  refine h₂.pass (mayRead_definitionName _ _).owns fun id st₃ h₃ => ?_
  refine (gives_rest_of_function hg lo id isAsync isGenerator h₃.isIn).mono fun f st' h' => ?_
  have hf : Stretch cs (lo + 1) st' (starts f) := h'.2.back (by have := h₃.le; omega)
  refine hf.open_at.of_eq ?_
  simp [FunctionLiteral.starts, FunctionLiteral.ofFunction, h'.1]

/-! ### Methods and classes -/

/-- The function of a method behind its key. -/
theorem gives_method {key : PropertyKey} (hg : g.Keeps cs) (m : MethodModifiers)
    (h : Stretch cs (lo + 1) st (starts key)) :
    Gives (methodFunction g m) env st fun f st' => ∀ s : Span, s.start = lo →
      Stretch cs lo st' ((FunctionLiteral.ofMethod s f).starts + (starts key + starts f)) := by
  refine .step rfl ?_
  refine (gives_rest_of_function hg _ none m.isAsync m.isGenerator h.isIn).mono fun f st' h' => ?_
  obtain ⟨hf, hinner⟩ := h'
  intro s hs
  have hmethod := (h.trans hinner.open_at).open_at
  have hle : (FunctionLiteral.ofMethod s f).starts ≤ {lo} + {st.pos} := by
    have hstarts := @starts_le (FunctionLiteral.ofMethod s f)
    rwa [FunctionLiteral.ofMethod, hs, hf] at hstarts
  refine hmethod.of_le ((add_le_add_left hle _).trans (le_of_eq ?_))
  simp only [add_assoc, add_comm]

/-- The value of a property, which is read as inside a function. -/
theorem owns_initializer (hg : g.Keeps cs) : Owns cs (do
    if ← eat .assign then
      some <$> withReader (fun env => { env with inFunction := true })
        (Parse.withIn true g.assignment)
    else return none : Parse (Option Expr)) := by
  intro env st hst
  have h := hst.stretch (Nat.le_refl st.pos)
  refine h.eat (eats_eat _) (fun h => .map ?_) (.ret h)
  have hvalue := hg.assignment { env with inFunction := true, allowIn := true } st.next h.isIn
  exact hvalue.mono fun value st' h' => (h.trans h').of_eq (by simp)

/-- Members of classes, of which methods start where the member does. -/
theorem owns_classMember (hg : g.Keeps cs) : Owns cs (classMember g) := by
  intro env st hst
  refine .step rfl ?_
  have h := hst.stretch (Nat.le_refl st.pos)
  refine h.pass (eats_eatModifier _).mayRead.owns fun isStatic st₁ h₁ => ?_
  refine h₁.pass mayRead_methodModifiers.owns fun modifiers st₂ h₂ => ?_
  refine .ask rfl (fun _ => .failHere) fun _ => ?_
  refine (enters_propertyKey hg).first h₂.isIn h₂.le fun key st₃ h₃ => .step rfl ?_
  split
  · refine .bind ((gives_method hg modifiers h₃).mono fun f st₄ h₄ => ?_)
    exact .span fun s hs => .ret ((h₄ s hs).of_eq (by simp))
  · refine h₃.read (owns_initializer hg) fun value st₄ h₄ => ?_
    refine h₄.pass mayRead_semicolon.owns fun _ st₅ h₅ => .span fun _ _ => .ret ?_
    exact (h₅.back (Nat.le_succ _)).of_eq (by simp [add_comm])

theorem owns_classBody (hg : g.Keeps cs) : Owns cs (classBody g) := by
  intro env st hst
  refine .step rfl ?_
  have h := hst.stretch (Nat.le_refl st.pos)
  refine h.pass (reads_expect _).enters.owns fun _ st₁ h₁ => ?_
  refine h₁.collect rfl (fun members st h => .step rfl ?_) fun members st₂ h₂ => ?_
  · split
    · exact .ret h
    refine h.eat (eats_eat _) (fun h' => .ret h') ?_
    exact h.read (owns_classMember hg) fun m st' h' => .ret (h'.of_eq (by simp))
  · refine h₂.pass (reads_expect _).enters.owns fun _ st₃ h₃ => .span fun _ _ => .ret ?_
    exact h₃.of_eq (by simp)

/-- A class, behind its word, with a given reader of its heritage. -/
theorem gives_class (hg : g.Keeps cs) {heritage : Parse Expr} (hh : Owns cs heritage)
    (start : Nat) (nameRequired : Bool) (h : Stretch cs lo st 0) :
    Gives (classDef g heritage start nameRequired) env st fun c st' =>
      Stretch cs lo st' (starts c) := by
  refine h.pass (reads_expectKey _).enters.owns fun _ st₁ h₁ => ?_
  refine h₁.pass (mayRead_definitionName _ _).owns fun id st₂ h₂ => ?_
  refine h₂.read ((eats_eatKey _).ownsThen hh) fun superClass st₃ h₃ => ?_
  refine h₃.read (owns_classBody hg) fun body st₄ h₄ => .span fun _ _ => .ret ?_
  exact h₄.of_eq (by simp [add_comm])

end Grammar

end Espalier
