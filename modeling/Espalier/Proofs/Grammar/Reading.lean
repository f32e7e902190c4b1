import Espalier.Proofs.Node.Nesting
import Espalier.Proofs.Token.Scan

/-!
# How readers move through a source

A state lies in a source if its current token was read from there and the token before it does not
end behind the start of the current one. A reader `Reads` if from every such state it goes on to
another one, past at least one token, and all nodes that it has made fit between the start of its
first token and the end of its last one. Here are the rules by which this is shown along the code of
a reader: `Gives` says what holds wherever a reader ends, and a `Trail` holds the nodes that have
been made since a place in the source.
-/

namespace Espalier

open Token

namespace Parse

variable {α β σ : Type} {cs : List Char} {lo : Nat} {env : Env} {st st' : State}
  {ts us : List Tree}

/-! ### States in a source -/

/-- Where the current token starts. -/
abbrev State.pos (st : State) : Nat := st.current.token.span.start

/-- The state after the current token. -/
abbrev State.next (st : State) : State :=
  { current := scan st.current.after
    prevEnd := st.current.token.span.stop
    left := st.current.token :: st.left }

/-- The current token was read from a source, behind the end of the one before it. -/
structure State.IsIn (cs : List Char) (st : State) : Prop where
  reaches : Cursor.Reaches ⟨0, cs⟩ st.current.first
  isRead : st.current.IsRead
  isBorder_prevEnd : IsBorder cs st.prevEnd
  prevEnd_le : st.prevEnd ≤ st.pos

namespace State.IsIn

/-- The parser stands where the current token starts. -/
theorem pos_eq (h : st.IsIn cs) : st.pos = st.current.first.pos := by
  show st.current.token.span.start = _
  rw [h.isRead.span_eq]

/-- It stands between two characters. -/
theorem isBorder_pos (h : st.IsIn cs) : IsBorder cs st.pos := by
  rw [h.pos_eq]
  exact h.reaches.isBorder

theorem reaches_after (h : st.IsIn cs) : Cursor.Reaches ⟨0, cs⟩ st.current.after := by
  obtain ⟨text, hreads, -⟩ := h.isRead.reads
  exact h.reaches.trans hreads.reaches

/-- Past a token the state is still in the source. -/
theorem next (h : st.IsIn cs) : st.next.IsIn cs := by
  have hend := h.reaches_after
  have hscan := reaches_scan st.current.after
  have hread := isRead_scan st.current.after
  refine ⟨hend.trans hscan, hread, ?_, ?_⟩
  · show IsBorder cs st.current.token.span.stop
    rw [h.isRead.span_eq]
    exact hend.isBorder
  · show st.current.token.span.stop ≤ (scan st.current.after).token.span.start
    rw [h.isRead.span_eq, hread.span_eq]
    exact hscan.pos_le

/-- A token that has a text ends behind its start. -/
theorem pos_lt_stop (h : st.IsIn cs) (hk : st.current.token.kind.IsSolid) :
    st.pos < st.next.prevEnd := by
  obtain ⟨text, hreads, hspells⟩ := h.isRead.reads
  have hbytes := Text.bytes_pos (hspells.ne_nil hk)
  have hpos := hreads.pos_eq
  show st.current.token.span.start < st.current.token.span.stop
  rw [h.isRead.span_eq]
  show st.current.first.pos < st.current.after.pos
  rw [hpos]
  omega

end State.IsIn

/-! ### From one place to another -/

/-- The state lies in the source at or behind a border. -/
structure Starts (cs : List Char) (lo : Nat) (st : State) : Prop where
  isIn : st.IsIn cs
  isBorder : IsBorder cs lo
  le : lo ≤ st.pos

/-- At least one token has been read from a border on, and the nodes that were made of the tokens
fit between the border and the end of the last one. -/
structure Trail (cs : List Char) (lo : Nat) (st : State) (ts : List Tree) : Prop where
  isIn : st.IsIn cs
  isBorder : IsBorder cs lo
  lt : lo < st.prevEnd
  fits : ∀ t ∈ ts, t.Fits cs lo st.prevEnd

/-- A state starts its own trail. -/
theorem State.IsIn.starts (h : st.IsIn cs) : Starts cs st.pos st :=
  ⟨h, h.isBorder_pos, Nat.le_refl _⟩

namespace Trail

theorem starts (h : Trail cs lo st ts) : Starts cs lo st :=
  ⟨h.isIn, h.isBorder, Nat.le_trans (Nat.le_of_lt h.lt) h.isIn.prevEnd_le⟩

/-- A trail may forget nodes. -/
theorem sub (h : Trail cs lo st ts) (hsub : ∀ t ∈ us, t ∈ ts) : Trail cs lo st us :=
  ⟨h.isIn, h.isBorder, h.lt, fun t ht => h.fits t (hsub t ht)⟩

/-- Other nodes that fit along a trail. -/
theorem of_fits (h : Trail cs lo st ts) (hfits : ∀ t ∈ us, t.Fits cs lo st.prevEnd) :
    Trail cs lo st us :=
  ⟨h.isIn, h.isBorder, h.lt, hfits⟩

/-- A node that ends where the last token did joins the trail. -/
theorem cons {t : Tree} (h : Trail cs lo st ts) (ht : t.Fits cs lo st.prevEnd) :
    Trail cs lo st (t :: ts) :=
  ⟨h.isIn, h.isBorder, h.lt, List.forall_mem_cons.mpr ⟨ht, h.fits⟩⟩

/-- A trail may be taken to start earlier. -/
theorem back {start : Nat} (h : Trail cs start st ts) (hlo : IsBorder cs lo) (hle : lo ≤ start) :
    Trail cs lo st ts :=
  ⟨h.isIn, hlo, Nat.lt_of_le_of_lt hle h.lt, fun t ht => (h.fits t ht).widen hle (Nat.le_refl _)⟩

/-- What is read after a trail prolongs it. -/
theorem trans (h : Trail cs lo st ts) (h' : Trail cs st.pos st' us) :
    Trail cs lo st' (us ++ ts) := by
  have hpos := h.isIn.prevEnd_le
  have hlt := h.lt
  have hlt' := h'.lt
  refine ⟨h'.isIn, h.isBorder, by omega, fun t ht => ?_⟩
  rcases List.mem_append.mp ht with ht | ht
  · exact (h'.fits t ht).widen (by omega) (Nat.le_refl _)
  · exact (h.fits t ht).widen (Nat.le_refl _) (by omega)

/-- A node that starts at or behind the start of a trail and ends with it fits there if its parts
fit into its own span. -/
theorem fits_from {type : NodeType} {start : Nat} {fields : List TreeField}
    (h : Trail cs start st ts) (hlo : lo ≤ start)
    (hparts : ∀ c ∈ fields.flatMap TreeField.nodes, c ∈ ts) :
    Tree.Fits cs lo st.prevEnd ⟨type, ⟨start, st.prevEnd⟩, fields⟩ := by
  refine .intro ⟨hlo, ?_, ?_, ?_, fun _ => ?_, ?_, ?_⟩ fun c hc => h.fits c (hparts c hc)
  · exact Nat.le_of_lt h.lt
  · exact Nat.le_refl _
  · exact h.lt
  · exact h.lt
  · exact h.isBorder
  · exact h.isIn.isBorder_prevEnd

/-- A node made of what was read along a trail. -/
theorem node {type : NodeType} {fields : List TreeField} (h : Trail cs lo st ts)
    (hparts : ∀ c ∈ fields.flatMap TreeField.nodes, c ∈ ts) :
    Trail cs lo st [⟨type, ⟨lo, st.prevEnd⟩, fields⟩] := by
  refine ⟨h.isIn, h.isBorder, h.lt, fun t hmem => ?_⟩
  rw [List.mem_singleton.mp hmem]
  exact h.fits_from (Nat.le_refl _) hparts

/-- A trail may be taken up at the start of the only node that was made along it. -/
theorem from_start {t : Tree} (h : Trail cs lo st [t]) : Trail cs t.span.start st [t] := by
  have ht := h.fits t (List.mem_singleton_self t)
  have hl := ht.lies
  refine ⟨h.isIn, hl.isBorder_start, hl.start_lt, fun u hu => ?_⟩
  rw [List.mem_singleton.mp hu]
  exact ht.from_start

theorem next (h : Trail cs lo st ts) : Trail cs lo st.next ts := by
  have hle : st.prevEnd ≤ st.next.prevEnd := by
    obtain ⟨text, hreads, -⟩ := h.isIn.isRead.reads
    have hpos := hreads.pos_le
    have hprev := h.isIn.prevEnd_le
    rw [h.isIn.pos_eq] at hprev
    show st.prevEnd ≤ st.current.token.span.stop
    rw [h.isIn.isRead.span_eq]
    exact Nat.le_trans hprev hpos
  refine ⟨h.isIn.next, h.isBorder, Nat.lt_of_lt_of_le h.lt hle, fun t ht => ?_⟩
  exact (h.fits t ht).widen (Nat.le_refl _) hle

end Trail

namespace Starts

theorem trans (h : Starts cs lo st) (h' : Trail cs st.pos st' us) : Trail cs lo st' us := by
  refine ⟨h'.isIn, h.isBorder, Nat.lt_of_le_of_lt h.le h'.lt, fun t ht => ?_⟩
  exact (h'.fits t ht).widen h.le (Nat.le_refl _)

/-- Past a token that has a text. -/
theorem next (h : Starts cs lo st) (hk : st.current.token.kind.IsSolid) :
    Trail cs lo st.next [] :=
  ⟨h.isIn.next, h.isBorder, Nat.lt_of_le_of_lt h.le (h.isIn.pos_lt_stop hk), nofun⟩

end Starts

/-- A node that is nothing but the current token. -/
theorem State.IsIn.leaf {type : NodeType} {fields : List TreeField} (h : st.IsIn cs)
    (hk : st.current.token.kind.IsSolid) (hparts : fields.flatMap TreeField.nodes = []) :
    Trail cs st.pos st.next [⟨type, st.current.token.span, fields⟩] := by
  refine (h.starts.next hk).node fun c hc => ?_
  rw [hparts] at hc
  exact hc

/-! ### Wherever a reader ends -/

/-- What holds of the result and of the state in which a reader ends, if it succeeds. -/
def Gives (p : Parse α) (env : Env) (st : State) (Q : α → State → Prop) : Prop :=
  ∀ a st', p env st = .ok (a, st') → Q a st'

/-- A reader that reads at least one token. -/
def Reads (cs : List Char) [HasNodes α] (p : Parse α) : Prop :=
  ∀ env st, st.IsIn cs → Gives p env st fun a st' => Trail cs st.pos st' (nodes a)

/-- What a reader has read that may read nothing. -/
def Went (cs : List Char) (st st' : State) (ts : List Tree) : Prop :=
  st' = st ∧ ts = [] ∨ Trail cs st.pos st' ts

/-- A reader that may read nothing, and then makes no node. -/
def MayRead (cs : List Char) [HasNodes α] (p : Parse α) : Prop :=
  ∀ env st, st.IsIn cs → Gives p env st fun a st' => Went cs st st' (nodes a)

theorem Went.isIn (h : Went cs st st' ts) (hst : st.IsIn cs) : st'.IsIn cs := by
  rcases h with ⟨rfl, -⟩ | h
  · exact hst
  · exact h.isIn

theorem Went.sub (h : Went cs st st' ts) (hsub : ∀ t ∈ us, t ∈ ts) : Went cs st st' us := by
  rcases h with ⟨hst, rfl⟩ | h
  · exact .inl ⟨hst, List.eq_nil_iff_forall_not_mem.mpr fun t ht => List.not_mem_nil (hsub t ht)⟩
  · exact .inr (h.sub hsub)

/-- A parser that may read nothing, followed by one that reads something. -/
theorem Went.trans {st₂ : State} (h : Went cs st st' ts) (h' : Trail cs st'.pos st₂ us) :
    Trail cs st.pos st₂ (us ++ ts) := by
  rcases h with ⟨rfl, rfl⟩ | h
  · rw [List.append_nil]
    exact h'
  · exact h.trans h'

/-- What reads something may be taken for what reads something or nothing. -/
theorem Reads.mayRead [HasNodes α] {p : Parse α} (h : Reads cs p) : MayRead cs p :=
  fun env st hst a st' heq => .inr (h env st hst a st' heq)

namespace Gives

variable {p : Parse α} {f : α → Parse β} {Q : β → State → Prop}

/-- What a parser gives may be described more loosely. -/
theorem mono {P P' : α → State → Prop} (h : Gives p env st P) (hP : ∀ a st', P a st' → P' a st') :
    Gives p env st P' :=
  fun a st' heq => hP a st' (h a st' heq)

theorem ret {b : β} (h : Q b st) : Gives (pure b) env st Q := by
  intro b' st' heq
  cases heq
  exact h

/-- What the first reading gives is what the second starts from. -/
theorem bind (h : Gives p env st fun a st' => Gives (f a) env st' Q) :
    Gives (p >>= f) env st Q := by
  intro b st'' heq
  change (p env st).bind (fun x => f x.1 env x.2) = .ok (b, st'') at heq
  cases hp : p env st with
  | error e =>
    rw [hp] at heq
    cases heq
  | ok x =>
    rw [hp] at heq
    exact h x.1 x.2 hp b st'' heq

theorem map {g : α → β} (h : Gives p env st fun a st' => Q (g a) st') :
    Gives (g <$> p) env st Q := by
  intro b st' heq
  change (p env st).map (fun x => (g x.1, x.2)) = .ok (b, st') at heq
  cases hp : p env st with
  | error e =>
    rw [hp] at heq
    cases heq
  | ok x =>
    rw [hp] at heq
    cases heq
    exact h x.1 x.2 hp

/-- A step of which the result and the end are known. -/
theorem step {a : α} {st₁ : State} (h : p env st = .ok (a, st₁))
    (hf : Gives (f a) env st₁ Q) : Gives (p >>= f) env st Q := by
  refine bind fun a' st' heq => ?_
  rw [h] at heq
  cases heq
  exact hf

/-- A question that nothing is read for. -/
theorem ask {q : Parse Bool} {b : Bool} {p p' : Parse β} (h : q env st = .ok (b, st))
    (yes : b = true → Gives p env st Q) (no : b = false → Gives p' env st Q) :
    Gives (q >>= fun b => if b = true then p else p') env st Q := by
  refine step h ?_
  cases b with
  | true => exact yes rfl
  | false => exact no rfl

/-! ### Failing -/

theorem fail {cause : SyntaxCause} {span : Span} : Gives (Parse.fail cause span) env st Q :=
  nofun

theorem failHere {cause : SyntaxCause} : Gives (Parse.failHere cause) env st Q := nofun

theorem unexpected : Gives Parse.unexpected env st Q := by
  refine step rfl ?_
  split <;> exact failHere

theorem failExpecting {cause : SyntaxCause} {Q : Unit → State → Prop} :
    Gives (Parse.failExpecting cause) env st Q := by
  refine step rfl ?_
  split <;> exact failHere

theorem ofExcept {x : Except SyntaxError β} (h : ∀ b, x = .ok b → Q b st) :
    Gives (MonadExcept.ofExcept x) env st Q := by
  intro b st' heq
  cases x with
  | error e => cases heq
  | ok a =>
    cases heq
    exact h b rfl

/-! ### Readers one after the other -/

section

variable [HasNodes α]

/-- The first reader from a border on. -/
theorem first (hp : Reads cs p) (h : Starts cs lo st)
    (hf : ∀ a st', Trail cs lo st' (nodes a) → Gives (f a) env st' Q) :
    Gives (p >>= f) env st Q :=
  bind fun a st' heq => hf a st' (h.trans (hp env st h.isIn a st' heq))

/-- What was read from the end of a trail on prolongs it. -/
theorem after {st₁ : State} (h : Trail cs lo st ts)
    (hp : Gives p env st₁ fun a st' => Trail cs st.pos st' (nodes a))
    (hf : ∀ a st', Trail cs lo st' (nodes a ++ ts) → Gives (f a) env st' Q) :
    Gives (p >>= f) env st₁ Q :=
  bind fun a st' heq => hf a st' (h.trans (hp a st' heq))

/-- A further reader along a trail. -/
theorem next (hp : Reads cs p) (h : Trail cs lo st ts)
    (hf : ∀ a st', Trail cs lo st' (nodes a ++ ts) → Gives (f a) env st' Q) :
    Gives (p >>= f) env st Q :=
  after h (hp env st h.isIn) hf

/-- A further reader along a trail, that may read nothing. -/
theorem maybe (hp : MayRead cs p) (h : Trail cs lo st ts)
    (hf : ∀ a st', Trail cs lo st' (nodes a ++ ts) → Gives (f a) env st' Q) :
    Gives (p >>= f) env st Q := by
  refine bind fun a st' heq => hf a st' ?_
  rcases hp env st h.isIn a st' heq with ⟨rfl, hnil⟩ | h'
  · rw [hnil]
    exact h
  · exact h.trans h'

/-- A further reader along a trail, that makes no node. -/
theorem pass [NoNodes α] (hp : MayRead cs p) (h : Trail cs lo st ts)
    (hf : ∀ a st', Trail cs lo st' ts → Gives (f a) env st' Q) : Gives (p >>= f) env st Q := by
  refine maybe hp h fun a st' h' => hf a st' ?_
  rw [NoNodes.nodes_eq_nil a] at h'
  exact h'

/-- A reader that may read nothing, from a border on. -/
theorem passFirst (hp : MayRead cs p) (h : Starts cs lo st)
    (hf : ∀ a st', Starts cs lo st' → Gives (f a) env st' Q) : Gives (p >>= f) env st Q := by
  refine bind fun a st' heq => hf a st' ?_
  rcases hp env st h.isIn a st' heq with ⟨rfl, -⟩ | h'
  · exact h
  · exact (h.trans h').starts

/-- A further reader that may read nothing, after others that may have read nothing. -/
theorem further {st₀ : State} (hp : MayRead cs p) (hst : st₀.IsIn cs) (h : Went cs st₀ st ts)
    (hf : ∀ a st', Went cs st₀ st' (nodes a ++ ts) → Gives (f a) env st' Q) :
    Gives (p >>= f) env st Q := by
  refine bind fun a st' heq => hf a st' ?_
  rcases hp env st (h.isIn hst) a st' heq with ⟨rfl, hnil⟩ | h'
  · rw [hnil]
    exact h
  · exact .inr (h.trans h')

omit [HasNodes α] in
/-- The span of what was read along a trail. -/
theorem finish {f : Span → Parse β} (h : Trail cs lo st ts)
    (hf : Gives (f ⟨lo, st.prevEnd⟩) env st Q) : Gives (Parse.finish lo >>= f) env st Q := by
  have hmax : max st.prevEnd lo = st.prevEnd := Nat.max_eq_left (Nat.le_of_lt h.lt)
  refine step rfl ?_
  rw [hmax]
  exact hf

/-- A node that ends with what was read last. -/
theorem node {f : Span → α} {type : NodeType} {fields : List TreeField} (h : Trail cs lo st ts)
    (hnode : nodes (f ⟨lo, st.prevEnd⟩) = [⟨type, ⟨lo, st.prevEnd⟩, fields⟩])
    (hparts : ∀ c ∈ fields.flatMap TreeField.nodes, c ∈ ts) :
    Gives (Parse.finish lo >>= fun s => pure (f s)) env st fun a st' =>
      Trail cs lo st' (nodes a) := by
  refine finish h (ret ?_)
  rw [hnode]
  exact h.node hparts

end

/-! ### Tokens -/

/-- The token that has to have a text is left. -/
theorem advanceFirst {f : Token → Parse β} (h : Starts cs lo st)
    (hk : st.current.token.kind.IsSolid)
    (hf : Trail cs lo st.next [] → Gives (f st.current.token) env st.next Q) :
    Gives (Parse.advance >>= f) env st Q :=
  step rfl (hf (h.next hk))

/-- Taking a token keeps the trail. -/
theorem advance {f : Token → Parse β} (h : Trail cs lo st ts)
    (hf : Trail cs lo st.next ts → Gives (f st.current.token) env st.next Q) :
    Gives (Parse.advance >>= f) env st Q :=
  step rfl (hf h.next)

end Gives

/-! ### Tokens that may be missing -/

/-- A question that changes nothing, and whether a token that has a text is left if the answer is
yes. -/
def Asks (q : Parse Bool) : Prop :=
  ∀ env st, ∃ b, q env st = .ok (b, st) ∧ (b = true → st.current.token.kind.IsSolid)

/-- The current token is left if it is the one looked for, which has a text. -/
def Eats (q : Parse Bool) : Prop :=
  ∀ env st, q env st = .ok (false, st) ∨
    q env st = .ok (true, st.next) ∧ st.current.token.kind.IsSolid

/-- A question followed by a step when the answer is yes. -/
theorem Asks.eats {q : Parse Bool} (hq : Asks q) :
    Eats (do
      if ← q then
        let _ ← advance
        return true
      else return false) := by
  intro env st
  obtain ⟨b, heq, hsolid⟩ := hq env st
  have hask : ∀ p p' : Parse Bool, (do if ← q then p else p') env st =
      (if b then p else p') env st := by
    intro p p'
    show (q env st).bind _ = _
    rw [heq]
    rfl
  rw [hask]
  cases b with
  | false => exact .inl rfl
  | true => exact .inr ⟨rfl, hsolid rfl⟩

theorem eats_eat (p : Punct) : Eats (eat p) :=
  Asks.eats fun _ _ => ⟨_, rfl, Kind.isSolid_of_isPunct⟩

theorem eats_eatKey (k : Keyword) : Eats (eatKey k) :=
  Asks.eats fun _ _ => ⟨_, rfl, Kind.isSolid_of_isKey⟩

theorem eats_eatName (word : String) : Eats (eatName word) :=
  Asks.eats fun _ _ => ⟨_, rfl, Kind.isSolid_of_isName⟩

/-- A step of which the result is known. -/
theorem bind_eq {p : Parse α} {f : α → Parse β} {a : α} {env : Env} {st st' : State}
    (h : p env st = .ok (a, st')) : (p >>= f) env st = f a env st' := by
  have heq : (p >>= f) env st = (p env st).bind fun x => f x.1 env x.2 := rfl
  rw [heq, h]
  rfl

theorem asks_isAnyName : Asks isAnyName := by
  intro env st
  have hkind : kind env st = .ok (st.current.token.kind, st) := rfl
  unfold isAnyName
  rw [bind_eq hkind]
  cases st.current.token.kind with
  | name text => exact ⟨true, rfl, fun _ => trivial⟩
  | _ => exact ⟨false, rfl, nofun⟩

theorem Eats.mayRead {q : Parse Bool} (hq : Eats q) : MayRead cs q := by
  intro env st hst b st' heq
  rcases hq env st with hno | ⟨hyes, hsolid⟩
  · rw [hno] at heq
    cases heq
    exact .inl ⟨rfl, rfl⟩
  · rw [hyes] at heq
    cases heq
    exact .inr (hst.starts.next hsolid)

namespace Gives

variable {q : Parse Bool} {p p' : Parse β} {Q : β → State → Prop}

/-- Eating the first token of a node, or leaving it to the other branch. -/
theorem eatFirst (hq : Eats q) (h : Starts cs lo st)
    (yes : Trail cs lo st.next [] → Gives p env st.next Q) (no : Gives p' env st Q) :
    Gives (q >>= fun b => if b = true then p else p') env st Q := by
  rcases hq env st with heq | ⟨heq, hsolid⟩
  · exact step heq no
  · exact step heq (yes (h.next hsolid))

theorem eat (hq : Eats q) (h : Trail cs lo st ts)
    (yes : Trail cs lo st.next ts → Gives p env st.next Q) (no : Gives p' env st Q) :
    Gives (q >>= fun b => if b = true then p else p') env st Q :=
  eatFirst hq h.starts (fun _ => yes h.next) no

end Gives

/-- What is read only after a token that may be missing. -/
theorem Eats.mayReadThen [HasNodes α] {q : Parse Bool} {p : Parse α} (hq : Eats q)
    (hp : Reads cs p) : MayRead cs (do if ← q then return some (← p) else return none) := by
  intro env st hst
  refine .eatFirst hq hst.starts (fun h => ?_) (.ret (.inl ⟨rfl, rfl⟩))
  refine .next hp h fun a st' h' => .ret (.inr ?_)
  rw [nodes_some]
  rw [List.append_nil] at h'
  exact h'

/-- What is read only if the answer to a question is yes. -/
theorem Asks.mayReadThen [HasNodes α] {q : Parse Bool} {p : Parse α} (hq : Asks q)
    (hp : Reads cs p) : MayRead cs (do if ← q then return some (← p) else return none) := by
  intro env st hst
  obtain ⟨b, heq, -⟩ := hq env st
  refine .ask heq (fun _ => ?_) fun _ => .ret (.inl ⟨rfl, rfl⟩)
  refine .first hp hst.starts fun a st' h' => .ret (.inr ?_)
  rw [nodes_some]
  exact h'

/-- A token that has to be there is left. -/
theorem Eats.gives_next {q : Parse Bool} (hq : Eats q) {failing : Parse Unit}
    (hfail : ∀ env st Q, Gives failing env st Q) :
    Gives (do unless ← q do failing) env st fun _ st' =>
      st' = st.next ∧ st.current.token.kind.IsSolid := by
  rcases hq env st with heq | ⟨heq, hsolid⟩
  · exact .step heq (hfail _ _ _)
  · exact .step heq (.ret ⟨rfl, hsolid⟩)

/-- Eating a token or failing is reading. -/
theorem Eats.reads {q : Parse Bool} (hq : Eats q) {failing : Parse Unit}
    (hfail : ∀ env st Q, Gives failing env st Q) : Reads cs (do unless ← q do failing) := by
  intro env st hst
  refine (hq.gives_next hfail).mono fun _ st' h => ?_
  obtain ⟨rfl, hsolid⟩ := h
  exact hst.starts.next hsolid

theorem reads_expect (p : Punct) : Reads cs (expect p) :=
  (eats_eat p).reads fun _ _ _ => .failExpecting

theorem reads_expectKey (k : Keyword) : Reads cs (expectKey k) :=
  (eats_eatKey k).reads fun _ _ _ => .failExpecting

theorem reads_expectName (word : String) : Reads cs (expectName word) :=
  (eats_eatName word).reads fun _ _ _ => .failHere

theorem mayRead_semicolon : MayRead cs semicolon := by
  intro env st hst
  refine .eatFirst (eats_eat _) hst.starts (fun h => .ret (.inr h)) ?_
  exact .ask rfl (fun _ => .ret (.inl ⟨rfl, rfl⟩)) fun _ => .step rfl .fail

/-! ### What surrounds the place -/

section

variable [HasNodes α] {p : Parse α}

theorem Reads.withIn (h : Reads cs p) (allow : Bool) : Reads cs (withIn allow p) :=
  fun env st hst => h { env with allowIn := allow } st hst

theorem Reads.withinFunction (h : Reads cs p) (isAsync isGenerator : Bool) :
    Reads cs (withinFunction isAsync isGenerator p) :=
  fun env st hst =>
    h { env with inFunction := true, inAsync := isAsync, inGenerator := isGenerator } st hst

end

theorem Gives.withIn {p : Parse α} {Q : α → State → Prop} {allow : Bool}
    (h : Gives p { env with allowIn := allow } st Q) : Gives (Parse.withIn allow p) env st Q :=
  h

/-! ### Repetition -/

/-- What the last round of a repetition makes, if the rounds before it keep an invariant. -/
theorem gives_repeatFrom_last {I Q : σ → State → Prop} {round : σ → Parse (Round σ)} {s : σ}
    (h : I s st) (hround : ∀ s st, I s st → Gives (round s) env st fun
      | .again s, st' => I s st'
      | .last s, st' => Q s st') : Gives (repeatFrom round s) env st Q := by
  intro s' st' heq
  -- one case per way a round can end
  induction s, st using repeatFrom.induct round env with
  | case1 s st e hr =>
    rw [repeatFrom, hr] at heq
    cases heq
  | case2 s st s₁ st₁ hr =>
    rw [repeatFrom, hr] at heq
    cases heq
    exact hround s st h _ _ hr
  | case3 s st s₁ st₁ hr hlt ih =>
    rw [repeatFrom, hr] at heq
    dsimp only at heq
    rw [if_pos hlt] at heq
    exact ih (hround s st h _ _ hr) heq
  | case4 s st s₁ st₁ hr hlt =>
    rw [repeatFrom, hr] at heq
    dsimp only at heq
    rw [if_neg hlt] at heq
    -- a round that does not move on is refused
    exact (Gives.failHere (Q := fun _ _ => False) _ _ heq).elim

/-- What every round of a repetition keeps holds where the repetition ends. -/
theorem gives_repeatFrom {I : σ → State → Prop} {round : σ → Parse (Round σ)} {s : σ}
    (h : I s st) (hround : ∀ s st, I s st → Gives (round s) env st fun
      | .again s, st' | .last s, st' => I s st') : Gives (repeatFrom round s) env st I :=
  gives_repeatFrom_last h fun s st hs => (hround s st hs).mono fun r _ hr => by
    cases r <;> exact hr

/-- A repetition every round of which makes new nodes of those that the one before it made. -/
theorem gives_rounds [HasNodes σ] {round : σ → Parse (Round σ)} {s : σ}
    (h : Trail cs lo st (nodes s))
    (hround : ∀ s st, Trail cs lo st (nodes s) →
      Gives (round s) env st fun r st' => Trail cs lo st' (nodes r)) :
    Gives (repeatFrom round s) env st fun s st' => Trail cs lo st' (nodes s) :=
  gives_repeatFrom h fun s st h => (hround s st h).mono fun r _ h' => by cases r <;> exact h'

theorem Gives.rounds [HasNodes σ] {round : σ → Parse (Round σ)} {s : σ} {f : σ → Parse β}
    {Q : β → State → Prop} (h : Trail cs lo st (nodes s))
    (hround : ∀ s st, Trail cs lo st (nodes s) →
      Gives (round s) env st fun r st' => Trail cs lo st' (nodes r))
    (hf : ∀ s st', Trail cs lo st' (nodes s) → Gives (f s) env st' Q) :
    Gives (repeatFrom round s >>= f) env st Q :=
  .bind ((gives_rounds h hround).mono hf)

/-- A repetition along a trail, every round of which prolongs the trail. -/
theorem Gives.roundsAlong [HasNodes σ] {round : σ → Parse (Round σ)} {s : σ} {f : σ → Parse β}
    {Q : β → State → Prop} (h : Trail cs lo st (nodes s ++ ts))
    (hround : ∀ s st, Trail cs lo st (nodes s ++ ts) →
      Gives (round s) env st fun r st' => Trail cs lo st' (nodes r ++ ts))
    (hf : ∀ s st', Trail cs lo st' (nodes s ++ ts) → Gives (f s) env st' Q) :
    Gives (repeatFrom round s >>= f) env st Q := by
  have hrounds : Gives (repeatFrom round s) env st fun s st' => Trail cs lo st' (nodes s ++ ts) :=
    gives_repeatFrom h fun s st h => (hround s st h).mono fun r _ h' => by cases r <;> exact h'
  exact .bind (hrounds.mono hf)

section

variable [HasNodes α]

/-- A list of items reads something or nothing, according to how many there are. -/
theorem mayRead_itemsUntil (stop : Token.Kind → Bool) {item : Parse α} (h : Reads cs item) :
    MayRead cs (itemsUntil stop item) := by
  intro env st hst
  refine .bind ((gives_repeatFrom (I := fun items st' => Went cs st st' (nodes items))
    (.inl ⟨rfl, rfl⟩) ?_).mono fun items st' h => ?_)
  · intro items st' hwent
    refine .step rfl ?_
    split
    · exact .ret hwent
    · refine .bind fun a st₂ heq => .ret ?_
      exact .inr (hwent.trans (h env st' (hwent.isIn hst) a st₂ heq))
  · exact .ret (h.sub fun t ht => mem_nodes_reverse.mp ht)

theorem mayRead_itemsBefore (close : Punct) {item : Parse (α × Bool)} (h : Reads cs item) :
    MayRead cs (itemsBefore close item) := by
  intro env st hst
  refine .bind ((gives_repeatFrom (I := fun items st' => Went cs st st' (nodes items))
    (.inl ⟨rfl, rfl⟩) ?_).mono fun items st' h => ?_)
  · intro items st' hwent
    refine .ask rfl (fun _ => .ret hwent) fun _ => .bind fun a st₂ heq => ?_
    obtain ⟨a, isLast⟩ := a
    have h' := hwent.trans (h env st' (hwent.isIn hst) _ st₂ heq)
    rw [nodes_pair, NoNodes.nodes_eq_nil isLast, List.append_nil] at h'
    dsimp only
    split
    · exact .ret (.inr h')
    · exact .eat (eats_eat _) h' (fun h' => .ret (.inr h')) (.ret (.inr h'))
  · exact .ret (h.sub fun t ht => mem_nodes_reverse.mp ht)

/-- The items after commas prolong a trail that holds the first ones. -/
theorem Gives.itemsAfterCommas {first : List α} {item : Parse α} {f : List α → Parse β}
    {Q : β → State → Prop} (hitem : Reads cs item) (h : Trail cs lo st (nodes first))
    (hf : ∀ items st', Trail cs lo st' (nodes items) → Gives (f items) env st' Q) :
    Gives (Parse.itemsAfterCommas first item >>= f) env st Q := by
  refine .bind (.rounds h (fun items st' h' => ?_) fun items st' h' => .ret (hf _ st' ?_))
  · refine .eat (eats_eat _) h' (fun h' => ?_) (.ret h')
    exact .next hitem h' fun a st'' h'' => .ret h''
  · exact h'.sub fun t ht => mem_nodes_reverse.mp ht

/-! ### Reading again further on -/

/-- Going deeper with the room there is, by induction on it. -/
theorem reads_furtherOnWithin {p : Parse α → Parse α} (h : ∀ q, Reads cs q → Reads cs (p q))
    (room : Nat) : Reads cs (furtherOnWithin p room) := by
  induction room using Nat.strongRecOn with
  | ind room ih =>
    rw [furtherOnWithin]
    refine h _ fun env st hst a st' heq => ?_
    split at heq
    · next hlt => exact ih _ hlt env st hst a st' heq
    · exact (Gives.failHere (Q := fun _ _ => False) _ _ heq).elim

theorem reads_furtherOn {p : Parse α → Parse α} (h : ∀ q, Reads cs q → Reads cs (p q)) :
    Reads cs (furtherOn p) :=
  fun env st hst => reads_furtherOnWithin h (env.size - st.current.first.pos) env st hst

end

end Parse

end Espalier
