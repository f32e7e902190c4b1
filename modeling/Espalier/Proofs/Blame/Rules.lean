import Espalier.Proofs.Grammar.Making
import Espalier.Proofs.Grammar.Statement

/-!
# What a reader blames

A span is a place of a source if its ends are borders of characters, in this order. A reader `Stays`
in a source if it ends in a state of the source, or blames a place of it. Here are the rules by
which this is shown along the code of a reader. A reader that stays in every source, wherever it
starts there, is local (`Parse.IsLocal`). Instances find that out, unless the reader blames more
than the current token.
-/

namespace Espalier

open Text Token

/-- The ends of a span are borders of characters of a source, in this order. -/
structure IsPlace (cs : List Char) (s : Span) : Prop where
  start_le : s.start ≤ s.stop
  isBorder_start : IsBorder cs s.start
  isBorder_stop : IsBorder cs s.stop

/-- An empty span may be blamed wherever a character ends. -/
theorem IsBorder.isPlace_empty {cs : List Char} {n : Nat} (h : IsBorder cs n) :
    IsPlace cs (.empty n) :=
  ⟨Nat.le_refl n, h, h⟩

/-- A computation that fails, if it does, at a place of a source. -/
def BlamesPlace {α : Type} (cs : List Char) (x : Except SyntaxError α) : Prop :=
  ∀ e, x = .error e → IsPlace cs e.span

namespace BlamesPlace

variable {α β : Type} {cs : List Char} {x : Except SyntaxError α} {f : α → Except SyntaxError β}

/-- What does not fail blames nothing. -/
theorem ok {a : α} : BlamesPlace cs (.ok a) := by
  intro e heq
  cases heq

/-- An error blames its own span. -/
theorem error {e : SyntaxError} (h : IsPlace cs e.span) :
    BlamesPlace cs (.error e : Except SyntaxError α) := by
  intro e' heq
  cases heq
  exact h

/-- Of two computations the first one blames a place, or the second. -/
theorem bind (h : BlamesPlace cs x) (hf : ∀ a, x = .ok a → BlamesPlace cs (f a)) :
    BlamesPlace cs (x >>= f) := by
  cases x with
  | error e => exact error (h e rfl)
  | ok a => exact hf a rfl

end BlamesPlace

namespace Tree.Fits

variable {cs : List Char} {lo hi : Nat}

/-- The span of a node that fits into the source is a place of the source. -/
theorem isPlace {t : Tree} (h : t.Fits cs lo hi) : IsPlace cs t.span :=
  ⟨h.lies.start_le, h.lies.isBorder_start, h.lies.isBorder_stop⟩

/-- The span of an expression that fits is a place too. -/
theorem isPlace_expr {e : Expr} (h : e.tree.Fits cs lo hi) : IsPlace cs e.span := by
  rw [← (Grammar.span_tree e).1]
  exact h.isPlace

end Tree.Fits

namespace Parse

variable {α β σ : Type} {cs : List Char} {env : Env} {st : State}

namespace State.IsIn

/-- The current token stands at a place of the source. -/
theorem isPlace (h : st.IsIn cs) : IsPlace cs st.current.token.span := by
  rw [h.isRead.span_eq]
  obtain ⟨text, hreads, -⟩ := h.isRead.reads
  exact ⟨hreads.pos_le, h.reaches.isBorder, h.reaches_after.isBorder⟩

/-- What was read from a border on takes up a place. -/
theorem isPlace_finish (h : st.IsIn cs) {start : Nat} (hstart : IsBorder cs start) :
    IsPlace cs ⟨start, max st.prevEnd start⟩ := by
  refine ⟨Nat.le_max_right _ _, hstart, ?_⟩
  rcases Nat.le_total st.prevEnd start with hle | hle
  · rwa [Nat.max_eq_right hle]
  · rw [Nat.max_eq_left hle]
    exact h.isBorder_prevEnd

end State.IsIn

/-- A reader ends in a state of the source with a result that satisfies a condition, or blames a
place of the source. -/
def Stays (cs : List Char) (p : Parse α) (env : Env) (st : State) (Q : α → Prop) : Prop :=
  match p env st with
  | .ok (a, st') => st'.IsIn cs ∧ Q a
  | .error e => IsPlace cs e.span

/-- A reader stays in every source, wherever it starts there. -/
class IsLocal (p : Parse α) : Prop where
  stays (cs : List Char) (env : Env) (st : State) (hst : st.IsIn cs) :
    Stays cs p env st fun _ => True

namespace Stays

variable {p p' : Parse α} {f : α → Parse β} {Q R : α → Prop} {S : β → Prop}

/-- A parser that has given something is in the source still, and what it has given is as promised.
-/
theorem isIn {a : α} {st' : State} (h : Stays cs p env st Q) (heq : p env st = .ok (a, st')) :
    st'.IsIn cs ∧ Q a := by
  unfold Stays at h
  rwa [heq] at h

theorem isPlace {e : SyntaxError} (h : Stays cs p env st Q) (heq : p env st = .error e) :
    IsPlace cs e.span := by
  unfold Stays at h
  rwa [heq] at h

/-- It is enough to look at what a parser gives, if it is known to give something. -/
theorem of_ok {a : α} {st' : State} (heq : p env st = .ok (a, st')) (h : st'.IsIn cs ∧ Q a) :
    Stays cs p env st Q := by
  unfold Stays
  rwa [heq]

/-- It is enough to look at what a parser blames, if it is known to fail. -/
theorem of_error {e : SyntaxError} (heq : p env st = .error e) (h : IsPlace cs e.span) :
    Stays cs p env st Q := by
  unfold Stays
  rwa [heq]

/-- What is promised may be weakened. -/
theorem mono (h : Stays cs p env st Q) (hQ : ∀ a, Q a → R a) : Stays cs p env st R := by
  unfold Stays at h ⊢
  split at h
  · next a st' heq => exact ⟨h.1, hQ a h.2⟩
  · exact h

/-- What is known of the results anyway. -/
theorem and (h : Stays cs p env st Q) (h' : Gives p env st fun a _ => R a) :
    Stays cs p env st fun a => Q a ∧ R a := by
  unfold Stays at h ⊢
  split at h
  · next a st' heq => exact ⟨h.1, h.2, h' a st' heq⟩
  · exact h

/-- A local reader stays in the source, whatever it makes. -/
theorem of_local [hp : IsLocal p] (hst : st.IsIn cs) : Stays cs p env st fun _ => True :=
  hp.stays cs env st hst

/-- What has been read already is promised by whoever has read it. -/
theorem ret {a : α} (hst : st.IsIn cs) (h : Q a) : Stays cs (pure a) env st Q := ⟨hst, h⟩

/-- Two parsers one after the other: the second one starts where the first one has ended. -/
theorem bind (h : Stays cs p env st Q)
    (hf : ∀ a st', st'.IsIn cs → Q a → Stays cs (f a) env st' S) :
    Stays cs (p >>= f) env st S := by
  have heq : (p >>= f) env st = (p env st).bind fun x => f x.1 env x.2 := rfl
  cases hp : p env st with
  | error e =>
    rw [hp] at heq
    exact of_error heq (h.isPlace hp)
  | ok x =>
    obtain ⟨hst', hQ⟩ := h.isIn hp
    have hrest := hf x.1 x.2 hst' hQ
    rw [hp] at heq
    unfold Stays at hrest ⊢
    rwa [heq]

/-- A step of which the result and the end are known. -/
theorem step {a : α} {st₁ : State} (h : p env st = .ok (a, st₁))
    (hf : Stays cs (f a) env st₁ S) : Stays cs (p >>= f) env st S := by
  unfold Stays
  rw [bind_eq h]
  exact hf

/-- A question that nothing is read for. -/
theorem ask {q : Parse Bool} {b : Bool} {p p' : Parse β} (h : q env st = .ok (b, st))
    (yes : b = true → Stays cs p env st S) (no : b = false → Stays cs p' env st S) :
    Stays cs (q >>= fun b => if b = true then p else p') env st S := by
  refine step h ?_
  cases b with
  | true => exact yes rfl
  | false => exact no rfl

/-- A step whose result does not matter. -/
theorem skip [IsLocal p] (hst : st.IsIn cs)
    (hf : ∀ a st', st'.IsIn cs → Stays cs (f a) env st' S) : Stays cs (p >>= f) env st S :=
  bind (of_local hst) fun a st' hst' _ => hf a st' hst'

/-- What is made of a result is promised if it is so of the result. -/
theorem map {f : α → β} (h : Stays cs p env st fun a => S (f a)) :
    Stays cs (f <$> p) env st S := by
  rw [map_eq_pure_bind]
  exact bind h fun _ _ hst' ha => .ret hst' ha

/-- A parser may fail at any place of the source. -/
theorem fail {cause : SyntaxCause} {span : Span} (h : IsPlace cs span) :
    Stays cs (Parse.fail cause span) env st Q :=
  h

/-- The token that is next has a place in the source. -/
theorem failHere {cause : SyntaxCause} (hst : st.IsIn cs) :
    Stays cs (Parse.failHere cause) env st Q :=
  hst.isPlace

/-- A check that blames places may be made in the middle of parsing. -/
theorem ofExcept {x : Except SyntaxError α} (hst : st.IsIn cs) (h : BlamesPlace cs x) :
    Stays cs (MonadExcept.ofExcept x) env st fun _ => True := by
  cases x with
  | error e => exact h e rfl
  | ok a => exact ⟨hst, trivial⟩

/-- Whether `in` is an operator has nothing to do with places. -/
theorem withIn {allow : Bool} (h : Stays cs p { env with allowIn := allow } st Q) :
    Stays cs (Parse.withIn allow p) env st Q :=
  h

/-- The nodes that a local reader makes fit into the source. -/
theorem of_reads [HasNodes α] [IsLocal p] (hreads : Reads cs p) (hst : st.IsIn cs) :
    Stays cs p env st fun a => ∀ t ∈ nodes a, t.Fits cs 0 (bytes cs) := by
  refine ((of_local hst).and ?_).mono fun a ha => ha.2
  intro a st' heq t ht
  have htrail := hreads env st hst a st' heq
  exact (htrail.fits t ht).widen (Nat.zero_le _) htrail.isIn.isBorder_prevEnd.le

/-- The same for what is one node. -/
theorem of_reads_node [IsNode α] [IsLocal p] (hreads : Reads cs p) (hst : st.IsIn cs) :
    Stays cs p env st fun a => (IsNode.tree a).Fits cs 0 (bytes cs) :=
  (of_reads hreads hst).mono fun _ h => h _ (List.mem_singleton_self _)

/-! ### Tokens and spans -/

/-- The next token is in the source. -/
theorem token (hst : st.IsIn cs) :
    Stays cs Parse.token env st fun t => IsPlace cs t.span :=
  ⟨hst, hst.isPlace⟩

/-- A node starts where a character ends. -/
theorem start (hst : st.IsIn cs) : Stays cs Parse.start env st (IsBorder cs) :=
  ⟨hst, hst.isBorder_pos⟩

/-- The token that is passed is in the source. -/
theorem advance (hst : st.IsIn cs) : Stays cs Parse.advance env st fun t => IsPlace cs t.span :=
  ⟨hst.next, hst.isPlace⟩

/-- A node that has started at a border ends at one. -/
theorem finish (hst : st.IsIn cs) {start : Nat} (hstart : IsBorder cs start) :
    Stays cs (Parse.finish start) env st (IsPlace cs) :=
  ⟨hst, hst.isPlace_finish hstart⟩

/-! ### Repetition -/

/-- A repetition stays in the source if every round does, and keeps what every round keeps. A round
that does not move on is blamed on the token behind it. -/
theorem rounds {I : σ → Prop} {round : σ → Parse (Round σ)} {s : σ} (hst : st.IsIn cs) (h : I s)
    (hround : ∀ s st, st.IsIn cs → I s → Stays cs (round s) env st (Round.Keeps I)) :
    Stays cs (repeatFrom round s) env st I := by
  -- The cases are those of a repetition: a round fails, or it is the last one, or the repetition
  -- goes on, or it would not get any further.
  induction s, st using repeatFrom.induct round env with
  | case1 s st e hr =>
    refine of_error ?_ ((hround s st hst h).isPlace hr)
    rw [repeatFrom, hr]
  | case2 s st s₁ st₁ hr =>
    refine of_ok ?_ ((hround s st hst h).isIn hr)
    rw [repeatFrom, hr]
  | case3 s st s₁ st₁ hr hlt ih =>
    have hkeeps := (hround s st hst h).isIn hr
    have hrest := ih hkeeps.1 hkeeps.2
    unfold Stays at hrest ⊢
    rw [repeatFrom, hr]
    dsimp only
    rwa [if_pos hlt]
  | case4 s st s₁ st₁ hr hlt =>
    have hst₁ := ((hround s st hst h).isIn hr).1
    refine of_error (e := ⟨.stalled, st₁.current.token.span⟩) ?_ hst₁.isPlace
    rw [repeatFrom, hr]
    dsimp only
    rw [if_neg hlt]
    rfl

end Stays

/-! ### Local readers -/

namespace IsLocal

variable {p p' : Parse α} {f : α → Parse β}

/-- Whatever a reader makes, it is local if it stays in every source. -/
theorem of_stays {Q : List Char → α → Prop}
    (h : ∀ cs env st, st.IsIn cs → Stays cs p env st (Q cs)) : IsLocal p :=
  ⟨fun cs env st hst => (h cs env st hst).mono fun _ _ => trivial⟩

instance pure (a : α) : IsLocal (pure a : Parse α) := ⟨fun _ _ _ hst => .ret hst trivial⟩

instance bind [IsLocal p] [hf : ∀ a, IsLocal (f a)] : IsLocal (p >>= f) :=
  ⟨fun cs env _ hst => .skip hst fun a st' hst' => (hf a).stays cs env st' hst'⟩

/-- One reader after the other, when instances do not find them. -/
theorem seq (hp : IsLocal p) (hf : ∀ a, IsLocal (f a)) : IsLocal (p >>= f) := bind

/-- The step by which a reader starts, when instances do not find the rest. -/
theorem first [IsLocal p] (hf : ∀ a, IsLocal (f a)) : IsLocal (p >>= f) := bind

instance map [hp : IsLocal p] (f : α → β) : IsLocal (f <$> p) :=
  ⟨fun cs env st hst => .map (hp.stays cs env st hst)⟩

instance ite {c : Prop} [Decidable c] [IsLocal p] [IsLocal p'] :
    IsLocal (if c then p else p') := by
  split <;> assumption

instance dite {c : Prop} [Decidable c] {p : c → Parse α} {p' : ¬c → Parse α}
    [hp : ∀ h, IsLocal (p h)] [hp' : ∀ h, IsLocal (p' h)] :
    IsLocal (if h : c then p h else p' h) := by
  split
  · exact hp _
  · exact hp' _

/-- A question, when instances do not find what is read after it. -/
theorem ask {q : Parse Bool} [IsLocal q] (yes : IsLocal p) (no : IsLocal p') :
    IsLocal (q >>= fun b => if b = true then p else p') := bind

instance read : IsLocal (MonadReader.read : Parse Env) := ⟨fun _ _ _ hst => ⟨hst, trivial⟩⟩

instance withReader (change : Env → Env) [hp : IsLocal p] : IsLocal (withReader change p) :=
  ⟨fun cs env st hst => hp.stays cs (change env) st hst⟩

instance withIn (allow : Bool) [IsLocal p] : IsLocal (withIn allow p) :=
  withReader _

instance withinFunction (isAsync isGenerator : Bool) [IsLocal p] :
    IsLocal (withinFunction isAsync isGenerator p) :=
  withReader _

instance token : IsLocal token := .of_stays fun _ _ _ => .token

instance start : IsLocal start := .of_stays fun _ _ _ => .start

instance advance : IsLocal advance := .of_stays fun _ _ _ => .advance

instance finish (start : Nat) : IsLocal (finish start) := ⟨fun _ _ _ hst => ⟨hst, trivial⟩⟩

instance peek : IsLocal peek := ⟨fun _ _ _ hst => ⟨hst, trivial⟩⟩

instance kind : IsLocal kind := bind

instance failHere (cause : SyntaxCause) : IsLocal (failHere cause : Parse α) :=
  ⟨fun _ _ _ hst => .failHere hst⟩

instance repeatFrom {round : σ → Parse (Round σ)} (s : σ) [hround : ∀ s, IsLocal (round s)] :
    IsLocal (repeatFrom round s) :=
  ⟨fun cs env st hst => .rounds hst trivial fun s st hst _ =>
    ((hround s).stays cs env st hst).mono fun r _ => by cases r <;> trivial⟩

theorem rounds {round : σ → Parse (Round σ)} {s : σ} (hround : ∀ s, IsLocal (round s)) :
    IsLocal (Parse.repeatFrom round s) := repeatFrom s

/-- What may be read again further on is local if it is so around any local reader. -/
theorem furtherOn {p : Parse α → Parse α} (h : ∀ q, IsLocal q → IsLocal (p q)) :
    IsLocal (furtherOn p) := by
  have hwithin (room : Nat) : IsLocal (furtherOnWithin p room) := by
    induction room using Nat.strongRecOn with
    | ind room ih =>
      rw [furtherOnWithin]
      refine h _ ⟨fun cs env st hst => ?_⟩
      unfold Stays
      dsimp only
      by_cases hlt : env.size - st.current.first.pos < room
      · rw [if_pos hlt]
        exact (ih _ hlt).stays cs env st hst
      · rw [if_neg hlt]
        exact hst.isPlace
  exact ⟨fun cs env st hst => (hwithin _).stays cs env st hst⟩

/-! ### Tokens that are asked for -/

instance unexpected : IsLocal (unexpected : Parse α) := by
  refine first fun k => ?_
  split <;> infer_instance

instance failExpecting (cause : SyntaxCause) : IsLocal (failExpecting cause) := by
  refine first fun k => ?_
  split <;> infer_instance

instance isPunct (p : Punct) : IsLocal (isPunct p) := bind

instance isKey (k : Keyword) : IsLocal (isKey k) := bind

instance isName (word : String) : IsLocal (isName word) := bind

instance isAnyName : IsLocal isAnyName := by
  refine first fun k => ?_
  split <;> infer_instance

instance isEof : IsLocal isEof := bind

instance eat (p : Punct) : IsLocal (eat p) := bind

instance eatKey (k : Keyword) : IsLocal (eatKey k) := bind

instance eatName (word : String) : IsLocal (eatName word) := bind

instance expect (p : Punct) : IsLocal (expect p) := bind

instance expectKey (k : Keyword) : IsLocal (expectKey k) := bind

instance expectName (word : String) : IsLocal (expectName word) := bind

instance atImplicitEnd : IsLocal atImplicitEnd := bind

/-- A semicolon that is missing is missed where the last token ends. -/
instance semicolon : IsLocal semicolon := by
  refine ⟨fun cs env st hst => ?_⟩
  refine .skip hst fun _ st₁ h₁ => ?_
  split
  · exact .ret h₁ trivial
  refine .skip h₁ fun _ st₂ h₂ => ?_
  split
  · exact .ret h₂ trivial
  · exact .step rfl (.fail h₂.isBorder_prevEnd.isPlace_empty)

instance identifierName : IsLocal identifierName := by
  refine first fun t => ?_
  split <;> infer_instance

instance bindingName : IsLocal bindingName := by
  refine first fun t => ?_
  split <;> infer_instance

instance stringLiteral : IsLocal stringLiteral := by
  refine first fun t => ?_
  split <;> infer_instance

/-! ### Repetition -/

instance itemsUntil (stop : Token.Kind → Bool) (item : Parse α) [IsLocal item] :
    IsLocal (itemsUntil stop item) := bind

instance itemsBefore (close : Punct) (item : Parse (α × Bool)) [IsLocal item] :
    IsLocal (itemsBefore close item) := bind

instance itemsAfterCommas (first : List α) (item : Parse α) [IsLocal item] :
    IsLocal (itemsAfterCommas first item) := bind

end IsLocal

end Parse

end Espalier
