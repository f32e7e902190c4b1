import Espalier.Grammar
import Espalier.Proofs.Grammar.Reading
import Espalier.Proofs.Token.Lexeme

/-!
# Reading what is known to be there

Where the kinds of the next tokens are known (`Ahead`), it can be told what a reader makes of them.
`Finds` says so, with one exception: a reader may refuse what is nested too deep. Here are the rules
by which this is shown along the code of a reader. As no result depends on where in the source it
stands, all that is said of the state in which a reader ends is how many tokens it has left behind
(`State.past`).
-/

namespace Espalier

open Token

namespace Parse

variable {α β σ : Type} {deep : Prop} {env : Env} {st st' : State} {k j : Kind}
  {us vs ks : List Kind}

/-! ### Wherever a reader ends -/

/-- A reader succeeds as told or refuses what is nested too deep, which it does only if `deep`. -/
def Finds (deep : Prop) (p : Parse α) (env : Env) (st : State) (Q : α → State → Prop) : Prop :=
  match p env st with
  | .ok (a, st') => Q a st'
  | .error e => e.cause = .tooDeep ∧ deep

namespace Finds

variable {p p' : Parse α} {f : α → Parse β} {Q : β → State → Prop}

theorem ret {b : β} (h : Q b st) : Finds deep (pure b) env st Q := h

/-- A sequence finds its result when its first half does and the rest goes on from there. -/
theorem bind (h : Finds deep p env st fun a st' => Finds deep (f a) env st' Q) :
    Finds deep (p >>= f) env st Q := by
  have heq : (p >>= f) env st = (p env st).bind fun x => f x.1 env x.2 := rfl
  unfold Finds at h ⊢
  rw [heq]
  cases hp : p env st with
  | error e =>
    rw [hp] at h
    exact h
  | ok x =>
    rw [hp] at h
    exact h

/-- What a parser finds may be described more loosely. -/
theorem mono {P P' : α → State → Prop} (h : Finds deep p env st P)
    (hP : ∀ a st', P a st' → P' a st') : Finds deep p env st P' := by
  unfold Finds at h ⊢
  cases hp : p env st with
  | error e =>
    rw [hp] at h
    exact h
  | ok x =>
    rw [hp] at h
    exact hP x.1 x.2 h

/-- The first two steps may be taken together. -/
theorem assoc {g : β → Parse σ} {Q : σ → State → Prop}
    (h : Finds deep ((p >>= f) >>= g) env st Q) :
    Finds deep (p >>= fun a => f a >>= g) env st Q := by
  rw [← bind_assoc]
  exact h

/-- A step of which the result and the end are known. -/
theorem step {a : α} {st₁ : State} (h : p env st = .ok (a, st₁))
    (hf : Finds deep (f a) env st₁ Q) : Finds deep (p >>= f) env st Q := by
  unfold Finds
  rw [bind_eq h]
  exact hf

/-- A reader of which the result and the end are known. -/
theorem gives {a : α} {st₁ : State} {Q : α → State → Prop} (h : p env st = .ok (a, st₁))
    (hQ : Q a st₁) : Finds deep p env st Q := by
  unfold Finds
  rw [h]
  exact hQ

/-- A question of which the answer is yes. -/
theorem yes {q : Parse Bool} {p p' : Parse β} (h : q env st = .ok (true, st'))
    (hp : Finds deep p env st' Q) :
    Finds deep (q >>= fun b => if b = true then p else p') env st Q :=
  step h hp

/-- A question of which the answer is no. -/
theorem no {q : Parse Bool} {p p' : Parse β} (h : q env st = .ok (false, st'))
    (hp : Finds deep p' env st' Q) :
    Finds deep (q >>= fun b => if b = true then p else p') env st Q :=
  step h hp

theorem withIn {allow : Bool} {P : α → State → Prop}
    (h : Finds deep p { env with allowIn := allow } st P) :
    Finds deep (Parse.withIn allow p) env st P :=
  h

end Finds

/-! ### Repetition -/

/-- From one state to the other, a repetition may go on. -/
def GoesOn (env : Env) (st st' : State) : Prop :=
  st.current.first.pos < env.size ∧ st.current.first.pos < st'.current.first.pos

/-- A repetition, from what is known of its next round. -/
theorem Finds.repeat {round : σ → Parse (Round σ)} {s : σ} {Q : σ → State → Prop}
    (h : Finds deep (round s) env st fun
      | .last s', st' => Q s' st'
      | .again s', st' => GoesOn env st st' ∧ Finds deep (repeatFrom round s') env st' Q) :
    Finds deep (repeatFrom round s) env st Q := by
  unfold Finds at h ⊢
  rw [repeatFrom]
  cases hround : round s env st with
  | error e =>
    rw [hround] at h
    exact h
  | ok x =>
    rw [hround] at h
    obtain ⟨r, st'⟩ := x
    cases r with
    | last s' => exact h
    | again s' =>
      -- A repetition checks that a round has left something behind, or it would not end.
      have hgoes : st.current.first.pos < env.size ∧
          st.current.first.pos < st'.current.first.pos := h.1
      dsimp only
      rw [if_pos hgoes]
      exact h.2

/-- What may be read again further on is read with some reader for that. -/
theorem Finds.furtherOn {p : Parse α → Parse α} {Q : α → State → Prop}
    (h : ∀ q, Finds deep (p q) env st Q) : Finds deep (Parse.furtherOn p) env st Q := by
  have heq : ∃ q, Parse.furtherOn p env st = p q env st := by
    unfold Parse.furtherOn
    rw [furtherOnWithin]
    exact ⟨_, rfl⟩
  obtain ⟨q, hq⟩ := heq
  unfold Finds
  rw [hq]
  exact h q

/-- A reading that counts as one more level of nesting. -/
theorem Finds.nested {f p : Nat → Parse α} {n d : Nat} {Q : α → State → Prop}
    (hzero : f 0 = failHere .tooDeep) (hsucc : ∀ m, f (m + 1) = p m) (hdeep : n < d + 1 → deep)
    (h : ∀ m, (m < d → deep) → Finds deep (p m) env st Q) : Finds deep (f n) env st Q := by
  cases n with
  | zero =>
    rw [hzero]
    exact ⟨rfl, hdeep (Nat.zero_lt_succ d)⟩
  | succ m =>
    rw [hsucc]
    exact h m fun hm => hdeep (Nat.succ_lt_succ hm)

/-! ### The tokens ahead -/

/-- The state some tokens further on. -/
def State.past (st : State) (us : List Kind) : State := us.foldl (fun st _ => st.next) st

/-- Going past two runs of tokens is going past one and then the other. -/
theorem State.past_append (st : State) (us vs : List Kind) :
    st.past (us ++ vs) = (st.past us).past vs :=
  List.foldl_append

/-- The kinds of the current token and of those behind it, none of which starts a line that
matters. -/
def State.Shows (st : State) (ks : List Kind) : Prop :=
  ∃ place, st.current = scan place ∧ Scans place.rest ks

/-- The next tokens where `in` is an operator, if it is one of them. -/
structure Ahead (env : Env) (st : State) (ks : List Kind) : Prop where
  isIn : ∃ cs, st.IsIn cs ∧ env.size = Text.bytes cs
  allowIn : .keyword .inKw ∈ ks → env.allowIn = true
  shows : st.Shows ks

/-- `eat` looks first and moves only when it saw the punctuator. -/
theorem eat_eq (p : Punct) (env : Env) (st : State) :
    eat p env st = (isPunct p env st).bind fun x =>
      (if x.1 = true then (do let _ ← advance; return true : Parse Bool) else pure false) env x.2 :=
  rfl

theorem eatKey_eq (word : Keyword) (env : Env) (st : State) :
    eatKey word env st = (isKey word env st).bind fun x =>
      (if x.1 = true then (do let _ ← advance; return true : Parse Bool) else pure false) env x.2 :=
  rfl

theorem eatName_eq (word : String) (env : Env) (st : State) :
    eatName word env st = (isName word env st).bind fun x =>
      (if x.1 = true then (do let _ ← advance; return true : Parse Bool) else pure false) env x.2 :=
  rfl

namespace Ahead

/-- What lies ahead, read off the state: the kind of the current token, its line break, and the
rest. -/
theorem scansTo (h : Ahead env st (k :: ks)) : st.current.token.kind = k ∧
    (k.mindsLine = true → st.current.token.newlineBefore = false) ∧
    Scans st.current.after.rest ks := by
  obtain ⟨⟨pos, rest⟩, hcurrent, hscans⟩ := h.shows
  cases hscans with
  | cons head tail =>
    obtain ⟨hkind, hline, hrest⟩ := head pos
    rw [hcurrent]
    refine ⟨hkind, hline, ?_⟩
    rw [hrest]
    exact tail

theorem kind (h : Ahead env st (k :: ks)) : st.current.token.kind = k := h.scansTo.1

theorem newlineBefore (h : Ahead env st (k :: ks)) (hk : k.mindsLine = true) :
    st.current.token.newlineBefore = false :=
  h.scansTo.2.1 hk

/-- Past one token, the rest lies ahead. -/
theorem next (h : Ahead env st (k :: ks)) : Ahead env st.next ks := by
  obtain ⟨cs, hin, hsize⟩ := h.isIn
  exact ⟨⟨cs, hin.next, hsize⟩, fun hks => h.allowIn (.tail k hks), _, rfl, h.scansTo.2.2⟩

/-- A word that is an operator only where that is allowed is one here. -/
theorem isOperator (h : Ahead env st (k :: ks)) : (k.isKey .inKw && !env.allowIn) = false := by
  cases k with
  | keyword word =>
    by_cases hword : word = .inKw
    · rw [h.allowIn (hword ▸ .head ks), Bool.not_true, Bool.and_false]
    · rw [show (Kind.keyword word).isKey .inKw = false from beq_false_of_ne hword,
        Bool.false_and]
  | _ => rfl

/-- Past a run of tokens, the rest lies ahead. -/
theorem past (h : Ahead env st (us ++ ks)) : Ahead env (st.past us) ks := by
  induction us generalizing st with
  | nil => exact h
  | cons u us ih => exact ih h.next

/-- The kind of the token behind the current one. -/
theorem peek_kind (h : Ahead env st (k :: j :: ks)) :
    (scan st.current.after).token.kind = j :=
  h.next.kind

theorem withIn (h : Ahead env st ks) : Ahead { env with allowIn := true } st ks :=
  ⟨h.isIn, fun _ => rfl, h.shows⟩

/-- Where `in` is not an operator the next tokens are the same, as far as it is not one of them. -/
theorem withoutIn (h : Ahead env st (us ++ ks)) (hus : .keyword .inKw ∉ us) :
    Ahead { env with allowIn := false } st us := by
  obtain ⟨place, hcurrent, hscans⟩ := h.shows
  exact ⟨h.isIn, fun hin => absurd hin hus, place, hcurrent, hscans.front⟩

/-- Going past tokens never goes back. -/
theorem pos_le_past (h : Ahead env st (us ++ ks)) : st.pos ≤ (st.past us).pos := by
  induction us generalizing st with
  | nil => exact Nat.le_refl _
  | cons u us ih =>
    obtain ⟨cs, hin, -⟩ := h.isIn
    have hle : st.pos ≤ st.next.pos := by
      have hnext := hin.next.prevEnd_le
      obtain ⟨text, hreads, -⟩ := hin.isRead.reads
      have hpos : st.current.first.pos ≤ st.current.after.pos := hreads.pos_le
      have hstop : st.next.prevEnd = st.current.after.pos := by
        show st.current.token.span.stop = _
        rw [hin.isRead.span_eq]
      rw [← hin.pos_eq] at hpos
      omega
    exact Nat.le_trans hle (ih h.next)

/-- Past a token that has a text a repetition may go on. -/
theorem goesOn (h : Ahead env st (k :: us ++ ks)) (hk : k.IsSolid) :
    GoesOn env st (st.past (k :: us)) := by
  obtain ⟨cs, hin, hsize⟩ := h.isIn
  obtain ⟨cs', hin', -⟩ := h.past.isIn
  have hkind := h.kind
  have hlt := hin.pos_lt_stop (hkind ▸ hk)
  have hnext := hin.next.prevEnd_le
  have hle : st.next.pos ≤ (st.past (k :: us)).pos := pos_le_past h.next
  have hend := hin.next.isBorder_prevEnd.le
  rw [← hsize] at hend
  have hpos := hin.pos_eq
  have hpos' := hin'.pos_eq
  constructor <;> omega

/-! ### Questions and expected tokens -/

theorem isPunct (h : Ahead env st (k :: ks)) (p : Punct) :
    Parse.isPunct p env st = .ok (k.isPunct p, st) := by
  show Except.ok (st.current.token.kind.isPunct p, st) = _
  rw [h.kind]

theorem isKey (h : Ahead env st (k :: ks)) (word : Keyword) :
    Parse.isKey word env st = .ok (k.isKey word, st) := by
  show Except.ok (st.current.token.kind.isKey word, st) = _
  rw [h.kind]

theorem isName (h : Ahead env st (k :: ks)) (word : String) :
    Parse.isName word env st = .ok (k.isName word, st) := by
  show Except.ok (st.current.token.kind.isName word, st) = _
  rw [h.kind]

theorem eat (h : Ahead env st (k :: ks)) {p : Punct} (hk : k.isPunct p = true) :
    Parse.eat p env st = .ok (true, st.next) := by
  rw [eat_eq, h.isPunct, hk]
  rfl

theorem eat_no (h : Ahead env st (k :: ks)) {p : Punct} (hk : k.isPunct p = false) :
    Parse.eat p env st = .ok (false, st) := by
  rw [eat_eq, h.isPunct, hk]
  rfl

theorem expect {p : Punct} (h : Ahead env st (.punct p :: ks)) :
    Parse.expect p env st = .ok ((), st.next) := by
  have heq : Parse.expect p env st = (Parse.eat p env st).bind fun x =>
      (if x.1 = true then (pure () : Parse Unit) else failExpecting (.expectedSign p)) env x.2 :=
    rfl
  rw [heq, h.eat (beq_self_eq_true p)]
  rfl

theorem eatKey (h : Ahead env st (k :: ks)) {word : Keyword} (hk : k.isKey word = true) :
    Parse.eatKey word env st = .ok (true, st.next) := by
  rw [eatKey_eq, h.isKey, hk]
  rfl

theorem eatKey_no (h : Ahead env st (k :: ks)) {word : Keyword} (hk : k.isKey word = false) :
    Parse.eatKey word env st = .ok (false, st) := by
  rw [eatKey_eq, h.isKey, hk]
  rfl

theorem eatName_no (h : Ahead env st (k :: ks)) {word : String} (hk : k.isName word = false) :
    Parse.eatName word env st = .ok (false, st) := by
  rw [eatName_eq, h.isName, hk]
  rfl

theorem eatName {word : String} (h : Ahead env st (.name word :: ks)) :
    Parse.eatName word env st = .ok (true, st.next) := by
  rw [eatName_eq, h.isName, show (Kind.name word).isName word = true from beq_self_eq_true word]
  rfl

theorem expectName {word : String} (h : Ahead env st (.name word :: ks)) :
    Parse.expectName word env st = .ok ((), st.next) := by
  have heq : Parse.expectName word env st = (Parse.eatName word env st).bind fun x =>
      (if x.1 = true then (pure () : Parse Unit) else failHere (.expectedWord word)) env x.2 :=
    rfl
  rw [heq, h.eatName]
  rfl

theorem expectKey {word : Keyword} (h : Ahead env st (.keyword word :: ks)) :
    Parse.expectKey word env st = .ok ((), st.next) := by
  have heq : Parse.expectKey word env st = (Parse.eatKey word env st).bind fun x =>
      (if x.1 = true then (pure () : Parse Unit)
        else failExpecting (.expectedKeyword word)) env x.2 :=
    rfl
  rw [heq, h.eatKey (beq_self_eq_true word)]
  rfl

/-- An ordinary name binds as it stands. -/
theorem bindingName {word : String} (h : Ahead env st (.name word :: ks)) :
    Parse.bindingName env st = .ok (⟨word, st.current.token.span⟩, st.next) := by
  have hkind := h.kind
  unfold Parse.bindingName
  rw [bind_eq (show token env st = .ok (st.current.token, st) from rfl), hkind]
  rfl

/-- Behind a dot every word is a name, keywords included. -/
theorem identifierName {word : String} (h : Ahead env st (wordKind word :: ks)) :
    Parse.identifierName env st = .ok (⟨word, st.current.token.span⟩, st.next) := by
  have hkind := h.kind
  unfold Parse.identifierName
  rw [bind_eq (show token env st = .ok (st.current.token, st) from rfl), hkind]
  unfold wordKind
  cases hword : Keyword.ofText? word with
  | none => rfl
  | some w =>
    rw [← Keyword.text_of_ofText? hword]
    rfl

theorem stringLiteral {value : String} (h : Ahead env st (.string value :: ks)) :
    Parse.stringLiteral env st = .ok (.string st.current.token.span value, st.next) := by
  have hkind := h.kind
  unfold Parse.stringLiteral
  rw [bind_eq (show token env st = .ok (st.current.token, st) from rfl), hkind]
  rfl

end Ahead

end Parse

end Espalier
