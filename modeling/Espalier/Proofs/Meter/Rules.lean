import Espalier.Proofs.Meter.Trail

/-!
# Readings that tally

A reader tallies with the metered one if both succeed with the same result in the same state, but
for the trail, or both fail with the same error, and neither because it does not move on. Here are
the rules by which this is shown along the code of a reader. A reader `Moves` if it also leaves at
least one token behind wherever it succeeds, and `Passes` if it may leave none.
-/

namespace Espalier

open Token

namespace Parse

variable {α β σ : Type} {cs : List Char} {k lo : Nat} {env : Env} {st : State}
  {ts : List Token}

/-! ### Tallying -/

/-- From states with the same current token, both readers fail alike and not because they are
stalled, or both succeed alike and end as told. -/
def Tallies (cs : List Char) (env : Env) (st : State) (ts : List Token) (p p' : Parse α)
    (Q : α → State → List Token → Prop) : Prop :=
  env.size = Text.bytes cs →
    (∃ e, p env st = .error e ∧ p' env (st.along ts) = .error e ∧ e.cause ≠ .stalled) ∨
      ∃ a st' ts', p env st = .ok (a, st') ∧ p' env (st.along ts) = .ok (a, st'.along ts') ∧
        Q a st' ts'

/-- A result that is no error because something does not move on. -/
def NeverStalls (x : Except SyntaxError α) : Prop :=
  ∀ e, x = .error e → e.cause ≠ .stalled

/-- A place where any reading may be entered, as a token has just been left. -/
def Behind (cs : List Char) (lo : Nat) : α → State → List Token → Prop := fun _ => Paced cs 0 lo

/-- From where readings of rank `k` may be entered, both readers leave at least one token. -/
def Moves (cs : List Char) (k : Nat) (p p' : Parse α) : Prop :=
  ∀ env st ts lo, Paced cs k lo st ts → Tallies cs env st ts p p' (Behind cs (lo + 1))

/-- From where readings of rank `k` may be entered, they may be entered wherever both readers
end. -/
def Passes (cs : List Char) (k : Nat) (p p' : Parse α) : Prop :=
  ∀ env st ts lo, Paced cs k lo st ts → Tallies cs env st ts p p' fun _ => Paced cs k lo

namespace NeverStalls

theorem ok {a : α} : NeverStalls (.ok a) := nofun

/-- An error with another cause is not one of standing still. -/
theorem error {cause : SyntaxCause} {span : Span} (h : cause ≠ .stalled) :
    NeverStalls (.error ⟨cause, span⟩ : Except SyntaxError α) := by
  intro e he
  cases he
  exact h

theorem bind {x : Except SyntaxError α} {f : α → Except SyntaxError β} (hx : NeverStalls x)
    (hf : ∀ a, NeverStalls (f a)) : NeverStalls (x >>= f) := by
  cases x with
  | error e =>
    intro e' he
    cases he
    exact hx e rfl
  | ok a => exact hf a

end NeverStalls

/-- A reader that may be entered at rank `k` may be entered at any lower one. -/
theorem Moves.of_le {j : Nat} {p p' : Parse α} (h : Moves cs k p p') (hj : j ≤ k) :
    Moves cs j p p' :=
  fun env st ts lo hst => h env st ts lo (hst.mono hj (Nat.le_refl lo))

namespace Tallies

variable {p p' : Parse α} {f f' : α → Parse β} {R : α → State → List Token → Prop}
  {Q : β → State → List Token → Prop}

theorem ret {b : β} (h : Q b st ts) : Tallies cs env st ts (pure b) (pure b) Q :=
  fun _ => .inr ⟨b, st, ts, rfl, rfl, h⟩

/-- What is known of the end may be told more loosely. -/
theorem mono {R' : α → State → List Token → Prop} (h : Tallies cs env st ts p p' R)
    (hR : ∀ a st' ts', R a st' ts' → R' a st' ts') : Tallies cs env st ts p p' R' := by
  intro hsize
  refine (h hsize).imp_right ?_
  rintro ⟨a, st', ts', heq, heq', hend⟩
  exact ⟨a, st', ts', heq, heq', hR a st' ts' hend⟩

theorem bind_error {e : SyntaxError} (h : p env st = .error e) :
    (p >>= f) env st = .error e := by
  have heq : (p >>= f) env st = (p env st).bind fun x => f x.1 env x.2 := rfl
  rw [heq, h]
  rfl

/-- Readers one after the other, where it is known how the first one succeeds. -/
theorem bindAt (hp : Tallies cs env st ts p p' R)
    (hf : ∀ a st' ts', p env st = .ok (a, st') → R a st' ts' →
      Tallies cs env st' ts' (f a) (f' a) Q) :
    Tallies cs env st ts (p >>= f) (p' >>= f') Q := by
  intro hsize
  rcases hp hsize with ⟨e, heq, heq', hcause⟩ | ⟨a, st', ts', heq, heq', hend⟩
  · exact .inl ⟨e, bind_error heq, bind_error heq', hcause⟩
  · rw [bind_eq heq, bind_eq heq']
    exact hf a st' ts' heq hend hsize

/-- Readers one after the other. -/
theorem bind (hp : Tallies cs env st ts p p' R)
    (hf : ∀ a st' ts', R a st' ts' → Tallies cs env st' ts' (f a) (f' a) Q) :
    Tallies cs env st ts (p >>= f) (p' >>= f') Q :=
  hp.bindAt fun a st' ts' _ hend => hf a st' ts' hend

theorem map {g : α → β} (hp : Tallies cs env st ts p p' fun a => Q (g a)) :
    Tallies cs env st ts (g <$> p) (g <$> p') Q :=
  hp.bind fun _ _ _ hend => ret hend

/-- A step of which the result and the end are known. -/
theorem step {a : α} {st₁ : State} {ts₁ : List Token} (h : p env st = .ok (a, st₁))
    (h' : p' env (st.along ts) = .ok (a, st₁.along ts₁))
    (hf : Tallies cs env st₁ ts₁ (f a) (f' a) Q) :
    Tallies cs env st ts (p >>= f) (p' >>= f') Q := by
  intro hsize
  rw [bind_eq h, bind_eq h']
  exact hf hsize

/-- The states differ in their trails only. -/
theorem get {f f' : State → Parse β} (hf : Tallies cs env st ts (f st) (f' (st.along ts)) Q) :
    Tallies cs env st ts (MonadState.get >>= f) (MonadState.get >>= f') Q :=
  hf

/-- The current token is the same, and is looked at. -/
theorem token {f f' : Token → Parse β}
    (hf : ∀ kind span newline, st.current.token = ⟨kind, span, newline⟩ →
      Tallies cs env st ts (f ⟨kind, span, newline⟩) (f' ⟨kind, span, newline⟩) Q) :
    Tallies cs env st ts (Parse.token >>= f) (Parse.token >>= f') Q :=
  hf _ _ _ rfl

theorem kind {f f' : Kind → Parse β}
    (hf : ∀ kind, st.current.token.kind = kind → Tallies cs env st ts (f kind) (f' kind) Q) :
    Tallies cs env st ts (Parse.kind >>= f) (Parse.kind >>= f') Q :=
  hf _ rfl

/-- A branch tallies if both of its sides do. -/
theorem ite {c : Prop} [Decidable c] {r r' : Parse α}
    (yes : c → Tallies cs env st ts p p' R) (no : ¬c → Tallies cs env st ts r r' R) :
    Tallies cs env st ts (if c then p else r) (if c then p' else r') R := by
  by_cases h : c
  · rw [if_pos h, if_pos h]
    exact yes h
  · rw [if_neg h, if_neg h]
    exact no h

/-- A question that nothing is read for. -/
theorem ask {q : Parse Bool} {b : Bool} {r r' : Parse α} (h : q env st = .ok (b, st))
    (h' : q env (st.along ts) = .ok (b, st.along ts))
    (yes : b = true → Tallies cs env st ts p p' R)
    (no : b = false → Tallies cs env st ts r r' R) :
    Tallies cs env st ts (q >>= fun b => if b = true then p else r)
      (q >>= fun b => if b = true then p' else r') R := by
  refine step h h' ?_
  cases b with
  | true => exact yes rfl
  | false => exact no rfl

/-! ### Failing -/

section

variable {cause : SyntaxCause}

theorem fail {span : Span} (h : cause ≠ .stalled) :
    Tallies cs env st ts (Parse.fail cause span) (Parse.fail cause span) R :=
  fun _ => .inl ⟨⟨cause, span⟩, rfl, rfl, h⟩

theorem failHere (h : cause ≠ .stalled) :
    Tallies cs env st ts (Parse.failHere cause) (Parse.failHere cause) R :=
  fun _ => .inl ⟨⟨cause, st.current.token.span⟩, rfl, rfl, h⟩

theorem unexpected : Tallies cs env st ts Parse.unexpected Parse.unexpected R := by
  refine step (a := st.current.token.kind) rfl rfl ?_
  cases st.current.token.kind <;> exact failHere (by simp)

theorem failExpecting {R : Unit → State → List Token → Prop} (h : cause ≠ .stalled) :
    Tallies cs env st ts (Parse.failExpecting cause) (Parse.failExpecting cause) R := by
  refine step (a := st.current.token.kind) rfl rfl ?_
  cases st.current.token.kind with
  | invalid e => exact failHere (by simp)
  | _ => exact failHere h

end

/-- What does not stall is found without leaving a token. -/
theorem ofExcept {x : Except SyntaxError α} (hx : NeverStalls x)
    (hf : ∀ a, Tallies cs env st ts (f a) (f' a) Q) :
    Tallies cs env st ts (MonadExcept.ofExcept x >>= f) (MonadExcept.ofExcept x >>= f') Q := by
  cases x with
  | error e => exact fun _ => .inl ⟨e, rfl, rfl, hx e rfl⟩
  | ok a => exact step rfl rfl (hf a)

/-! ### Readers one after the other -/

/-- A reader that moves on. -/
theorem first (hp : Moves cs k p p') (h : Paced cs k lo st ts)
    (hf : ∀ a st' ts', Paced cs 0 (lo + 1) st' ts' → Tallies cs env st' ts' (f a) (f' a) Q) :
    Tallies cs env st ts (p >>= f) (p' >>= f') Q :=
  (hp env st ts lo h).bind hf

/-- A further reader that moves on. -/
theorem next (hp : Moves cs k p p') (h : Paced cs 0 lo st ts)
    (hf : ∀ a st' ts', Paced cs 0 lo st' ts' → Tallies cs env st' ts' (f a) (f' a) Q) :
    Tallies cs env st ts (p >>= f) (p' >>= f') Q :=
  first hp (h.up k) fun a st' ts' h' => hf a st' ts' h'.back

/-- A reader that may leave no token behind. -/
theorem pass (hp : Passes cs k p p') (h : Paced cs k lo st ts)
    (hf : ∀ a st' ts', Paced cs k lo st' ts' → Tallies cs env st' ts' (f a) (f' a) Q) :
    Tallies cs env st ts (p >>= f) (p' >>= f') Q :=
  (hp env st ts lo h).bind hf

/-- A reader that moves on, at the end of another one. -/
theorem last (hp : Moves cs k p p') (h : Paced cs 0 lo st ts) :
    Tallies cs env st ts p p' (Behind cs lo) :=
  (hp env st ts lo (h.up k)).mono fun _ _ _ h' => h'.back

/-- The current token is left, of which it is not known whether it has a text. -/
theorem leave {f f' : Token → Parse β}
    (hf : Tallies cs env st.next (st.current.token :: ts) (f st.current.token)
      (f' st.current.token) Q) :
    Tallies cs env st ts (Parse.advance >>= f) (Parse.advance >>= f') Q :=
  step rfl rfl hf

/-- The current token is left after it has been read again. -/
theorem leaveAgain {q : Parse Token} {f f' : Token → Parse β} (again : Bool → Cursor → Scanned)
    (hq : ∀ env st, q env st = .ok ((st.reread again).current.token, (st.reread again).next))
    (hf : Tallies cs env (st.reread again).next ((st.reread again).current.token :: ts)
      (f (st.reread again).current.token) (f' (st.reread again).current.token) Q) :
    Tallies cs env st ts (q >>= f) (q >>= f') Q := by
  refine step (hq env st) ?_ hf
  exact hq env (st.along ts)

/-- The current token, that has a text, is left. -/
theorem advance {f f' : Token → Parse β} (h : Paced cs k lo st ts)
    (hk : st.current.token.kind.IsSolid)
    (hf : Paced cs 0 (lo + 1) st.next (st.current.token :: ts) →
      Tallies cs env st.next (st.current.token :: ts) (f st.current.token)
        (f' st.current.token) Q) :
    Tallies cs env st ts (Parse.advance >>= f) (Parse.advance >>= f') Q :=
  step rfl rfl (hf (h.next hk))

/-! ### What surrounds the place -/

theorem withIn {allow : Bool} (h : Tallies cs { env with allowIn := allow } st ts p p' R) :
    Tallies cs env st ts (Parse.withIn allow p) (Parse.withIn allow p') R :=
  h

theorem withinFunction {isAsync isGenerator : Bool}
    (h : Tallies cs
      { env with inFunction := true, inAsync := isAsync, inGenerator := isGenerator } st ts p p'
      R) :
    Tallies cs env st ts (Parse.withinFunction isAsync isGenerator p)
      (Parse.withinFunction isAsync isGenerator p') R :=
  h

end Tallies

theorem Moves.withIn {p p' : Parse α} (h : Moves cs k p p') (allow : Bool) :
    Moves cs k (Parse.withIn allow p) (Parse.withIn allow p') :=
  fun _ st ts lo hst => .withIn (h _ st ts lo hst)

/-- An item that is never declared the last one. -/
theorem Moves.notLast {p p' : Parse α} (h : Moves cs k p p') :
    Moves cs k (do return (← p, false)) (do return (← p', false)) :=
  fun _ _ _ _ hst => .first h hst fun _ _ _ h₁ => .ret h₁

theorem Moves.withinFunction {p p' : Parse α} (h : Moves cs k p p') (isAsync isGenerator : Bool) :
    Moves cs k (Parse.withinFunction isAsync isGenerator p)
      (Parse.withinFunction isAsync isGenerator p') :=
  fun _ st ts lo hst => .withinFunction (h _ st ts lo hst)

/-! ### Tokens that may be missing -/

/-- A question about the current token and those behind it, which changes nothing. -/
def Views (q : Parse α) : Prop :=
  ∀ env st ts, ∃ a, q env st = .ok (a, st) ∧ q env (st.along ts) = .ok (a, st.along ts)

/-- The current token is left if it is the one looked for, which has a text. -/
def EatsAlong (q : Parse Bool) : Prop :=
  ∀ env st ts,
    q env st = .ok (false, st) ∧ q env (st.along ts) = .ok (false, st.along ts) ∨
      q env st = .ok (true, st.next) ∧
        q env (st.along ts) = .ok (true, st.next.along (st.current.token :: ts)) ∧
          st.current.token.kind.IsSolid

/-- A question, and a step when the answer is yes. -/
theorem Views.eats {q : Parse Bool} (hq : Views q) (hasks : Asks q) :
    EatsAlong (do
      if ← q then
        let _ ← advance
        return true
      else return false) := by
  intro env st ts
  obtain ⟨b, heq, heq'⟩ := hq env st ts
  obtain ⟨b₀, heq₀, hsolid⟩ := hasks env st
  obtain rfl : b = b₀ := by
    rw [heq] at heq₀
    cases heq₀
    rfl
  rw [bind_eq heq, bind_eq heq']
  cases b with
  | false => exact .inl ⟨rfl, rfl⟩
  | true => exact .inr ⟨rfl, rfl, hsolid rfl⟩

theorem eatsAlong_eat (p : Punct) : EatsAlong (eat p) :=
  Views.eats (fun _ _ _ => ⟨_, rfl, rfl⟩) fun _ _ => ⟨_, rfl, Kind.isSolid_of_isPunct⟩

theorem eatsAlong_eatKey (k : Keyword) : EatsAlong (eatKey k) :=
  Views.eats (fun _ _ _ => ⟨_, rfl, rfl⟩) fun _ _ => ⟨_, rfl, Kind.isSolid_of_isKey⟩

theorem eatsAlong_eatName (word : String) : EatsAlong (eatName word) :=
  Views.eats (fun _ _ _ => ⟨_, rfl, rfl⟩) fun _ _ => ⟨_, rfl, Kind.isSolid_of_isName⟩

theorem views_isAnyName : Views isAnyName := by
  intro env st ts
  have hkind : kind env st = .ok (st.current.token.kind, st) := rfl
  have hkind' : kind env (st.along ts) = .ok (st.current.token.kind, st.along ts) := rfl
  unfold isAnyName
  rw [bind_eq hkind, bind_eq hkind']
  cases st.current.token.kind <;> exact ⟨_, rfl, rfl⟩

/-- Where the answer is yes, the current token is a name. -/
theorem exists_name_of_isAnyName {st' : State} (h : isAnyName env st = .ok (true, st')) :
    ∃ word, st.current.token.kind = .name word := by
  have hkind : kind env st = .ok (st.current.token.kind, st) := rfl
  unfold isAnyName at h
  rw [bind_eq hkind] at h
  cases hk : st.current.token.kind with
  | name word => exact ⟨word, rfl⟩
  | _ =>
    rw [hk] at h
    cases h

namespace Tallies

variable {p p' : Parse α} {R : α → State → List Token → Prop}

/-- A question of which only the answer is known. -/
theorem view {q : Parse σ} {f f' : σ → Parse α} (hq : Views q)
    (hf : ∀ a, q env st = .ok (a, st) → Tallies cs env st ts (f a) (f' a) R) :
    Tallies cs env st ts (q >>= f) (q >>= f') R := by
  obtain ⟨a, heq, heq'⟩ := hq env st ts
  exact step heq heq' (hf a heq)

/-- A token that may be missing: with it or without, the rest tallies. -/
theorem eat {q : Parse Bool} {r r' : Parse α} (hq : EatsAlong q) (h : Paced cs k lo st ts)
    (yes : ∀ st' ts', Paced cs 0 (lo + 1) st' ts' → Tallies cs env st' ts' p p' R)
    (no : Tallies cs env st ts r r' R) :
    Tallies cs env st ts (q >>= fun b => if b = true then p else r)
      (q >>= fun b => if b = true then p' else r') R := by
  rcases hq env st ts with ⟨heq, heq'⟩ | ⟨heq, heq', hsolid⟩
  · exact step heq heq' no
  · exact step heq heq' (yes _ _ (h.next hsolid))

end Tallies

theorem EatsAlong.passes {q : Parse Bool} (hq : EatsAlong q) : Passes cs k q q := by
  intro env st ts lo h _
  rcases hq env st ts with ⟨heq, heq'⟩ | ⟨heq, heq', hsolid⟩
  · exact .inr ⟨false, st, ts, heq, heq', h⟩
  · exact .inr ⟨true, _, _, heq, heq', (h.next hsolid).back.up k⟩

/-- A token that has to be there is left. -/
theorem EatsAlong.moves {q : Parse Bool} (hq : EatsAlong q) {failing : Parse Unit}
    (hfail : ∀ env st ts R, Tallies cs env st ts failing failing R) :
    Moves cs 3 (do unless ← q do failing) (do unless ← q do failing) :=
  fun _ _ _ _ h => .eat hq h (fun _ _ h' => .ret h') (hfail _ _ _ _)

theorem moves_expect (p : Punct) : Moves cs 3 (expect p) (expect p) :=
  (eatsAlong_eat p).moves fun _ _ _ _ => .failExpecting (by simp)

theorem moves_expectKey (key : Keyword) : Moves cs 3 (expectKey key) (expectKey key) :=
  (eatsAlong_eatKey key).moves fun _ _ _ _ => .failExpecting (by simp)

theorem moves_expectName (word : String) : Moves cs 3 (expectName word) (expectName word) :=
  (eatsAlong_eatName word).moves fun _ _ _ _ => .failHere (by simp)

theorem passes_semicolon : Passes cs k semicolon semicolon := by
  intro env st ts lo h
  refine .eat (eatsAlong_eat _) h (fun _ _ h' => .ret (h'.back.up k)) ?_
  exact .ask rfl rfl (fun _ => .ret h) fun _ => .get (.fail (by simp))

/-! ### Names and literals -/

theorem moves_identifierName : Moves cs 3 identifierName identifierName := by
  intro env st ts lo h
  refine .step (a := st.current.token) rfl rfl ?_
  cases hk : st.current.token.kind with
  | name text => exact .advance h (hk ▸ trivial) fun h₁ => .ret h₁
  | keyword key => exact .advance h (hk ▸ trivial) fun h₁ => .ret h₁
  | _ => exact .unexpected

theorem moves_bindingName : Moves cs 3 bindingName bindingName := by
  intro env st ts lo h
  refine .step (a := st.current.token) rfl rfl ?_
  cases hk : st.current.token.kind with
  | name text => exact .advance h (hk ▸ trivial) fun h₁ => .ret h₁
  | keyword key => exact .failHere (by simp)
  | _ => exact .unexpected

theorem moves_stringLiteral : Moves cs 3 stringLiteral stringLiteral := by
  intro env st ts lo h
  refine .step (a := st.current.token) rfl rfl ?_
  cases hk : st.current.token.kind with
  | string value => exact .advance h (hk ▸ trivial) fun h₁ => .ret h₁
  | _ => exact .unexpected

/-! ### Repetition -/

/-- How a round of a repetition ends: it moves on if another one follows. -/
def Goes (cs : List Char) (lo : Nat) : Round σ → State → List Token → Prop
  | .again _, st, ts => Paced cs 0 (lo + 1) st ts
  | .last _, st, ts => Paced cs 0 lo st ts

/-- A repetition tallies if its rounds do, and it never has to stop because one of them does not
move on. -/
theorem passes_repeatFrom {round round' : σ → Parse (Round σ)}
    (hround : ∀ s env st ts lo, Paced cs 0 lo st ts →
      Tallies cs env st ts (round s) (round' s) (Goes cs lo)) (s : σ) :
    Passes cs 0 (repeatFrom round s) (repeatFrom round' s) := by
  intro env st ts lo hst hsize
  induction hroom : Text.bytes cs - st.pos using Nat.strongRecOn generalizing s st ts lo with
  | ind room ih =>
    rw [repeatFrom, repeatFrom]
    -- The round moves on from the very place where it starts.
    rcases hround s env st ts st.pos hst.here hsize with
      ⟨e, heq, heq', hcause⟩ | ⟨r, st', ts', heq, heq', hend⟩
    · rw [heq, heq']
      exact .inl ⟨e, rfl, rfl, hcause⟩
    · rw [heq, heq']
      cases r with
      | last s' =>
        have hend : Paced cs 0 st.pos st' ts' := hend
        exact .inr ⟨s', st', ts', rfl, rfl, hend.mono (Nat.le_refl 0) hst.le⟩
      | again s' =>
        have hend : Paced cs 0 (st.pos + 1) st' ts' := hend
        have hlt : st.pos < st'.pos := hend.le
        have hle : st'.pos ≤ Text.bytes cs := hend.pos_le
        have hgoes : st.current.first.pos < env.size ∧
            st.current.first.pos < st'.current.first.pos := by
          rw [← hst.isIn.pos_eq, ← hend.isIn.pos_eq, hsize]
          omega
        dsimp only
        rw [if_pos hgoes, if_pos (show (st.along ts).current.first.pos < env.size ∧
          (st.along ts).current.first.pos < (st'.along ts').current.first.pos from hgoes)]
        have hlo : lo ≤ st.pos + 1 := Nat.le_succ_of_le hst.le
        exact ih _ (by omega) s' st' ts' lo (hend.mono (Nat.le_refl 0) hlo) rfl

/-- A repetition and what follows it. -/
theorem Tallies.rounds {round round' : σ → Parse (Round σ)} {f f' : σ → Parse β} {s : σ}
    {Q : β → State → List Token → Prop} (h : Paced cs 0 lo st ts)
    (hround : ∀ s env st ts lo, Paced cs 0 lo st ts →
      Tallies cs env st ts (round s) (round' s) (Goes cs lo))
    (hf : ∀ s st' ts', Paced cs 0 lo st' ts' → Tallies cs env st' ts' (f s) (f' s) Q) :
    Tallies cs env st ts (repeatFrom round s >>= f) (repeatFrom round' s >>= f') Q :=
  .pass (passes_repeatFrom hround s) h hf

/-- A list of items, none of which is entered without moving on. -/
theorem passes_itemsUntil (stop : Kind → Bool) {item item' : Parse α}
    (h : Moves cs k item item') : Passes cs 0 (itemsUntil stop item) (itemsUntil stop item') := by
  intro env st ts lo hst
  refine .rounds hst (fun items env st ts lo hst => ?_) fun items st₁ ts₁ h₁ => .ret h₁
  refine .step rfl rfl (.ite (fun _ => .ret hst) fun _ => ?_)
  exact .first h (hst.up k) fun a st₁ ts₁ h₁ => .ret h₁

theorem passes_itemsBefore (close : Punct) {item item' : Parse (α × Bool)}
    (h : Moves cs k item item') :
    Passes cs 0 (itemsBefore close item) (itemsBefore close item') := by
  intro env st ts lo hst
  refine .rounds hst (fun items env st ts lo hst => ?_) fun items st₁ ts₁ h₁ => .ret h₁
  refine .ask rfl rfl (fun _ => .ret hst) fun _ => ?_
  refine .first h (hst.up k) fun x st₁ ts₁ h₁ => ?_
  obtain ⟨a, isLast⟩ := x
  refine .ite (fun _ => .ret h₁.back) fun _ => ?_
  exact .eat (eatsAlong_eat _) h₁ (fun st₂ ts₂ h₂ => .ret h₂.back) (.ret h₁.back)

theorem passes_itemsAfterCommas (firstItems : List α) {item item' : Parse α}
    (h : Moves cs k item item') :
    Passes cs 0 (itemsAfterCommas firstItems item) (itemsAfterCommas firstItems item') := by
  intro env st ts lo hst
  refine .rounds hst (fun items env st ts lo hst => ?_) fun items st₁ ts₁ h₁ => .ret h₁
  refine .eat (eatsAlong_eat _) hst (fun st₁ ts₁ h₁ => ?_) (.ret hst)
  exact .next h h₁ fun a st₂ ts₂ h₂ => .ret h₂

/-! ### Reading again further on -/

/-- Readers that move on wherever they start behind a place. -/
def Further (cs : List Char) (lo : Nat) (p p' : Parse α) : Prop :=
  ∀ env st ts lo', lo < lo' → Paced cs 0 lo' st ts →
    Tallies cs env st ts p p' (Behind cs (lo' + 1))

/-- What moves on wherever it starts does so further on. -/
theorem Moves.further {p p' : Parse α} (h : Moves cs k p p') : Further cs lo p p' :=
  fun env st ts lo' _ hst => h env st ts lo' (hst.up k)

theorem Further.of_le {lo' : Nat} {p p' : Parse α} (h : Further cs lo p p') (hle : lo ≤ lo') :
    Further cs lo' p p' :=
  fun env st ts lo'' hlt => h env st ts lo'' (Nat.lt_of_le_of_lt hle hlt)

/-- Reading again further on, by induction on what is left of the source. -/
theorem tallies_furtherOnWithin {p p' : Parse α → Parse α}
    (h : ∀ q q' env st ts lo, Further cs lo q q' → Paced cs k lo st ts →
      Tallies cs env st ts (p q) (p' q') (Behind cs (lo + 1))) (hst : Paced cs k lo st ts) :
    Tallies cs env st ts (furtherOnWithin p (Text.bytes cs - lo))
      (furtherOnWithin p' (Text.bytes cs - lo)) (Behind cs (lo + 1)) := by
  induction hroom : Text.bytes cs - lo using Nat.strongRecOn generalizing env st ts lo with
  | ind room ih =>
    subst hroom
    rw [furtherOnWithin, furtherOnWithin]
    refine h _ _ env st ts lo (fun env st ts lo' hlo hst hsize => ?_) hst
    have hle : st.pos ≤ Text.bytes cs := hst.pos_le
    have hlt : lo < st.pos := Nat.lt_of_lt_of_le hlo hst.le
    have hpos : env.size - st.current.first.pos = Text.bytes cs - st.pos := by
      rw [hsize, hst.isIn.pos_eq]
    -- the place where it is read again lies behind `lo`, so less is left
    have hroom : env.size - st.current.first.pos < Text.bytes cs - lo := by omega
    rw [if_pos hroom, if_pos (show env.size - (st.along ts).current.first.pos <
      Text.bytes cs - lo from hroom), show (st.along ts).current.first.pos =
        st.current.first.pos from rfl, hpos]
    have hless : Text.bytes cs - st.pos < Text.bytes cs - lo := by omega
    have hfurther : Tallies cs env st ts _ _ _ := ih _ hless (hst.here.up k) rfl
    exact hfurther.mono (fun _ _ _ h' => h'.mono (Nat.le_refl 0) (Nat.succ_le_succ hst.le)) hsize

/-- What may be read again further on always stands further on. -/
theorem moves_furtherOn {p p' : Parse α → Parse α}
    (h : ∀ q q' env st ts lo, Further cs lo q q' → Paced cs k lo st ts →
      Tallies cs env st ts (p q) (p' q') (Behind cs (lo + 1))) :
    Moves cs k (furtherOn p) (furtherOn p') := by
  intro env st ts lo hst hsize
  have hpos : env.size - st.current.first.pos = Text.bytes cs - st.pos := by
    rw [hsize, hst.isIn.pos_eq]
  unfold furtherOn
  rw [show (st.along ts).current.first.pos = st.current.first.pos from rfl, hpos]
  have hwithin : Tallies cs env st ts _ _ _ := tallies_furtherOnWithin h hst.here
  exact hwithin.mono (fun _ _ _ h' => h'.mono (Nat.le_refl 0) (Nat.succ_le_succ hst.le)) hsize

/-! ### Readings that are entered -/

/-- A reading whose rank may be entered is entered, as the steps never come to the limit. -/
theorem moves_entering {p p' : Parse α} (h : Moves cs (k + 1) p p') (hk : k < 3) :
    Moves cs k p (entering (4 * Text.bytes cs + 3) k p') := by
  intro env st ts lo hst hsize
  have henter : leastRank ts ≤ k ∧ ts.length < 4 * Text.bytes cs + 3 :=
    ⟨hst.rank_le, hst.length_lt hk⟩
  rw [entering_eq, if_pos (show leastRank (st.along ts).left ≤ k ∧
    (st.along ts).left.length < 4 * Text.bytes cs + 3 from henter)]
  exact h env st (mark k :: ts) lo (hst.mark hk) hsize

end Parse

end Espalier
