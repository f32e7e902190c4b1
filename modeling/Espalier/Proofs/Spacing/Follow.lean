import Espalier.Proofs.Spacing.Bare
import Espalier.Proofs.Spacing.Twin

/-!
# Readers that follow each other

A reader `Follows` another one if it succeeds wherever the other one does, from a twin of the state
where the other one starts, with an alike result, and ends in a twin of the state where the other
one ends. Here are the rules by which this is shown along the code of a reader.
-/

namespace Espalier

open Token

namespace Parse

variable {α β σ : Type}

/-! ### Following -/

/-- Wherever the first reader succeeds, it leaves tokens that have a text; and from a twin the
second one succeeds too, with an alike result, and ends in a twin. -/
def Follows (i : Insertion) [Bare α] (env : Env) (s s' : State) (p p' : Parse α) : Prop :=
  env.size = i.size → Looks s s' → Gives p env s fun a s₁ => ∃ us, Leads s us s₁ ∧
    ∀ ts, Twin i (us ++ ts) s s' →
      ∃ a' s₁', p' (i.env env) s' = .ok (a', s₁') ∧ Alike a a' ∧ Twin i ts s₁ s₁'

/-- A reader follows another one wherever they start. -/
def Tracks (i : Insertion) [Bare α] (p p' : Parse α) : Prop :=
  ∀ env s s', Follows i env s s' p p'

/-! ### Questions -/

/-- A question about the kind of the current token and the gap in front of it. -/
def Observes (q : Parse α) (look : Kind → Bool → α) : Prop :=
  ∀ env s, q env s = .ok (look s.current.token.kind s.current.token.newlineBefore, s)

theorem observes_kind : Observes Parse.kind fun k _ => k := fun _ _ => rfl

theorem observes_isPunct (p : Punct) : Observes (isPunct p) fun k _ => k.isPunct p :=
  fun _ _ => rfl

theorem observes_isKey (k : Keyword) : Observes (isKey k) fun kind _ => kind.isKey k :=
  fun _ _ => rfl

theorem observes_isName (word : String) : Observes (isName word) fun k _ => k.isName word :=
  fun _ _ => rfl

theorem observes_atImplicitEnd :
    Observes atImplicitEnd fun k newline => k.isPunct .rightBrace || k.isEof || newline :=
  fun _ _ => rfl

theorem observes_isAnyName :
    Observes isAnyName fun k _ => match k with | .name _ => true | _ => false := by
  intro env s
  unfold isAnyName
  rw [bind_eq (observes_kind env s)]
  cases s.current.token.kind <;> rfl

namespace Follows

variable {i : Insertion} {env : Env} {s s' : State}

section

variable [Bare α] [Bare β] {p p' : Parse α} {f f' : α → Parse β}

theorem ret {a a' : α} (h : Alike a a') : Follows i env s s' (pure a) (pure a') :=
  fun _ _ => .ret ⟨[], .refl s, fun _ htwin => ⟨a', s', rfl, h, htwin⟩⟩

/-- Nothing follows a reader that fails. -/
theorem of_fails (h : Gives p env s fun _ _ => False) : Follows i env s s' p p' :=
  fun _ _ => h.mono fun _ _ => False.elim

theorem fail {cause : SyntaxCause} {span : Span} :
    Follows i env s s' (Parse.fail cause span) p' := of_fails .fail

theorem failHere {cause : SyntaxCause} : Follows i env s s' (Parse.failHere cause) p' :=
  of_fails .failHere

theorem unexpected : Follows i env s s' Parse.unexpected p' := of_fails .unexpected

theorem failExpecting {cause : SyntaxCause} {q : Parse Unit} :
    Follows i env s s' (Parse.failExpecting cause) q := of_fails .failExpecting

/-- Readers one after the other. -/
theorem bindAt (hp : Follows i env s s' p p')
    (hf : ∀ a a' s₁ s₁', p env s = .ok (a, s₁) → Alike a a' →
      Follows i env s₁ s₁' (f a) (f' a')) : Follows i env s s' (p >>= f) (p' >>= f') := by
  intro hsize hlooks b s₂ heq
  obtain ⟨⟨a, s₁⟩, ha, hb⟩ := exists_of_bind_eq_ok heq
  obtain ⟨us, hus, hfollow⟩ := hp hsize hlooks a s₁ ha
  -- What the second reader leaves does not depend on the twin.
  obtain ⟨vs, hvs, -⟩ := hf a a s₁ s₁ ha (.refl a) hsize (.refl s₁) b s₂ hb
  refine ⟨us ++ vs, hus.trans hvs, fun ts htwin => ?_⟩
  rw [List.append_assoc] at htwin
  obtain ⟨a', s₁', ha', halike, htwin'⟩ := hfollow (vs ++ ts) htwin
  obtain ⟨vs', hvs', hfollow'⟩ := hf a a' s₁ s₁' ha halike hsize htwin'.looks b s₂ hb
  obtain rfl := hvs.unique hvs'
  obtain ⟨b', s₂', hb', h⟩ := hfollow' ts htwin'
  exact ⟨b', s₂', (bind_eq ha').trans hb', h⟩

/-- Two steps follow if each does, whatever alike results the first one has. -/
theorem bind (hp : Follows i env s s' p p')
    (hf : ∀ a a', Alike a a' → ∀ s₁ s₁', Follows i env s₁ s₁' (f a) (f' a')) :
    Follows i env s s' (p >>= f) (p' >>= f') :=
  hp.bindAt fun a a' s₁ s₁' _ halike => hf a a' halike s₁ s₁'

/-- A first reader that leaves no token. -/
theorem bindStill (hp : Follows i env s s' p p') (hstill : Gives p env s fun _ s₁ => s₁ = s)
    (hf : ∀ a a', Alike a a' → ∀ s₁', Follows i env s s₁' (f a) (f' a')) :
    Follows i env s s' (p >>= f) (p' >>= f') := by
  refine hp.bindAt fun a a' s₁ s₁' heq halike => ?_
  obtain rfl := hstill a s₁ heq
  exact hf a a' halike s₁'

theorem map {g g' : α → β} (hp : Follows i env s s' p p')
    (hg : ∀ a a', Alike a a' → Alike (g a) (g' a')) : Follows i env s s' (g <$> p) (g' <$> p') :=
  hp.bind fun a a' h _ _ => ret (hg a a' h)

/-- A branch follows if both of its sides do. -/
theorem ite {c : Prop} [Decidable c] {r r' : Parse α} (yes : c → Follows i env s s' p p')
    (no : ¬c → Follows i env s s' r r') :
    Follows i env s s' (if c then p else r) (if c then p' else r') := by
  by_cases h : c
  · rw [if_pos h, if_pos h]
    exact yes h
  · rw [if_neg h, if_neg h]
    exact no h

/-- A reader that depends on whether something has been read. -/
theorem cond {q q' : Parse Bool} {r r' : Parse α} (hq : Follows i env s s' q q')
    (yes : ∀ s₁ s₁', Follows i env s₁ s₁' p p') (no : ∀ s₁ s₁', Follows i env s₁ s₁' r r') :
    Follows i env s s' (q >>= fun b => if b = true then p else r)
      (q' >>= fun b => if b = true then p' else r') := by
  refine hq.bind fun b b' h s₁ s₁' => ?_
  obtain rfl : b = b' := h
  cases b with
  | true => exact yes s₁ s₁'
  | false => exact no s₁ s₁'

/-- A step that leaves no token. -/
theorem step {α : Type} {p p' : Parse α} {f f' : α → Parse β} {a a' : α}
    (ha : p env s = .ok (a, s)) (ha' : Looks s s' → p' (i.env env) s' = .ok (a', s'))
    (hf : Follows i env s s' (f a) (f' a')) : Follows i env s s' (p >>= f) (p' >>= f') := by
  intro hsize hlooks
  refine .step ha ((hf hsize hlooks).mono fun b s₂ h => ?_)
  obtain ⟨us, hus, hfollow⟩ := h
  refine ⟨us, hus, fun ts htwin => ?_⟩
  obtain ⟨b', s₂', hb', h⟩ := hfollow ts htwin
  exact ⟨b', s₂', (bind_eq (ha' hlooks)).trans hb', h⟩

end

/-! ### Looking at tokens -/

section

variable [Bare β] {p p' r r' : Parse β}

/-- Where a node starts is told differently on both sides, and must not matter. -/
theorem start {f f' : Nat → Parse β} (hf : ∀ n n', Follows i env s s' (f n) (f' n')) :
    Follows i env s s' (Parse.start >>= f) (Parse.start >>= f') :=
  step rfl (fun _ => rfl) (hf _ _)

/-- Nor must the span of a node. -/
theorem finish {start start' : Nat} {f f' : Span → Parse β}
    (hf : ∀ span span', Follows i env s s' (f span) (f' span')) :
    Follows i env s s' (Parse.finish start >>= f) (Parse.finish start' >>= f') :=
  step rfl (fun _ => rfl) (hf _ _)

theorem read {f f' : Env → Parse β} (hf : Follows i env s s' (f env) (f' (i.env env))) :
    Follows i env s s' (MonadReader.read >>= f) (MonadReader.read >>= f') :=
  step rfl (fun _ => rfl) hf

/-- The current tokens differ in their spans only. -/
theorem token {f f' : Token → Parse β}
    (hf : ∀ k span span' newline, s.current.token = ⟨k, span, newline⟩ →
      Follows i env s s' (f ⟨k, span, newline⟩) (f' ⟨k, span', newline⟩)) :
    Follows i env s s' (Parse.token >>= f) (Parse.token >>= f') := by
  intro hsize hlooks
  refine step rfl (fun hlooks => ?_) (hf _ _ s'.current.token.span _ rfl) hsize hlooks
  rw [← hlooks.kind_eq, ← hlooks.newline_eq]
  rfl

end

/-- What is observed of the current token is the same on both sides. -/
theorem observe [Bare β] {q : Parse α} {look : Kind → Bool → α} {f f' : α → Parse β}
    (hq : Observes q look)
    (hf : ∀ a, look s.current.token.kind s.current.token.newlineBefore = a →
      Follows i env s s' (f a) (f' a)) : Follows i env s s' (q >>= f) (q >>= f') := by
  refine step (hq env s) (fun hlooks => ?_) (hf _ rfl)
  rw [hq, hlooks.kind_eq, hlooks.newline_eq]

/-- A question that nothing is read for. -/
theorem ask [Bare β] {q : Parse Bool} {look : Kind → Bool → Bool} {p p' r r' : Parse β}
    (hq : Observes q look)
    (yes : look s.current.token.kind s.current.token.newlineBefore = true →
      Follows i env s s' p p')
    (no : look s.current.token.kind s.current.token.newlineBefore = false →
      Follows i env s s' r r') :
    Follows i env s s' (q >>= fun b => if b = true then p else r)
      (q >>= fun b => if b = true then p' else r') := by
  refine observe hq fun b hb => ?_
  cases b with
  | true => exact yes hb
  | false => exact no hb

/-! ### Leaving tokens -/

section

variable [Bare β]

/-- The current token is left, in one of the ways in which it may be read. -/
theorem leave {q : Parse Token} {f f' : Token → Parse β} (mode : Mode)
    (hq : ∀ env s, q env s = .ok ((s.as mode).current.token, (s.as mode).next))
    (hfits : mode.Fits s.current.token.kind)
    (hfails : ¬(s.as mode).current.token.kind.IsSolid →
      Gives (f (s.as mode).current.token) env (s.as mode).next fun _ _ => False)
    (hf : ∀ k span span' newline s₁', (s.as mode).current.token = ⟨k, span, newline⟩ →
      Follows i env (s.as mode).next s₁' (f ⟨k, span, newline⟩) (f' ⟨k, span', newline⟩)) :
    Follows i env s s' (q >>= f) (q >>= f') := by
  intro hsize hlooks
  refine .step (hq env s) fun b s₂ hb => ?_
  by_cases hsolid : (s.as mode).current.token.kind.IsSolid
  case neg => exact (hfails hsolid b s₂ hb).elim
  -- it is run against itself first, to learn which tokens are left from here on
  obtain ⟨us, hus, -⟩ := hf _ _ default _ (s.as mode).next rfl hsize (.refl _) b s₂ hb
  refine ⟨_, .leave mode hfits hsolid hus, fun ts htwin => ?_⟩
  obtain ⟨hread, hnext⟩ := htwin.next_as hfits
  -- then against the other source, which leaves the same tokens
  obtain ⟨us', hus', hfollow⟩ := hf _ _ (s'.as mode).current.token.span _ (s'.as mode).next rfl
    hsize hnext.looks b s₂ hb
  obtain rfl := hus.unique hus'
  obtain ⟨b', s₂', hb', h⟩ := hfollow ts hnext
  refine ⟨b', s₂', (bind_eq (hq _ _)).trans ?_, h⟩
  rw [← hread.kind_eq, ← hread.newline_eq] at hb'
  exact hb'

/-- The current token, that has a text, is left as it is. -/
theorem advance {f f' : Token → Parse β} (hk : s.current.token.kind.IsSolid)
    (hf : ∀ k span span' newline s₁', s.current.token = ⟨k, span, newline⟩ →
      Follows i env s.next s₁' (f ⟨k, span, newline⟩) (f' ⟨k, span', newline⟩)) :
    Follows i env s s' (Parse.advance >>= f) (Parse.advance >>= f') :=
  leave .plain (fun _ _ => rfl) hk (fun hno => (hno hk).elim) hf

/-- The token after a word is the same for twins. -/
theorem peek {f f' : Token → Parse β} (hk : s.current.token.kind.IsWord)
    (hf : ∀ k span span' newline s', s.next.current.token = ⟨k, span, newline⟩ →
      Follows i env s s' (f ⟨k, span, newline⟩) (f' ⟨k, span', newline⟩)) :
    Follows i env s s' (Parse.peek >>= f) (Parse.peek >>= f') := by
  intro hsize hlooks
  refine .step rfl fun b s₂ hb => ?_
  obtain ⟨us, hus, -⟩ := hf _ _ default _ s rfl hsize (.refl s) b s₂ hb
  refine ⟨us, hus, fun ts htwin => ?_⟩
  have hnext := htwin.next_of_isWord hk
  obtain ⟨us', hus', hfollow⟩ := hf s.next.current.token.kind _ s'.next.current.token.span
    s.next.current.token.newlineBefore s' rfl hsize hlooks b s₂ hb
  obtain rfl := hus.unique hus'
  obtain ⟨b', s₂', hb', h⟩ := hfollow ts htwin
  refine ⟨b', s₂', (bind_eq rfl).trans ?_, h⟩
  rw [← hnext.kind_eq, ← hnext.newline_eq] at hb'
  exact hb'

end

/-! ### Other steps -/

section

variable [Bare α] {p p' : Parse α}

theorem withIn {allow : Bool} (h : Follows i { env with allowIn := allow } s s' p p') :
    Follows i env s s' (Parse.withIn allow p) (Parse.withIn allow p') :=
  h

theorem withinFunction {isAsync isGenerator : Bool}
    (h : Follows i
      { env with inFunction := true, inAsync := isAsync, inGenerator := isGenerator } s s' p p') :
    Follows i env s s' (Parse.withinFunction isAsync isGenerator p)
      (Parse.withinFunction isAsync isGenerator p') :=
  h

/-- A result computed outside follows if it fails on both sides or on none. -/
theorem ofExcept {x x' : Except SyntaxError α} (h : Alike x.toOption x'.toOption) :
    Follows i env s s' (MonadExcept.ofExcept x) (MonadExcept.ofExcept x') := by
  cases x with
  | error e => exact of_fails (.ofExcept nofun)
  | ok a =>
    cases x' with
    | error e => cases h
    | ok a' => exact ret (Option.some_inj.mp h)

end

end Follows

namespace Tracks

variable [Bare α] {i : Insertion} {p p' : Parse α}

theorem withIn (h : Tracks i p p') (allow : Bool) :
    Tracks i (Parse.withIn allow p) (Parse.withIn allow p') :=
  fun _ s s' => .withIn (h _ s s')

end Tracks

/-! ### Tokens that are expected -/

section

variable {i : Insertion}

/-- To observe the current token changes nothing. -/
theorem Observes.tracks [Bare α] {q : Parse α} {look : Kind → Bool → α} (hq : Observes q look) :
    Tracks i q q := by
  intro env s s' _ _ a s₁ ha
  rw [hq] at ha
  cases ha
  refine ⟨[], .refl s, fun ts htwin => ⟨_, s', hq _ _, ?_, htwin⟩⟩
  rw [htwin.looks.kind_eq, htwin.looks.newline_eq]
  exact .refl _

/-- The current token is left if the answer to a question is yes. -/
theorem tracks_eating {q : Parse Bool} (hq : Tracks i q q) (hasks : Asks q) :
    Tracks i
      (do
        if ← q then
          let _ ← advance
          return true
        else return false)
      (do
        if ← q then
          let _ ← advance
          return true
        else return false) := by
  intro env s s'
  refine .bindAt (hq env s s') fun b b' s₁ s₁' hb h => ?_
  obtain rfl : b = b' := h
  obtain ⟨b₀, hb₀, hsolid⟩ := hasks env s
  cases hb₀.symm.trans hb
  cases b with
  | true => exact .advance (hsolid rfl) fun _ _ _ _ _ _ => .ret (.refl true)
  | false => exact .ret (.refl false)

theorem tracks_eat (p : Punct) : Tracks i (eat p) (eat p) :=
  tracks_eating (observes_isPunct p).tracks fun _ _ => ⟨_, rfl, Kind.isSolid_of_isPunct⟩

theorem tracks_eatKey (k : Keyword) : Tracks i (eatKey k) (eatKey k) :=
  tracks_eating (observes_isKey k).tracks fun _ _ => ⟨_, rfl, Kind.isSolid_of_isKey⟩

theorem tracks_eatName (word : String) : Tracks i (eatName word) (eatName word) :=
  tracks_eating (observes_isName word).tracks fun _ _ => ⟨_, rfl, Kind.isSolid_of_isName⟩

theorem tracks_expect (p : Punct) : Tracks i (expect p) (expect p) := fun env s s' =>
  .cond (tracks_eat p env s s') (fun _ _ => .ret (.refl ())) fun _ _ => .failExpecting

theorem tracks_expectKey (k : Keyword) : Tracks i (expectKey k) (expectKey k) := fun env s s' =>
  .cond (tracks_eatKey k env s s') (fun _ _ => .ret (.refl ())) fun _ _ => .failExpecting

theorem tracks_expectName (word : String) : Tracks i (expectName word) (expectName word) :=
  fun env s s' =>
    .cond (tracks_eatName word env s s') (fun _ _ => .ret (.refl ())) fun _ _ => .failHere

theorem tracks_semicolon : Tracks i semicolon semicolon := by
  intro env s s'
  refine .cond (tracks_eat _ env s s') (fun _ _ => .ret (.refl ())) fun _ _ => ?_
  refine .ask observes_atImplicitEnd (fun _ => .ret (.refl ())) fun _ => ?_
  exact .step rfl (fun _ => rfl) .fail

/-! ### Names and literals -/

theorem tracks_identifierName : Tracks i identifierName identifierName := by
  intro env s s'
  refine .token fun k span span' newline h => ?_
  have hk : s.current.token.kind = k := congrArg Token.kind h
  cases k with
  | name text => exact .advance (hk ▸ trivial) fun _ _ _ _ _ _ => .ret (by simp)
  | keyword k => exact .advance (hk ▸ trivial) fun _ _ _ _ _ _ => .ret (by simp)
  | _ => exact .unexpected

theorem tracks_bindingName : Tracks i bindingName bindingName := by
  intro env s s'
  refine .token fun k span span' newline h => ?_
  have hk : s.current.token.kind = k := congrArg Token.kind h
  cases k with
  | name text => exact .advance (hk ▸ trivial) fun _ _ _ _ _ _ => .ret (by simp)
  | keyword k => exact .failHere
  | _ => exact .unexpected

theorem tracks_stringLiteral : Tracks i stringLiteral stringLiteral := by
  intro env s s'
  refine .token fun k span span' newline h => ?_
  have hk : s.current.token.kind = k := congrArg Token.kind h
  cases k with
  | string value => exact .advance (hk ▸ trivial) fun _ _ _ _ _ _ => .ret (by simp)
  | _ => exact .unexpected

/-! ### Repetition -/

/-- Repetitions follow each other if their rounds do. A round that moves on does so for twins. -/
theorem tracks_repeatFrom [Bare σ] {round round' : σ → Parse (Round σ)}
    (hround : ∀ a a', Alike a a' → Tracks i (round a) (round' a')) {a a' : σ} (ha : Alike a a') :
    Tracks i (repeatFrom round a) (repeatFrom round' a') := by
  intro env s s' hsize hlooks b s₂ hb
  -- one case per way a round can end
  induction a, s using repeatFrom.induct round env generalizing a' s' with
  | case1 a s e hr =>
    rw [repeatFrom, hr] at hb
    cases hb
  | case2 a s b₁ s₁ hr =>
    rw [repeatFrom, hr] at hb
    cases hb
    obtain ⟨us, hus, hfollow⟩ := hround a a' ha env s s' hsize hlooks _ _ hr
    refine ⟨us, hus, fun ts htwin => ?_⟩
    obtain ⟨r', s₁', hr', halike, htwin'⟩ := hfollow ts htwin
    cases r' with
    | again b' => cases halike
    | last b' =>
      refine ⟨b', s₁', ?_, Round.last.inj halike, htwin'⟩
      rw [repeatFrom, hr']
  | case3 a s a₁ s₁ hr hlt ih =>
    rw [repeatFrom, hr] at hb
    dsimp only at hb
    rw [if_pos hlt] at hb
    obtain ⟨us, hus, hfollow⟩ := hround a a' ha env s s' hsize hlooks _ _ hr
    obtain ⟨vs, hvs, -⟩ := ih (.refl a₁) s₁ (.refl s₁) hb
    refine ⟨us ++ vs, hus.trans hvs, fun ts htwin => ?_⟩
    rw [List.append_assoc] at htwin
    obtain ⟨r', s₁', hr', halike, htwin'⟩ := hfollow (vs ++ ts) htwin
    cases r' with
    | last b' => cases halike
    | again a₁' =>
      obtain ⟨vs', hvs', hfollow'⟩ := ih (Round.again.inj halike) s₁' htwin'.looks hb
      obtain rfl := hvs.unique hvs'
      obtain ⟨b', s₂', hb', h⟩ := hfollow' ts htwin'
      have hlt' : s'.current.first.pos < (i.env env).size ∧
          s'.current.first.pos < s₁'.current.first.pos := by
        rw [htwin.pos_eq, htwin'.pos_eq]
        refine ⟨i.move_lt_move_iff.mpr ?_, i.move_lt_move_iff.mpr hlt.2⟩
        rw [← hsize]
        exact hlt.1
      refine ⟨b', s₂', ?_, h⟩
      rw [repeatFrom, hr']
      dsimp only
      rw [if_pos hlt']
      exact hb'
  | case4 a s a₁ s₁ hr hlt =>
    rw [repeatFrom, hr] at hb
    dsimp only at hb
    rw [if_neg hlt] at hb
    exact (Gives.failHere (Q := fun _ _ => False) _ _ hb).elim

section

variable [Bare α]

/-- The items before a stop are the same with blanks between them. -/
theorem tracks_itemsUntil (stop : Kind → Bool) {item item' : Parse α} (h : Tracks i item item') :
    Tracks i (itemsUntil stop item) (itemsUntil stop item') := by
  intro env s s'
  refine .bind (tracks_repeatFrom (fun as as' has env s s' => ?_) (.refl []) env s s')
    fun as as' has s₁ s₁' => .ret has.reverse
  refine .observe observes_kind fun k hk => ?_
  split
  · exact .ret has.last
  · exact .bind (h env s s') fun a a' ha s₁ s₁' => .ret (ha.cons has).again

/-- And so are the items before a closing bracket. -/
theorem tracks_itemsBefore (close : Punct) {item item' : Parse (α × Bool)}
    (h : Tracks i item item') : Tracks i (itemsBefore close item) (itemsBefore close item') := by
  intro env s s'
  refine .bind (tracks_repeatFrom (fun as as' has env s s' => ?_) (.refl []) env s s')
    fun as as' has s₁ s₁' => .ret has.reverse
  refine .ask (observes_isPunct close) (fun _ => .ret has.last) fun _ => ?_
  refine .bind (h env s s') fun x x' hx s₁ s₁' => ?_
  obtain ⟨a, isLast⟩ := x
  obtain ⟨a', isLast'⟩ := x'
  obtain ⟨ha, rfl⟩ : Alike a a' ∧ isLast = isLast' := Prod.mk.inj hx
  dsimp only
  split
  · exact .ret (ha.cons has).last
  · exact .cond (tracks_eat _ env s₁ s₁') (fun _ _ => .ret (ha.cons has).again)
      fun _ _ => .ret (ha.cons has).last

theorem tracks_itemsAfterCommas {first first' : List α} (hfirst : Alike first first')
    {item item' : Parse α} (h : Tracks i item item') :
    Tracks i (itemsAfterCommas first item) (itemsAfterCommas first' item') := by
  intro env s s'
  refine .bind (tracks_repeatFrom (fun as as' has env s s' => ?_) hfirst env s s')
    fun as as' has s₁ s₁' => .ret has.reverse
  refine .cond (tracks_eat _ env s s') (fun s₁ s₁' => ?_) fun _ _ => .ret has.last
  exact .bind (h env s₁ s₁') fun a a' ha s₂ s₂' => .ret (ha.cons has).again

/-! ### Reading again further on -/

/-- Reading again further on, by induction on what is left of the source. -/
theorem tracks_furtherOnWithin {p p' : Parse α → Parse α}
    (h : ∀ q q', Tracks i q q' → Tracks i (p q) (p' q')) (pos : Nat) :
    Tracks i (furtherOnWithin p (i.size - pos))
      (furtherOnWithin p' (i.move i.size - i.move pos)) := by
  induction hroom : i.size - pos using Nat.strongRecOn generalizing pos with
  | ind room ih =>
    subst hroom
    rw [furtherOnWithin, furtherOnWithin]
    refine h _ _ fun env s s' hsize hlooks a s₁ ha => ?_
    rw [hsize] at ha
    split at ha
    · next hlt =>
      obtain ⟨us, hus, hfollow⟩ := ih _ hlt s.current.first.pos rfl env s s' hsize hlooks a s₁ ha
      refine ⟨us, hus, fun ts htwin => ?_⟩
      obtain ⟨a', s₁', ha', h⟩ := hfollow ts htwin
      -- places keep their order when blanks are put in, so less is left on the other side as well
      have hlt' : i.move i.size - i.move s.current.first.pos < i.move i.size - i.move pos := by
        have hpos := (i.move_lt_move_iff (m := pos) (n := s.current.first.pos)).mpr (by omega)
        have hsize := (i.move_lt_move_iff (m := pos) (n := i.size)).mpr (by omega)
        omega
      refine ⟨a', s₁', ?_, h⟩
      show (if i.move i.size - s'.current.first.pos < _ then _ else _) = _
      rw [htwin.pos_eq, if_pos hlt']
      exact ha'
    · exact (Gives.failHere (Q := fun _ _ => False) _ _ ha).elim

theorem tracks_furtherOn {p p' : Parse α → Parse α}
    (h : ∀ q q', Tracks i q q' → Tracks i (p q) (p' q')) :
    Tracks i (furtherOn p) (furtherOn p') := by
  intro env s s' hsize hlooks a s₁ ha
  have ha : furtherOnWithin p (env.size - s.current.first.pos) env s = .ok (a, s₁) := ha
  rw [hsize] at ha
  obtain ⟨us, hus, hfollow⟩ := tracks_furtherOnWithin h _ env s s' hsize hlooks a s₁ ha
  refine ⟨us, hus, fun ts htwin => ?_⟩
  obtain ⟨a', s₁', ha', h⟩ := hfollow ts htwin
  refine ⟨a', s₁', ?_, h⟩
  show furtherOnWithin p' (i.move i.size - s'.current.first.pos) _ _ = _
  rw [htwin.pos_eq]
  exact ha'

end

end

end Parse

end Espalier
