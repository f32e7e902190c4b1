import Espalier.Proofs.Grammar.Span
import Espalier.Proofs.Spacing.Source
import Espalier.Proofs.Spacing.Statement

/-!
# Blanks between tokens

A program stays the same if spaces and tabs are put behind tokens that were left as its source was
parsed, or at the start of lines between them (`Program.parse_respace`).
-/

namespace Espalier

open Token Text

namespace Parse

variable {α σ : Type} {env : Env} {s : State} {p : Parse α} {source : String}
  {options : ParserOptions}

/-! ### Whole sources -/

/-- What surrounds the start of a source. -/
def Env.initial (source : String) (options : ParserOptions) : Env :=
  { options, size := source.utf8ByteSize, inAsync := options.isModule }

/-- The state in which a source starts to be read. -/
def State.initial (source : String) : State :=
  { current := scan (.ofSource source), prevEnd := 0 }

/-- The tokens that a reader leaves on its way through a source, the first one first. -/
def tokensLeft (p : Parse α) (source : String) (options : ParserOptions) : List Token :=
  match p (.initial source options) (.initial source) with
  | .ok (_, s) => s.left.reverse
  | .error _ => []

/-- A repetition ends with its last round. -/
theorem gives_lastRound {Q : σ → State → Prop} {round : σ → Parse (Round σ)} {a : σ}
    (hround : ∀ a s, Gives (round a) env s fun r s₁ => ∀ b, r = .last b → Q b s₁) :
    Gives (repeatFrom round a) env s Q := by
  intro b s₁ heq
  -- only the round that ends the loop says anything of the result
  induction a, s using repeatFrom.induct round env with
  | case1 a s e hr =>
    rw [repeatFrom, hr] at heq
    cases heq
  | case2 a s b₁ s₂ hr =>
    rw [repeatFrom, hr] at heq
    cases heq
    exact hround a s _ _ hr b rfl
  | case3 a s a₁ s₂ hr hlt ih =>
    rw [repeatFrom, hr] at heq
    dsimp only at heq
    rw [if_pos hlt] at heq
    exact ih heq
  | case4 a s a₁ s₂ hr hlt =>
    rw [repeatFrom, hr] at heq
    dsimp only at heq
    rw [if_neg hlt] at heq
    exact (Gives.failHere (Q := fun _ _ => False) _ _ heq).elim

/-- There is one token for the end. -/
theorem eq_eof_of_isEof {k : Kind} (h : k.isEof = true) : k = .eof := by
  cases k with
  | eof => rfl
  | _ => cases h

/-- Items are read up to a token at which they stop. -/
theorem gives_itemsUntil {stop : Kind → Bool} {item : Parse α} :
    Gives (itemsUntil stop item) env s fun _ s₁ => stop s₁.current.token.kind = true := by
  refine .bind ((gives_lastRound fun items s => .step rfl ?_).mono fun _ _ h => .ret h)
  split
  · next h => exact .ret fun _ _ => h
  · exact .bind fun a s₁ _ => .ret fun _ hr => by cases hr

/-- Every token ends at a border. -/
theorem isBorder_of_leads {cs : List Char} {s s₁ : State} {ts : List Token} {t : Token}
    (h : Leads s ts s₁) (hs : s.IsIn cs) (ht : t ∈ ts) : IsBorder cs t.span.stop := by
  induction h with
  | refl s => cases ht
  | leave mode hfits hsolid h ih =>
    rcases List.mem_cons.mp ht with rfl | ht
    · rw [(hs.as hfits).stop_eq]
      exact (hs.as hfits).reaches_after.isBorder
    · exact ih (hs.as hfits).next ht

/-- A parser gives a result when it does so from the start of the source. -/
theorem run_eq_ok {a : α} : p.run source options = .ok a ↔
    ∃ s, p (.initial source options) (.initial source) = .ok (a, s) := by
  unfold run
  show (match p (.initial source options) (.initial source) with
    | .ok (a, _) => .ok a
    | .error e => .error _) = Except.ok a ↔ _
  cases p (.initial source options) (.initial source) with
  | error e => exact ⟨nofun, fun ⟨s, h⟩ => nomatch h⟩
  | ok x =>
    obtain ⟨a', s⟩ := x
    constructor
    · intro h
      cases h
      exact ⟨s, rfl⟩
    · rintro ⟨s, h⟩
      cases h
      rfl

/-- The tokens left on the way are those told by the run. -/
theorem tokensLeft_eq {a : α} {s : State} {ts : List Token}
    (h : p (.initial source options) (.initial source) = .ok (a, s))
    (hleads : Leads (.initial source) ts s) : p.tokensLeft source options = ts := by
  unfold tokensLeft
  rw [h]
  dsimp only
  rw [hleads.left_eq, List.reverse_append, List.reverse_reverse]
  rfl

/-- The tokens that are left end at borders of characters. -/
theorem isBorder_of_mem_tokensLeft [Bare α] {t : Token} (hp : ∀ i, Tracks i p p)
    (ht : t ∈ p.tokensLeft source options) : IsBorder source.toList t.span.stop := by
  cases heq : p (.initial source options) (.initial source) with
  | error e =>
    unfold tokensLeft at ht
    rw [heq] at ht
    cases ht
  | ok x =>
    obtain ⟨ts, hts, -⟩ :=
      hp ⟨source.utf8ByteSize, id, strictMono_id⟩ _ _ _ rfl (.refl _) x.1 x.2 heq
    rw [tokensLeft_eq heq hts] at ht
    exact isBorder_of_leads hts (isIn_initial source) ht

/-- The environment of a source that was spaced out is that of the new source. -/
theorem env_initial {w : Spacing} {source' : String}
    (hsource' : source'.toList = w.respace 0 source.toList) :
    (Insertion.ofSpacing w source.toList).env (.initial source options) =
      .initial source' options := by
  have hmove : w.move source.toList 0 (bytes source.toList) = source'.utf8ByteSize := by
    have hbytes := w.move_bytes source.toList [] 0
    rw [List.append_nil] at hbytes
    rw [hbytes, ← hsource', bytes_toList]
  exact congrArg (fun size => { options, size, inAsync := options.isModule : Env }) hmove

/-- What reads a whole source reads the same after blanks are put in at places that the tokens
admit. -/
theorem run_respace [Bare α] {w : Spacing} {source' : String} {a : α} (hp : ∀ i, Tracks i p p)
    (hend : ∀ env s, Gives p env s fun _ s₁ => s₁.current.token.kind = .eof)
    (hsource' : source'.toList = w.respace 0 source.toList) (h : p.run source options = .ok a)
    (hplaces : ∀ n, w.blanks n ≠ [] →
      Admits source.toList (p.tokensLeft source options) n) :
    ∃ a', p.run source' options = .ok a' ∧ Alike a a' := by
  obtain ⟨s₁, hs₁⟩ := run_eq_ok.mp h
  have hsize : source.utf8ByteSize = bytes source.toList := (bytes_toList source).symm
  have hs : (State.initial source).IsIn source.toList := isIn_initial source
  have hs' : (State.initial source').IsIn (w.respace 0 source.toList) :=
    hsource' ▸ isIn_initial source'
  -- the parser is run against itself first, to learn which tokens it leaves
  obtain ⟨ts, hts, -⟩ := hp (.ofSpacing w source.toList) _ _ _ hsize (.refl _) a s₁ hs₁
  rw [tokensLeft_eq hs₁ hts] at hplaces
  have heof := hend _ _ a s₁ hs₁
  have hkeeps : w.Keeps (State.initial source).current (State.initial source').current :=
    hts.keeps heof hs (.refl _) rfl hsource' fun n _ => hplaces n
  -- with blanks at these places alone, the new source has the same tokens
  have htwin := twin_of_leads hts heof hs hs' hkeeps fun n _ => hplaces n
  obtain ⟨us, hus, hfollow⟩ := hp (.ofSpacing w source.toList) _ _ _ hsize htwin.looks a s₁ hs₁
  obtain rfl := hts.unique hus
  obtain ⟨a', s₁', ha', halike, -⟩ := hfollow [] (by rwa [List.append_nil])
  refine ⟨a', run_eq_ok.mpr ⟨s₁', ?_⟩, halike⟩
  rw [← env_initial hsource']
  exact ha'

end Parse

namespace Program

variable {source : String} {options : ParserOptions} {p : Program}

theorem tracks_statements (i : Parse.Insertion) :
    Parse.Tracks i Parse.statements Parse.statements :=
  Parse.tracks_itemsUntil _ (Grammar.tracked_ofDepth _).statement

/-- **Blanks between tokens.** Where blanks are put into a source at places that the tokens of its
program admit, the program is the same but for its spans. -/
theorem parse_respace {w : Spacing} {source' : String}
    (hsource' : source'.toList = w.respace 0 source.toList)
    (h : Program.parse source options = .ok p)
    (hplaces : ∀ n, w.blanks n ≠ [] →
      Parse.Admits source.toList (Parse.statements.tokensLeft source options) n) :
    ∃ p', Program.parse source' options = .ok p' ∧ p'.withoutSpans = p.withoutSpans := by
  unfold Program.parse at h
  obtain ⟨body, hbody, h⟩ := exists_of_bind_eq_ok h
  cases h
  -- statements are read up to the end of the source
  have hend (env : Parse.Env) (s : Parse.State) : Parse.statements.Gives env s fun _ s₁ =>
      s₁.current.token.kind = .eof :=
    Parse.gives_itemsUntil.mono fun _ _ h => Parse.eq_eof_of_isEof h
  obtain ⟨body', hbody', halike⟩ :=
    Parse.run_respace tracks_statements hend hsource' hbody hplaces
  refine ⟨⟨body', if options.isModule then .module else .script, ⟨0, source'.utf8ByteSize⟩⟩,
    ?_, ?_⟩
  · unfold Program.parse
    rw [hbody']
    rfl
  · have hbare : stmtsWithoutSpans body' = stmtsWithoutSpans body := by
      rw [stmtsWithoutSpans_eq, stmtsWithoutSpans_eq]
      exact halike.symm
    exact congrArg (Program.mk · _ .forgotten) hbare

end Program

end Espalier
