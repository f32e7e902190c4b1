import Espalier.Proofs.Grammar.Literal
import Mathlib.Order.Monotone.Basic

/-!
# Twins

Two sources of which one has blanks put into it are read side by side. The states of the two
readings are `Twin`s if they look the same now and at every token that is still to be left, in the
way in which the first reading will leave it. A slash or a closing brace may still be read again,
and only what is left in the end tells whether it will be.
-/

namespace Espalier

open Token

/-- The kinds of tokens that are never read again. -/
def Token.Kind.IsWord : Token.Kind → Prop
  | .name _ | .keyword _ => True
  | _ => False

theorem Token.Kind.isSolid_of_isWord {k : Token.Kind} (h : k.IsWord) : k.IsSolid := by
  cases k with
  | name | keyword => trivial
  | _ => exact h.elim

theorem Token.Kind.isWord_of_isName {k : Token.Kind} {word : String} (h : k.isName word = true) :
    k.IsWord := by
  cases k with
  | name => trivial
  | _ => cases h

theorem Token.Kind.eq_of_isPunct {k : Token.Kind} {p : Punct} (h : k.isPunct p = true) :
    k = .punct p := by
  cases k with
  | punct q => exact congrArg Kind.punct (eq_of_beq h)
  | _ => cases h

namespace Parse

/-! ### Tokens that are left -/

/-- How the current token is read before it is left: as it is, or again from where it starts. -/
inductive Mode
  | plain
  | regex
  | template

/-- The state with its current token read in the given way. -/
def State.as (s : State) : Mode → State
  | .plain => s
  | .regex => s.reread scanRegex
  | .template => s.reread scanTemplate

/-- Whether a token of a kind may be read in the given way. -/
def Mode.Fits : Mode → Kind → Prop
  | .plain, k => k.IsSolid
  | .regex, k => k = .punct .slash ∨ k = .punct .slashAssign
  | .template, k => k = .punct .rightBrace

/-- A token that can be read again has a text. -/
theorem Mode.Fits.isSolid {mode : Mode} {k : Kind} (h : mode.Fits k) : k.IsSolid := by
  cases mode with
  | plain => exact h
  | regex => rcases h with rfl | rfl <;> trivial
  | template =>
    obtain rfl : k = .punct .rightBrace := h
    trivial

/-- A reading gets from one state to another as it leaves the given tokens, all of which have a
text. -/
inductive Leads : State → List Token → State → Prop
  | refl (s : State) : Leads s [] s
  | leave {s s' : State} {ts : List Token} (mode : Mode)
    (hfits : mode.Fits s.current.token.kind)
    (hsolid : (s.as mode).current.token.kind.IsSolid)
    (h : Leads (s.as mode).next ts s') : Leads s ((s.as mode).current.token :: ts) s'

/-- Reading a token again leaves none. -/
theorem State.left_as (s : State) (mode : Mode) : (s.as mode).left = s.left := by
  cases mode <;> rfl

namespace Leads

variable {s s' s₁ : State} {ts us : List Token}

/-- Leaving some tokens and then some more. -/
theorem trans (h : Leads s ts s₁) (h' : Leads s₁ us s') : Leads s (ts ++ us) s' := by
  induction h with
  | refl s => exact h'
  | leave mode hfits hsolid h ih => exact .leave mode hfits hsolid (ih h')

/-- The tokens left are told by the state, the last one first. -/
theorem left_eq (h : Leads s ts s') : s'.left = ts.reverse ++ s.left := by
  induction h with
  | refl s => rfl
  | @leave s s' ts mode hfits hsolid h ih =>
    rw [ih, List.reverse_cons, List.append_assoc]
    show _ ++ (_ :: (s.as mode).left) = _
    rw [s.left_as]
    rfl

/-- The tokens that are left between two states are known. -/
theorem unique (h : Leads s ts s') (h' : Leads s us s') : ts = us := by
  have heq := h.left_eq.symm.trans h'.left_eq
  exact List.reverse_injective (List.append_cancel_right heq)

end Leads

/-- A token that is read again becomes one that it was not. -/
theorem Mode.eq_plain {s : State} {mode : Mode} (hfits : mode.Fits s.current.token.kind)
    (hsolid : (s.as mode).current.token.kind.IsSolid)
    (h : (s.as mode).current.token.kind = s.current.token.kind) : mode = .plain := by
  cases mode with
  | plain => rfl
  | regex =>
    have hplain : (scanRegexBody s.current.first).1.IsPlain := isPlain_scanRegexBody _
    change (scanRegexBody s.current.first).1 = _ at h
    rcases hfits with hk | hk <;> · rw [h, hk] at hplain; exact hplain.elim
  | template =>
    obtain ⟨body, close, -, hend⟩ :=
      reads_scanTemplatePart false [] s.current.first.step.pos s.current.first.step.rest
    change (scanTemplatePart false [] _ _).1 = _ at h
    rw [h, show s.current.token.kind = .punct .rightBrace from hfits] at hend
    exact hend.elim

/-- The token that is left tells how it was read. -/
theorem Mode.eq_of_kind_eq {s : State} {m n : Mode} (hm : m.Fits s.current.token.kind)
    (hn : n.Fits s.current.token.kind) (hsolid : (s.as m).current.token.kind.IsSolid)
    (h : (s.as m).current.token.kind = (s.as n).current.token.kind) : m = n := by
  cases n with
  | plain => exact eq_plain hm hsolid h
  | regex =>
    cases m with
    | plain => exact (eq_plain hn (h ▸ hsolid) h.symm).symm
    | regex => rfl
    | template => rcases hn with hk | hk <;> cases hk.symm.trans hm
  | template =>
    cases m with
    | plain => exact (eq_plain hn (h ▸ hsolid) h.symm).symm
    | regex => rcases hm with hk | hk <;> cases hk.symm.trans hn
    | template => rfl

/-! ### Twins -/

/-- Blanks that are put into a source. -/
structure Insertion where
  /-- The number of bytes of the source. -/
  size : Nat
  /-- Where a place of the source is found after the insertion. -/
  move : Nat → Nat
  strictMono : StrictMono move

namespace Insertion

variable (i : Insertion)

/-- Putting in blanks keeps the order of places. -/
theorem move_lt_move_iff {m n : Nat} : i.move m < i.move n ↔ m < n := i.strictMono.lt_iff_lt

/-- What surrounds the place being read after the insertion. -/
def env (env : Env) : Env := { env with size := i.move i.size }

end Insertion

/-- The current tokens are of one kind, and a line ends in front of both or of none. -/
structure Looks (s s' : State) : Prop where
  kind_eq : s'.current.token.kind = s.current.token.kind
  newline_eq : s'.current.token.newlineBefore = s.current.token.newlineBefore

theorem Looks.refl (s : State) : Looks s s := ⟨rfl, rfl⟩

/-- Two states look the same, the second one behind the blanks that are put in, and so do all states
after them until the given tokens are left and the source ends. -/
inductive Twin (i : Insertion) : List Token → State → State → Prop
  | atEnd {s s' : State} (hlooks : Looks s s')
    (hpos : s'.current.first.pos = i.move s.current.first.pos)
    (hend : s.current.token.kind = .eof) : Twin i [] s s'
  | leave {s s' : State} {ts : List Token} (mode : Mode) (hlooks : Looks s s')
    (hpos : s'.current.first.pos = i.move s.current.first.pos)
    (hfits : mode.Fits s.current.token.kind) (hread : Looks (s.as mode) (s'.as mode))
    (hsolid : (s.as mode).current.token.kind.IsSolid)
    (h : Twin i ts (s.as mode).next (s'.as mode).next) :
    Twin i ((s.as mode).current.token :: ts) s s'

namespace Twin

variable {i : Insertion} {s s' : State} {t : Token} {ts : List Token}

/-- Twins look alike. -/
theorem looks (h : Twin i ts s s') : Looks s s' := by
  cases h <;> assumption

/-- A twin stands where the place was moved to. -/
theorem pos_eq (h : Twin i ts s s') : s'.current.first.pos = i.move s.current.first.pos := by
  cases h <;> assumption

theorem exists_mode (h : Twin i (t :: ts) s s') : ∃ mode : Mode,
    t = (s.as mode).current.token ∧ mode.Fits s.current.token.kind ∧
      (s.as mode).current.token.kind.IsSolid ∧ Looks (s.as mode) (s'.as mode) ∧
        Twin i ts (s.as mode).next (s'.as mode).next := by
  cases h with
  | leave mode hlooks hpos hfits hread hsolid h => exact ⟨mode, rfl, hfits, hsolid, hread, h⟩

/-- Where the current token is left, the states after it are twins. -/
theorem next_as {mode : Mode} (h : Twin i ((s.as mode).current.token :: ts) s s')
    (hfits : mode.Fits s.current.token.kind) :
    Looks (s.as mode) (s'.as mode) ∧ Twin i ts (s.as mode).next (s'.as mode).next := by
  obtain ⟨mode', htoken, hfits', hsolid', hread, hnext⟩ := h.exists_mode
  obtain rfl := Mode.eq_of_kind_eq hfits' hfits hsolid' (congrArg Token.kind htoken.symm)
  exact ⟨hread, hnext⟩

/-- Unless the source ends, there is a token that is still to be left. -/
theorem exists_leaving (h : Twin i ts s s') (hk : s.current.token.kind.IsSolid) :
    ∃ t us, ts = t :: us := by
  cases h with
  | atEnd hlooks hpos hend =>
    rw [hend] at hk
    exact hk.elim
  | leave mode hlooks hpos hfits hread hsolid h => exact ⟨_, _, rfl⟩

/-- A word is left as it is. -/
theorem next_of_isWord (h : Twin i ts s s') (hk : s.current.token.kind.IsWord) :
    Looks s.next s'.next := by
  obtain ⟨t, us, rfl⟩ := h.exists_leaving (Kind.isSolid_of_isWord hk)
  obtain ⟨mode, -, hfits, -, -, hnext⟩ := h.exists_mode
  cases mode with
  | plain => exact hnext.looks
  | regex => rcases hfits with heq | heq <;> · rw [heq] at hk; exact hk.elim
  | template =>
    rw [show s.current.token.kind = .punct .rightBrace from hfits] at hk
    exact hk.elim

end Twin

end Parse

end Espalier
