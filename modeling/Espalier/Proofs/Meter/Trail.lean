import Espalier.Grammar
import Espalier.Proofs.Grammar.Literal

/-!
# Counting the steps of a parse

A metered grammar reads as the grammar does, but marks each reading that it enters on the trail of
tokens that are left behind, so that the trail is as long as the number of steps: tokens left and
readings entered. It refuses to enter a reading (`SyntaxCause.stalled`) behind as many steps as a
limit allows, and where it might go round in a circle. To tell that, readings have ranks: statements
may hold expressions at the place where they start, and expressions may hold patterns there, but not
the other way round. Between two tokens no more than three readings are entered, which is how a
trail keeps pace with the place in the source (`Paced`).
-/

namespace Espalier

open Token

namespace Parse

/-! ### Marks -/

/-- The mark of a reading that is entered: the end of the source, which is never left behind, with
the rank of the reading as its place. -/
def mark (rank : Nat) : Token := { kind := .eof, span := .empty rank, newlineBefore := false }

/-- The least rank of a reading that may be entered: where no token has been left since the last
mark, it is greater than the rank there. -/
def leastRank : List Token → Nat
  | ⟨.eof, place, _⟩ :: _ => place.start + 1
  | _ => 0

/-- Marks that `p` is entered, unless it may not be entered here or `limit` steps were taken. -/
def entering {α : Type} (limit rank : Nat) (p : Parse α) : Parse α := do
  let s ← get
  if leastRank s.left ≤ rank ∧ s.left.length < limit then
    set { s with left := mark rank :: s.left }
    p
  else failHere .stalled

end Parse

namespace Grammar

open Parse

/-- The grammar whose readings are marked where they are entered. -/
def entered (limit : Nat) (g : Grammar) : Grammar where
  statement := entering limit 0 g.statement
  pattern := entering limit 2 g.pattern
  assignment := entering limit 1 g.assignment
  power := entering limit 1 g.power
  operand := entering limit 1 g.operand
  creation := entering limit 1 g.creation

/-- The grammar that lets `depth` more levels nest and enters its readings within `limit` steps. -/
def metered (limit : Nat) : (depth : Nat) → Grammar
  | 0 => ofDepth 0
  | n + 1 => (metered limit n).around.entered limit

end Grammar

namespace Parse

/-- All statements up to the end of the source, within `limit` steps. -/
def statementsWithin (limit : Nat) : Parse (List Stmt) :=
  itemsUntil Token.Kind.isEof (Grammar.metered limit Grammar.maxDepth).statement

/-- One expression that ends where the source does, within `limit` steps. -/
def wholeExpressionWithin (limit : Nat) : Parse Expr := do
  let e ← (Grammar.metered limit Grammar.maxDepth).expression
  if ← isEof then return e else unexpected

end Parse

/-- Parses a whole source within `limit` steps. -/
def Program.parseWithin (limit : Nat) (source : String) (options : ParserOptions := {}) :
    Except ParseError Program :=
  return {
    body := ← (Parse.statementsWithin limit).run source options
    sourceType := if options.isModule then .module else .script
    span := ⟨0, source.utf8ByteSize⟩ }

namespace Parse

variable {cs : List Char} {k lo : Nat} {st : State} {ts : List Token}

/-- A grammar is entered if its rank and the room that is left allow it. -/
theorem entering_eq {α : Type} (limit rank : Nat) (p : Parse α) (env : Env) (st : State) :
    entering limit rank p env st =
      if leastRank st.left ≤ rank ∧ st.left.length < limit then
        p env { st with left := mark rank :: st.left }
      else failHere .stalled env st := by
  have hget : (get : Parse State) env st = .ok (st, st) := rfl
  unfold entering
  rw [bind_eq hget]
  split <;> rfl

/-- Behind a token with a text, every reading may be entered again. -/
theorem leastRank_cons_of_isSolid {t : Token} (ht : t.kind.IsSolid) :
    leastRank (t :: ts) = 0 := by
  obtain ⟨kind, span, newline⟩ := t
  cases kind with
  | eof => exact ht.elim
  | _ => rfl

theorem leastRank_mark (rank : Nat) : leastRank (mark rank :: ts) = rank + 1 := rfl

/-! ### Trails that keep pace -/

/-- The state with another trail. -/
def State.along (st : State) (ts : List Token) : State := { st with left := ts }

/-- A trail is no longer than the place in the source allows, which is at `lo` or behind it, and
readings of rank `k` may be entered. -/
structure Paced (cs : List Char) (k lo : Nat) (st : State) (ts : List Token) : Prop where
  isIn : st.IsIn cs
  rank_le : leastRank ts ≤ k
  rank_le_three : leastRank ts ≤ 3
  length_le : ts.length ≤ 4 * st.pos + leastRank ts
  le : lo ≤ st.pos

namespace Paced

/-- A rank may grow, and a place may lie further back. -/
theorem mono {k' lo' : Nat} (h : Paced cs k lo st ts) (hk : k ≤ k') (hlo : lo' ≤ lo) :
    Paced cs k' lo' st ts :=
  ⟨h.isIn, Nat.le_trans h.rank_le hk, h.rank_le_three, h.length_le, Nat.le_trans hlo h.le⟩

/-- Where a token has just been left, any reading may be entered. -/
theorem up (h : Paced cs 0 lo st ts) (k : Nat) : Paced cs k lo st ts :=
  h.mono (Nat.zero_le k) (Nat.le_refl lo)

theorem top (h : Paced cs k lo st ts) : Paced cs 3 lo st ts :=
  ⟨h.isIn, h.rank_le_three, h.rank_le_three, h.length_le, h.le⟩

/-- A place may be taken for an earlier one. -/
theorem back (h : Paced cs k (lo + 1) st ts) : Paced cs k lo st ts :=
  h.mono (Nat.le_refl k) (Nat.le_succ lo)

/-- The place itself. -/
theorem here (h : Paced cs k lo st ts) : Paced cs k st.pos st ts :=
  ⟨h.isIn, h.rank_le, h.rank_le_three, h.length_le, Nat.le_refl _⟩

/-- The reader never stands behind the end of the source. -/
theorem pos_le (h : Paced cs k lo st ts) : st.pos ≤ Text.bytes cs := h.isIn.isBorder_pos.le

/-- A token that has a text makes room for all readings that may be entered behind it. -/
theorem next (h : Paced cs k lo st ts) (hk : st.current.token.kind.IsSolid) :
    Paced cs 0 (lo + 1) st.next (st.current.token :: ts) := by
  have hnext := h.isIn.next
  have hpos : st.pos < st.next.pos := Nat.lt_of_lt_of_le (h.isIn.pos_lt_stop hk) hnext.prevEnd_le
  have hrank : leastRank (st.current.token :: ts) = 0 := leastRank_cons_of_isSolid hk
  refine ⟨hnext, Nat.le_of_eq hrank, by omega, ?_, ?_⟩
  · have hlength := h.length_le
    have hthree := h.rank_le_three
    rw [hrank, List.length_cons]
    omega
  · have hle := h.le
    omega

/-- A token that is read again stands where it stood. -/
theorem reread {again : Bool → Cursor → Scanned} (h : Paced cs k lo st ts)
    (hin : (st.reread again).IsIn cs)
    (hfirst : (again st.current.token.newlineBefore st.current.first).first = st.current.first) :
    Paced cs k lo (st.reread again) ts := by
  have hpos : (st.reread again).pos = st.pos := by
    rw [hin.pos_eq, h.isIn.pos_eq]
    exact congrArg Cursor.pos hfirst
  refine ⟨hin, h.rank_le, h.rank_le_three, ?_, ?_⟩
  · rw [hpos]
    exact h.length_le
  · rw [hpos]
    exact h.le

/-- Behind the mark of a reading, only those of greater rank may be entered. -/
theorem mark (h : Paced cs k lo st ts) (hk : k < 3) :
    Paced cs (k + 1) lo st (Parse.mark k :: ts) := by
  have hlength := h.length_le
  have hrank := h.rank_le
  refine ⟨h.isIn, Nat.le_refl _, hk, ?_, h.le⟩
  rw [leastRank_mark, List.length_cons]
  omega

/-- As long as readings may be entered, the steps stay below the limit. -/
theorem length_lt (h : Paced cs k lo st ts) (hk : k < 3) :
    ts.length < 4 * Text.bytes cs + 3 := by
  have hlength := h.length_le
  have hrank := h.rank_le
  have hpos := h.pos_le
  omega

end Paced

end Parse

end Espalier
