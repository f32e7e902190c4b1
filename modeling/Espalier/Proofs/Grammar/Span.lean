import Espalier.Highlight
import Espalier.Proofs.Grammar.Statement
import Espalier.Proofs.Source.LineIndex

/-!
# Spans of accepted sources

The statements of an accepted source were read one after the other from its start on, so each fits
into the source, and what is below it fits into it. Hence all nodes have spans between borders of
characters, all of these have ranges, and no node reaches beyond the one that it is below.
-/

namespace Espalier

open Text

variable {source : String} {options : ParserOptions}

namespace Parse

/-- The state in which reading starts. -/
theorem isIn_initial (source : String) :
    State.IsIn source.toList { current := Token.scan (.ofSource source), prevEnd := 0 } :=
  ⟨Token.reaches_scan _, Token.isRead_scan _, isBorder_zero _, Nat.zero_le _⟩

/-- All nodes that are read from a source fit into it. -/
theorem fits_of_run {α : Type} [HasNodes α] {p : Parse α} {a : α} (hp : MayRead source.toList p)
    (h : p.run source options = .ok a) :
    ∀ t ∈ nodes a, t.Fits source.toList 0 source.utf8ByteSize := by
  have hinitial := isIn_initial source
  simp only [run] at h
  split at h
  · next b st heq =>
    cases h
    intro t ht
    rcases hp _ _ hinitial _ _ heq with ⟨-, hnil⟩ | htrail
    · rw [hnil] at ht
      cases ht
    · have hend : st.prevEnd ≤ source.utf8ByteSize := by
        rw [← bytes_toList]
        exact htrail.isIn.isBorder_prevEnd.le
      exact (htrail.fits t ht).widen (Nat.zero_le _) hend
  · cases h

end Parse

/-- The nodes of an accepted source nest. -/
theorem Program.nests_of_parse {p : Program} (h : Program.parse source options = .ok p) :
    p.span = ⟨0, source.utf8ByteSize⟩ ∧ p.tree.Nests source.toList := by
  unfold Program.parse at h
  cases hbody : Parse.statements.run source options with
  | error e =>
    rw [hbody] at h
    cases h
  | ok body =>
    rw [hbody] at h
    cases h
    have hsound : Grammar.full.IsSound source.toList := Grammar.isSound_ofDepth _
    have hfits := Parse.fits_of_run (Parse.mayRead_itemsUntil _ hsound.statement) hbody
    refine ⟨rfl, Nat.zero_le _, isBorder_zero _, ?_, fun c hc => hfits c ?_⟩
    · show IsBorder source.toList source.utf8ByteSize
      rw [← bytes_toList]
      exact isBorder_bytes _
    · simpa [Program.tree, Tree.parts] using hc

/-- The spans of a program that was parsed from an addressable source are stored as they are. -/
theorem Program.isStored_of_parse (hsmall : IsAddressable source) {p : Program}
    (h : Program.parse source options = .ok p) : ∀ t, p.tree.Reaches t → t.span.IsStored := by
  intro t ht
  have hn := (Program.nests_of_parse h).2.of_reaches ht
  have hlength := hn.isBorder_stop.le
  rw [bytes_toList] at hlength
  exact Span.isStored_of_le hsmall hn.start_le hlength

namespace SyntaxTree

variable {ast : SyntaxTree}

end SyntaxTree

end Espalier
