import Espalier.Text.Find
import Espalier.Text.Digit

/-!
# Matches and replacements

A match is a stretch of a subject, with the stretches of the groups inside it. Matches that do not
overlap cut the subject into pieces: `pieces` gives, for every match, its text and the gap in front
of it, and what is left at the end. What stands in place of a match may speak of it: `$&` is the
match, `$` with a grave accent or an apostrophe what lies before or after it, `$1` to `$99` are its
groups and `$$` is the dollar itself.
-/

namespace Espalier.Text

/-- A match: its text, from `start` to `stop`, and the places of its groups. -/
structure Match where
  start : Nat
  stop : Nat
  groups : List (Option (Nat × Nat)) := []
  deriving DecidableEq, Repr, Inhabited

/-- The matches of a plain text. -/
def matchesOf (pat subject : List Char) : List Match :=
  (places pat subject).map fun i => { start := i, stop := i + pat.length }

/-- The text of a match, with the gap between it and the match before. -/
structure Piece where
  gap : List Char
  start : Nat
  text : List Char
  groups : List (Option (List Char))
  deriving DecidableEq, Repr, Inhabited

/-- A subject that has been cut up to a place. -/
structure Cutting where
  pos : Nat
  rest : List Char
  /-- The pieces before, in reverse. -/
  done : List Piece
  deriving Repr, Inhabited

/-- Cuts out one more match. -/
def Cutting.next (c : Cutting) (m : Match) : Cutting :=
  let gap := c.rest.take (m.start - c.pos)
  let here := c.rest.drop (m.start - c.pos)
  let text := here.take (m.stop - m.start)
  let groups := m.groups.map (·.map fun (a, b) => slice text (a - m.start) (b - m.start))
  { pos := m.stop
    rest := here.drop (m.stop - m.start)
    done := ⟨gap, m.start, text, groups⟩ :: c.done }

/-- The pieces of a subject, and what lies after the last match. -/
def pieces (subject : List Char) (ms : List Match) : List Piece × List Char :=
  let c := ms.foldl Cutting.next ⟨0, subject, []⟩
  (c.done.reverse, c.rest)

/-- What lies between the matches, before the first and after the last. -/
def gaps (subject : List Char) (ms : List Match) : List (List Char) :=
  let (ps, rest) := pieces subject ms
  ps.map (·.gap) ++ [rest]

/-- A match with its surroundings. -/
structure Found where
  before : List Char
  text : List Char
  after : List Char
  groups : List (Option (List Char))

/-- The text of a group, counted from one. A group that took no part in the match has none. -/
def Found.group? (f : Found) (i : Nat) : Option (List Char) :=
  if i = 0 then none else (f.groups[i - 1]?).map (·.getD [])

/-- What a replacement stands for at a match. Two digits are read as one number if there is such a
group. -/
def expand (f : Found) : List Char → List Char
  | [] => []
  | '$' :: [] => ['$']
  | '$' :: c :: cs =>
    if c == '$' then '$' :: expand f cs
    else if c == '&' then f.text ++ expand f cs
    else if c == '\x60' then f.before ++ expand f cs
    else if c == '\x27' then f.after ++ expand f cs
    else
      match digitValue? 10 c with
      | none => '$' :: expand f (c :: cs)
      | some i =>
        let single (rest : List Char) : List Char :=
          match f.group? i with
          | some text => text ++ rest
          | none => '$' :: c :: rest
        match cs with
        | [] => single []
        | d :: ds =>
          match (digitValue? 10 d).bind fun j => f.group? (10 * i + j) with
          | some text => text ++ expand f ds
          | none => single (expand f (d :: ds))
  | c :: cs => c :: expand f cs
termination_by cs => cs.length
decreasing_by all_goals (simp only [List.length_cons]; omega)

end Espalier.Text
