import Espalier.Source.Position

/-!
# Timers and decorations

A timer lets something happen when nothing has been changed for a while: every change arms it anew,
and it fires once, at the first look at it after its delay. Times are milliseconds. An editor shows
decorations on ranges of its text: every decoration has a number, and no number is used twice.
-/

namespace Espalier

/-- A timer. -/
structure Timer where
  delay : Nat
  /-- When the timer fires, if it is armed. -/
  deadline : Option Nat := none
  /-- How often the timer has been armed. -/
  generation : Nat := 0
  deriving DecidableEq, Repr, Inhabited

namespace Timer

/-- Arms the timer. -/
def schedule (t : Timer) (now : Nat) : Timer :=
  { t with deadline := some (now + t.delay), generation := t.generation + 1 }

def isArmed (t : Timer) : Bool := t.deadline.isSome

/-- Whether the timer fires. -/
def isDue (t : Timer) (now : Nat) : Bool := t.deadline.any (· ≤ now)

/-- Disarms the timer. -/
def disarm (t : Timer) : Timer := { t with deadline := none }

/-- The timer after a look at it, and whether it has fired. -/
def takeDue (t : Timer) (now : Nat) : Timer × Bool :=
  if t.isDue now then (t.disarm, true) else (t, false)

end Timer

/-- The decorations of an editor. -/
structure Host where
  /-- The greatest number so far. -/
  lastId : Nat := 0
  /-- The decorations that are shown, in the order in which they were made. -/
  live : List (Nat × SourceRange) := []
  /-- How often the decorations have been changed. -/
  updates : Nat := 0
  deriving DecidableEq, Repr, Inhabited

namespace Host

/-- The ranges that are decorated. -/
def ranges (h : Host) : List SourceRange := h.live.map (·.2)

/-- Puts decorations on ranges in place of previous ones, and gives their numbers. -/
def setDecorations (h : Host) (previous : List Nat) (ranges : List SourceRange) : Host × List Nat :=
  let added := ranges.zipIdx.map fun (r, i) => (h.lastId + i + 1, r)
  ({ lastId := h.lastId + ranges.length
     live := h.live.filter (fun (id, _) => !previous.contains id) ++ added
     updates := h.updates + 1 },
    added.map (·.1))

end Host

end Espalier
