/-!
# Classes of characters

A class is given by the code points at which membership changes, in ascending order: below the
first no character is in it, from the first to the second all are, and so on. Membership is found
by halving.
-/

namespace Espalier.Text

/-- A set of characters, as the ascending list of code points where membership flips. -/
structure CharClass where
  flips : Array Nat

namespace CharClass

/-- How many of `xs[lo], …, xs[hi - 1]` are at most `c`, added to `lo`, for an ascending `xs`. -/
def countUpTo (xs : Array Nat) (c lo hi : Nat) : Nat :=
  if lo < hi then
    let mid := (lo + hi) / 2
    if xs.getD mid 0 ≤ c then countUpTo xs c (mid + 1) hi else countUpTo xs c lo mid
  else lo
termination_by hi - lo

/-- A character is in the class when an odd number of flips are at or below it. -/
def contains (s : CharClass) (c : Char) : Bool :=
  countUpTo s.flips c.toNat 0 s.flips.size % 2 == 1

end CharClass

end Espalier.Text
