import Espalier.Regex.CharSet

/-!
# Patterns

What a regular expression says, once it has been read: characters, sets, conditions on a place,
repetitions, groups, sequences and choices.
-/

namespace Espalier.Regex

/-- A condition on a place of the subject. -/
inductive Look
  | start
  | stop
  | lineStart
  | lineStop
  | crlfLineStart
  | crlfLineStop
  | wordBoundary
  | noWordBoundary
  | wordStart
  | wordStop
  | wordStartHalf
  | wordStopHalf
  deriving DecidableEq, Repr, Inhabited

/-- A place of the subject: the characters on both sides of it. -/
structure Surroundings where
  before : Option Char
  after : Option Char
  deriving DecidableEq, Repr, Inhabited

/-- Whether a condition holds at a place. -/
def Look.holds (s : Surroundings) : Look → Bool
  | start => s.before.isNone
  | stop => s.after.isNone
  | lineStart => s.before.all (· == '\n')
  | lineStop => s.after.all (· == '\n')
  | crlfLineStart => s.before.all fun c => c == '\n' || (c == '\r' && s.after != some '\n')
  | crlfLineStop => s.after.all fun c => c == '\r' || (c == '\n' && s.before != some '\r')
  | wordBoundary => isWord s.before != isWord s.after
  | noWordBoundary => isWord s.before == isWord s.after
  | wordStart => !isWord s.before && isWord s.after
  | wordStop => isWord s.before && !isWord s.after
  | wordStartHalf => !isWord s.before
  | wordStopHalf => !isWord s.after
where
  /-- Whether there is a character and it belongs to a word. -/
  isWord (c : Option Char) : Bool := c.any CharSet.wordChars.contains

/-- What a regular expression says. -/
inductive Pattern
  | empty
  | char (c : Char)
  | set (s : CharSet)
  | look (l : Look)
  | repetition (least : Nat) (most : Option Nat) (greedy : Bool) (body : Pattern)
  | group (index : Nat) (body : Pattern)
  | concat (parts : List Pattern)
  | choice (branches : List Pattern)
  deriving Repr, Inhabited

namespace Pattern

/-- Patterns one after the other. -/
def ofParts : List Pattern → Pattern
  | [] => empty
  | [p] => p
  | ps => concat ps

/-- One of several patterns, the first preferred. -/
def ofBranches : List Pattern → Pattern
  | [p] => p
  | ps => choice ps

/-- A pattern repeated. -/
def ofRepetition (least : Nat) (most : Option Nat) (greedy : Bool) (body : Pattern) : Pattern :=
  if least = 0 ∧ most = some 0 then empty
  else if least = 1 ∧ most = some 1 then body
  else repetition least most greedy body

mutual

/-- Whether a pattern can match the empty text. -/
def canBeEmpty : Pattern → Bool
  | empty | look _ => true
  | char _ | set _ => false
  | repetition least _ _ body => least == 0 || body.canBeEmpty
  | group _ body => body.canBeEmpty
  | concat ps => allCanBeEmpty ps
  | choice ps => anyCanBeEmpty ps

def allCanBeEmpty : List Pattern → Bool
  | [] => true
  | p :: ps => p.canBeEmpty && allCanBeEmpty ps

def anyCanBeEmpty : List Pattern → Bool
  | [] => false
  | p :: ps => p.canBeEmpty || anyCanBeEmpty ps

end

mutual

/-- How deep a pattern nests. -/
def depth : Pattern → Nat
  | empty | look _ | char _ | set _ => 0
  | repetition _ _ _ body => body.depth + 1
  | group _ body => body.depth + 1
  | concat ps => depthOfAll ps + 1
  | choice ps => depthOfAll ps + 1

def depthOfAll : List Pattern → Nat
  | [] => 0
  | p :: ps => max p.depth (depthOfAll ps)

end

mutual

/-- One more than the greatest index of a group in a pattern, at least one. -/
def groupCount : Pattern → Nat
  | empty | look _ | char _ | set _ => 1
  | repetition _ _ _ body => body.groupCount
  | group index body => max (index + 1) body.groupCount
  | concat ps => groupCountOfAll ps
  | choice ps => groupCountOfAll ps

def groupCountOfAll : List Pattern → Nat
  | [] => 1
  | p :: ps => max p.groupCount (groupCountOfAll ps)

end

end Pattern

end Espalier.Regex
